import BootloaderV2.Bench

/-!
# The key

The key that the gateway computes is the one that the bootloader expects, so its flasher unlocks
every server in a programming session.
-/

open RaiseM Buffer

namespace Gateway

/-! ## Words as bytes -/

theorem fromBytes_write32 (v : Word) : fromBytes (BootUds.write32 v) = v.toNat := by
  have hlt := v.isLt
  unfold fromBytes BootUds.write32
  simp only [List.foldl_cons, List.foldl_nil, BitVec.toNat_setWidth, BitVec.toNat_ushiftRight,
    Nat.shiftRight_eq_div_pow]
  omega

theorem toBytes_write32 (v : Word) : toBytes 4 v.toNat = BootUds.write32 v := by
  have hbyte (k : Nat) : BitVec.ofNat 8 (v.toNat / 2 ^ k) = (v >>> k).setWidth 8 := by
    apply BitVec.eq_of_toNat_eq
    rw [BitVec.toNat_ofNat, BitVec.toNat_setWidth, BitVec.toNat_ushiftRight,
      Nat.shiftRight_eq_div_pow]
  have hlast : BitVec.ofNat 8 v.toNat = v.setWidth 8 := by
    apply BitVec.eq_of_toNat_eq
    rw [BitVec.toNat_ofNat, BitVec.toNat_setWidth]
  unfold toBytes BootUds.write32
  rw [← hbyte, ← hbyte, ← hbyte, ← hlast]
  simp [List.range_succ]

/-- Both sides compute the same key. -/
theorem calculateKey_eq (seed : Word) :
    calculateKey seed.toNat = (BootSecurity.expectedKey seed).toNat := by
  -- `& 0xFFFFFFFF` is what a 32-bit word does by itself
  have hmask (n : Nat) : n &&& 0xFFFFFFFF = n % 2 ^ 32 := Nat.and_two_pow_sub_one_eq_mod n 32
  have hvalue : (seed.toNat ^^^ securityXor) % 2 ^ 32 = (seed ^^^ BootSecurity.xorMask).toNat := by
    rw [← Nat.mod_eq_of_lt (seed ^^^ BootSecurity.xorMask).isLt, BitVec.toNat_xor]
    rfl
  unfold calculateKey BootSecurity.expectedKey BootSecurity.rotateLeft
  dsimp only
  rw [hmask (seed.toNat ^^^ securityXor), hvalue, hmask, Nat.or_mod_two_pow, BitVec.toNat_or,
    BitVec.toNat_shiftLeft, BitVec.toNat_ushiftRight]
  congr 1
  apply Nat.mod_eq_of_lt
  exact Nat.lt_of_le_of_lt (Nat.shiftRight_le _ _) (seed ^^^ BootSecurity.xorMask).isLt

/-! ## The server -/

open BootUds (Access Offers processRequest refreshed write32 access_answered)

variable {visits : Nat → Visit} {pace : Rat} {s : Tester Bench} {t : Slot} {b b' : Board}
  {q : List Byte}

/-- A server in a programming session that would start an update of `t` once it is unlocked. -/
structure Opens (t : Slot) (b : Board) : Prop where
  serving : Endures (.serving b)
  session : b.ram.uds.session = 2
  idle : b.ram.programming.downloadActive = false
  target : b.ram.programming.targetSlot = some t
  lifecycle : BootLifecycle.canStartUpdate b.ram.lifecycle b.ram.programming.activeSlot (some t) =
    true
  allowed : BootUpdate.beginAllowed b.ram.update b.ram.programming.activeSlot (some t)
    BootConfig.slotSize = true

/-- The same server, but for the access. -/
structure Alike (b b' : Board) : Prop where
  uds : b'.ram.uds = b.ram.uds
  lifecycle : b'.ram.lifecycle = b.ram.lifecycle
  update : b'.ram.update = b.ram.update
  downloadActive : b'.ram.programming.downloadActive = b.ram.programming.downloadActive
  targetSlot : b'.ram.programming.targetSlot = b.ram.programming.targetSlot
  activeSlot : b'.ram.programming.activeSlot = b.ram.programming.activeSlot
  activeVersion : b'.ram.programming.activeVersion = b.ram.programming.activeVersion

theorem Alike.trans {b₁ : Board} (h : Alike b b₁) (h' : Alike b₁ b') : Alike b b' :=
  ⟨h'.uds.trans h.uds, h'.lifecycle.trans h.lifecycle, h'.update.trans h.update,
    h'.downloadActive.trans h.downloadActive, h'.targetSlot.trans h.targetSlot,
    h'.activeSlot.trans h.activeSlot, h'.activeVersion.trans h.activeVersion⟩

/-- The gate that a request starts with only touches the access. -/
theorem alike_refreshed {b₀ : Board} (h : b₀.ram = b.ram) : Alike b (refreshed b₀) := by
  constructor <;> · rw [← h]; rfl

theorem Opens.alike (h : Opens t b) (ha : Alike b b') (hb : Endures (.serving b')) :
    Opens t b' where
  serving := hb
  session := by rw [ha.uds, h.session]
  idle := by rw [ha.downloadActive, h.idle]
  target := by rw [ha.targetSlot, h.target]
  lifecycle := by rw [ha.lifecycle, ha.activeSlot, h.lifecycle]
  allowed := by rw [ha.update, ha.activeSlot, h.allowed]

theorem Opens.offers (h : Opens t b) (hu : b.ram.security.unlocked = true) : Offers t b :=
  ⟨⟨h.session, hu⟩, h.idle, h.target, h.lifecycle, h.allowed⟩

/-- Turns of the main loop do nothing while nothing is downloaded. -/
theorem ticks_idle {es : List Turn} (h : Endures (.serving b))
    (hidle : b.ram.programming.downloadActive = false) (hfair : ∀ e ∈ es, e.Fair) :
    ∃ b', Bench.ticks es b = some b' ∧ b'.ram = b.ram ∧ Endures (.serving b') := by
  induction es generalizing b with
  | nil => exact ⟨b, rfl, rfl, h⟩
  | cons e es ih =>
    have he : e.Fair := hfair e List.mem_cons_self
    have hrun : BootUds.mainFunction (e.on b) = .done () (e.on b) := BootUds.mainFunction_idle hidle
    have h₁ : Endures (.serving (e.on b)) :=
      h.serve .tick e he.calm.sound (by simp) (Activity.tick_done hrun)
    obtain ⟨b', hticks, hram, hend⟩ := ih h₁ hidle fun e he => hfair e (List.mem_cons_of_mem _ he)
    refine ⟨b', ?_, hram, hend⟩
    unfold Bench.ticks
    rw [hrun]
    exact hticks

/-- A request of service 27 is answered, whatever turns the main loop takes before it. -/
theorem Opens.answer {v : Visit} (h : Opens t b) (hv : v.Fair pace) (hhead : q.headD 0 = 0x27)
    (hq : ¬ (q.length = 0 ∨ BootIsoTp.maxPduLength < q.length)) : ∃ ans b₁ b',
    b₁.ram.uds = b.ram.uds ∧ b₁.ram.security = b.ram.security ∧ Alike b b₁ ∧
      Access q b₁ ans b' ∧
      Bench.answer v q b = some (BootUds.respond 0x27 ans, b') ∧ Endures (.serving b') := by
  obtain ⟨b₀, hticks, hram, h₀⟩ := ticks_idle h.serving h.idle hv.before
  obtain ⟨ans, b', hrun, haccess⟩ := access_answered (b := v.turn.on b₀) (hv.turn.healthy b₀).2
    hhead hq
  have h' : Endures (.serving b') :=
    h₀.serve (.request q) v.turn hv.turn.calm.sound (by simp) (Activity.request_done hrun)
  have hram' : (v.turn.on b₀).ram = b.ram := hram
  have halike := alike_refreshed hram'
  refine ⟨ans, refreshed (v.turn.on b₀), b', halike.uds, ?_, halike, haccess, ?_, h'⟩
  · rw [← hram']
    rfl
  · unfold Bench.answer
    rw [hticks]
    dsimp only
    rw [hrun]

/-! ## The client -/

variable (hpace : 0 ≤ pace) (hv : ∀ n, (visits n).Fair pace)

include hpace hv

namespace UdsClient

theorem returns_securitySeed (h : Facing pace (Opens t) s) :
    Returns (securitySeed (Bench.transport visits pace)) (fun seed s' =>
      Facing pace (Opens t) s' ∧ Alike s.link.board s'.link.board ∧
        s'.link.board.ram.security.seedIssued = true ∧
        seed = s'.link.board.ram.security.seed.toNat) s := by
  obtain ⟨ans, b₁, b', huds, -, halike, haccess, hanswer, hend⟩ :=
    h.board.answer (q := [0x27, 1]) (hv s.link.asked) rfl (by decide)
  have hsession : b₁.ram.uds.session = 2 := by rw [huds, h.board.session]
  unfold securitySeed
  -- in a programming session a seed is never refused
  cases haccess with
  | refused hnrc hwhy => exact absurd ⟨rfl, rfl⟩ (hwhy hsession).1
  | accepted hs hlen => exact absurd hlen (by decide)
  | rejected hs hlen => exact absurd hlen (by decide)
  | seeded hs hlen hsub =>
    rename_i seed nonce
    have hsame : Alike s.link.board (BootUds.secured b₁ ⟨seed, true, false, nonce⟩) :=
      halike.trans ⟨rfl, rfl, rfl, rfl, rfl, rfl, rfl⟩
    refine (returns_answer hpace h.waits (hv s.link.asked) hanswer rfl rfl).bind ?_
    rintro _ s' ⟨rfl, hs', hwait⟩
    rw [← hs'] at hsame hend
    refine .ite_neg ?_ (.pure ⟨⟨h.board.alike hsame hend, hwait⟩, hsame, ?_, ?_⟩)
    · rintro (hlength | hsub')
      · exact hlength rfl
      · exact hsub' rfl
    · rw [hs']
      rfl
    · rw [hs']
      exact fromBytes_write32 seed

theorem returns_securityKey {key : Nat} (h : Facing pace (Opens t) s)
    (hissued : s.link.board.ram.security.seedIssued = true)
    (hkey : key = (BootSecurity.expectedKey s.link.board.ram.security.seed).toNat) :
    Returns (securityKey (Bench.transport visits pace) key) (fun _ s' =>
      Facing pace (Opens t) s' ∧ Alike s.link.board s'.link.board ∧
        s'.link.board.ram.security.unlocked = true) s := by
  have hq : [sidSecurityAccess, 0x02] ++ toBytes 4 key =
      [0x27, 2] ++ write32 (BootSecurity.expectedKey s.link.board.ram.security.seed) := by
    rw [hkey, toBytes_write32]
    rfl
  have hlength : ([0x27, 2] ++ write32 (BootSecurity.expectedKey
      s.link.board.ram.security.seed)).length = 6 := rfl
  obtain ⟨ans, b₁, b', huds, hsecurity, halike, haccess, hanswer, hend⟩ :=
    h.board.answer (q := [0x27, 2] ++ write32 (BootSecurity.expectedKey s.link.board.ram.security.seed))
      (hv s.link.asked) rfl (by rw [hlength]; decide)
  have hsession : b₁.ram.uds.session = 2 := by rw [huds, h.board.session]
  unfold securityKey
  rw [hq]
  cases haccess with
  | refused hnrc hwhy => exact absurd ⟨rfl, rfl⟩ (hwhy hsession).2
  | seeded hs hlen => exact absurd (hlength.symm.trans hlen) (by decide)
  | rejected hs hlen hsub hwrong =>
    rw [hsecurity] at hwrong
    rcases hwrong with hwrong | hwrong
    · exact absurd (hissued.symm.trans hwrong) (by decide)
    · exact absurd (BootUds.read32_write32 _) hwrong
  | accepted hs hlen hsub =>
    have hsame : Alike s.link.board (BootUds.secured b₁
        { b₁.ram.security with seedIssued := false, unlocked := true }) :=
      halike.trans ⟨rfl, rfl, rfl, rfl, rfl, rfl, rfl⟩
    refine (returns_answer hpace h.waits (hv s.link.asked) hanswer rfl rfl).bind ?_
    rintro _ s' ⟨rfl, hs', hwait⟩
    rw [← hs'] at hsame hend
    refine .ite_neg (fun hno => hno rfl) (.pure ⟨⟨h.board.alike hsame hend, hwait⟩, hsame, ?_⟩)
    rw [hs']
    rfl

end UdsClient

namespace V2UdsFlasher

open Gateway.UdsClient

theorem returns_securityAccess (h : Facing pace (Opens t) s) :
    Returns (securityAccess (Bench.transport visits pace) .plain) (fun _ s' =>
      Facing pace (fun b => Endures (.serving b) ∧ Offers t b ∧ Alike s.link.board b) s') s := by
  unfold securityAccess
  refine .ite_pos rfl ((returns_securitySeed hpace hv h).bind ?_)
  rintro seed s₁ ⟨h₁, halike₁, hissued, hseed⟩
  refine (returns_securityKey hpace hv h₁ hissued ?_).bind ?_
  · rw [hseed, calculateKey_eq]
  · rintro _ s₂ ⟨h₂, halike₂, hunlocked⟩
    exact .pure ⟨⟨h₂.board.serving, h₂.board.offers hunlocked, halike₁.trans halike₂⟩, h₂.waits⟩

/-- The flasher unlocks the server, and then it offers the update. -/
theorem securityAccess_unlocks (hwait : pace ≤ s.p2StarSeconds) (h : Opens t s.link.board) : ∃ s',
    securityAccess (Bench.transport visits pace) .plain s = some (.ok (), s') ∧
      Endures (.serving s'.link.board) ∧ Offers t s'.link.board ∧
      Alike s.link.board s'.link.board := by
  obtain ⟨_, s', hrun, hend⟩ := returns_securityAccess hpace hv ⟨h, hwait⟩
  exact ⟨s', hrun, hend.board⟩

omit hpace hv

theorem securityAccess_unlocks_first : ∃ b s', Opens .b b ∧
    securityAccess (Bench.transport (fun _ => patientVisit) 1) .plain
      ⟨⟨b, 0, [], 0⟩, 5, .securityAccess, []⟩ = some (.ok (), s') ∧
    Endures (.serving s'.link.board) ∧ Offers .b s'.link.board ∧ Alike b s'.link.board := by
  obtain ⟨b, hb, ho, -, -⟩ := exists_updatable
  have hopens : Opens .b b :=
    ⟨hb, ho.authorised.1, ho.idle, ho.target, ho.lifecycle, ho.allowed⟩
  obtain ⟨s', hend⟩ := securityAccess_unlocks (s := ⟨⟨b, 0, [], 0⟩, 5, .securityAccess, []⟩)
    zero_le_one (fun _ => fair_patientVisit) (by norm_num) hopens
  exact ⟨b, s', hopens, hend⟩

end V2UdsFlasher

end Gateway
