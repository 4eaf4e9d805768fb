import BootloaderV2.Server
import BootloaderV2.UdsSpec

/-!
# Authorisation over whole sessions

The transcript of a run tells whether the server is unlocked: the last key accepted answers the last
seed issued, and nothing has taken either back since.  Until then no request writes to a slot,
initialises the journal or resets the ECU.
-/

open BootConfig NorFlash CrashM TwoCopy

open BootJournal (Keeping)

namespace Exchange

open BootUds (read32 write32 negative)

/-- A session request that is accepted. -/
def OpensSession (x : Exchange) : Prop :=
  x.request.headD 0 = 0x10 ∧ ∃ rest, x.response = some (0x50 :: rest)

/-- A request for a seed that is answered with `seed`. -/
def IssuesSeed (x : Exchange) (seed : Word) : Prop :=
  x.request.headD 0 = 0x27 ∧ x.request.length = 2 ∧ x.request.getD 1 0 = 1 ∧
    x.response = some ([0x67, 1] ++ write32 seed)

/-- A key that is accepted. -/
def AcceptsKey (x : Exchange) : Prop :=
  x.request.headD 0 = 0x27 ∧ x.response = some [0x67, 2]

/-- A key that is rejected. -/
def RejectsKey (x : Exchange) : Prop :=
  x.request.headD 0 = 0x27 ∧ x.response = some (negative 0x27 0x35)

/-- The request carries the key that belongs to `seed`. -/
def CarriesKey (x : Exchange) (seed : Word) : Prop :=
  x.request.length = 6 ∧ x.request.getD 1 0 = 2 ∧
    read32 (x.request.drop 2) = BootSecurity.expectedKey seed

/-- An exchange after which an earlier seed or key counts no more. -/
def Disturbs (x : Exchange) : Prop :=
  x.OpensSession ∨ (∃ seed, x.IssuesSeed seed) ∨ x.AcceptsKey ∨ x.RejectsKey

theorem not_disturbs_of_head {x : Exchange} (hs : x.request.headD 0 ≠ 0x10)
    (ha : x.request.headD 0 ≠ 0x27) : ¬ x.Disturbs := by
  rintro (h | ⟨seed, h⟩ | h | h)
  · exact hs h.1
  · exact ha h.1
  · exact ha h.1
  · exact ha h.1

theorem not_disturbs_of_none {x : Exchange} (h : x.response = none) : ¬ x.Disturbs := by
  rintro (⟨-, rest, hr⟩ | ⟨seed, -, -, -, hr⟩ | ⟨-, hr⟩ | ⟨-, hr⟩) <;> rw [h] at hr <;> cases hr

/-- A negative response other than that to a rejected key changes nothing. -/
theorem not_disturbs_of_negative {x : Exchange} {sid nrc : Byte}
    (h : x.response = some (negative sid nrc)) (hnrc : nrc ≠ 0x35) : ¬ x.Disturbs := by
  have hne : ∀ {a : Byte} {rest : List Byte}, a ≠ 0x7F → x.response ≠ some (a :: rest) := by
    intro a rest ha hr
    rw [h] at hr
    exact ha (List.cons.inj (Option.some.inj hr)).1.symm
  rintro (⟨-, rest, hr⟩ | ⟨seed, -, -, -, hr⟩ | ⟨-, hr⟩ | ⟨-, hr⟩)
  · exact hne (by decide) hr
  · exact hne (by decide) hr
  · exact hne (by decide) hr
  · rw [h] at hr
    exact hnrc (List.cons.inj (List.cons.inj (List.cons.inj (Option.some.inj hr)).2).2).1

end Exchange

/-- `seed` is the last seed issued in the transcript, and no key has been tried and no session
    opened since. -/
def Pending (seed : Word) (t : List Exchange) : Prop :=
  ∃ t₁ x t₂, t = t₁ ++ x :: t₂ ∧ x.IssuesSeed seed ∧ ∀ y ∈ t₂, ¬ y.Disturbs

/-- The last key of the transcript was accepted for the seed pending then, and neither a session
    request was accepted nor a seed issued nor a key rejected since. -/
def Granted (t : List Exchange) : Prop :=
  ∃ t₁ x t₂ seed, t = t₁ ++ x :: t₂ ∧ Pending seed t₁ ∧ x.CarriesKey seed ∧ x.AcceptsKey ∧
    ∀ y ∈ t₂, ¬ y.Disturbs

theorem Pending.append {seed : Word} {t : List Exchange} {x : Exchange} (h : Pending seed t)
    (hx : ¬ x.Disturbs) : Pending seed (t ++ [x]) := by
  obtain ⟨t₁, y, t₂, rfl, hy, hquiet⟩ := h
  refine ⟨t₁, y, t₂ ++ [x], by simp, hy, fun z hz => ?_⟩
  rcases List.mem_append.1 hz with hz | hz
  · exact hquiet z hz
  · rwa [List.mem_singleton.1 hz]

theorem Granted.append {t : List Exchange} {x : Exchange} (h : Granted t) (hx : ¬ x.Disturbs) :
    Granted (t ++ [x]) := by
  obtain ⟨t₁, y, t₂, seed, rfl, hp, hkey, hy, hquiet⟩ := h
  refine ⟨t₁, y, t₂ ++ [x], seed, by simp, hp, hkey, hy, fun z hz => ?_⟩
  rcases List.mem_append.1 hz with hz | hz
  · exact hquiet z hz
  · rwa [List.mem_singleton.1 hz]

/-- The transcript accounts for the access the server grants. -/
structure Accounted (t : List Exchange) (b : Board) : Prop where
  pending : b.ram.security.seedIssued = true → Pending b.ram.security.seed t
  granted : b.ram.security.unlocked = true → b.ram.uds.session = 2 ∧ Granted t
  once : ∀ t₁ x t₂, t = t₁ ++ x :: t₂ → x.AcceptsKey →
    ∃ seed, Pending seed t₁ ∧ x.CarriesKey seed

namespace Accounted

variable {t : List Exchange} {x : Exchange} {b b' : Board}

/-- The keys accepted in a transcript with one more exchange. -/
theorem once_append (h : Accounted t b)
    (hx : x.AcceptsKey → ∃ seed, Pending seed t ∧ x.CarriesKey seed) :
    ∀ t₁ y t₂, t ++ [x] = t₁ ++ y :: t₂ → y.AcceptsKey →
      ∃ seed, Pending seed t₁ ∧ y.CarriesKey seed := by
  intro t₁ y t₂ ht hy
  rcases List.eq_nil_or_concat t₂ with rfl | ⟨t₃, z, rfl⟩
  · obtain ⟨rfl, hlast⟩ := List.append_inj' ht rfl
    cases hlast
    exact hx hy
  · have hcons : t ++ [x] = (t₁ ++ y :: t₃) ++ [z] := by simpa using ht
    obtain ⟨rfl, -⟩ := List.append_inj' hcons rfl
    exact h.once t₁ y t₃ rfl hy

/-- An exchange that does not disturb, on a server that stays as it is. -/
theorem quiet (h : Accounted t b) (hx : ¬ x.Disturbs) (hs : b'.ram.uds.session = b.ram.uds.session)
    (hsec : b'.ram.security = b.ram.security) : Accounted (t ++ [x]) b' := by
  refine ⟨?_, ?_, h.once_append fun hk => absurd (.inr (.inr (.inl hk))) hx⟩ <;> rw [hsec]
  · exact fun hi => (h.pending hi).append hx
  · rw [hs]
    exact fun hu => ⟨(h.granted hu).1, (h.granted hu).2.append hx⟩

theorem congr (h : Accounted t b) (hs : b'.ram.uds.session = b.ram.uds.session)
    (hsec : b'.ram.security = b.ram.security) : Accounted t b' := by
  refine ⟨?_, ?_, h.once⟩ <;> rw [hsec]
  · exact h.pending
  · rw [hs]
    exact h.granted

/-- A server that has just been locked, with no seed issued. -/
theorem locked (h : Accounted t b) (hu : b'.ram.security.unlocked = false)
    (hi : b'.ram.security.seedIssued = false) (hx : ¬ x.AcceptsKey) : Accounted (t ++ [x]) b' := by
  refine ⟨fun h' => ?_, fun h' => ?_, h.once_append fun hk => absurd hk hx⟩
  · exact absurd (hi.symm.trans h') (by decide)
  · exact absurd (hu.symm.trans h') (by decide)

open BootUds in
/-- One request. -/
theorem request {q : List Byte} {r : Option (List Byte)} (h : Accounted t b)
    (hstep : (r = none ∧ b' = b) ∨ ∃ ans, r = some (respond (q.headD 0) ans) ∧
      Gate q (refreshed b) ans b') : Accounted (t ++ [⟨q, r⟩]) b' := by
  rcases hstep with ⟨rfl, rfl⟩ | ⟨ans, rfl, hgate⟩
  · exact h.quiet (Exchange.not_disturbs_of_none rfl) rfl rfl
  by_cases h10 : q.headD 0 = 0x10
  · rcases hgate.session h10 with ⟨⟨nrc, rfl⟩, rfl⟩ | ⟨⟨s, rest, rfl⟩, -, hu, hi, -⟩
    · refine h.quiet ?_ rfl rfl
      -- a refused session request is no key, whatever its code
      rintro (⟨-, rest, hr⟩ | ⟨seed, hh, -⟩ | ⟨hh, -⟩ | ⟨hh, -⟩)
      · exact absurd (List.cons.inj (Option.some.inj hr)).1 (by decide)
      all_goals exact absurd (h10.symm.trans hh) (by decide)
    · exact h.locked hu hi fun hk => absurd (h10.symm.trans hk.1) (by decide)
  by_cases h27 : q.headD 0 = 0x27
  · cases hgate.access h27 with
    | refused hnrc _ => exact h.quiet (Exchange.not_disturbs_of_negative rfl hnrc) rfl rfl
    | @seeded seed nonce hs hlen hsub =>
      refine ⟨fun _ => ⟨t, _, [], rfl, ⟨h27, hlen, hsub, rfl⟩, fun y hy => (by cases hy)⟩,
        fun hu => (by cases hu), h.once_append fun hk => ?_⟩
      exact absurd (List.cons.inj (List.cons.inj (Option.some.inj hk.2)).2).1 (by decide)
    | accepted hs hlen hsub hissued hkey =>
      have hpending := h.pending hissued
      refine ⟨fun hi => (by cases hi), fun _ => ⟨hs, t, _, [], _, rfl, hpending,
        ⟨hlen, hsub, hkey⟩, ⟨h27, rfl⟩, fun y hy => (by cases hy)⟩, h.once_append fun _ => ?_⟩
      exact ⟨_, hpending, hlen, hsub, hkey⟩
    | rejected hs hlen hsub hkey =>
      refine h.locked rfl rfl fun hk => ?_
      exact absurd (List.cons.inj (Option.some.inj hk.2)).1 (by decide)
  have hquiet : ¬ Exchange.Disturbs ⟨q, some (respond (q.headD 0) ans)⟩ :=
    Exchange.not_disturbs_of_head h10 h27
  by_cases h11 : q.headD 0 = 0x11
  · rcases hgate.reset h11 with ⟨-, rfl⟩ | ⟨-, -, -, rfl⟩
    · exact h.quiet hquiet rfl rfl
    · exact h.quiet hquiet rfl rfl
  · have hsame := hgate.rest h10 h27 h11
    exact h.quiet hquiet hsame.session hsame.security

end Accounted

/-- The transcript of a run accounts for the access the server grants. -/
theorem Reaches.accounted {b₀ b : Board} {t : List Exchange} (h : Reaches b₀ t b) :
    Accounted t b := by
  induction h with
  | start h =>
    cases h
    refine ⟨fun h => (by cases h), fun h => (by cases h), fun t₁ x t₂ ht => ?_⟩
    exact absurd ht (by simp)
  | request e hb hq ih =>
    have hrequest := (BootUds.issues_request (e.inStep hb.inStep)).of_done hq
    have hturn : Accounted _ (e.on _) := ih.congr rfl rfl
    exact hturn.request hrequest.2
  | tick e hb htick ih =>
    have hgate := ((BootUds.issues_mainFunction (e.inStep hb.inStep)).of_done htick).2
    exact ih.congr hgate.session hgate.security

/-! ## What an unauthorised tester can do -/

namespace BootProgramming

variable {b : Board}

theorem accessCheck_ne_zero (hb : Synced b) (h : ¬ Authorised b) : accessCheck b.ram ≠ 0 := by
  intro hacc
  unfold accessCheck at hacc
  split at hacc
  · exact absurd hacc (by decide)
  rename_i hs
  split at hacc
  · exact absurd hacc (by decide)
  rename_i hu
  refine h ⟨?_, ?_⟩
  · rw [hb.session] at hs
    simpa using hs
  · rw [hb.unlocked] at hu
    simpa using hu

/-- The operations of the server begin with the access check. -/
theorem issues_of_refused {f : Ram → BootM Byte} (h : accessCheck b.ram ≠ 0) :
    Issues Nothing (do
      let ram ← BootM.getRam
      if accessCheck ram ≠ 0 then return accessCheck ram else f ram)
      (fun r b' => r ≠ 0 ∧ b' = b) b := by
  rw [Issues.bind_getRam, if_pos h]
  exact .pure ⟨h, rfl⟩

end BootProgramming

namespace BootUds

variable {b : Board} {q : List Byte}

/-- A refused service: a negative response and no change but to the timer of the download. -/
def Refused (b : Board) (ans : Answer) (b' : Board) : Prop :=
  (∃ nrc, ans = .error nrc) ∧ b'.ram.uds.resetPending = b.ram.uds.resetPending

theorem Refused.same {nrc : Byte} : Refused b (.error nrc) b := ⟨⟨nrc, rfl⟩, rfl⟩

theorem issues_answer_refused {m : BootM Byte} {response : List Byte}
    (h : Issues Nothing m (fun r b' => r ≠ 0 ∧ b' = b) b) :
    Issues Nothing (do return answer (← m) response) (Refused b) b := by
  refine h.bind ?_
  rintro r b' ⟨hr, rfl⟩
  refine .pure ⟨⟨r, ?_⟩, rfl⟩
  unfold answer
  rw [if_neg hr]

theorem issues_commission_refused (h : ¬ Authorised b) :
    Issues Nothing (commission q) (fun r b' => r ≠ 0 ∧ b' = b) b := by
  unfold commission
  rw [Issues.bind_getRam]
  refine .ite (fun _ => .pure ⟨by decide, rfl⟩) fun _ =>
    .ite (fun _ => .pure ⟨by decide, rfl⟩) fun hs =>
    .ite (fun _ => .pure ⟨by decide, rfl⟩) fun hu => ?_
  exact absurd ⟨not_not.1 hs, by simpa using hu⟩ h

theorem issues_routineControl_refused (hb : Synced b) (h : ¬ Authorised b) :
    Issues Nothing (routineControl q) (Refused b) b := by
  have hacc := BootProgramming.accessCheck_ne_zero hb h
  unfold routineControl
  refine .ite (fun _ => .pure .same) fun _ => .ite (fun _ => .pure .same) fun _ => ?_
  dsimp only
  refine .ite (fun _ => ?_) fun _ => .ite (fun _ => ?_) fun _ => .ite (fun _ => ?_)
    fun _ => .pure .same
  · exact .ite (fun _ => .pure .same) fun _ => issues_answer_refused
      (BootProgramming.issues_of_refused hacc)
  · exact .ite (fun _ => .pure .same) fun _ => issues_answer_refused
      (BootProgramming.issues_of_refused hacc)
  · exact issues_answer_refused (issues_commission_refused h)

theorem issues_requestDownload_refused (hb : Synced b) (h : ¬ Authorised b) :
    Issues Nothing (requestDownload q) (Refused b) b := by
  unfold requestDownload
  refine .ite (fun _ => .pure .same) fun _ => .ite (fun _ => .pure .same) fun _ => ?_
  refine Issues.bind (BootProgramming.issues_of_refused
    (BootProgramming.accessCheck_ne_zero hb h)) ?_
  rintro r b' ⟨hr, rfl⟩
  rw [Issues.bind_setUds]
  refine .pure ⟨⟨r, ?_⟩, rfl⟩
  unfold answer
  rw [if_neg hr]

theorem issues_transferData_refused (hb : Synced b) (h : ¬ Authorised b) :
    Issues Nothing (transferData q) (Refused b) b := by
  unfold transferData
  refine .ite (fun _ => .pure .same) fun _ => ?_
  refine Issues.bind (BootProgramming.issues_of_refused
    (BootProgramming.accessCheck_ne_zero hb h)) ?_
  rintro r b' ⟨hr, rfl⟩
  rw [if_neg hr]
  exact .pure .same

theorem issues_transferExit_refused (hb : Synced b) (h : ¬ Authorised b) :
    Issues Nothing (transferExit q) (Refused b) b := by
  unfold transferExit
  exact .ite (fun _ => .pure .same) fun _ => issues_answer_refused
    (BootProgramming.issues_of_refused (BootProgramming.accessCheck_ne_zero hb h))

theorem issues_ecuReset_refused (h : ¬ Authorised b) :
    Issues Nothing (ecuReset q) (Refused b) b := by
  refine issues_ecuReset.mono ?_
  rintro ans b' (⟨hans, rfl⟩ | ⟨-, hauth, -⟩)
  · exact ⟨hans, rfl⟩
  · exact absurd hauth h

/-- The services that need authorisation. -/
def Guarded (sid : Byte) : Prop :=
  sid = 0x31 ∨ sid = 0x34 ∨ sid = 0x36 ∨ sid = 0x37 ∨ sid = 0x11

instance : DecidablePred Guarded := fun sid =>
  inferInstanceAs (Decidable (sid = 0x31 ∨ sid = 0x34 ∨ sid = 0x36 ∨ sid = 0x37 ∨ sid = 0x11))

/-- Without authorisation only a session request issues commands, to end a transaction, and the
    guarded services are refused. -/
theorem issues_service_unauthorised (hb : Synced b) (h : ¬ Authorised b) :
    Issues (fun c m m' => q.headD 0 = 0x10 ∧ Keeping c m m') (service (q.headD 0) q)
      (fun ans b' => (Guarded (q.headD 0) → ∃ nrc, ans = .error nrc) ∧
        b'.ram.uds.resetPending = b.ram.uds.resetPending) b := by
  have hrefused : ∀ {m : BootM Answer}, Issues Nothing m (Refused b) b →
      Issues (fun c m m' => q.headD 0 = 0x10 ∧ Keeping c m m') m
        (fun ans b' => (Guarded (q.headD 0) → ∃ nrc, ans = .error nrc) ∧
          b'.ram.uds.resetPending = b.ram.uds.resetPending) b :=
    fun hm => hm.of_nothing.mono fun _ _ hr => ⟨fun _ => hr.1, hr.2⟩
  have hunguarded : ∀ {sid : Byte} {ans : Answer}, ¬ Guarded sid → q.headD 0 = sid →
      Guarded (q.headD 0) → ∃ nrc, ans = .error nrc := by
    rintro sid ans hno rfl hg
    exact absurd hg hno
  unfold service
  refine .ite (fun hsid => ?_) fun _ => .ite (fun hsid => ?_) fun _ =>
    .ite (fun hsid => ?_) fun _ => .ite (fun _ => ?_) fun h31 => .ite (fun _ => ?_) fun h34 =>
    .ite (fun _ => ?_) fun h36 => .ite (fun _ => ?_) fun h37 => .ite (fun _ => ?_) fun h11 =>
    .ite (fun hsid => ?_) fun _ => ?_
  · refine (issues_sessionControl.weaken fun _ _ _ hc => ⟨hsid, hc⟩).mono ?_
    rintro ans b' (⟨-, rfl⟩ | ⟨-, -, -, -, -, hreset⟩)
    · exact ⟨hunguarded (by decide) hsid, rfl⟩
    · exact ⟨hunguarded (by decide) hsid, hreset⟩
  · exact (issues_securityAccess hb).of_nothing.mono fun ans b' ha =>
      ⟨hunguarded (by decide) hsid, ha.sameRest.resetPending⟩
  · refine issues_readData.of_nothing.mono ?_
    rintro ans b' ⟨-, -, hserver, -⟩
    exact ⟨hunguarded (by decide) hsid, by rw [hserver.uds]⟩
  · exact hrefused (issues_routineControl_refused hb h)
  · exact hrefused (issues_requestDownload_refused hb h)
  · exact hrefused (issues_transferData_refused hb h)
  · exact hrefused (issues_transferExit_refused hb h)
  · exact hrefused (issues_ecuReset_refused h)
  · refine issues_testerPresent.of_nothing.mono ?_
    rintro ans b' rfl
    exact ⟨hunguarded (by decide) hsid, rfl⟩
  · refine .pure ⟨fun hg => ?_, rfl⟩
    rcases hg with hg | hg | hg | hg | hg
    · exact absurd hg h31
    · exact absurd hg h34
    · exact absurd hg h36
    · exact absurd hg h37
    · exact absurd hg h11

/-- How a request ends after its service. -/
def finish (sid : Byte) : Outcome Board Answer → Outcome Board (Option (List Byte))
  | .done ans b => .done (some (respond sid ans)) b
  | .cut b => .cut b

/-- A request that is not dropped is its service on the refreshed board. -/
theorem processRequest_run (hq : ¬ (q.length = 0 ∨ BootIsoTp.maxPduLength < q.length)) :
    processRequest q b = (do
      match ← service (q.headD 0) q with
      | .ok response => return some response
      | .error nrc => return some (negative (q.headD 0) nrc) : BootM (Option (List Byte)))
      (refreshed b) := by
  unfold processRequest
  rw [if_neg hq]
  rfl

theorem processRequest_eq (hq : ¬ (q.length = 0 ∨ BootIsoTp.maxPduLength < q.length)) :
    processRequest q b = finish (q.headD 0) (service (q.headD 0) q (refreshed b)) := by
  rw [processRequest_run hq]
  simp only [bind]
  cases service (q.headD 0) q (refreshed b) with
  | done ans b' => cases ans <;> rfl
  | cut b' => rfl

/-- Flash authorisation.  In every state the server comes to, it is unlocked only if the transcript
    grants it, every key accepted so far is the first one tried for the last seed, a service runs
    with the context in step with session and security, and without authorisation no slot is
    written, no journal initialised and no reset accepted. -/
theorem flash_authorised (b₀ b : Board) (t : List Exchange) (h : Reaches b₀ t b) :
    (Authorised b → Granted t) ∧
    (∀ t₁ x t₂, t = t₁ ++ x :: t₂ → x.AcceptsKey → ∃ seed, Pending seed t₁ ∧ x.CarriesKey seed) ∧
    ∀ e : Turn,
      Evolves Keeping (e.on b).dev (mainFunction (e.on b)).state.dev ∧
      ∀ q,
        (¬ (q.length = 0 ∨ BootIsoTp.maxPduLength < q.length) → ∃ b₁, Synced b₁ ∧
          SameRest (e.on b) b₁ ∧ b₁.ram.uds.session = b.ram.uds.session ∧
          b₁.ram.security = b.ram.security ∧
          processRequest q (e.on b) = finish (q.headD 0) (service (q.headD 0) q b₁)) ∧
        (¬ Authorised b →
          Evolves (fun c m m' => q.headD 0 = 0x10 ∧ Keeping c m m') (e.on b).dev
            (processRequest q (e.on b)).state.dev ∧
          ∀ r b', processRequest q (e.on b) = .done r b' →
            b'.ram.uds.resetPending = b.ram.uds.resetPending ∧
            (Guarded (q.headD 0) → r = none ∨ ∃ nrc, r = some (negative (q.headD 0) nrc))) := by
  refine ⟨fun hauth => (h.accounted.granted hauth.2).2, h.accounted.once, fun e => ⟨?_, fun q => ?_⟩⟩
  · exact (issues_mainFunction (e.inStep h.inStep)).evolves
  refine ⟨fun hq => ⟨refreshed (e.on b), refreshed_synced _, sameRest_refreshed _, rfl, rfl,
    processRequest_eq hq⟩, fun hauth => ?_⟩
  have hrequest : Issues (fun c m m' => q.headD 0 = 0x10 ∧ Keeping c m m') (processRequest q)
      (fun r b' => b'.ram.uds.resetPending = b.ram.uds.resetPending ∧
        (Guarded (q.headD 0) → r = none ∨ ∃ nrc, r = some (negative (q.headD 0) nrc))) (e.on b) := by
    refine issues_processRequest ⟨rfl, fun _ => .inl rfl⟩ ?_
    refine (issues_service_unauthorised (b := refreshed (e.on b)) (refreshed_synced _) hauth).mono ?_
    rintro ans b' ⟨hans, hreset⟩
    refine ⟨hreset, fun hg => .inr ?_⟩
    obtain ⟨nrc, rfl⟩ := hans hg
    exact ⟨nrc, rfl⟩
  exact ⟨hrequest.evolves, fun r b' hdone => hrequest.of_done hdone⟩

/-! ## The way to the access -/

theorem read32_write32 (v : Word) : read32 (write32 v) = v := by
  apply BitVec.eq_of_getLsbD_eq
  intro i hi
  simp only [read32, write32, List.getD_cons_zero, List.getD_cons_succ, BitVec.getLsbD_or,
    BitVec.getLsbD_shiftLeft, BitVec.getLsbD_setWidth, BitVec.getLsbD_ushiftRight]
  grind

/-- A request of service 27 is always answered. -/
theorem access_answered (hu : b.dev.Uncut) (hhead : q.headD 0 = 0x27)
    (hq : ¬ (q.length = 0 ∨ BootIsoTp.maxPduLength < q.length)) : ∃ ans b',
    processRequest q b = .done (some (respond 0x27 ans)) b' ∧ Access q (refreshed b) ans b' := by
  have hruns : Runs (fun _ _ => True) (securityAccess q) (fun _ _ => True) (refreshed b) :=
    runs_securityAccess.mono fun _ _ _ _ => trivial
  have hboth := wp_and hruns (issues_securityAccess (q := q) (refreshed_synced b))
  obtain ⟨ans, b', hdone, -, -, haccess⟩ := wp_done
    (wp_mono hboth (fun _ _ h => h) fun _ h => h.1.2 hu)
  refine ⟨ans, b', ?_, haccess⟩
  rw [processRequest_eq hq, hhead]
  show finish 0x27 (securityAccess q (refreshed b)) = _
  rw [hdone]
  rfl

end BootUds

namespace Reaches

open BootUds

variable {b₀ b : Board} {t : List Exchange}

/-- In a programming session a seed can be had. -/
theorem seed (h : Reaches b₀ t b) (hs : b.ram.uds.session = 2) : ∃ seed b',
    Reaches b₀ (t ++ [⟨[0x27, 1], some ([0x67, 1] ++ write32 seed)⟩]) b' ∧
      b'.ram.uds.session = 2 ∧ b'.ram.security.seedIssued = true ∧
      b'.ram.security.seed = seed := by
  let e : Turn := ⟨[], .powerOn⟩
  obtain ⟨ans, b', hdone, haccess⟩ := access_answered (b := e.on b) (q := [0x27, 1])
    (fun n hn => by cases hn) rfl (by decide)
  cases haccess with
  | refused hnrc hwhy => exact absurd ⟨rfl, rfl⟩ (hwhy hs).1
  | seeded hs' hlen hsub => exact ⟨_, _, h.request e hdone, hs, rfl, rfl⟩
  | accepted hs' hlen => exact absurd hlen (by decide)
  | rejected hs' hlen => exact absurd hlen (by decide)

/-- And the key of the seed unlocks the server. -/
theorem key (h : Reaches b₀ t b) (hs : b.ram.uds.session = 2)
    (hi : b.ram.security.seedIssued = true) : ∃ b',
    Reaches b₀ (t ++ [⟨[0x27, 2] ++ write32 (BootSecurity.expectedKey b.ram.security.seed),
      some [0x67, 2]⟩]) b' ∧ Authorised b' ∧ Synced b' ∧
      b'.ram.security.seedIssued = false := by
  let e : Turn := ⟨[], .powerOn⟩
  have hlen : ([0x27, 2] ++ write32 (BootSecurity.expectedKey b.ram.security.seed)).length = 6 := rfl
  obtain ⟨ans, b', hdone, haccess⟩ := access_answered (b := e.on b)
    (q := [0x27, 2] ++ write32 (BootSecurity.expectedKey b.ram.security.seed))
    (fun n hn => by cases hn) rfl (by rw [hlen]; decide)
  cases haccess with
  | refused hnrc hwhy => exact absurd ⟨rfl, rfl⟩ (hwhy hs).2
  | seeded hs' hlen' => exact absurd (hlen.symm.trans hlen') (by decide)
  | accepted => exact ⟨_, h.request e hdone, ⟨hs, rfl⟩, refreshed_synced _, rfl⟩
  | rejected hs' hlen hsub hkey =>
    rcases hkey with hkey | hkey
    · exact absurd (hi.symm.trans hkey) (by decide)
    · exact absurd (read32_write32 _) hkey

/-- The tester opens a programming session. -/
theorem programming : ∃ b, b.ram.uds.session = 2 ∧
    Reaches Board.blank [⟨[0x10, 2], some [0x50, 2, 0, 50, 1, 0xF4]⟩] b :=
  ⟨_, rfl, .request ⟨[], .powerOn⟩ (.start rfl) rfl⟩

/-- A tester who knows the key gets the access. -/
theorem unlocked : ∃ t b, Reaches Board.blank t b ∧ Authorised b ∧ Synced b ∧
    b.ram.security.seedIssued = false := by
  obtain ⟨b₁, hs₁, h₁⟩ := programming
  obtain ⟨seed, b₂, h₂, hs₂, hi₂, -⟩ := h₁.seed hs₁
  obtain ⟨b₃, h₃, hauth⟩ := h₂.key hs₂ hi₂
  exact ⟨_, b₃, h₃, hauth⟩

end Reaches

/-- The transcript of a run that ends with the access grants it. -/
theorem BootUds.flash_authorised_unlocked : ∃ t b, Authorised b ∧ Granted t ∧
    Reaches Board.blank t b := by
  obtain ⟨t, b, hreach, hauth, -⟩ := Reaches.unlocked
  exact ⟨t, b, hauth, (flash_authorised _ b t hreach).1 hauth, hreach⟩
