import BootloaderV2.Lib.CrashMonad
import BootloaderV2.Lib.Words
import BootloaderV2.Lib.NorFlash
import BootloaderV2.Lib.TwoCopy
import BootloaderV2.Lib.CopyWrite
import BootloaderV2.Lib.Crc
import BootloaderV2.Lib.Hysteresis
import BootloaderV2.Config
import BootloaderV2.Crc32
import BootloaderV2.Records
import BootloaderV2.Image
import BootloaderV2.ImageSpec
import BootloaderV2.Board
import BootloaderV2.Flash
import BootloaderV2.FlashSpec
import BootloaderV2.Journal
import BootloaderV2.Metadata
import BootloaderV2.JournalSpec
import BootloaderV2.MetadataSpec
import BootloaderV2.JournalAtomic
import BootloaderV2.MetadataAtomic
import BootloaderV2.Initialize
import BootloaderV2.Update
import BootloaderV2.Lifecycle
import BootloaderV2.View
import BootloaderV2.Commands
import BootloaderV2.Facade
import BootloaderV2.Upkeep
import BootloaderV2.SlotFlash
import BootloaderV2.Confinement
import BootloaderV2.Commits
import BootloaderV2.Durable
import BootloaderV2.Recovery
import BootloaderV2.UpdateSpec
import BootloaderV2.LifecycleSpec
import BootloaderV2.InitSpec
import BootloaderV2.Manager
import BootloaderV2.BootSpec
import BootloaderV2.Programming
import BootloaderV2.Transaction
import BootloaderV2.Uds
import BootloaderV2.Session
import BootloaderV2.UdsSpec
import BootloaderV2.Services
import BootloaderV2.WriteAhead
import BootloaderV2.Server
import BootloaderV2.Authorisation
import BootloaderV2.Rejection
import BootloaderV2.Exact
import BootloaderV2.Commission
import BootloaderV2.Opening
import BootloaderV2.Transfer
import BootloaderV2.Revalidation
import BootloaderV2.Dem
import BootloaderV2.Debounce
import BootloaderV2.CanTp
import BootloaderV2.Segmentation
import BootloaderV2.Transmission
import BootloaderV2.Ticks
import BootloaderV2.IsoTp
import BootloaderV2.Coverage
import BootloaderV2.Actions
import BootloaderV2.Mirrored
import BootloaderV2.Selection
import BootloaderV2.Bursts
import BootloaderV2.Resets
import BootloaderV2.ResetRecords
import BootloaderV2.Dcm
import BootloaderV2.DiagTask
import BootloaderV2.Schedule
import BootloaderV2.Delivery
import BootloaderV2.IsoTpClient
import BootloaderV2.ClientErrors
import BootloaderV2.ClientRequests
import BootloaderV2.ClientFrames
import BootloaderV2.IsoTpTransmit
import BootloaderV2.RoundTrip
import BootloaderV2.Packing
import BootloaderV2.ProgramOnce
import BootloaderV2.Downloads
import BootloaderV2.Requests
import BootloaderV2.History
import BootloaderV2.CrashSafety
import BootloaderV2.Reports
import BootloaderV2.Quiescence
import BootloaderV2.Application
import BootloaderV2.Launch
import BootloaderV2.UpdateSession
import BootloaderV2.UpdateRun
import BootloaderV2.Acknowledged
import BootloaderV2.Confirmation
import BootloaderV2.Trials
import BootloaderV2.UdsClient
import BootloaderV2.FlasherV2
import BootloaderV2.Conversation
import BootloaderV2.Deadlines
import BootloaderV2.Agreement
import BootloaderV2.Bench
import BootloaderV2.Unlocking
import BootloaderV2.Preparing
