import BMDaq.Lib.Bytes
import BMDaq.Lib.Runs
import BMDaq.Lib.Rounds
import BMDaq.Lib.Frames
import BMDaq.Lib.Segments
import BMDaq.Lib.Flow
import BMDaq.Lib.Output
import BMDaq.Lib.Ownership
import BMDaq.Lib.Matching
import BMDaq.Lib.Places
import BMDaq.DataContainer
import BMDaq.MemBank
import BMDaq.BankHeap
import BMDaq.BankInvariant
import BMDaq.BankLifetimes
import BMDaq.DataScanner
import BMDaq.TriggerTags
import BMDaq.FragmentBuilder
import BMDaq.EventBuilder
import BMDaq.FakeData
import BMDaq.Containment
import BMDaq.FragmentLog
import BMDaq.SpillAssembly
import BMDaq.Coherence
import BMDaq.BankMarkers
import BMDaq.BankSizes
import BMDaq.BoardLookup
import BMDaq.EventFormat
import BMDaq.WordStream
import BMDaq.Reassembly
import BMDaq.SpillChecks
import BMDaq.MemoryAccess
import BMDaq.AcceptedSequences
import BMDaq.OrphanTrailer
import BMDaq.TwoRuns
import BMDaq.InitialMemory
import BMDaq.RunIsolation
import BMDaq.Failures
import BMDaq.EventNumbers
import BMDaq.Configuration
import BMDaq.StateMachine
import BMDaq.HookFrames
import BMDaq.DeviceDescription
import BMDaq.IdleHooks
import BMDaq.DeviceMatching
import BMDaq.Reload
import BMDaq.SessionDiscipline
import BMDaq.ReadoutControl
import BMDaq.Staffing
import BMDaq.Pipeline
import BMDaq.ContainerFlow
import BMDaq.Progress
import BMDaq.Wiring
import BMDaq.HiringOrder
import BMDaq.BoardSetup
import BMDaq.ConnectedBoards
import BMDaq.Recovery
import BMDaq.Recording
import BMDaq.Acquisition
