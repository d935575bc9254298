import Xenlib.Answers
import Xenlib.BackendRemoval
import Xenlib.Backends
import Xenlib.BareNode
import Xenlib.BestEffort
import Xenlib.CString
import Xenlib.Callbacks
import Xenlib.ChunkedMapping
import Xenlib.Client
import Xenlib.ClientSpec
import Xenlib.Components
import Xenlib.Console
import Xenlib.ConsoleOutput
import Xenlib.ControlWrites
import Xenlib.CreateFailure
import Xenlib.CreateStore
import Xenlib.Deadlines
import Xenlib.Decimal
import Xenlib.Departure
import Xenlib.DeviceGrants
import Xenlib.DeviceNodes
import Xenlib.DeviceSetups
import Xenlib.Dom0less
import Xenlib.DomCreate
import Xenlib.DomFdt
import Xenlib.DomFdtCalls
import Xenlib.DomFdtContent
import Xenlib.DomFdtCopy
import Xenlib.DomFdtLookup
import Xenlib.DomFdtNodes
import Xenlib.DomFdtTree
import Xenlib.DomMgmt
import Xenlib.DomainStats
import Xenlib.DtbPlacement
import Xenlib.Entry
import Xenlib.EntrySpec
import Xenlib.ExtendedRegions
import Xenlib.Extents
import Xenlib.FailedWrites
import Xenlib.Fdt
import Xenlib.FdtAccepted
import Xenlib.FdtCalls
import Xenlib.FdtDraft
import Xenlib.FdtEnumerate
import Xenlib.FdtFinish
import Xenlib.FdtGetprop
import Xenlib.FdtLayout
import Xenlib.FdtPaths
import Xenlib.FdtPieces
import Xenlib.FdtRead
import Xenlib.FdtResize
import Xenlib.FdtRoundTrip
import Xenlib.FdtSafety
import Xenlib.FdtStages
import Xenlib.FdtTree
import Xenlib.FdtWrite
import Xenlib.GuestRam
import Xenlib.GuestWrites
import Xenlib.HandlerFrames
import Xenlib.Handlers
import Xenlib.HandlersSpec
import Xenlib.ImageLoading
import Xenlib.Lib.Assignments
import Xenlib.Lib.BigEndian
import Xenlib.Lib.Forest
import Xenlib.Lib.ForestMap
import Xenlib.Lib.ForestPrune
import Xenlib.Lib.LockOrder
import Xenlib.Lib.Machine
import Xenlib.Lib.Plant
import Xenlib.Lib.Preorder
import Xenlib.Lib.Ring
import Xenlib.Lib.Span
import Xenlib.Lib.Stream
import Xenlib.Lib.Tokens
import Xenlib.Lib.TwoRuns
import Xenlib.Lib.Wp
import Xenlib.Lifecycle
import Xenlib.LiveNames
import Xenlib.LocalReads
import Xenlib.LocalStrings
import Xenlib.Locks
import Xenlib.MapFailure
import Xenlib.MemMgmt
import Xenlib.Naming
import Xenlib.Notification
import Xenlib.OutputLimit
import Xenlib.Path
import Xenlib.PathGrammar
import Xenlib.PathMap
import Xenlib.PathOrder
import Xenlib.Payloads
import Xenlib.Perm
import Xenlib.PermWire
import Xenlib.PostCreateFailure
import Xenlib.ReadBack
import Xenlib.Reassembly
import Xenlib.References
import Xenlib.Registry
import Xenlib.Removal
import Xenlib.Removals
import Xenlib.Replies
import Xenlib.Requests
import Xenlib.Responses
import Xenlib.Ring
import Xenlib.RingBounds
import Xenlib.RingSteps
import Xenlib.RingStreams
import Xenlib.Secrecy
import Xenlib.Server
import Xenlib.ServerSpec
import Xenlib.Sessions
import Xenlib.SetPerms
import Xenlib.SetupCalls
import Xenlib.SetupUndone
import Xenlib.Spelling
import Xenlib.StoreEffects
import Xenlib.StoreInv
import Xenlib.StoreSetup
import Xenlib.Teardown
import Xenlib.Thread
import Xenlib.Transactions
import Xenlib.Traverse
import Xenlib.TreeCopy
import Xenlib.Vchan
import Xenlib.VchanBounds
import Xenlib.VchanClose
import Xenlib.VchanStreams
import Xenlib.VchanWakeup
import Xenlib.WatchChanges
import Xenlib.WatchCleanup
import Xenlib.WatchDelivery
import Xenlib.WatchErasure
import Xenlib.WatchForms
import Xenlib.WatchLifetime
import Xenlib.WatchMessages
import Xenlib.WatchPairs
import Xenlib.WatchRefs
import Xenlib.WatchRegistration
import Xenlib.WatchSteps
import Xenlib.WatchThreads
import Xenlib.WatchUnique
import Xenlib.WriteChecks
import Xenlib.WriteOrder
import Xenlib.XlEntries
import Xenlib.XlFields
import Xenlib.XlKeys
import Xenlib.XlOutcome
import Xenlib.XlParser
import Xenlib.XlRecords
import Xenlib.XlReuse
import Xenlib.XlRoundTrip
