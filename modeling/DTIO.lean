import DTIO.Foundation.ByteFile
import DTIO.Foundation.MachineInt
import DTIO.Foundation.Mealy
import DTIO.Foundation.Interleaving
import DTIO.Posix.State
import DTIO.Posix.Syscalls
import DTIO.Client.Metadata
import DTIO.Client.Config
import DTIO.Chimod.Tasks
import DTIO.Chimod.Server
import DTIO.Chimod.Client
import DTIO.Chimod.WriteSteps
import DTIO.Adapter.System
import DTIO.Adapter.Posix
import DTIO.Adapter.Stdio
import DTIO.Properties.Refinement
import DTIO.Adapter.Registered
import DTIO.Properties.OffsetCoherence
import DTIO.Adapter.Threads
import DTIO.Properties.Routing
import DTIO.Properties.ReadLaw
import DTIO.Properties.WriteOutcome
import DTIO.Chimod.LibExec
import DTIO.Chimod.Effects
import DTIO.Properties.LocationTransparency
import DTIO.Properties.ConcurrentWriters
import DTIO.Properties.AppendMode
import DTIO.Properties.Commutation
import DTIO.Properties.AccessControl
import DTIO.Properties.FileIdentity
import DTIO.Chimod.TaskRuns
import DTIO.Properties.DescriptorTable
import DTIO.Properties.ForeignMemory
import DTIO.Properties.BackendAgreement
import DTIO.Properties.RoundRobin
import DTIO.Chimod.Monitor
import DTIO.Properties.MetadataStore
import DTIO.Foundation.Broadcast
import DTIO.Foundation.Memory
import DTIO.Foundation.CallTree
import DTIO.Vol.Open
import DTIO.Properties.DatasetOpen
import DTIO.Properties.FileOpen
import DTIO.Foundation.Assignment
import DTIO.Foundation.Grid
import DTIO.Vol.Dataspace
import DTIO.Vol.ChunkInfo
import DTIO.Vol.IoOp
import DTIO.Vol.Datatype
import DTIO.Vol.Transfer
import DTIO.Properties.ChunkedStorage
import DTIO.Properties.DatasetLoop
import DTIO.Properties.JoinedWrites
import DTIO.Properties.JoinedReads
import DTIO.Properties.MultiDataset
import DTIO.Posix.PathNames
import DTIO.Properties.Interception
import DTIO.Properties.UniqueDecision
import DTIO.Properties.Spelling
import DTIO.Properties.StoreKeys
import DTIO.Properties.WriteFrame
import DTIO.Properties.ExactArithmetic
import DTIO.Properties.LinkValues
import DTIO.Properties.GroupOpen
import DTIO.Properties.ObjectIds
import DTIO.Vol.LinkGraph
import DTIO.Vol.LinkTraversal
import DTIO.Vol.Background
import DTIO.Properties.PartialCompound
import DTIO.Properties.RoutedOnce
import DTIO.Properties.ChunkEnumeration
import DTIO.Vol.IoOpArrays
import DTIO.Properties.SequenceMerge
import DTIO.Properties.FastBuilders
import DTIO.Properties.PathResolution
import DTIO.Properties.LinkCycles
import DTIO.Vol.ReadConversion
import DTIO.Properties.InPlaceConversion
import DTIO.Properties.ConversionBuffers
import DTIO.Properties.DatasetRecords
import DTIO.Foundation.Packing
import DTIO.Vol.NeedBkg
import DTIO.Properties.BackgroundAnalysis
import DTIO.Foundation.RefCount
import DTIO.Vol.GroupHandles
import DTIO.Properties.BalancedTraversal
import DTIO.Properties.TraversalRuns
import DTIO.Vol.Sessions
import DTIO.Properties.FileCreation
import DTIO.Foundation.Namespace
import DTIO.Vol.PathCalls
import DTIO.Vol.Trees
import DTIO.Properties.TreeTraversal
import DTIO.Properties.TreeCreation
import DTIO.Properties.TreeOpens
import DTIO.Properties.TreeRefinement
import DTIO.Properties.TreeRuns
import DTIO.Properties.DatasetReads
import DTIO.Properties.SharedStore
import DTIO.Properties.ConcurrentChunks
import DTIO.Foundation.WriteOnce
import DTIO.Vol.AsyncRanks
import DTIO.Properties.OwnCalls
import DTIO.Properties.IndependentRanks
import DTIO.Properties.FileIsolation
import DTIO.Properties.Accessibility
import DTIO.Foundation.Linearization
import DTIO.Properties.CallPoints
import DTIO.Properties.ThreadSteps
import DTIO.Properties.OwnDescriptors
import DTIO.Properties.WrittenStreams
