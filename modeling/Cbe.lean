import Cbe.Support.Selection
import Cbe.Support.Runs
import Cbe.Support.RadixTree
import Cbe.Support.Exchange
import Cbe.Types
import Cbe.Snapshots
import Cbe.SuperblockControl
import Cbe.Startup
import Cbe.Securing
import Cbe.TreeHelper
import Cbe.Trees
import Cbe.FreeTree
import Cbe.Forest
import Cbe.Sound
import Cbe.VirtualBlockDevice
import Cbe.Writing
import Cbe.VbdRekeying
import Cbe.VbdExtension
import Cbe.FtResizing
import Cbe.RekeyingBranch
import Cbe.RekeyingTrees
import Cbe.Device
import Cbe.CurrentSnapshot
import Cbe.InterruptedSecuring
import Cbe.SuperblockRing
import Cbe.Support.RingBuffer
import Cbe.Support.Overtaking
import Cbe.IndexQueue
import Cbe.RequestPool
import Cbe.RequestChange
import Cbe.RequestDiscipline
import Cbe.RequestOrder
import Cbe.KeyLifecycle
import Cbe.Support.StoreHistory
import Cbe.Cache
import Cbe.CacheRefinement
import Cbe.Support.ByteWalk
import Cbe.SuperblockCodec
import Cbe.Support.Contingent
import Cbe.FreeTreeConservation
import Cbe.FreeTreeSupply
import Cbe.ExtensionContingent
import Cbe.ExtensionSupply
import Cbe.ExtensionRoom
import Cbe.ExtensionAccounting
import Cbe.SnapshotSlots
import Cbe.RequestJobs
import Cbe.CacheRoom
import Cbe.SecuredRestart
import Cbe.Support.Shares
import Cbe.MetaTree
import Cbe.MetaTreeExchange
import Cbe.MetaTreeFailure
import Cbe.NodeCodec
import Cbe.Support.PartialRun
import Cbe.Support.LevelScan
import Cbe.TreeImage
import Cbe.CheckTrees
import Cbe.CheckRuns
import Cbe.CheckLibrary
import Cbe.CheckLibraryRuns
import Cbe.CheckVerdict
import Cbe.ChildIndex
import Cbe.NewFreeTree
import Cbe.NewFreeTreeScan
import Cbe.NewFreeTreeUpdate
import Cbe.NewFreeTreeAgreement
import Cbe.AllocationRequests
import Cbe.BlockIo
import Cbe.IoJob
import Cbe.WriteBackRun
import Cbe.IndexQueueRefinement
import Cbe.Support.ByteFile
import Cbe.DataFile
import Cbe.DataFileRuns
import Cbe.Translation
import Cbe.TranslationRuns
import Cbe.Support.BottomUp
import Cbe.TreeInitializers
import Cbe.InitLibrary
import Cbe.TreeBuilding
import Cbe.InitRuns
import Cbe.BuiltTrees
import Cbe.InitImage
import Cbe.RekeyingLoop
import Cbe.RekeyingSound
import Cbe.Support.VersionedStore
import Cbe.Support.DurableStore
import Cbe.StoredData
import Cbe.FreshTrees
import Cbe.ThinnedTrees
import Cbe.IntactDevice
import Cbe.BlockReuse
import Cbe.DeviceVersions
import Cbe.RekeyingRuns
import Cbe.CrashRecovery
import Cbe.Support.TreeLayout
import Cbe.ImageTrees
import Cbe.ImageStartup
import Cbe.CryptoModule
import Cbe.ExternalCrypto
import Cbe.CryptoDispatch
import Cbe.CryptoHandling
import Cbe.Support.Service
import Cbe.CryptoService
import Cbe.CryptoRounds
