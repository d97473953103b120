import Nearcore.Library.ListLex
import Nearcore.Library.RunningTest
import Nearcore.Library.ListPrefix
import Nearcore.Library.Except
import Nearcore.Primitives.TrieKey
import Nearcore.Primitives.ShardLayout
import Nearcore.Primitives.Version
import Nearcore.Epoch.ValidatorSelection
import Nearcore.Store.Resharding
import Nearcore.Trie.NibbleSlice
import Nearcore.Trie.Node
import Nearcore.Trie.NodeTree
import Nearcore.Trie.Update
import Nearcore.Trie.Insert
import Nearcore.Trie.Context
import Nearcore.Trie.InsertRun
import Nearcore.Trie.Delete
import Nearcore.Library.ListSearch
import Nearcore.Trie.DeleteRun
import Nearcore.Trie.DeleteRefine
import Nearcore.Library.PathMap
import Nearcore.Trie.Lookup
import Nearcore.Trie.Shape
import Nearcore.Mem.Arena
import Nearcore.Mem.Lookup
import Nearcore.Trie.Changes
import Nearcore.Mem.Update
import Nearcore.Mem.Construct
import Nearcore.Mem.ConstructRun
import Nearcore.Mem.Apply
import Nearcore.Library.Window
import Nearcore.Trie.QueueState
import Nearcore.Trie.ReceiptsColumnHelper
import Nearcore.Trie.OutgoingMetadata
import Nearcore.Trie.QueueOps
import Nearcore.Trie.TrieQueueRefine
import Nearcore.Trie.QueueImpls
import Nearcore.Trie.ReceiptGroups
import Nearcore.Library.AListSum
import Nearcore.Doomslug.Approvals
import Nearcore.Library.Quorum
import Nearcore.Doomslug.Doomslug
import Nearcore.Doomslug.Emission
import Nearcore.Doomslug.Network
import Nearcore.Doomslug.Safety
import Nearcore.VM.GasCounter
import Nearcore.VM.GasInvariants
import Nearcore.Primitives.Action
import Nearcore.Library.FloorShares
import Nearcore.Library.Unsigned
import Nearcore.Library.Transactional
import Nearcore.Runtime.Fees
import Nearcore.Runtime.ReceiptManager
import Nearcore.Runtime.ActionGas
import Nearcore.Store.FlatStorage
import Nearcore.Chain.BlockEconomics
import Nearcore.Store.TrieUpdate
import Nearcore.Runtime.AccessKeys
import Nearcore.Network.Routing
import Nearcore.Library.Bitmap
import Nearcore.Library.ByteCodec
import Nearcore.Trie.RawNode
import Nearcore.Primitives.TrieKeyParsers
import Nearcore.Primitives.DeriveShardLayout
import Nearcore.BandwidthScheduler.DistributeRemaining
import Nearcore.Library.MerkleRoot
import Nearcore.Primitives.Merkle
import Nearcore.Primitives.Merklize
import Nearcore.Runtime.Refunds
import Nearcore.Primitives.MandatePrice
import Nearcore.Library.RoundRobin
import Nearcore.Primitives.ValidatorMandates
import Nearcore.Library.AliasTable
import Nearcore.Primitives.Rand
import Nearcore.Library.LoadBalance
import Nearcore.Epoch.ShardAssignment
import Nearcore.Network.EdgeCache
import Nearcore.Network.GraphV2
import Nearcore.Epoch.AggregatorRefinement
import Nearcore.Chain.OrphanPool
import Nearcore.Chain.OrphanPoolInvariants
import Nearcore.Chain.OrphanPoolHeaders
import Nearcore.Chain.OrphanPoolPanic
import Nearcore.Network.RouteBackCache
import Nearcore.Network.RouteBackCacheIndex
import Nearcore.Network.RouteBackCachePolicy
