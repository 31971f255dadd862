import StnChain.Arithmetic
import StnChain.Chain.BlockRoom
import StnChain.Chain.Conservation
import StnChain.Chain.ContractLineage
import StnChain.Chain.ContractRebuild
import StnChain.Chain.ContractQueries
import StnChain.Chain.Controllers
import StnChain.Chain.Destinations
import StnChain.Chain.Sharing
import StnChain.Chain.SnapshotRun
import StnChain.Chain.Lineage
import StnChain.Codecs
import StnChain.Chain.Publications
import StnChain.Chain.RewardRoom
import StnChain.Chain.Shares
import StnChain.Chain.Transfers
import StnChain.Peer.Complete
import StnChain.Peer.Outbound
import StnChain.Config
import StnChain.Contract.Rebuild
import StnChain.Intelligence
import StnChain.Mining.Atomicity
import StnChain.Mining.Search
import StnChain.Pending.Bodies
import StnChain.Pending.Operations
import StnChain.Pending.Pairs
import StnChain.Pending.Replay
import StnChain.Persistence
import StnChain.Platform.Clients
import StnChain.Platform.Daemon
import StnChain.Platform.Inbound
import StnChain.Platform.Network
import StnChain.Query.Resumption
import StnChain.Economy.Acceptance
import StnChain.Economy.Persistence
import StnChain.Rejection
import StnChain.Rpc.Publication
import StnChain.Rpc.Status
import StnChain.Statements
import StnChain.Storage
import StnChain.StorageCache
