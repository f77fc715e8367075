import AliceNet.Bridge.StakingEstimates
import AliceNet.BadgerTrie.Discard
import AliceNet.Bridge.MerkleProofLibrary
import AliceNet.Bridge.SnapshotRuns
import AliceNet.Bridge.SnapshotElection
import AliceNet.Bridge.DynamicsRuns
import AliceNet.Bridge.BTokenQuotes
import AliceNet.Bridge.ValidatorPoolRuns
import AliceNet.Consensus.Encoding
import AliceNet.Dynamics.Timeline
import AliceNet.Layer1.ReceiptExpiry
import AliceNet.Layer1.TaskManager
import AliceNet.Layer1.MonitorRuns
import AliceNet.Consensus.ImpliedVotes
import AliceNet.Consensus.UniformQuorums
import AliceNet.Layer1.DkgScheduleRuns
import AliceNet.Layer1.GroupKeyDisputes
import AliceNet.Consensus.Availability
import AliceNet.Application.PageTokens
import AliceNet.Application.DataPaging
import AliceNet.Application.PendingRuns
import AliceNet.Application.BlockOrder
import AliceNet.Application.StoreCaches
import AliceNet.Consensus.CacheKeys
