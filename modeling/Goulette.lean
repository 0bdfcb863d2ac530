import Goulette.Raft.MatchIndex
import Goulette.Raft.Appends
import Goulette.Raft.Candidates
import Goulette.Raft.SendTasks
import Goulette.Raft.CheckedRuns
import Goulette.Storage.Consumers
import Goulette.Storage.ConcurrentWrites
import Goulette.Storage.WalLock
import Goulette.Storage.FailedWrites
import Goulette.Storage.FailedLogWrites
import Goulette.Storage.WalParsing
import Goulette.Storage.Accounting
import Goulette.Raft.Groups
import Goulette.Raft.TopicLife
import Goulette.Raft.StopTasks
import Goulette.Broker.Recovery
import Goulette.Broker.Roles
import Goulette.Broker.RoleTables
import Goulette.Broker.MessageIDs
import Goulette.Broker.Transfers
import Goulette.Sentinel.Restarts
import Goulette.Sentinel.ReplicaHistory
import Goulette.Sentinel.Counters
import Goulette.Sentinel.Heartbeats
import Goulette.Sentinel.RingChanges
import Goulette.Sentinel.Replacements
import Goulette.Sentinel.ReplayOrder
import Goulette.Sentinel.CacheVersions
import Goulette.Sentinel.Successors
import Goulette.Core.LogRotation
import Goulette.Core.Checkpoint
import Goulette.Client.Consumer
import Goulette.Raft.Permanence
import Goulette.Core.Queue
import Goulette.Client.Wakeups
