import Goulette.Broker.Server
import Goulette.Sentinel.Server

/-! The leader requests of `sentinel/server.go` and the brokers they reach. A call may get lost, or
be carried out without an answer in time. Requests are handled one at a time.
-/

namespace Goulette.Sentinel

open Goulette.Go Goulette.Raft Goulette.Storage Goulette.Broker

inductive CallFate
  | answered
  | unanswered
  | lost
deriving DecidableEq, Repr

/-- The brokers behind their addresses, and the fates of the next calls; calls beyond the list
are answered.
-/
structure Network where
  brokers : GoMap GoString BrokerServer
  fates : List CallFate

namespace Network

/-- A call of a broker's handler. It has no result without an answer. -/
def call {R : Type} (network : Network) (address : GoString)
    (handler : BrokerServer → Option (BrokerServer × R))
    : Network × Option R :=
  let later := { network with fates := network.fates.tail }
  match network.brokers.lookup address, network.fates.headD .answered with
  | none, _ => (later, none)
  | some _, .lost => (later, none)
  | some broker, fate =>
      match handler broker with
      | none => (later, none)
      | some (broker, response) =>
          ({ later with brokers := network.brokers.insert address broker },
            if fate = .answered then some response else none)

def callSetTopicRoleOnBroker (network : Network) (address topic : GoString) (role : TopicRole)
    (followers : List GoString) (leaderAddr : GoString)
    : Network × Bool :=
  let result := network.call address
    (fun broker => some (broker.setTopicRole topic role followers leaderAddr, ()))
  (result.1, result.2.isSome)

def callGetBrokerTopicRoleOnBroker (network : Network) (address brokerID topic : GoString)
    : Network × Option TopicRole :=
  let result := network.call address
    (fun broker => some (broker, broker.getBrokerTopicRole brokerID topic))
  match result.2 with
  | some (.ok role) => (result.1, some role)
  | _ => (result.1, none)

/-- The error of a removal is only reported. -/
def callRemoveTopicOnBroker (network : Network) (now : Int) (address topic reason : GoString)
    : Network :=
  (network.call address (fun broker => broker.removeTopic now topic reason)).1

def followersOf (brokers : List BrokerInfo) (leader : BrokerInfo) : List BrokerInfo :=
  brokers.filter (fun broker => broker.brokerID ≠ leader.brokerID)

/-- The leader is told first. -/
def notifyBrokersSetTopicRole (network : Network) (topic : GoString)
    (brokers : List BrokerInfo) (leader : BrokerInfo)
    : Network :=
  let followers := followersOf brokers leader
  let followerAddresses := followers.map BrokerInfo.address
  let notified := network.callSetTopicRoleOnBroker leader.address topic .leader
    followerAddresses leader.address
  -- without its acknowledgement nobody else is told
  if notified.2 then
    followers.foldl
      (fun network broker =>
        (network.callSetTopicRoleOnBroker broker.address topic .follower followerAddresses
          leader.address).1)
      notified.1
  else notified.1

def findLeaderBrokerFromBrokers (network : Network) (topic : GoString)
    : List BrokerInfo → Network × Option BrokerInfo
  | [] => (network, none)
  | broker :: rest =>
      if broker.status ≠ .healthy then network.findLeaderBrokerFromBrokers topic rest
      else
        let asked := network.callGetBrokerTopicRoleOnBroker broker.address broker.brokerID topic
        if asked.2 = some .leader then (asked.1, some broker)
        else asked.1.findLeaderBrokerFromBrokers topic rest

/-- The same over a replica record, whose brokers are asked at their recorded addresses when
they are registered and healthy.
-/
def findRecordedLeader (network : Network) (server : SentinelServer) (topic : GoString)
    : List ReplicaBroker → Network × Option ReplicaBroker
  | [] => (network, none)
  | broker :: rest =>
      if (server.healthyBroker broker.brokerID).isNone then
        network.findRecordedLeader server topic rest
      else
        let asked := network.callGetBrokerTopicRoleOnBroker broker.address broker.brokerID topic
        if asked.2 = some .leader then (asked.1, some broker)
        else asked.1.findRecordedLeader server topic rest

end Network

structure World where
  sentinel : SentinelServer
  network : Network

/-- The leader in an answer; the status is the sentinel's own number. -/
structure LeaderInfo where
  brokerID : GoString
  address : GoString
  status : Nat
  topics : List GoString
  lastHeartbeat : Int64
deriving DecidableEq, Repr

abbrev LeaderOutcome := Outcome World (Except GoError LeaderInfo)

def noBroker (topic : GoString) : GoError := lit "topic " ++ topic ++ lit " 没有可用的broker"

def noLeader (topic : GoString) : GoError := lit "topic " ++ topic ++ lit " 没有找到leader"

def BrokerInfo.toReplica (info : BrokerInfo) : ReplicaBroker :=
  { brokerID := info.brokerID, address := info.address, status := info.status.toNat }

def BrokerInfo.toLeader (info : BrokerInfo) (topics : List GoString) : LeaderInfo :=
  { brokerID := info.brokerID, address := info.address, status := info.status.toNat, topics,
    lastHeartbeat := unix info.lastHeartbeat }

namespace World

def records (world : World) (refs : List BrokerRef) : List BrokerInfo :=
  refs.map world.sentinel.record

def setEtcd (world : World) (etcdManager : EtcdManager) : World :=
  { world with sentinel := { world.sentinel with etcdManager := some etcdManager } }

/-- Find the leader among brokers by asking them, and tell them all their roles. -/
def confirmLeader (world : World) (topic : GoString) (brokers : List BrokerInfo)
    (topics : BrokerInfo → List GoString)
    : LeaderOutcome :=
  let found := world.network.findLeaderBrokerFromBrokers topic brokers
  match found.2 with
  | none => .returned { world with network := found.1 } (.error (noLeader topic))
  | some leader =>
      .returned
        { world with network := found.1.notifyBrokersSetTopicRole topic brokers leader }
        (.ok (leader.toLeader (topics leader)))

def generateAndStoreTopicLeader (world : World) (etcdManager : EtcdManager) (now : Int)
    (topic : GoString) (replicaCount : Nat) (faults : EtcdFaults)
    : LeaderOutcome :=
  if world.sentinel.mu then .blocked world
  else
    let brokers := world.records (world.sentinel.selectBrokers topic replicaCount)
    let stored :=
      match faults.set with
      | some _ => etcdManager
      | none =>
          etcdManager.setTopicReplicas now topic (brokers.map BrokerInfo.toReplica) replicaCount
    -- a new record is stored and logged before anyone is told
    match stored.logOperation faults.log with
    | .blocked etcdManager => .blocked (world.setEtcd etcdManager)
    | .returned etcdManager _ =>
        let logged := world.setEtcd etcdManager
        match brokers with
        | [] => .returned logged (.error (noBroker topic))
        -- the first chosen broker leads
        | leader :: _ =>
            .returned
              { logged with
                network := logged.network.notifyBrokersSetTopicRole topic brokers leader }
              (.ok (leader.toLeader []))

/-- A record is out of date after five minutes. -/
def expired (now : Int) (info : TopicReplicaInfo) : Bool := unix now - info.timestamp > 300

def getTopicLeaderFromEtcd (world : World) (etcdManager : EtcdManager) (now : Int)
    (topic : GoString) (replicaCount : Nat) (faults : EtcdFaults)
    : LeaderOutcome :=
  match faults.get with
  | some failure =>
      .returned world
        (.error (lit "从etcd获取topic副本信息失败: 获取Topic副本信息失败: " ++ failure))
  | none =>
      match etcdManager.getTopicReplicas topic with
      | none =>
          world.generateAndStoreTopicLeader etcdManager now topic replicaCount faults
      | some info =>
          if expired now info then
            world.generateAndStoreTopicLeader etcdManager now topic replicaCount faults
          else if info.brokers = [] then .returned world (.error (noBroker topic))
          else if world.sentinel.mu then .blocked world
          else
            let found := world.network.findRecordedLeader world.sentinel topic info.brokers
            let asked := { world with network := found.1 }
            match found.2 with
            | none => .returned asked (.error (noLeader topic))
            | some leader =>
                .returned asked
                  (.ok {
                    brokerID := leader.brokerID
                    address := leader.address
                    status := leader.status
                    topics := []
                    lastHeartbeat := info.timestamp
                  })

def removeFromUnreachable (world : World) (now : Int) (topic : GoString)
    (unreachable : List GoString)
    : World :=
  { world with
    network := unreachable.foldl
      (fun network brokerID =>
        match world.sentinel.brokers.lookup brokerID with
        | none => network
        | some ref =>
            network.callRemoveTopicOnBroker now (world.sentinel.record ref).address topic
              (lit "Broker " ++ brokerID ++ lit " 无法连接"))
      world.network }

def stillAvailable (server : SentinelServer) (info : Option TopicReplicaInfo)
    (unreachable : List GoString)
    : List BrokerRef :=
  match info with
  | none => []
  | some info =>
      info.brokers.filterMap
        (fun broker =>
          if broker.brokerID ∈ unreachable then none else server.healthyBroker broker.brokerID)

def refill (server : SentinelServer) (topic : GoString) (current : List BrokerRef)
    (replicaCount : Nat)
    : Except GoError (List BrokerRef) :=
  if current.length < replicaCount then
    match server.findReplacementBrokers topic current (replicaCount - current.length) with
    | (_, some failure) => .error (lit "寻找替换broker失败: " ++ failure)
    | (replacements, none) => .ok (current ++ replacements)
  else .ok current

def handleUnreachableBrokersForLeader (world : World) (etcdManager : EtcdManager) (now : Int)
    (topic : GoString) (replicaCount : Nat) (unreachable : List GoString)
    (faults : EtcdFaults)
    : LeaderOutcome :=
  if world.sentinel.mu then .blocked world
  else
    let removed := world.removeFromUnreachable now topic unreachable
    let marked :=
      { removed with sentinel := removed.sentinel.updateBrokerStatus unreachable .down }
    match faults.get with
    | some failure =>
        .returned marked
          (.error (lit "获取topic副本信息失败: 获取Topic副本信息失败: " ++ failure))
    | none =>
        let available :=
          stillAvailable marked.sentinel (etcdManager.getTopicReplicas topic) unreachable
        match refill marked.sentinel topic available replicaCount with
        | .error failure => .returned marked (.error failure)
        | .ok refs =>
            if refs.length ≠ replicaCount then
              .returned marked (.error (lit "topic " ++ topic ++ lit " 可用broker不足"))
            else
              let brokers := marked.records refs
              match faults.set with
              | some failure =>
                  .returned marked
                    (.error
                      (lit "更新topic副本信息到etcd失败: 设置Topic副本信息失败: " ++ failure))
              | none =>
                  let stored := etcdManager.setTopicReplicas now topic
                    (brokers.map BrokerInfo.toReplica) replicaCount
                  match stored.logOperation faults.log with
                  | .blocked etcdManager => .blocked (marked.setEtcd etcdManager)
                  | .returned etcdManager _ =>
                      (marked.setEtcd etcdManager).confirmLeader topic brokers (fun _ => [])

def storeCache (server : SentinelServer) (topic : GoString) (brokers : List BrokerRef)
    (replicaCount : Nat)
    : SentinelServer :=
  let version := (server.topicLocks.lookup topic).getD 0 + 1
  { server with
    topicLocks := server.topicLocks.insert topic version
    replicationCache := server.replicationCache.insert topic
      { brokers, version, replicaCount, leader := brokers.head? } }

def cachedBrokers (server : SentinelServer) (topic : GoString) (replicaCount : Nat)
    : SentinelServer × List BrokerRef :=
  match server.replicationCache.lookup topic with
  | some cache =>
      if cache.replicaCount = replicaCount then (server, cache.brokers)
      else
        let chosen := server.selectBrokers topic replicaCount
        (storeCache server topic chosen replicaCount, chosen)
  | none =>
      let chosen := server.selectBrokers topic replicaCount
      (storeCache server topic chosen replicaCount, chosen)

/-- The replicas after the unreachable ones were marked and replaced. -/
def replaceUnreachable (server : SentinelServer) (topic : GoString)
    (current : List BrokerRef) (replicaCount : Nat) (unreachable : List GoString)
    : SentinelServer × Except GoError (List BrokerRef) :=
  if unreachable = [] then (server, .ok current)
  else
    let marked := server.updateBrokerStatus unreachable .down
    let available := current.filter
      (fun ref => (marked.record ref).brokerID ∉ unreachable)
    match refill marked topic available replicaCount with
    | .error failure => (marked, .error failure)
    | .ok refs =>
        if available.length < replicaCount then
          (storeCache marked topic refs replicaCount, .ok refs)
        else (marked, .ok refs)

/-- Without etcd no call holds the mutex for ever. -/
def getTopicLeaderLegacy (world : World) (topic : GoString) (replicaCount : Nat)
    (unreachable : List GoString)
    : LeaderOutcome :=
  let cached := cachedBrokers world.sentinel topic replicaCount
  let replaced := replaceUnreachable cached.1 topic cached.2 replicaCount unreachable
  let chosen := { world with sentinel := replaced.1 }
  match replaced.2 with
  | .error failure => .returned chosen (.error failure)
  | .ok [] => .returned chosen (.error (noBroker topic))
  | .ok refs => chosen.confirmLeader topic (chosen.records refs) BrokerInfo.topics

/-- A request that another node has to answer; the leader's address is that of an etcd member. -/
def forwardToLeader (world : World) (etcdManager : EtcdManager)
    (remote : Except GoError LeaderInfo)
    : LeaderOutcome :=
  if etcdManager.leaderAddr = [] then .returned world (.error (lit "无法获取leader地址"))
  else .returned world remote

def getTopicLeader (world : World) (now : Int) (topic : GoString) (replicaCount : UInt32)
    (unreachable : List GoString) (faults : EtcdFaults) (remote : Except GoError LeaderInfo)
    : LeaderOutcome :=
  match world.sentinel.etcdManager with
  | none => world.getTopicLeaderLegacy topic replicaCount.toNat unreachable
  | some etcdManager =>
      if unreachable = [] then
        world.getTopicLeaderFromEtcd etcdManager now topic replicaCount.toNat faults
      else if etcdManager.isLeader then
        world.handleUnreachableBrokersForLeader etcdManager now topic replicaCount.toNat
          unreachable faults
      else world.forwardToLeader etcdManager remote

end World

/-- The events of a sentinel, with what its environment does meanwhile. -/
inductive SentinelEvent
  | registerBroker (brokerID address : GoString) (topics : List GoString) (faults : EtcdFaults)
  | keepAlive (brokerID address : GoString) (lease : Int64) (fault : Option GoError)
  | unregisterBroker (brokerID : GoString) (fault : Option GoError)
  | checkBrokers
  | heartbeatChange (brokerID : GoString) (change : SentinelServer.HeartbeatChange)
  | checkLeader (isLeader : Bool) (leaderAddr : GoString)
  | getTopicLeader (topic : GoString) (replicaCount : UInt32) (unreachable : List GoString)
      (fates : List CallFate) (faults : EtcdFaults) (remote : Except GoError LeaderInfo)

/-- One event at a time of the clock. An event that waits for ever leaves what it did. -/
def World.step (world : World) : Int × SentinelEvent → World
  | (now, .registerBroker brokerID address topics faults) =>
      { world with
        sentinel := (world.sentinel.registerBroker now brokerID address topics faults).state }
  | (now, .keepAlive brokerID address lease fault) =>
      { world with
        sentinel := (world.sentinel.keepAlive now brokerID address lease fault).state }
  | (_, .unregisterBroker brokerID fault) =>
      { world with sentinel := (world.sentinel.unregisterBroker brokerID fault).state }
  | (now, .checkBrokers) => { world with sentinel := world.sentinel.checkBrokers now }
  | (now, .heartbeatChange brokerID change) =>
      { world with
        sentinel := (world.sentinel.handleBrokerHeartbeatChange now brokerID change).state }
  | (_, .checkLeader isLeader leaderAddr) =>
      { world with
        sentinel :=
          { world.sentinel with
            etcdManager := world.sentinel.etcdManager.map
              (fun etcdManager => etcdManager.checkLeader isLeader leaderAddr) } }
  | (now, .getTopicLeader topic replicaCount unreachable fates faults remote) =>
      (World.getTopicLeader { world with network := { world.network with fates } } now topic
        replicaCount unreachable faults remote).state

end Goulette.Sentinel
