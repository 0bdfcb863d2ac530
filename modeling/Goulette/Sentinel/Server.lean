import Goulette.Sentinel.Etcd
import Goulette.Sentinel.HashRing

/-! The sentinel server of `sentinel/server.go` without the calls it makes to brokers. Table, cache
and health checker share broker records, which stand in a list and are referred to by position.
-/

namespace Goulette.Sentinel

open Goulette.Go Goulette.Storage

inductive BrokerStatus
  | healthy
  | suspicious
  | down
deriving DecidableEq, Repr

def BrokerStatus.toNat : BrokerStatus → Nat
  | .healthy => 0
  | .suspicious => 1
  | .down => 2

structure BrokerInfo where
  brokerID : GoString
  address : GoString
  status : BrokerStatus
  topics : List GoString
  lastHeartbeat : Int
deriving DecidableEq, Repr

abbrev BrokerRef := Nat

structure ReplicationCache where
  brokers : List BrokerRef
  version : Int64
  replicaCount : Nat
  leader : Option BrokerRef

/-- The records are every one ever made; `topicLocks` holds the version beside each lock, and
`mu` is set when a call holds the mutex for ever.
-/
structure SentinelServer where
  hashRing : HashRing
  records : List BrokerInfo
  brokers : GoMap GoString BrokerRef
  mu : Bool
  replicationCache : GoMap GoString ReplicationCache
  topicLocks : GoMap GoString Int64
  etcdManager : Option EtcdManager

namespace SentinelServer

def newSentinelServer (etcdManager : Option EtcdManager) : SentinelServer where
  hashRing := .newHashRing 150
  records := []
  brokers := ∅
  mu := false
  replicationCache := ∅
  topicLocks := ∅
  etcdManager

def record (server : SentinelServer) (ref : BrokerRef) : BrokerInfo :=
  server.records.getD ref
    { brokerID := [], address := [], status := .healthy, topics := [], lastHeartbeat := 0 }

def modifyRecord (server : SentinelServer) (ref : BrokerRef) (change : BrokerInfo → BrokerInfo)
    : SentinelServer :=
  { server with records := server.records.modify ref change }

def addBroker (server : SentinelServer) (info : BrokerInfo) : SentinelServer :=
  { server with
    records := server.records ++ [info]
    brokers := server.brokers.insert info.brokerID server.records.length
    hashRing := server.hashRing.addNode info.brokerID }

def invalidateCache (server : SentinelServer) (topic : GoString) : SentinelServer :=
  { server with replicationCache := server.replicationCache.erase topic }

/-- Off the ring and out of the table, with the caches of some topics. -/
def dropBroker (server : SentinelServer) (brokerID : GoString) (topics : List GoString)
    : SentinelServer :=
  let server := { server with hashRing := server.hashRing.removeNode brokerID }
  let server := topics.foldl invalidateCache server
  { server with brokers := server.brokers.erase brokerID }

structure Ack where
  success : Bool
  errorMessage : GoString
deriving DecidableEq, Repr

def registerBroker (server : SentinelServer) (now : Int) (brokerID address : GoString)
    (topics : List GoString) (faults : EtcdFaults)
    : Outcome SentinelServer Ack :=
  if server.mu then .blocked server
  else if (server.brokers.lookup brokerID).isSome then
    .returned server { success := false, errorMessage := lit "Broker已存在" }
  else
    let added := server.addBroker
      { brokerID, address, status := .healthy, topics, lastHeartbeat := now }
    let done (server : SentinelServer) :=
      Outcome.returned (topics.foldl invalidateCache server)
        { success := true, errorMessage := [] : Ack }
    match server.etcdManager with
    | none => done added
    | some etcdManager =>
        -- logged with the mutex held and before the caches are invalidated
        match etcdManager.logOperation faults.log with
        | .blocked etcdManager => .blocked { added with etcdManager, mu := true }
        | .returned etcdManager _ => done { added with etcdManager }

/-- A sign of life of a broker: a new record, or its own record made healthy. -/
def observeBroker (server : SentinelServer) (now : Int) (brokerID address : GoString)
    : SentinelServer :=
  match server.brokers.lookup brokerID with
  | none =>
      server.addBroker
        { brokerID, address, status := .healthy, topics := [], lastHeartbeat := now }
  | some ref =>
      server.modifyRecord ref
        (fun info => { info with address, status := .healthy, lastHeartbeat := now })

def keepAlive (server : SentinelServer) (now : Int) (brokerID address : GoString)
    (lease : Int64) (fault : Option GoError)
    : Outcome SentinelServer Ack :=
  match server.etcdManager with
  | none =>
      if server.mu then .blocked server
      else
        .returned (server.observeBroker now brokerID address)
          { success := true, errorMessage := lit "心跳更新成功" }
  | some etcdManager =>
      match etcdManager.renewBrokerHeartbeat brokerID lease fault with
      | .blocked etcdManager => .blocked { server with etcdManager }
      | .returned etcdManager (some failure) =>
          .returned { server with etcdManager }
            { success := false, errorMessage := lit "心跳处理失败: " ++ failure }
      | .returned etcdManager none =>
          let server := { server with etcdManager }
          if server.mu then .blocked server
          else
            .returned (server.observeBroker now brokerID address)
              { success := true, errorMessage := lit "心跳续约成功" }

/-- The removal itself, with and without etcd. -/
def removeRegistered (server : SentinelServer) (brokerID : GoString)
    : Outcome SentinelServer Ack :=
  if server.mu then .blocked server
  else
    match server.brokers.lookup brokerID with
    | none => .returned server { success := false, errorMessage := lit "Broker不存在" }
    | some ref =>
        .returned (server.dropBroker brokerID (server.record ref).topics)
          { success := true, errorMessage := [] }

def unregisterBroker (server : SentinelServer) (brokerID : GoString) (fault : Option GoError)
    : Outcome SentinelServer Ack :=
  match server.etcdManager with
  | none => server.removeRegistered brokerID
  | some etcdManager =>
      match etcdManager.unregisterBrokerHeartbeat brokerID fault with
      | .blocked etcdManager => .blocked { server with etcdManager }
      | .returned etcdManager (some failure) =>
          .returned { server with etcdManager }
            { success := false, errorMessage := lit "注销broker心跳失败: " ++ failure }
      | .returned etcdManager none => removeRegistered { server with etcdManager } brokerID

/-- A change of a heartbeat key. A value that cannot be decoded has no broker. -/
inductive HeartbeatChange
  | put (broker : Option ReplicaBroker)
  | delete

def handleBrokerHeartbeatChange (server : SentinelServer) (now : Int) (brokerID : GoString)
    (change : HeartbeatChange)
    : Outcome SentinelServer Unit :=
  match change with
  | .put none => .returned server ()
  -- the ID is that of the key; the recovery takes the one of the value
  | .put (some broker) =>
      if server.mu then .blocked server
      else .returned (server.observeBroker now brokerID broker.address) ()
  | .delete =>
      if server.mu then .blocked server
      else if (server.brokers.lookup brokerID).isSome then
        .returned (server.dropBroker brokerID []) ()
      else .returned server ()

def seconds (n : Int) : Int := n * 1000000000

def checkStatus (now : Int) (info : BrokerInfo) : BrokerStatus :=
  let silence := timeSub now info.lastHeartbeat
  match info.status with
  | .healthy => if silence > seconds 60 then .suspicious else .healthy
  | .suspicious =>
      if silence > seconds 120 then .down
      else if silence ≤ seconds 30 then .healthy
      else .suspicious
  | .down => .down

def checkBrokers (server : SentinelServer) (now : Int) : SentinelServer :=
  let refs := server.brokers.entries.map Sigma.snd
  let changed := refs.filter
    (fun ref => checkStatus now (server.record ref) ≠ (server.record ref).status)
  let topics := changed.flatMap (fun ref => (server.record ref).topics)
  let checked := refs.foldl
    (fun server ref =>
      server.modifyRecord ref (fun info => { info with status := checkStatus now info }))
    server
  -- the topics of the brokers whose status changes lose their cache
  topics.foldl invalidateCache checked

def updateBrokerStatus (server : SentinelServer) (brokerIDs : List GoString)
    (status : BrokerStatus)
    : SentinelServer :=
  brokerIDs.foldl
    (fun server brokerID =>
      match server.brokers.lookup brokerID with
      | none => server
      | some ref => server.modifyRecord ref (fun info => { info with status }))
    server

def healthyBroker (server : SentinelServer) (brokerID : GoString) : Option BrokerRef :=
  match server.brokers.lookup brokerID with
  | none => none
  | some ref => if (server.record ref).status = .healthy then some ref else none

/-- The selection loop: as many rounds as replicas are wanted, each passing one node of the
ring.
-/
def selectFrom (server : SentinelServer) : Nat → NodeIterator → List BrokerRef
  | 0, _ => []
  | count + 1, iter =>
      let result := iter.next server.hashRing
      -- the node that comes with an error is dropped
      if result.1.1 = [] ∨ result.1.2.isSome then []
      else
        match server.healthyBroker result.1.1 with
        | none => server.selectFrom count result.2
        | some ref => ref :: server.selectFrom count result.2

def selectBrokers (server : SentinelServer) (topic : GoString) (replicaCount : Nat)
    : List BrokerRef :=
  server.selectFrom replicaCount (server.hashRing.getNodeIter topic)

/-- The replacement loop: on until enough brokers are found or the ring ends. -/
def replaceFrom (server : SentinelServer) (current : List GoString) (needed : Nat)
    (iter : NodeIterator)
    : List BrokerRef :=
  if needed = 0 then []
  else if _ended : (iter.next server.hashRing).1.1 = []
      ∨ (iter.next server.hashRing).1.2.isSome then []
  else if (iter.next server.hashRing).1.1 ∈ current then
    server.replaceFrom current needed (iter.next server.hashRing).2
  else
    match server.healthyBroker (iter.next server.hashRing).1.1 with
    | none => server.replaceFrom current needed (iter.next server.hashRing).2
    | some ref => ref :: server.replaceFrom current (needed - 1) (iter.next server.hashRing).2
termination_by (iter.unseen server.hashRing).card
decreasing_by all_goals exact NodeIterator.unseen_next (fun empty => _ended (Or.inl empty))

/-- A count of a request has 32 bits, for which the list can be allocated. -/
def findReplacementBrokers (server : SentinelServer) (topic : GoString)
    (currentBrokers : List BrokerRef) (neededCount : Nat)
    : List BrokerRef × Option GoError :=
  let current := currentBrokers.map (fun ref => (server.record ref).brokerID)
  let found := server.replaceFrom current neededCount (server.hashRing.getNodeIter topic)
  if found.length < neededCount then
    (found,
      some
        (lit "无法找到足够的健康broker来补充副本，需要 " ++ decimal neededCount
          ++ lit " 个，只找到 " ++ decimal found.length ++ lit " 个"))
  else (found, none)

/-- For any count: a pointer takes 8 bytes, and a list that cannot be allocated panics. -/
def findReplacementBrokers? (server : SentinelServer) (topic : GoString)
    (currentBrokers : List BrokerRef) (neededCount : Int)
    : Option (List BrokerRef × Option GoError) :=
  if neededCount ≤ 0 then some ([], none)
  else if makes 8 neededCount then
    some (server.findReplacementBrokers topic currentBrokers neededCount.toNat)
  else none

variable {server : SentinelServer} {brokerID : GoString} {ref : BrokerRef}

theorem healthyBroker_found (healthy : server.healthyBroker brokerID = some ref)
    : server.brokers.lookup brokerID = some ref ∧ (server.record ref).status = .healthy := by
  unfold healthyBroker at healthy
  cases found : server.brokers.lookup brokerID with
  | none => simp [found] at healthy
  | some other =>
      simp only [found, Option.ite_none_right_eq_some, Option.some.injEq] at healthy
      obtain ⟨status, rfl⟩ := healthy
      exact ⟨rfl, status⟩

/-- The record at a position after the one at another was changed. -/
theorem record_modifyRecord (server : SentinelServer) (changed : BrokerRef)
    (change : BrokerInfo → BrokerInfo) (ref : BrokerRef)
    : (server.modifyRecord changed change).record ref
      = if changed = ref ∧ ref < server.records.length then change (server.record ref)
        else server.record ref := by
  simp only [record, modifyRecord, List.getD_eq_getElem?_getD, List.getElem?_modify]
  by_cases bound : ref < server.records.length
  · simp only [List.getElem?_eq_getElem bound, bound, and_true]
    split <;> rfl
  · simp [bound]

/-- Chosen replicas are registered and healthy. -/
theorem mem_selectFrom {count : Nat} {iter : NodeIterator}
    (member : ref ∈ server.selectFrom count iter)
    : ∃ brokerID, server.healthyBroker brokerID = some ref := by
  induction count generalizing iter with
  | zero => cases member
  | succ count ih =>
      simp only [selectFrom] at member
      split at member
      · cases member
      · split at member
        · exact ih member
        · next chosen healthy =>
            rcases List.mem_cons.mp member with rfl | later
            · exact ⟨_, healthy⟩
            · exact ih later

/-- A single replica is the first node of the ring, if it is registered and healthy. -/
theorem selectBrokers_one {topic : GoString}
    (first : ((server.hashRing.getNodeIter topic).next server.hashRing).1 = (brokerID, none))
    (named : brokerID ≠ []) (healthy : server.healthyBroker brokerID = some ref)
    : server.selectBrokers topic 1 = [ref] := by
  simp [selectBrokers, selectFrom, first, named, healthy]

theorem mem_replaceFrom {current : List GoString} {needed : Nat} {iter : NodeIterator}
    (member : ref ∈ server.replaceFrom current needed iter)
    : ∃ brokerID, server.healthyBroker brokerID = some ref := by
  fun_induction server.replaceFrom current needed iter with
  | case1 => cases member
  | case2 => cases member
  | case3 _ _ _ _ _ ih => exact ih member
  | case4 _ _ _ _ _ _ ih => exact ih member
  | case5 _ _ _ _ _ chosen healthy ih =>
      rcases List.mem_cons.mp member with rfl | later
      · exact ⟨_, healthy⟩
      · exact ih later

end SentinelServer

end Goulette.Sentinel
