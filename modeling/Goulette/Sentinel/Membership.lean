import Goulette.Sentinel.Leaders

/-! What the events of a sentinel do to its membership: the ring, the table and the names of the
records.
-/

namespace Goulette.Sentinel

open Goulette.Go Goulette.Raft Goulette.Storage

structure Membership where
  hashRing : HashRing
  brokers : GoMap GoString BrokerRef
  names : List GoString

inductive MemberChange
  | keep
  | add (brokerID : GoString)
  | drop (brokerID : GoString)
  | ring (brokerID : GoString)

def Membership.change (members : Membership) : MemberChange → Membership
  | .keep => members
  | .add brokerID => {
      hashRing := members.hashRing.addNode brokerID
      brokers := members.brokers.insert brokerID members.names.length
      names := members.names ++ [brokerID]
    }
  | .drop brokerID =>
      { members with
        hashRing := members.hashRing.removeNode brokerID
        brokers := members.brokers.erase brokerID }
  | .ring brokerID => { members with hashRing := members.hashRing.addNode brokerID }

/-- A change that an event may make: it is about the broker the event names, and only a broker
that is not in the table is added.
-/
def MemberChange.Live (members : Membership) (named : Option GoString) : MemberChange → Prop
  | .keep => True
  | .add brokerID => brokerID ∈ named ∧ brokerID ∉ members.brokers
  | .drop brokerID => brokerID ∈ named
  | .ring _ => False

/-- The table leads to records that carry the name they are found under. -/
def Membership.Keyed (members : Membership) : Prop :=
  ∀ brokerID ref, members.brokers.lookup brokerID = some ref → members.names[ref]? = some brokerID

/-- No change loses the names. -/
theorem Membership.Keyed.change {members : Membership} (h : members.Keyed)
    (change : MemberChange)
    : (members.change change).Keyed := by
  intro other ref found
  cases change with
  | keep | ring => exact h other ref found
  | add brokerID =>
      by_cases here : other = brokerID
      · subst here
        cases (AList.lookup_insert members.brokers).symm.trans found
        exact List.getElem?_concat_length
      · have before := h other ref ((AList.lookup_insert_ne here).symm.trans found)
        have bound : ref < members.names.length := (List.getElem?_eq_some_iff.mp before).1
        exact (List.getElem?_append_left bound).trans before
  | drop brokerID =>
      by_cases here : other = brokerID
      · subst here
        cases (AList.lookup_erase _ members.brokers).symm.trans found
      · exact h other ref ((AList.lookup_erase_ne here).symm.trans found)

namespace SentinelServer

def membership (server : SentinelServer) : Membership where
  hashRing := server.hashRing
  brokers := server.brokers
  names := server.records.map BrokerInfo.brokerID

variable {server old new : SentinelServer} {named : Option GoString}

theorem record_brokerID (keyed : server.membership.Keyed) {brokerID : GoString} {ref : BrokerRef}
    (found : server.brokers.lookup brokerID = some ref)
    : (server.record ref).brokerID = brokerID := by
  have name := keyed brokerID ref found
  obtain ⟨info, stored, rfl⟩ := Option.map_eq_some_iff.mp (List.getElem?_map.symm.trans name)
  rw [record, List.getD_eq_getElem?_getD, stored]
  rfl

theorem healthy_brokerID (keyed : server.membership.Keyed) {brokerID : GoString}
    {ref : BrokerRef} (healthy : server.healthyBroker brokerID = some ref)
    : (server.record ref).brokerID = brokerID :=
  record_brokerID keyed (healthyBroker_found healthy).1

/-- Changes inside a record leave the membership alone. -/
theorem membership_modifyRecord (server : SentinelServer) (ref : BrokerRef)
    {change : BrokerInfo → BrokerInfo} (keeps : ∀ info, (change info).brokerID = info.brokerID)
    : (server.modifyRecord ref change).membership = server.membership := by
  have names
      : (server.records.modify ref change).map BrokerInfo.brokerID
        = server.records.map BrokerInfo.brokerID := by
    apply List.ext_getElem?
    intro i
    rw [List.getElem?_map, List.getElem?_map, List.getElem?_modify]
    cases server.records[i]? with
    | none => rfl
    | some info =>
        by_cases here : ref = i
        · simp [here, keeps]
        · simp [here]
  rw [membership, membership, modifyRecord, names]

theorem membership_foldl {A : Type} {change : SentinelServer → A → SentinelServer}
    (each : ∀ server item, (change server item).membership = server.membership)
    (server : SentinelServer) (items : List A)
    : (items.foldl change server).membership = server.membership := by
  induction items generalizing server with
  | nil => rfl
  | cons item rest ih => exact (ih (change server item)).trans (each server item)

/-- Only the cache changes. -/
theorem invalidateCaches_eq (server : SentinelServer) (topics : List GoString)
    : topics.foldl invalidateCache server
      = { server with
          replicationCache :=
            topics.foldl (fun caches topic => caches.erase topic) server.replicationCache } := by
  induction topics generalizing server with
  | nil => rfl
  | cons topic rest ih => exact ih (server.invalidateCache topic)

theorem membership_invalidateCaches (server : SentinelServer) (topics : List GoString)
    : (topics.foldl invalidateCache server).membership = server.membership := by
  rw [invalidateCaches_eq]
  rfl

theorem membership_addBroker (server : SentinelServer) (info : BrokerInfo)
    : (server.addBroker info).membership = server.membership.change (.add info.brokerID) := by
  simp [membership, addBroker, Membership.change]

theorem membership_dropBroker (server : SentinelServer) (brokerID : GoString)
    (topics : List GoString)
    : (server.dropBroker brokerID topics).membership
      = server.membership.change (.drop brokerID) := by
  have caches := membership_invalidateCaches
    { server with hashRing := server.hashRing.removeNode brokerID } topics
  simp only [membership, Membership.mk.injEq] at caches
  simp only [membership, dropBroker, Membership.change, caches]

theorem membership_updateBrokerStatus (server : SentinelServer) (brokerIDs : List GoString)
    (status : BrokerStatus)
    : (server.updateBrokerStatus brokerIDs status).membership = server.membership := by
  refine membership_foldl (fun server brokerID => ?_) server brokerIDs
  split
  · rfl
  · exact server.membership_modifyRecord _ (fun _ => rfl)

theorem keyed_updateBrokerStatus (keyed : server.membership.Keyed) (brokerIDs : List GoString)
    (status : BrokerStatus)
    : (server.updateBrokerStatus brokerIDs status).membership.Keyed := by
  rw [membership_updateBrokerStatus]
  exact keyed

theorem updateBrokerStatus_etcdManager (server : SentinelServer)
    (brokerIDs : List GoString) (status : BrokerStatus)
    : (server.updateBrokerStatus brokerIDs status).etcdManager = server.etcdManager := by
  unfold updateBrokerStatus
  induction brokerIDs generalizing server with
  | nil => rfl
  | cons brokerID rest ih =>
      rw [List.foldl_cons, ih]
      split <;> rfl

theorem membership_checkBrokers (server : SentinelServer) (now : Int)
    : (server.checkBrokers now).membership = server.membership := by
  refine (membership_invalidateCaches _ _).trans (membership_foldl (fun server ref => ?_) server _)
  exact server.membership_modifyRecord ref (fun _ => rfl)

/-- Between two states at most one change was made that an event may make. -/
def LiveChange (named : Option GoString) (old new : SentinelServer) : Prop :=
  ∃ change,
    MemberChange.Live old.membership named change
    ∧ new.membership = old.membership.change change

theorem LiveChange.keep (same : new.membership = old.membership) : LiveChange named old new :=
  ⟨.keep, trivial, same⟩

theorem LiveChange.frame {middle : SentinelServer} (changed : LiveChange named old middle)
    (same : new.membership = middle.membership)
    : LiveChange named old new := by
  obtain ⟨change, live, after⟩ := changed
  exact ⟨change, live, same.trans after⟩

theorem LiveChange.addBroker (server : SentinelServer) (info : BrokerInfo)
    (fresh : server.brokers.lookup info.brokerID = none)
    : LiveChange (some info.brokerID) server (server.addBroker info) :=
  ⟨.add info.brokerID, ⟨rfl, AList.lookup_eq_none.mp fresh⟩, server.membership_addBroker info⟩

theorem LiveChange.dropBroker (server : SentinelServer) (brokerID : GoString)
    (topics : List GoString)
    : LiveChange (some brokerID) server (server.dropBroker brokerID topics) :=
  ⟨.drop brokerID, rfl, server.membership_dropBroker brokerID topics⟩

variable (server) (now : Int) (brokerID address : GoString)

theorem liveChange_observeBroker
    : LiveChange (some brokerID) server (server.observeBroker now brokerID address) := by
  unfold observeBroker
  cases found : server.brokers.lookup brokerID with
  | none => exact .addBroker server ⟨brokerID, address, .healthy, [], now⟩ found
  | some ref => exact .keep (server.membership_modifyRecord ref (fun _ => rfl))

theorem liveChange_registerBroker (topics : List GoString) (faults : EtcdFaults)
    : LiveChange (some brokerID) server
        (server.registerBroker now brokerID address topics faults).state := by
  simp only [registerBroker]
  split
  · exact .keep rfl
  cases found : server.brokers.lookup brokerID with
  | some ref => exact .keep rfl
  | none =>
      have added
          : LiveChange (some brokerID) server
              (server.addBroker ⟨brokerID, address, .healthy, topics, now⟩) :=
        .addBroker server ⟨brokerID, address, .healthy, topics, now⟩ found
      simp only [Option.isSome_none, Bool.false_eq_true, if_false]
      split
      · exact added.frame (membership_invalidateCaches _ topics)
      split
      · exact added.frame rfl
      · exact added.frame (membership_invalidateCaches _ topics)

theorem liveChange_keepAlive (lease : Int64) (fault : Option GoError)
    : LiveChange (some brokerID) server
        (server.keepAlive now brokerID address lease fault).state := by
  unfold keepAlive
  split
  · split
    · exact .keep rfl
    · exact server.liveChange_observeBroker now brokerID address
  split
  · exact .keep rfl
  · exact .keep rfl
  · simp only
    split
    · exact .keep rfl
    · exact liveChange_observeBroker { server with etcdManager := some _ } now brokerID address

theorem liveChange_removeRegistered
    : LiveChange (some brokerID) server (server.removeRegistered brokerID).state := by
  unfold removeRegistered
  split
  · exact .keep rfl
  split
  · exact .keep rfl
  · exact .dropBroker server brokerID _

theorem liveChange_unregisterBroker (fault : Option GoError)
    : LiveChange (some brokerID) server (server.unregisterBroker brokerID fault).state := by
  unfold unregisterBroker
  split
  · exact server.liveChange_removeRegistered brokerID
  split
  · exact .keep rfl
  · exact .keep rfl
  · exact liveChange_removeRegistered { server with etcdManager := some _ } brokerID

theorem liveChange_heartbeatChange (change : HeartbeatChange)
    : LiveChange (some brokerID) server
        (server.handleBrokerHeartbeatChange now brokerID change).state := by
  unfold handleBrokerHeartbeatChange
  split
  · exact .keep rfl
  · split
    · exact .keep rfl
    · exact server.liveChange_observeBroker now brokerID _
  · split
    · exact .keep rfl
    split
    · exact .dropBroker server brokerID []
    · exact .keep rfl

end SentinelServer

namespace World

variable (world : World) (topic : GoString)

theorem confirmLeader_sentinel (brokers : List BrokerInfo) (topics : BrokerInfo → List GoString)
    : (world.confirmLeader topic brokers topics).state.sentinel = world.sentinel := by
  unfold confirmLeader
  simp only
  split <;> rfl

theorem membership_generate (etcdManager : EtcdManager) (now : Int) (replicaCount : Nat)
    (faults : EtcdFaults)
    : (world.generateAndStoreTopicLeader etcdManager now topic replicaCount
        faults).state.sentinel.membership = world.sentinel.membership := by
  simp only [generateAndStoreTopicLeader]
  repeat' split
  all_goals rfl

theorem membership_fromEtcd (etcdManager : EtcdManager) (now : Int) (replicaCount : Nat)
    (faults : EtcdFaults)
    : (world.getTopicLeaderFromEtcd etcdManager now topic replicaCount
        faults).state.sentinel.membership = world.sentinel.membership := by
  have generated := world.membership_generate topic etcdManager now replicaCount faults
  unfold getTopicLeaderFromEtcd
  simp only
  repeat' split
  all_goals first | exact generated | rfl

theorem membership_handleUnreachable (etcdManager : EtcdManager) (now : Int)
    (replicaCount : Nat) (unreachable : List GoString) (faults : EtcdFaults)
    : (world.handleUnreachableBrokersForLeader etcdManager now topic replicaCount unreachable
        faults).state.sentinel.membership = world.sentinel.membership := by
  have marked := world.sentinel.membership_updateBrokerStatus unreachable .down
  unfold handleUnreachableBrokersForLeader
  simp only
  split
  · rfl
  repeat' split
  all_goals first | exact marked | (rw [confirmLeader_sentinel]; exact marked)

theorem membership_cachedBrokers (server : SentinelServer) (replicaCount : Nat)
    : (cachedBrokers server topic replicaCount).1.membership = server.membership := by
  unfold cachedBrokers
  simp only
  repeat' split
  all_goals rfl

theorem membership_replaceUnreachable (server : SentinelServer) (current : List BrokerRef)
    (replicaCount : Nat) (unreachable : List GoString)
    : (replaceUnreachable server topic current replicaCount unreachable).1.membership
      = server.membership := by
  have marked := server.membership_updateBrokerStatus unreachable .down
  unfold replaceUnreachable
  simp only
  split
  · rfl
  repeat' split
  all_goals exact marked

theorem membership_legacy (replicaCount : Nat) (unreachable : List GoString)
    : (world.getTopicLeaderLegacy topic replicaCount unreachable).state.sentinel.membership
      = world.sentinel.membership := by
  have chosen := (membership_replaceUnreachable topic
    (cachedBrokers world.sentinel topic replicaCount).1
    (cachedBrokers world.sentinel topic replicaCount).2 replicaCount unreachable).trans
    (membership_cachedBrokers topic world.sentinel replicaCount)
  unfold getTopicLeaderLegacy
  simp only
  split
  · exact chosen
  · exact chosen
  · rw [confirmLeader_sentinel]
    exact chosen

/-- Requests for a leader leave the membership alone. -/
theorem membership_getTopicLeader (now : Int) (replicaCount : UInt32)
    (unreachable : List GoString) (faults : EtcdFaults) (remote : Except GoError LeaderInfo)
    : (world.getTopicLeader now topic replicaCount unreachable faults
        remote).state.sentinel.membership = world.sentinel.membership := by
  unfold getTopicLeader
  split
  · exact world.membership_legacy topic _ unreachable
  split
  · exact world.membership_fromEtcd topic _ now _ faults
  split
  · exact world.membership_handleUnreachable topic _ now _ unreachable faults
  · unfold forwardToLeader
    split <;> rfl

end World

def SentinelEvent.brokerID? : SentinelEvent → Option GoString
  | .registerBroker brokerID _ _ _ => some brokerID
  | .keepAlive brokerID _ _ _ => some brokerID
  | .unregisterBroker brokerID _ => some brokerID
  | .heartbeatChange brokerID _ => some brokerID
  | .checkBrokers => none
  | .checkLeader _ _ => none
  | .getTopicLeader .. => none

/-- An event changes the membership at most by the broker it names. -/
theorem World.liveChange_step (world : World) (event : Int × SentinelEvent)
    : SentinelServer.LiveChange event.2.brokerID? world.sentinel (world.step event).sentinel := by
  obtain ⟨now, event⟩ := event
  cases event with
  | registerBroker brokerID address topics faults =>
      exact world.sentinel.liveChange_registerBroker now brokerID address topics faults
  | keepAlive brokerID address lease fault =>
      exact world.sentinel.liveChange_keepAlive now brokerID address lease fault
  | unregisterBroker brokerID fault =>
      exact world.sentinel.liveChange_unregisterBroker brokerID fault
  | checkBrokers => exact .keep (world.sentinel.membership_checkBrokers now)
  | heartbeatChange brokerID change =>
      exact world.sentinel.liveChange_heartbeatChange now brokerID change
  | checkLeader isLeader leaderAddr => exact .keep rfl
  | getTopicLeader topic replicaCount unreachable fates faults remote =>
      exact .keep (membership_getTopicLeader _ topic now replicaCount unreachable faults remote)

/-- An invariant of the membership that the changes of the events keep holds after every run,
by induction on the events.
-/
theorem World.membership_run {holds : Membership → Prop} {events : List (Int × SentinelEvent)}
    (keep
      : ∀ event ∈ events, ∀ members change,
          MemberChange.Live members event.2.brokerID? change
          → holds members
          → holds (members.change change))
    {world : World} (start : holds world.sentinel.membership)
    : holds (events.foldl World.step world).sentinel.membership := by
  induction events generalizing world with
  | nil => exact start
  | cons event rest ih =>
      obtain ⟨change, live, after⟩ := world.liveChange_step event
      obtain ⟨first, later⟩ := List.forall_mem_cons.mp keep
      refine ih later ?_
      rw [after]
      exact first _ change live start

end Goulette.Sentinel
