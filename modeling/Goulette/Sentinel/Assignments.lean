import Goulette.Sentinel.Recovery
import Goulette.Sentinel.SingleWriter

/-! Whether a topic gets a leader. A generated record names its leader, but every other way to
answer a request looks for a broker that leads already.
-/

namespace Goulette.Sentinel

open Goulette.Go Goulette.Raft Goulette.Storage Goulette.Broker Network List

variable {address topic : GoString} {unreachable : List GoString} {replicaCount : Nat}
  {etcdManager : EtcdManager} {now : Int} {faults : EtcdFaults}

namespace Network

def OnlyLedBy (network : Network) (topic : GoString) (reported : List GoString) : Prop :=
  ∀ address broker,
    network.brokers.lookup address = some broker
    → broker.raftManager.isLeader topic
    → broker.brokerID ∈ reported

variable {network : Network} {topic : GoString} {reported : List GoString}

section

variable (h : network.OnlyLedBy topic reported)
include h

/-- Handlers that neither make a leader nor rename a broker bring no other leader. -/
theorem OnlyLedBy.call {R : Type} (address : GoString)
    {handler : BrokerServer → Option (BrokerServer × R)}
    (modest
      : ∀ broker next response,
          handler broker = some (next, response)
          → next.brokerID = broker.brokerID
            ∧ (next.raftManager.isLeader topic → broker.raftManager.isLeader topic))
    : (network.call address handler).1.OnlyLedBy topic reported := by
  intro other broker found leads
  rcases network.call_cases address handler with
    ⟨_, same, _⟩ | ⟨called, before, _, ⟨_, same, _⟩ | ⟨next, response, handled, changed, _⟩⟩
  · rw [same] at found
    exact h other broker found leads
  · rw [same] at found
    exact h other broker found leads
  · rw [changed] at found
    by_cases here : other = address
    · subst here
      cases (AList.lookup_insert network.brokers).symm.trans found
      obtain ⟨name, led⟩ := modest called broker response handled
      rw [name]
      exact h other called before (led leads)
    · exact h other broker ((AList.lookup_insert_ne here).symm.trans found) leads

theorem OnlyLedBy.ask (address brokerID : GoString)
    : (network.callGetBrokerTopicRoleOnBroker address brokerID topic).1.OnlyLedBy topic
        reported := by
  rw [callGetBrokerTopicRole_state]
  refine h.call address (fun broker next response handled => ?_)
  cases handled
  exact ⟨rfl, id⟩

theorem OnlyLedBy.remove (now : Int) (address reason : GoString)
    : (network.callRemoveTopicOnBroker now address topic reason).OnlyLedBy topic reported := by
  refine h.call address (fun broker next response removed => ⟨?_, isLeader_removeTopic removed⟩)
  unfold BrokerServer.removeTopic at removed
  split at removed
  · cases removed
    rfl
  · split at removed
    · cases removed
    · cases removed
      rfl

theorem OnlyLedBy.reports {brokerID : GoString}
    (leader : (network.callGetBrokerTopicRoleOnBroker address brokerID topic).2 = some .leader)
    : brokerID ∈ reported := by
  obtain ⟨broker, found, role, _⟩ := callGetBrokerTopicRole_reported leader
  have name : brokerID = broker.brokerID := by
    by_contra other
    rw [BrokerServer.getBrokerTopicRole, if_pos other] at role
    cases role
  rw [name]
  exact h address broker found (isLeader_of_getBrokerTopicRole role)

/-- Among brokers that are not reported no leader is found, by induction on the brokers. -/
theorem OnlyLedBy.findLeader {brokers : List BrokerInfo}
    (others : ∀ broker ∈ brokers, broker.brokerID ∉ reported)
    : (network.findLeaderBrokerFromBrokers topic brokers).2 = none := by
  induction brokers generalizing network with
  | nil => rfl
  | cons broker rest ih =>
      obtain ⟨first, later⟩ := forall_mem_cons.mp others
      unfold findLeaderBrokerFromBrokers
      split
      · exact ih h later
      · simp only
        split
        · next leader => exact absurd (h.reports leader) first
        · exact ih (h.ask broker.address broker.brokerID) later

end

theorem OnlyLedBy.findRecorded (h : network.OnlyLedBy topic []) (server : SentinelServer)
    (brokers : List ReplicaBroker)
    : (network.findRecordedLeader server topic brokers).2 = none := by
  induction brokers generalizing network with
  | nil => rfl
  | cons broker rest ih =>
      unfold findRecordedLeader
      split
      · exact ih h
      · simp only
        split
        · next leader => exact absurd (h.reports leader) not_mem_nil
        · exact ih (h.ask broker.address broker.brokerID)

end Network

namespace SentinelServer

variable {server : SentinelServer} {brokerID : GoString} {ref : BrokerRef}
  {current refs : List BrokerRef}

/-- What is down stays down while brokers are marked. -/
theorem down_updateBrokerStatus (brokerIDs : List GoString)
    (down : (server.record ref).status = .down)
    : ((server.updateBrokerStatus brokerIDs .down).record ref).status = .down := by
  induction brokerIDs generalizing server with
  | nil => exact down
  | cons first rest ih =>
      refine ih ?_
      simp only
      split
      · exact down
      · rw [record_modifyRecord]
        split
        · rfl
        · exact down

/-- A registered broker is down once it was marked, by induction on the marked brokers. -/
theorem marked_down (keyed : server.membership.Keyed) {brokerIDs : List GoString}
    (member : brokerID ∈ brokerIDs) (found : server.brokers.lookup brokerID = some ref)
    : ((server.updateBrokerStatus brokerIDs .down).record ref).status = .down := by
  induction brokerIDs generalizing server with
  | nil => cases member
  | cons first rest ih =>
      have inside : ref < server.records.length := by
        have bound := (List.getElem?_eq_some_iff.mp (keyed brokerID ref found)).1
        simpa [membership] using bound
      rcases mem_cons.mp member with rfl | later
      · refine down_updateBrokerStatus rest ?_
        simp only [found]
        rw [record_modifyRecord, if_pos ⟨rfl, inside⟩]
      · have one := server.membership_updateBrokerStatus [first] .down
        change (((server.updateBrokerStatus [first] .down).updateBrokerStatus rest .down).record
          ref).status = .down
        refine ih (one ▸ keyed) later ?_
        exact (congrArg (fun members => members.brokers.lookup brokerID) one).trans found

/-- Who is still healthy after the reported brokers were marked is not reported. -/
theorem notMem_of_healthy_marked (keyed : server.membership.Keyed)
    (healthy : (server.updateBrokerStatus unreachable .down).healthyBroker brokerID = some ref)
    : brokerID ∉ unreachable := by
  intro member
  obtain ⟨found, status⟩ := healthyBroker_found healthy
  have same := server.membership_updateBrokerStatus unreachable .down
  have before : server.brokers.lookup brokerID = some ref :=
    (congrArg (fun members => members.brokers.lookup brokerID) same).symm.trans found
  rw [marked_down keyed member before] at status
  cases status

/-- A refill that succeeds adds what the replacement loop finds. -/
theorem refill_ok (filled : World.refill server topic current replicaCount = .ok refs)
    : ∃ needed, refs
        = current ++ server.replaceFrom (current.map (fun ref => (server.record ref).brokerID))
            needed (server.hashRing.getNodeIter topic) := by
  unfold World.refill at filled
  split at filled
  · split at filled
    · cases filled
    · next found =>
        cases filled
        simp only [findReplacementBrokers] at found
        split at found
        · cases found
        · cases found
          exact ⟨_, rfl⟩
  · cases filled
    exact ⟨0, by rw [replaceFrom, if_pos rfl, append_nil]⟩

theorem mem_refill (filled : World.refill server topic current replicaCount = .ok refs)
    (member : ref ∈ refs)
    : ref ∈ current ∨ ∃ brokerID, server.healthyBroker brokerID = some ref := by
  obtain ⟨needed, rfl⟩ := refill_ok filled
  exact (mem_append.mp member).imp_right mem_replaceFrom

variable (keyed : server.membership.Keyed)
include keyed

theorem refill_notReported
    (kept
      : ∀ ref ∈ current,
          ((server.updateBrokerStatus unreachable .down).record ref).brokerID ∉ unreachable)
    (filled
      : World.refill (server.updateBrokerStatus unreachable .down) topic current replicaCount
        = .ok refs)
    : ∀ ref ∈ refs,
        ((server.updateBrokerStatus unreachable .down).record ref).brokerID ∉ unreachable := by
  intro ref member
  rcases mem_refill filled member with before | ⟨brokerID, healthy⟩
  · exact kept ref before
  · have keyedMarked := keyed_updateBrokerStatus keyed unreachable .down
    rw [healthy_brokerID keyedMarked healthy]
    exact notMem_of_healthy_marked keyed healthy

theorem stillAvailable_notReported (info : Option TopicReplicaInfo)
    : ∀ ref ∈ World.stillAvailable server info unreachable,
        (server.record ref).brokerID ∉ unreachable := by
  intro ref member
  cases info with
  | none => cases member
  | some info =>
      obtain ⟨broker, _, kept⟩ := mem_filterMap.mp member
      split at kept
      · cases kept
      · next notReported =>
          rw [healthy_brokerID keyed kept]
          exact notReported

theorem replaceUnreachable_notReported
    (replaced
      : (World.replaceUnreachable server topic current replicaCount unreachable).2 = .ok refs)
    : ∀ ref ∈ refs,
        ((World.replaceUnreachable server topic current replicaCount unreachable).1.record
          ref).brokerID ∉ unreachable := by
  by_cases none : unreachable = []
  · intro ref _
    rw [none]
    exact not_mem_nil
  · simp only [World.replaceUnreachable, if_neg none] at replaced ⊢
    split at replaced
    · cases replaced
    · next found filled =>
        have others := refill_notReported keyed
          (fun ref member => of_decide_eq_true (mem_filter.mp member).2) filled
        split at replaced
        · next few =>
            cases replaced
            rw [if_pos few]
            exact others
        · next enough =>
            cases replaced
            rw [if_neg enough]
            exact others

end SentinelServer

def LeaderOutcome.Fails (outcome : LeaderOutcome) : Prop :=
  ∀ state info, outcome ≠ .returned state (.ok info)

namespace World

open SentinelServer

variable {world : World} {topic : GoString} {unreachable : List GoString}

theorem fails_error (world : World) (failure : GoError)
    : LeaderOutcome.Fails (.returned world (.error failure)) := by
  intro state info same
  cases same

theorem fails_blocked (world : World) : LeaderOutcome.Fails (.blocked world) := by
  intro state info same
  cases same

theorem confirmLeader_fails {network : Network} (led : network.OnlyLedBy topic unreachable)
    (sentinel : SentinelServer) {brokers : List BrokerInfo}
    (others : ∀ broker ∈ brokers, broker.brokerID ∉ unreachable)
    (topics : BrokerInfo → List GoString)
    : LeaderOutcome.Fails (confirmLeader ⟨sentinel, network⟩ topic brokers topics) := by
  simp only [confirmLeader, led.findLeader others]
  exact fails_error _ _

/-- Without etcd nobody is ever chosen: the leader has to be found among the replicas. -/
theorem legacy_fails (keyed : world.sentinel.membership.Keyed)
    (led : world.network.OnlyLedBy topic unreachable) (replicaCount : Nat)
    : LeaderOutcome.Fails (world.getTopicLeaderLegacy topic replicaCount unreachable) := by
  have keyedCached
      : (cachedBrokers world.sentinel topic replicaCount).1.membership.Keyed := by
    rw [membership_cachedBrokers]
    exact keyed
  simp only [getTopicLeaderLegacy]
  generalize cachedBrokers world.sentinel topic replicaCount = cached at keyedCached ⊢
  cases replaced : (replaceUnreachable cached.1 topic cached.2 replicaCount unreachable).2 with
  | error failure => exact fails_error _ _
  | ok refs =>
      have others := replaceUnreachable_notReported keyedCached replaced
      cases refs with
      | nil => exact fails_error _ _
      | cons first rest =>
          refine confirmLeader_fails led _ (fun broker member => ?_) _
          obtain ⟨ref, chosen, rfl⟩ := mem_map.mp member
          exact others ref chosen

theorem OnlyLedBy.removeFromUnreachable (led : world.network.OnlyLedBy topic unreachable)
    (now : Int) (brokerIDs : List GoString)
    : (world.removeFromUnreachable now topic brokerIDs).network.OnlyLedBy topic unreachable := by
  refine foldlRecOn (motive := (OnlyLedBy · topic unreachable)) brokerIDs _ led
    (fun network led brokerID _ => ?_)
  split
  · exact led
  · exact led.remove now _ _

/-- With etcd the replicas are chosen anew, and the leader has to be found among them. -/
theorem handleUnreachable_fails (keyed : world.sentinel.membership.Keyed)
    (led : world.network.OnlyLedBy topic unreachable) (etcdManager : EtcdManager) (now : Int)
    (replicaCount : Nat) (faults : EtcdFaults)
    : LeaderOutcome.Fails
        (world.handleUnreachableBrokersForLeader etcdManager now topic replicaCount unreachable
          faults) := by
  have removed := OnlyLedBy.removeFromUnreachable led now unreachable
  have keyedMarked := keyed_updateBrokerStatus keyed unreachable .down
  unfold handleUnreachableBrokersForLeader
  simp only
  split
  · exact fails_blocked _
  split
  · exact fails_error _ _
  split
  · exact fails_error _ _
  next refs filled =>
  split
  · exact fails_error _ _
  split
  · exact fails_error _ _
  split
  · exact fails_blocked _
  · refine confirmLeader_fails removed _ (fun broker member => ?_) _
    obtain ⟨ref, chosen, rfl⟩ := mem_map.mp member
    exact refill_notReported keyed (stillAvailable_notReported keyedMarked _) filled ref chosen

end World

/-! Available brokers. -/

def Network.listens (network : Network) (address brokerID : GoString) : Bool :=
  match network.brokers.lookup address with
  | none => false
  | some broker => broker.brokerID = brokerID

/-- Logging ends: etcd refuses the number at once, or the counter is a number in the spelling that
the transaction compares with.
-/
def EtcdManager.counts (em : EtcdManager) (fault : Option LogFault) : Bool :=
  fault = some .number
  || em.operationID.any
      (fun text => (parseInt text).all (fun currentID => text = formatInt currentID))

/-- Logging returns or waits for ever, as the counter has it; nothing else is looked at. -/
theorem EtcdManager.logOperation_eq {em manager : EtcdManager} (fault : Option LogFault)
    (counter : manager.operationID = em.operationID)
    : manager.logOperation fault
      = match em.counts fault with
        | true => .returned (manager.logOperation fault).state ()
        | false => .blocked (manager.logOperation fault).state := by
  unfold logOperation counts getNextID
  rw [counter]
  by_cases early : fault = some .number
  · simp only [if_pos early, decide_eq_true early, Bool.true_or, Outcome.state]
  simp only [if_neg early, decide_eq_false early, Bool.false_or]
  cases em.operationID with
  | none => rfl
  | some text =>
      simp only [Option.any_some]
      cases parseInt text with
      | none => rfl
      | some currentID =>
          simp only [Option.all_some]
          by_cases plain : text = formatInt currentID
          · simp only [if_pos plain, decide_eq_true plain]
            rfl
          · simp only [if_neg plain, decide_eq_false plain]
            rfl

namespace World

open SentinelServer

def available (world : World) (unreachable : List GoString) (brokerID : GoString) : Bool :=
  match world.sentinel.healthyBroker brokerID with
  | none => false
  | some ref =>
      brokerID ∉ unreachable
      && world.network.listens (world.sentinel.record ref).address brokerID

def Assigned (world : World) (unreachable : List GoString) (outcome : LeaderOutcome) : Prop :=
  ∃ state info,
    outcome = .returned state (.ok info) ∧ world.available unreachable info.brokerID

/-- When a topic whose leaders are all reported gets a leader. With an empty list a new record
is generated and its first broker answers; with reports the request is passed on to another
node, whose answer is taken.
-/
def Assignable (world : World) (now : Int) (topic : GoString) (replicaCount : UInt32)
    (unreachable : List GoString) (faults : EtcdFaults) (remote : Except GoError LeaderInfo)
    : Prop :=
  ∃ etcdManager ∈ world.sentinel.etcdManager,
    (unreachable = []
      ∧ generates etcdManager now topic faults
      ∧ world.sentinel.mu = false
      ∧ etcdManager.counts faults.log
      ∧ ∃ ref ∈ (world.sentinel.selectBrokers topic replicaCount.toNat).head?,
          world.network.listens (world.sentinel.record ref).address
            (world.sentinel.record ref).brokerID)
    ∨ (unreachable ≠ []
      ∧ etcdManager.isLeader = false
      ∧ etcdManager.leaderAddr ≠ []
      ∧ ∃ info ∈ remote.toOption, world.available unreachable info.brokerID)

variable {world : World} {topic : GoString} {unreachable : List GoString}

theorem not_assigned_of_fails {outcome : LeaderOutcome} (fails : outcome.Fails)
    : ¬ world.Assigned unreachable outcome := by
  rintro ⟨state, info, returned, _⟩
  exact fails state info returned

theorem available_chosen (keyed : world.sentinel.membership.Keyed) {ref : BrokerRef}
    (chosen : ref ∈ (world.sentinel.selectBrokers topic replicaCount).head?)
    : world.available [] (world.sentinel.record ref).brokerID
      = world.network.listens (world.sentinel.record ref).address
          (world.sentinel.record ref).brokerID := by
  obtain ⟨brokerID, healthy⟩ := mem_selectFrom (mem_of_mem_head? chosen)
  rw [healthy_brokerID keyed healthy]
  simp [available, healthy]

/-- A generating request waits for ever, or it returns the first chosen broker. -/
theorem generate_outcome (world : World) (etcdManager : EtcdManager) (now : Int)
    (topic : GoString) (replicaCount : Nat) (faults : EtcdFaults)
    : ∃ state,
        world.generateAndStoreTopicLeader etcdManager now topic replicaCount faults
        = if world.sentinel.mu = false ∧ etcdManager.counts faults.log then
            .returned state
              (match (world.sentinel.selectBrokers topic replicaCount).head? with
                | none => .error (noBroker topic)
                | some ref => .ok ((world.sentinel.record ref).toLeader []))
          else .blocked state := by
  unfold generateAndStoreTopicLeader
  cases mu : world.sentinel.mu with
  | true => exact ⟨world, rfl⟩
  | false =>
      simp only [Bool.false_eq_true, if_false, true_and]
      -- Whether the record could be stored does not matter to the counter.
      have logs (manager : EtcdManager)
          (counter : manager.operationID = etcdManager.operationID) :=
        EtcdManager.logOperation_eq faults.log counter
      cases faults.set
      all_goals
        simp only
        rw [logs]
        · cases etcdManager.counts faults.log with
          | false => exact ⟨_, rfl⟩
          | true =>
              cases world.sentinel.selectBrokers topic replicaCount with
              | nil | cons => exact ⟨_, rfl⟩
        · rfl

/-- A generating request assigns a leader exactly if it does not wait for ever and the first
chosen broker answers.
-/
theorem generate_assigned_iff (keyed : world.sentinel.membership.Keyed)
    (etcdManager : EtcdManager) (now : Int) (replicaCount : Nat) (faults : EtcdFaults)
    : world.Assigned []
        (world.generateAndStoreTopicLeader etcdManager now topic replicaCount faults)
      ↔ world.sentinel.mu = false
        ∧ etcdManager.counts faults.log
        ∧ ∃ ref ∈ (world.sentinel.selectBrokers topic replicaCount).head?,
            world.network.listens (world.sentinel.record ref).address
              (world.sentinel.record ref).brokerID := by
  obtain ⟨state, outcome⟩ :=
    world.generate_outcome etcdManager now topic replicaCount faults
  rw [outcome]
  by_cases runs : world.sentinel.mu = false ∧ etcdManager.counts faults.log
  · rw [if_pos runs]
    cases chosen : (world.sentinel.selectBrokers topic replicaCount).head? with
    | none =>
        constructor
        · exact fun assigned => absurd assigned (not_assigned_of_fails (fails_error _ _))
        · rintro ⟨_, _, ref, member, _⟩
          cases member
    | some ref =>
        have named := available_chosen keyed (Option.mem_def.mpr chosen)
        constructor
        · rintro ⟨_, _, same, available⟩
          cases same
          exact ⟨runs.1, runs.2, ref, rfl, named ▸ available⟩
        · rintro ⟨_, _, other, member, listens⟩
          cases member
          exact ⟨state, _, rfl, named.trans listens⟩
  · rw [if_neg runs]
    constructor
    · exact fun assigned => absurd assigned (not_assigned_of_fails (fails_blocked _))
    · rintro ⟨free, counts, _⟩
      exact absurd ⟨free, counts⟩ runs

/-- A record that is in use names replicas, and nobody of them leads. -/
theorem fromEtcd_fails (led : world.network.OnlyLedBy topic [])
    (kept : ¬ generates etcdManager now topic faults) (replicaCount : Nat)
    : LeaderOutcome.Fails
        (world.getTopicLeaderFromEtcd etcdManager now topic replicaCount faults) := by
  rcases fromEtcd_of_kept kept replicaCount with
    ⟨failure, early⟩ | waits | ⟨brokers, answer, asks, unanswered⟩
  · rw [early]
    exact fails_error _ _
  · rw [waits]
    exact fails_blocked _
  · rw [asks, unanswered (led.findRecorded world.sentinel brokers)]
    exact fails_error _ _

variable {now : Int} {replicaCount : UInt32} {faults : EtcdFaults}
  {remote : Except GoError LeaderInfo}

/-- A request that can be served is served, whoever leads the topic. -/
theorem assigned_of_assignable (keyed : world.sentinel.membership.Keyed)
    (assignable : world.Assignable now topic replicaCount unreachable faults remote)
    : world.Assigned unreachable
        (world.getTopicLeader now topic replicaCount unreachable faults remote) := by
  obtain ⟨etcdManager, etcd, ways⟩ := assignable
  unfold getTopicLeader
  rw [Option.mem_def.mp etcd]
  simp only
  rcases ways with ⟨rfl, generating, runs⟩ | ⟨reports, follows, known, info, answer, available⟩
  · rw [if_pos rfl, fromEtcd_of_generates generating]
    exact (generate_assigned_iff keyed etcdManager now _ faults).mpr runs
  · rw [if_neg reports, follows, forwardToLeader, if_neg known]
    cases remote with
    | error failure => cases answer
    | ok found =>
        cases answer
        exact ⟨world, info, rfl, available⟩

/-- If everyone who leads the topic is reported, nothing else is served. -/
theorem assignable_of_assigned (keyed : world.sentinel.membership.Keyed)
    (led : world.network.OnlyLedBy topic unreachable)
    (assigned
      : world.Assigned unreachable
          (world.getTopicLeader now topic replicaCount unreachable faults remote))
    : world.Assignable now topic replicaCount unreachable faults remote := by
  unfold getTopicLeader at assigned
  cases etcd : world.sentinel.etcdManager with
  | none =>
      rw [etcd] at assigned
      exact absurd assigned (not_assigned_of_fails (legacy_fails keyed led _))
  | some etcdManager =>
      rw [etcd] at assigned
      simp only at assigned
      refine ⟨etcdManager, etcd, ?_⟩
      split at assigned
      · next none =>
          subst none
          by_cases generating : generates etcdManager now topic faults
          · rw [fromEtcd_of_generates generating] at assigned
            exact Or.inl ⟨rfl, generating,
              (generate_assigned_iff keyed etcdManager now _ faults).mp assigned⟩
          · exact absurd assigned (not_assigned_of_fails (fromEtcd_fails led generating _))
      split at assigned
      · exact absurd assigned
          (not_assigned_of_fails (handleUnreachable_fails keyed led etcdManager now _ faults))
      · next reports follows =>
          unfold forwardToLeader at assigned
          split at assigned
          · exact absurd assigned (not_assigned_of_fails (fails_error _ _))
          · next known =>
              obtain ⟨state, info, same, available⟩ := assigned
              cases same
              exact Or.inr ⟨reports, Bool.eq_false_iff.mpr follows, known, info, rfl, available⟩

end World

def SentinelEvent.topic? : SentinelEvent → Option GoString
  | .getTopicLeader topic _ _ _ _ _ => some topic
  | _ => none

/-- The joint states of a sentinel and its brokers, with the topics that were queried. Brokers
start without roles; what they do on their own makes nobody a leader. A sentinel may be
started again.
-/
inductive Reachable : List GoString → World → Prop
  | start {etcdManager : Option EtcdManager} {now : Int}
      {operations : Except GoError (List (OperationLog × Option GoError))}
      {heartbeats : Except GoError (List ReplicaBroker)} {started : SentinelServer}
      {network : Network}
      (ran : SentinelServer.start etcdManager now operations heartbeats = some started)
      (idle : ∀ address topic, network.leads address topic = false)
      : Reachable [] ⟨started, network⟩
  | restart {queried : List GoString} {world : World} {etcdManager : Option EtcdManager}
      {now : Int} {operations : Except GoError (List (OperationLog × Option GoError))}
      {heartbeats : Except GoError (List ReplicaBroker)} {started : SentinelServer}
      (before : Reachable queried world)
      (ran : SentinelServer.start etcdManager now operations heartbeats = some started)
      : Reachable queried ⟨started, world.network⟩
  | step {queried : List GoString} {world : World} (before : Reachable queried world)
      (event : Int × SentinelEvent)
      : Reachable (event.2.topic?.toList ++ queried) (world.step event)
  | brokers {queried : List GoString} {world : World} {network : Network}
      (before : Reachable queried world) (roles : NoNewLeaders world.network network)
      : Reachable queried ⟨world.sentinel, network⟩

theorem Reachable.keyed {queried : List GoString} {world : World} (h : Reachable queried world)
    : world.sentinel.membership.Keyed := by
  induction h with
  | start ran idle => exact SentinelServer.keyed_of_start ran
  | restart before ran ih => exact SentinelServer.keyed_of_start ran
  | @step queried world before event ih =>
      obtain ⟨change, _, after⟩ := world.liveChange_step event
      rw [after]
      exact ih.change change
  | brokers before roles ih => exact ih

namespace World

variable {world : World} {topic : GoString} {other : GoString}

theorem generate_leads (elsewhere : other ≠ topic)
    (leads
      : (world.generateAndStoreTopicLeader etcdManager now topic replicaCount
          faults).state.network.leads address other)
    : world.network.leads address other := by
  simp only [generateAndStoreTopicLeader] at leads
  split at leads
  · exact leads
  split at leads
  · exact leads
  split at leads
  · exact leads
  · rcases notify_leads _ topic _ _ leads with before | ⟨_, same, _⟩
    · exact before
    · exact absurd same elsewhere

theorem fromEtcd_leads (elsewhere : other ≠ topic)
    (leads
      : (world.getTopicLeaderFromEtcd etcdManager now topic replicaCount
          faults).state.network.leads address other)
    : world.network.leads address other := by
  by_cases generating : generates etcdManager now topic faults
  · rw [fromEtcd_of_generates generating] at leads
    exact generate_leads elsewhere leads
  · exact fromEtcd_noNewLeaders generating replicaCount address other leads

theorem getTopicLeader_leads {replicaCount : UInt32} {remote : Except GoError LeaderInfo}
    (elsewhere : other ≠ topic)
    (leads
      : (world.getTopicLeader now topic replicaCount unreachable faults
          remote).state.network.leads address other)
    : world.network.leads address other := by
  unfold getTopicLeader at leads
  split at leads
  · exact world.legacy_noNewLeaders topic _ unreachable address other leads
  split at leads
  · exact fromEtcd_leads elsewhere leads
  split at leads
  · exact world.handleUnreachable_noNewLeaders _ now topic _ unreachable faults address other leads
  · unfold forwardToLeader at leads
    split at leads
    · exact leads
    · exact leads

theorem step_leads {event : Int × SentinelEvent} (elsewhere : topic ∉ event.2.topic?)
    (leads : (world.step event).network.leads address topic)
    : world.network.leads address topic := by
  obtain ⟨now, event⟩ := event
  cases event with
  | getTopicLeader queried replicaCount unreachable fates faults remote =>
      have other : topic ≠ queried := by
        rintro rfl
        exact elsewhere rfl
      have before := getTopicLeader_leads other leads
      exact before
  | _ => exact leads

end World

theorem Reachable.unled {queried : List GoString} {world : World} (h : Reachable queried world)
    (never : topic ∉ queried) (address : GoString)
    : ¬ world.network.leads address topic := by
  induction h with
  | start ran idle => simp [idle]
  | restart before ran ih => exact ih never
  | step before event ih =>
      rw [mem_append, Option.mem_toList, not_or] at never
      exact fun leads => ih never.2 (World.step_leads never.1 leads)
  | brokers before roles ih => exact fun leads => ih never (roles address topic leads)

/-- A topic gets a leader if the request is `Assignable`, in every joint state. If the topic was
never queried, or everyone who leads it is reported unreachable, it gets one only then.
-/
theorem assigned_iff_assignable {queried : List GoString} {world : World}
    (reachable : Reachable queried world) (now : Int) (topic : GoString) (replicaCount : UInt32)
    (unreachable : List GoString) (faults : EtcdFaults) (remote : Except GoError LeaderInfo)
    : (world.Assignable now topic replicaCount unreachable faults remote
        → world.Assigned unreachable
            (world.getTopicLeader now topic replicaCount unreachable faults remote))
      ∧ (topic ∉ queried ∨ world.network.OnlyLedBy topic unreachable
        → world.Assigned unreachable
            (world.getTopicLeader now topic replicaCount unreachable faults remote)
        → world.Assignable now topic replicaCount unreachable faults remote) := by
  refine ⟨World.assigned_of_assignable reachable.keyed, fun scope assigned => ?_⟩
  have led : world.network.OnlyLedBy topic unreachable := by
    rcases scope with never | led
    · intro address broker found leads
      rw [← leads_of_lookup found] at leads
      exact absurd leads (reachable.unled never address)
    · exact led
  exact World.assignable_of_assigned reachable.keyed led assigned

def oneIdle : Network where
  brokers := AList.insert (lit "a") (idleBroker (lit "first")) ∅
  fates := []

theorem oneIdle_leads (address topic : GoString) : oneIdle.leads address topic = false := by
  let empty : Network := { brokers := ∅, fates := [] }
  have added
      : oneIdle.brokers = empty.brokers.insert (lit "a") (idleBroker (lit "first")) := rfl
  have idle : empty.leads address topic = false := rfl
  rw [leads_insert added, idleBroker_isLeader, idle, ite_self]

def oneRegistered (etcdManager : Option EtcdManager) : World :=
  World.step ⟨.newSentinelServer etcdManager, oneIdle⟩
    (0, .registerBroker (lit "first") (lit "a") [] .none)

theorem oneRegistered_reachable (etcdManager : Option EtcdManager)
    : Reachable [] (oneRegistered etcdManager) := by
  have ran
      : SentinelServer.start etcdManager 0 (.error []) (.error [])
        = some (.newSentinelServer etcdManager) := by
    cases etcdManager <;> rfl
  exact .step (.start ran oneIdle_leads) (0, .registerBroker (lit "first") (lit "a") [] .none)

/-- The only broker is chosen. -/
theorem oneRegistered_selects (etcdManager : Option EtcdManager) (topic : GoString)
    (ring
      : (oneRegistered etcdManager).sentinel.hashRing
        = (HashRing.newHashRing 150).addNode (lit "first"))
    (healthy : (oneRegistered etcdManager).sentinel.healthyBroker (lit "first") = some 0)
    : (oneRegistered etcdManager).sentinel.selectBrokers topic 1 = [0] := by
  refine SentinelServer.selectBrokers_one ?_ (by decide) healthy
  rw [ring]
  exact NodeIterator.next_addNode_new (by decide) _ _

/-- With etcd the broker becomes the leader of a topic that was never queried. -/
theorem assigned_first
    : (oneRegistered freshEtcd).Assignable 0 (lit "t") 1 [] .none (.error [])
      ∧ (oneRegistered freshEtcd).Assigned []
          ((oneRegistered freshEtcd).getTopicLeader 0 (lit "t") 1 [] .none (.error [])) := by
  have assignable
      : (oneRegistered freshEtcd).Assignable 0 (lit "t") 1 [] .none (.error []) := by
    have chosen := oneRegistered_selects freshEtcd (lit "t") rfl rfl
    refine ⟨_, rfl, Or.inl ⟨rfl, rfl, rfl, by decide +kernel, 0, ?_, by decide +kernel⟩⟩
    exact congrArg List.head? chosen
  exact ⟨assignable,
    (assigned_iff_assignable (oneRegistered_reachable freshEtcd) 0 (lit "t") 1 [] .none
      (.error [])).1 assignable⟩

/-- Without etcd the broker is registered, healthy and answers, but it does not become the
leader.
-/
theorem not_assigned_legacy
    : Reachable [] (oneRegistered none)
      ∧ 1 ≤ ((oneRegistered none).sentinel.brokers.keys.filter
          ((oneRegistered none).available [])).length
      ∧ ¬ (oneRegistered none).Assigned []
          ((oneRegistered none).getTopicLeader 0 (lit "t") 1 [] .none (.error [])) := by
  have answer
      : (match (oneRegistered none).getTopicLeader 0 (lit "t") 1 [] .none (.error []) with
          | .returned _ (.error failure) => some failure
          | .returned _ (.ok _) => none
          | .blocked _ => none) = some (noLeader (lit "t")) := by
    have chosen := oneRegistered_selects none (lit "t") rfl rfl
    have cached
        : World.cachedBrokers (oneRegistered none).sentinel (lit "t") 1
          = (World.storeCache (oneRegistered none).sentinel (lit "t") [0] 1, [0]) :=
      congrArg (fun refs => (World.storeCache _ (lit "t") refs 1, refs)) chosen
    have legacy
        : (oneRegistered none).getTopicLeader 0 (lit "t") 1 [] .none (.error [])
          = (oneRegistered none).getTopicLeaderLegacy (lit "t") 1 [] := rfl
    rw [legacy, World.getTopicLeaderLegacy, cached]
    decide +kernel
  refine ⟨oneRegistered_reachable none, by decide +kernel, ?_⟩
  rintro ⟨state, info, same, _⟩
  rw [same] at answer
  cases answer

end Goulette.Sentinel
