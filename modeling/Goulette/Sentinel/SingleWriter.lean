import Goulette.Broker.Deliveries
import Goulette.Sentinel.Leaders

/-! At most one broker leads a topic, as long as everyone who led it before is told to follow when a
generated record names its leader.
-/

namespace Goulette.Sentinel

open Goulette.Go Goulette.Raft Goulette.Storage Goulette.Broker Runs

variable {network : Network} {address topic other : GoString} {broker : BrokerServer}

namespace Network

def leads (network : Network) (address topic : GoString) : Bool :=
  match network.brokers.lookup address with
  | none => false
  | some broker => broker.raftManager.isLeader topic

def SingleWriter (network : Network) : Prop :=
  ∀ topic address other,
    network.leads address topic → network.leads other topic → address = other

def NoNewLeaders (before after : Network) : Prop :=
  ∀ address topic, after.leads address topic → before.leads address topic

theorem NoNewLeaders.refl (network : Network) : NoNewLeaders network network :=
  fun _ _ => id

theorem NoNewLeaders.trans {first second third : Network} (left : NoNewLeaders first second)
    (right : NoNewLeaders second third)
    : NoNewLeaders first third :=
  fun address topic leads => left address topic (right address topic leads)

theorem NoNewLeaders.singleWriter {before after : Network}
    (none : NoNewLeaders before after) (single : before.SingleWriter)
    : after.SingleWriter :=
  fun topic address other first second =>
    single topic address other (none address topic first) (none other topic second)

section Call

variable {R : Type} (network : Network) (address : GoString)
  (handler : BrokerServer → Option (BrokerServer × R))

theorem call_fates : (network.call address handler).1.fates = network.fates.tail := by
  unfold call
  split
  · rfl
  · rfl
  · split <;> rfl

/-- A call does not arrive, is never finished by its handler, or is carried out. -/
theorem call_cases
    : ((network.brokers.lookup address = none ∨ network.fates.headD .answered = .lost)
        ∧ (network.call address handler).1.brokers = network.brokers
        ∧ (network.call address handler).2 = none)
      ∨ ∃ broker,
          network.brokers.lookup address = some broker
          ∧ network.fates.headD .answered ≠ .lost
          ∧ ((handler broker = none
              ∧ (network.call address handler).1.brokers = network.brokers
              ∧ (network.call address handler).2 = none)
            ∨ ∃ next response,
                handler broker = some (next, response)
                ∧ (network.call address handler).1.brokers = network.brokers.insert address next
                ∧ (network.call address handler).2
                  = if network.fates.headD .answered = .answered then some response
                    else none) := by
  unfold call
  cases found : network.brokers.lookup address with
  | none => exact Or.inl ⟨Or.inl rfl, rfl, rfl⟩
  | some broker =>
      cases fate : network.fates.headD .answered with
      | lost => exact Or.inl ⟨Or.inr rfl, rfl, rfl⟩
      | answered | unanswered =>
          refine Or.inr ⟨broker, rfl, by simp, ?_⟩
          simp only
          cases handled : handler broker with
          | none => exact Or.inl ⟨rfl, rfl, rfl⟩
          | some result => exact Or.inr ⟨result.1, result.2, rfl, rfl, rfl⟩

end Call

theorem leads_congr {first second : Network} (same : first.brokers = second.brokers)
    (address topic : GoString)
    : first.leads address topic = second.leads address topic := by
  rw [leads, leads, same]

theorem mem_keys_of_leads (leads : network.leads address topic)
    : address ∈ network.brokers.keys := by
  rw [← AList.mem_keys, ← AList.lookup_isSome]
  unfold Network.leads at leads
  split at leads
  · cases leads
  · next found => rw [found]; rfl

theorem leads_of_lookup (found : network.brokers.lookup address = some broker) (topic : GoString)
    : network.leads address topic = broker.raftManager.isLeader topic := by
  rw [leads, found]

theorem leads_insert {after : Network} {next : BrokerServer}
    (changed : after.brokers = network.brokers.insert address next) (other topic : GoString)
    : after.leads other topic
      = if other = address then next.raftManager.isLeader topic
        else network.leads other topic := by
  rw [leads, changed]
  by_cases here : other = address
  · subst here
    rw [AList.lookup_insert, if_pos rfl]
  · rw [AList.lookup_insert_ne here, if_neg here, leads]

/-- A handler that makes no leader of its broker makes none at all. -/
theorem NoNewLeaders.call {R : Type} (network : Network) (address : GoString)
    {handler : BrokerServer → Option (BrokerServer × R)}
    (modest
      : ∀ broker next response topic,
          handler broker = some (next, response)
          → next.raftManager.isLeader topic
          → broker.raftManager.isLeader topic)
    : NoNewLeaders network (network.call address handler).1 := by
  intro other topic leads
  rcases network.call_cases address handler with
    ⟨_, same, _⟩ | ⟨broker, found, _, ⟨_, same, _⟩ | ⟨next, response, handled, changed, _⟩⟩
  · rwa [leads_congr same] at leads
  · rwa [leads_congr same] at leads
  · rw [leads_insert changed] at leads
    split at leads
    · next here =>
        subst here
        rw [leads_of_lookup found]
        exact modest broker next response topic handled leads
    · exact leads

end Network

theorem isLeader_setTopicRole (broker : BrokerServer) (topic : GoString) (role : TopicRole)
    (followers : List GoString) (leaderAddr other : GoString)
    : (broker.setTopicRole topic role followers leaderAddr).raftManager.isLeader other
      = if other = topic then role == .leader else broker.raftManager.isLeader other := by
  simp only [BrokerServer.setTopicRole, RaftManager.setTopicRole, RaftManager.isLeader]
  by_cases here : other = topic
  · subst here
    rw [AList.lookup_insert, if_pos rfl]
  · rw [AList.lookup_insert_ne here, if_neg here]

theorem isLeader_removeTopic {next : BrokerServer} {now : Int} {reason : GoString}
    {response : RemoveTopicResponse}
    (removed : broker.removeTopic now topic reason = some (next, response))
    (leads : next.raftManager.isLeader other)
    : broker.raftManager.isLeader other := by
  unfold BrokerServer.removeTopic at removed
  split at removed
  · cases removed
    exact leads
  · split at removed
    · cases removed
    · cases removed
      simp only [RaftManager.removeTopic, RaftManager.isLeader] at leads ⊢
      by_cases here : other = topic
      · subst here
        rw [AList.lookup_erase] at leads
        cases leads
      · rwa [AList.lookup_erase_ne here] at leads

theorem isLeader_of_getBrokerTopicRole {brokerID : GoString}
    (reported : broker.getBrokerTopicRole brokerID topic = .ok .leader)
    : broker.raftManager.isLeader topic := by
  unfold BrokerServer.getBrokerTopicRole at reported
  split at reported
  · cases reported
  · split at reported
    · cases reported
    · have role := Except.ok.inj reported
      unfold RaftManager.getTopicRole at role
      unfold RaftManager.isLeader
      cases found : broker.raftManager.clusters.lookup topic with
      | none =>
          rw [found] at role
          cases role
      | some cluster =>
          rw [found] at role
          exact beq_iff_eq.mpr role

namespace Network

variable (network : Network) (topic : GoString)

/-- A role that is set does not arrive, or it is the role of its broker and topic from then on
and is acknowledged if the call is answered.
-/
theorem callSetTopicRole_cases (address : GoString) (role : TopicRole)
    (followers : List GoString) (leaderAddr : GoString)
    : ((network.brokers.lookup address = none ∨ network.fates.headD .answered = .lost)
        ∧ ∀ other onTopic,
            (network.callSetTopicRoleOnBroker address topic role followers leaderAddr).1.leads
                other onTopic
              = network.leads other onTopic)
      ∨ (network.brokers.lookup address ≠ none
        ∧ network.fates.headD .answered ≠ .lost
        ∧ (∀ other onTopic,
            (network.callSetTopicRoleOnBroker address topic role followers leaderAddr).1.leads
                other onTopic
              = if other = address ∧ onTopic = topic then role == .leader
                else network.leads other onTopic)
        ∧ (network.fates.headD .answered = .answered
          → (network.callSetTopicRoleOnBroker address topic role followers leaderAddr).2)) := by
  simp only [callSetTopicRoleOnBroker]
  rcases network.call_cases address
      (fun broker => some (broker.setTopicRole topic role followers leaderAddr, ())) with
    ⟨missing, same, _⟩
      | ⟨broker, found, arrives, ⟨handled, _⟩ | ⟨next, _, handled, changed, result⟩⟩
  · exact Or.inl ⟨missing, leads_congr same⟩
  · cases handled
  · cases handled
    refine Or.inr ⟨by rw [found]; simp, arrives, fun other onTopic => ?_, fun answered => ?_⟩
    · rw [leads_insert changed, isLeader_setTopicRole]
      by_cases here : other = address
      · subst here
        simp [leads_of_lookup found]
      · simp [here]
    · rw [result, if_pos answered]
      rfl

/-- Telling a broker to follow makes no leader, and if the call arrives the broker leads no
more.
-/
theorem callSetTopicRole_follower (address : GoString) (followers : List GoString)
    (leaderAddr : GoString)
    : NoNewLeaders network
        (network.callSetTopicRoleOnBroker address topic .follower followers leaderAddr).1
      ∧ (network.fates.headD .answered ≠ .lost
        → (network.callSetTopicRoleOnBroker address topic .follower followers
            leaderAddr).1.leads address topic = false) := by
  rcases network.callSetTopicRole_cases topic address .follower followers leaderAddr with
    ⟨missing, same⟩ | ⟨_, _, changed, _⟩
  · refine ⟨fun other onTopic leads => by rwa [same] at leads, fun arrives => ?_⟩
    rcases missing with nobody | lost
    · rw [same, leads, nobody]
    · exact absurd lost arrives
  · refine ⟨fun other onTopic leads => ?_, fun _ => by rw [changed, if_pos ⟨rfl, rfl⟩]; rfl⟩
    rw [changed] at leads
    split at leads
    · cases leads
    · exact leads

/-- Telling a broker to lead makes no other leader, and none if the call does not arrive. -/
theorem callSetTopicRole_leader (address : GoString) (followers : List GoString)
    (leaderAddr : GoString) {onTopic : GoString}
    (leads
      : (network.callSetTopicRoleOnBroker address topic .leader followers leaderAddr).1.leads
          other onTopic)
    : network.leads other onTopic
      ∨ (other = address ∧ onTopic = topic
        ∧ network.brokers.lookup address ≠ none
        ∧ network.fates.headD .answered ≠ .lost) := by
  rcases network.callSetTopicRole_cases topic address .leader followers leaderAddr with
    ⟨_, same⟩ | ⟨listens, arrives, changed, _⟩
  · rw [same] at leads
    exact Or.inl leads
  · rw [changed] at leads
    split at leads
    · next here => exact Or.inr ⟨here.1, here.2, listens, arrives⟩
    · exact Or.inl leads

theorem callSetTopicRole_acknowledged (listens : network.brokers.lookup address ≠ none)
    (answered : network.fates.headD .answered = .answered) (role : TopicRole)
    (followers : List GoString) (leaderAddr : GoString)
    : (network.callSetTopicRoleOnBroker address topic role followers leaderAddr).2 := by
  rcases network.callSetTopicRole_cases topic address role followers leaderAddr with
    ⟨nobody | lost, _⟩ | ⟨_, _, _, acknowledged⟩
  · exact absurd nobody listens
  · rw [answered] at lost
    cases lost
  · exact acknowledged answered

/-- Asking for a role is a call that leaves its broker alone. -/
theorem callGetBrokerTopicRole_state (address brokerID : GoString)
    : (network.callGetBrokerTopicRoleOnBroker address brokerID topic).1
      = (network.call address
          (fun broker => some (broker, broker.getBrokerTopicRole brokerID topic))).1 := by
  simp only [callGetBrokerTopicRoleOnBroker]
  split <;> rfl

variable {network topic} in
/-- A role that was found out is the answer of a broker that listens, which stays as it is. -/
theorem callGetBrokerTopicRole_reported {brokerID : GoString} {role : TopicRole}
    (reported : (network.callGetBrokerTopicRoleOnBroker address brokerID topic).2 = some role)
    : ∃ broker,
        network.brokers.lookup address = some broker
        ∧ broker.getBrokerTopicRole brokerID topic = .ok role
        ∧ (network.callGetBrokerTopicRoleOnBroker address brokerID topic).1.brokers
          = network.brokers.insert address broker := by
  rw [callGetBrokerTopicRole_state]
  simp only [callGetBrokerTopicRoleOnBroker] at reported
  split at reported
  · next answer =>
      cases reported
      rcases network.call_cases address
          (fun broker => some (broker, broker.getBrokerTopicRole brokerID topic)) with
        ⟨_, _, none⟩ | ⟨broker, found, _, ⟨handled, _⟩ | ⟨next, response, handled, changed, result⟩⟩
      · rw [none] at answer
        cases answer
      · cases handled
      · cases handled
        rw [result] at answer
        split at answer
        · exact ⟨broker, found, Option.some.inj answer, changed⟩
        · cases answer
  · cases reported

/-- Asking for a role makes no leader, and who reports the role leader leads. -/
theorem callGetBrokerTopicRole_spec (address brokerID : GoString)
    : NoNewLeaders network (network.callGetBrokerTopicRoleOnBroker address brokerID topic).1
      ∧ ((network.callGetBrokerTopicRoleOnBroker address brokerID topic).2 = some .leader
        → (network.callGetBrokerTopicRoleOnBroker address brokerID topic).1.leads address
            topic) := by
  constructor
  · rw [callGetBrokerTopicRole_state]
    refine NoNewLeaders.call network address (fun broker next response other handled leads => ?_)
    cases handled
    exact leads
  · intro reported
    obtain ⟨broker, _, role, changed⟩ := callGetBrokerTopicRole_reported reported
    rw [leads_insert changed, if_pos rfl]
    exact isLeader_of_getBrokerTopicRole role

theorem callRemoveTopic_noNewLeaders (now : Int) (address reason : GoString)
    : NoNewLeaders network (network.callRemoveTopicOnBroker now address topic reason) :=
  NoNewLeaders.call network address
    (fun _ _ _ _ removed leads => isLeader_removeTopic removed leads)

theorem headD_eq_getD (fates : List CallFate)
    : fates.headD .answered = fates.getD 0 .answered := by
  cases fates <;> rfl

theorem getD_tail (fates : List CallFate) (i : Nat)
    : fates.tail.getD i .answered = fates.getD (i + 1) .answered := by
  cases fates <;> rfl

/-- Followers that are told one after another lead no more if their call arrives, by induction
on the followers; each call takes one fate.
-/
theorem foldl_follower (addresses : List GoString) (leaderAddr : GoString)
    (followers : List BrokerInfo) (network : Network)
    : NoNewLeaders network
        (followers.foldl
          (fun network broker =>
            (network.callSetTopicRoleOnBroker broker.address topic .follower addresses
              leaderAddr).1)
          network)
      ∧ ∀ (i : Nat) broker, followers[i]? = some broker
        → network.fates.getD i .answered ≠ .lost
        → (followers.foldl
            (fun network broker =>
              (network.callSetTopicRoleOnBroker broker.address topic .follower addresses
                leaderAddr).1)
            network).leads broker.address topic = false := by
  induction followers generalizing network with
  | nil => exact ⟨NoNewLeaders.refl _, fun i broker found => absurd found (by simp)⟩
  | cons follower rest ih =>
      obtain ⟨none, demoted⟩ :=
        network.callSetTopicRole_follower topic follower.address addresses leaderAddr
      obtain ⟨noneLater, demotedLater⟩ := ih
        (network.callSetTopicRoleOnBroker follower.address topic .follower addresses
          leaderAddr).1
      have fates
          : (network.callSetTopicRoleOnBroker follower.address topic .follower addresses
              leaderAddr).1.fates = network.fates.tail :=
        network.call_fates _ _
      rw [List.foldl_cons]
      refine ⟨none.trans noneLater, ?_⟩
      intro i broker found arrives
      cases i with
      | zero =>
          rw [List.getElem?_cons_zero] at found
          cases found
          rw [← headD_eq_getD] at arrives
          have first := demoted arrives
          exact Bool.eq_false_iff.mpr
            (fun leads => absurd (noneLater _ _ leads) (by rw [first]; simp))
      | succ i =>
          rw [List.getElem?_cons_succ] at found
          refine demotedLater i broker found ?_
          rwa [fates, getD_tail]

section Notify

variable (brokers : List BrokerInfo) (leader : BrokerInfo)

/-- Only the named leader can be a new leader, and only if its call arrives. -/
theorem notify_leads {onTopic : GoString}
    (leads : (network.notifyBrokersSetTopicRole topic brokers leader).leads other onTopic)
    : network.leads other onTopic
      ∨ (other = leader.address ∧ onTopic = topic
        ∧ network.brokers.lookup leader.address ≠ none
        ∧ network.fates.headD .answered ≠ .lost) := by
  unfold notifyBrokersSetTopicRole at leads
  simp only at leads
  split at leads
  · have told := (foldl_follower topic _ leader.address _ _).1 _ _ leads
    exact network.callSetTopicRole_leader topic leader.address _ _ told
  · exact network.callSetTopicRole_leader topic leader.address _ _ leads

/-- Once the leader has acknowledged its role, every follower that is reached leads no more. -/
theorem notify_demotes (listens : network.brokers.lookup leader.address ≠ none)
    (answered : network.fates.headD .answered = .answered) {i : Nat} {broker : BrokerInfo}
    (found : (followersOf brokers leader)[i]? = some broker)
    (arrives : network.fates.getD (i + 1) .answered ≠ .lost)
    : (network.notifyBrokersSetTopicRole topic brokers leader).leads broker.address topic
      = false := by
  unfold notifyBrokersSetTopicRole
  simp only
  rw [if_pos (network.callSetTopicRole_acknowledged topic listens answered _ _ _)]
  refine (foldl_follower topic _ leader.address _ _).2 i broker found ?_
  rwa [callSetTopicRoleOnBroker, call_fates, getD_tail]

/-- Confirming a leader makes none. -/
theorem notify_noNewLeaders (confirmed : network.leads leader.address topic)
    : NoNewLeaders network (network.notifyBrokersSetTopicRole topic brokers leader) := by
  intro other onTopic leads
  rcases network.notify_leads topic brokers leader leads with before | ⟨rfl, rfl, _⟩
  · exact before
  · exact confirmed

end Notify

/-- Searching for the leader makes none, and who is found leads. -/
theorem findLeader_spec (brokers : List BrokerInfo) (network : Network)
    : NoNewLeaders network (network.findLeaderBrokerFromBrokers topic brokers).1
      ∧ ∀ leader, (network.findLeaderBrokerFromBrokers topic brokers).2 = some leader
        → (network.findLeaderBrokerFromBrokers topic brokers).1.leads leader.address topic := by
  induction brokers generalizing network with
  | nil =>
      refine ⟨NoNewLeaders.refl _, fun leader found => ?_⟩
      cases found
  | cons broker rest ih =>
      obtain ⟨none, reports⟩ :=
        network.callGetBrokerTopicRole_spec topic broker.address broker.brokerID
      unfold findLeaderBrokerFromBrokers
      split
      · exact ih network
      · simp only
        split
        · next reported =>
            refine ⟨none, fun leader found => ?_⟩
            cases found
            exact reports reported
        · obtain ⟨noneLater, leadsLater⟩ := ih
            (network.callGetBrokerTopicRoleOnBroker broker.address broker.brokerID topic).1
          exact ⟨none.trans noneLater, leadsLater⟩

theorem findRecordedLeader_noNewLeaders (server : SentinelServer)
    (brokers : List ReplicaBroker) (network : Network)
    : NoNewLeaders network (network.findRecordedLeader server topic brokers).1 := by
  induction brokers generalizing network with
  | nil => exact NoNewLeaders.refl _
  | cons broker rest ih =>
      obtain ⟨none, _⟩ :=
        network.callGetBrokerTopicRole_spec topic broker.address broker.brokerID
      unfold findRecordedLeader
      split
      · exact ih network
      · simp only
        split
        · exact none
        · exact none.trans (ih _)

end Network

open Network

namespace World

variable (world : World)

theorem confirmLeader_noNewLeaders (topic : GoString) (brokers : List BrokerInfo)
    (topics : BrokerInfo → List GoString)
    : NoNewLeaders world.network (world.confirmLeader topic brokers topics).state.network := by
  obtain ⟨none, leads⟩ := findLeader_spec topic brokers world.network
  unfold confirmLeader
  simp only
  split
  · exact none
  · next leader found =>
      exact none.trans (notify_noNewLeaders _ topic brokers leader (leads leader found))

theorem removeFromUnreachable_noNewLeaders (now : Int) (topic : GoString)
    (unreachable : List GoString)
    : NoNewLeaders world.network
        (world.removeFromUnreachable now topic unreachable).network := by
  refine List.foldlRecOn unreachable _ (NoNewLeaders.refl _) (fun network none brokerID _ => ?_)
  split
  · exact none
  · exact none.trans (callRemoveTopic_noNewLeaders network topic now _ _)

/-- Handling unreachable brokers removes the topic from some brokers and confirms a leader. -/
theorem handleUnreachable_noNewLeaders (etcdManager : EtcdManager) (now : Int)
    (topic : GoString) (replicaCount : Nat) (unreachable : List GoString) (faults : EtcdFaults)
    : NoNewLeaders world.network
        (world.handleUnreachableBrokersForLeader etcdManager now topic replicaCount unreachable
          faults).state.network := by
  have removed := world.removeFromUnreachable_noNewLeaders now topic unreachable
  unfold handleUnreachableBrokersForLeader
  simp only
  split
  · exact NoNewLeaders.refl _
  split
  · exact removed
  split
  · exact removed
  split
  · exact removed
  split
  · exact removed
  split
  · exact removed
  · exact removed.trans (confirmLeader_noNewLeaders _ topic _ _)

theorem legacy_noNewLeaders (topic : GoString) (replicaCount : Nat)
    (unreachable : List GoString)
    : NoNewLeaders world.network
        (world.getTopicLeaderLegacy topic replicaCount unreachable).state.network := by
  unfold getTopicLeaderLegacy
  simp only
  split
  · exact NoNewLeaders.refl _
  · exact NoNewLeaders.refl _
  · exact confirmLeader_noNewLeaders _ topic _ _

/-- A new leader takes over safely: it is not reached at all, or it answers and every other
broker that leads the topic is told to follow it.
-/
def TakesOver (network : Network) (topic : GoString) (brokers : List BrokerInfo)
    (leader : BrokerInfo)
    : Prop :=
  network.brokers.lookup leader.address = none
  ∨ network.fates.headD .answered = .lost
  ∨ ∀ address ∈ network.brokers.keys,
      network.leads address topic
      → address ≠ leader.address
      → network.fates.headD .answered = .answered
        ∧ ∃ i < (followersOf brokers leader).length,
            (followersOf brokers leader)[i]?.map BrokerInfo.address = some address
            ∧ network.fates.getD (i + 1) .answered ≠ .lost

instance (network : Network) (topic : GoString) (brokers : List BrokerInfo)
    (leader : BrokerInfo)
    : Decidable (TakesOver network topic brokers leader) :=
  inferInstanceAs (Decidable (_ ∨ _ ∨ ∀ address ∈ _, _ → _ → _ ∧ ∃ i < _, _ ∧ _))

/-- A broker that leads after a takeover led before, or is the new leader. In the second case
every broker that led the topic before is the new leader too, or follows it.
-/
theorem TakesOver.leads {brokers : List BrokerInfo} {leader : BrokerInfo}
    (h : TakesOver network topic brokers leader)
    : NoNewLeaders network (network.notifyBrokersSetTopicRole topic brokers leader)
      ∨ ∀ address,
          (network.notifyBrokersSetTopicRole topic brokers leader).leads address topic
          → address = leader.address := by
  by_cases reached
      : network.brokers.lookup leader.address ≠ none
        ∧ network.fates.headD .answered ≠ .lost
  · obtain ⟨listens, arrives⟩ := reached
    rcases h with missing | lost | others
    · exact absurd missing listens
    · exact absurd lost arrives
    · refine Or.inr (fun address leads => by_contra fun elsewhere => ?_)
      rcases network.notify_leads topic brokers leader leads with before | ⟨same, _⟩
      · obtain ⟨answered, i, _, found, told⟩ :=
          others address (mem_keys_of_leads before) before elsewhere
        obtain ⟨broker, position, rfl⟩ := Option.map_eq_some_iff.mp found
        rw [network.notify_demotes topic brokers leader listens answered position told] at leads
        cases leads
      · exact elsewhere same
  · refine Or.inl (fun address onTopic leads => ?_)
    rcases network.notify_leads topic brokers leader leads with before | ⟨_, _, listens, arrives⟩
    · exact before
    · exact absurd ⟨listens, arrives⟩ reached

/-- Under a safe takeover the topic has a single leader again. -/
theorem TakesOver.singleWriter {brokers : List BrokerInfo} {leader : BrokerInfo}
    (h : TakesOver network topic brokers leader) (single : network.SingleWriter)
    : (network.notifyBrokersSetTopicRole topic brokers leader).SingleWriter := by
  rcases h.leads with none | only
  · exact none.singleWriter single
  · intro onTopic address other first second
    by_cases here : onTopic = topic
    · subst here
      rw [only address first, only other second]
    · -- The other topics keep their leaders.
      have before {address : GoString}
          (leads
            : (network.notifyBrokersSetTopicRole topic brokers leader).leads address onTopic)
          : network.leads address onTopic := by
        rcases network.notify_leads topic brokers leader leads with before | ⟨_, same, _⟩
        · exact before
        · exact absurd same here
      exact single onTopic address other (before first) (before second)

/-- The request generates a new record: there is none, or it is out of date. -/
def generates (etcdManager : EtcdManager) (now : Int) (topic : GoString) (faults : EtcdFaults)
    : Bool :=
  faults.get.isNone && (etcdManager.getTopicReplicas topic).all (expired now)

theorem generate_singleWriter (etcdManager : EtcdManager) (now : Int) (topic : GoString)
    (replicaCount : Nat) (faults : EtcdFaults)
    (takesOver
      : ∀ leader, (world.records (world.sentinel.selectBrokers topic replicaCount)).head?
          = some leader
        → TakesOver world.network topic
            (world.records (world.sentinel.selectBrokers topic replicaCount)) leader)
    (single : world.network.SingleWriter)
    : (world.generateAndStoreTopicLeader etcdManager now topic replicaCount
        faults).state.network.SingleWriter := by
  unfold generateAndStoreTopicLeader
  simp only
  split
  · exact single
  · split
    · exact single
    · split
      · exact single
      · next leader rest chosen =>
          exact (takesOver leader (by rw [chosen]; rfl)).singleWriter single

section FromEtcd

variable {world} {topic : GoString} {etcdManager : EtcdManager} {now : Int} {faults : EtcdFaults}

theorem fromEtcd_of_generates (generating : generates etcdManager now topic faults)
    (replicaCount : Nat)
    : world.getTopicLeaderFromEtcd etcdManager now topic replicaCount faults
      = world.generateAndStoreTopicLeader etcdManager now topic replicaCount faults := by
  obtain ⟨get, old⟩ := Bool.and_eq_true_iff.mp generating
  unfold getTopicLeaderFromEtcd
  rw [Option.isNone_iff_eq_none.mp get]
  cases stored : etcdManager.getTopicReplicas topic with
  | none => rfl
  | some info =>
      rw [stored, Option.all_some] at old
      exact if_pos old

/-- A request on a record that is in use fails at once, waits, or asks the recorded brokers. -/
theorem fromEtcd_of_kept (kept : ¬ generates etcdManager now topic faults) (replicaCount : Nat)
    : (∃ failure,
        world.getTopicLeaderFromEtcd etcdManager now topic replicaCount faults
        = .returned world (.error failure))
      ∨ world.getTopicLeaderFromEtcd etcdManager now topic replicaCount faults = .blocked world
      ∨ ∃ (brokers : List ReplicaBroker) (answer : Except GoError LeaderInfo),
          world.getTopicLeaderFromEtcd etcdManager now topic replicaCount faults
            = .returned
                { world with
                  network :=
                    (world.network.findRecordedLeader world.sentinel topic brokers).1 }
                answer
          ∧ ((world.network.findRecordedLeader world.sentinel topic brokers).2 = none
              → answer = .error (noLeader topic)) := by
  unfold getTopicLeaderFromEtcd
  cases get : faults.get with
  | some failure => exact Or.inl ⟨_, rfl⟩
  | none =>
      cases stored : etcdManager.getTopicReplicas topic with
      | none => exact absurd (by simp [generates, get, stored]) kept
      | some info =>
          have current : ¬ expired now info := by
            intro old
            exact kept (by simp [generates, get, stored, old])
          simp only [if_neg current]
          split
          · exact Or.inl ⟨_, rfl⟩
          split
          · exact Or.inr (Or.inl rfl)
          cases found : (world.network.findRecordedLeader world.sentinel topic info.brokers).2 with
          | none => exact Or.inr (Or.inr ⟨info.brokers, _, rfl, fun _ => rfl⟩)
          | some leader =>
              refine Or.inr (Or.inr ⟨info.brokers, _, rfl, fun absent => ?_⟩)
              rw [found] at absent
              cases absent

/-- A request on a record that is in use only asks. -/
theorem fromEtcd_noNewLeaders (kept : ¬ generates etcdManager now topic faults)
    (replicaCount : Nat)
    : NoNewLeaders world.network
        (world.getTopicLeaderFromEtcd etcdManager now topic replicaCount
          faults).state.network := by
  rcases fromEtcd_of_kept kept replicaCount with
    ⟨failure, early⟩ | waits | ⟨brokers, answer, asks, _⟩
  · rw [early]
    exact NoNewLeaders.refl _
  · rw [waits]
    exact NoNewLeaders.refl _
  · rw [asks]
    exact findRecordedLeader_noNewLeaders topic world.sentinel brokers world.network

end FromEtcd

theorem fromEtcd_singleWriter (etcdManager : EtcdManager) (now : Int) (topic : GoString)
    (replicaCount : Nat) (faults : EtcdFaults)
    (takesOver
      : generates etcdManager now topic faults
        → ∀ leader, (world.records (world.sentinel.selectBrokers topic replicaCount)).head?
            = some leader
          → TakesOver world.network topic
              (world.records (world.sentinel.selectBrokers topic replicaCount)) leader)
    (single : world.network.SingleWriter)
    : (world.getTopicLeaderFromEtcd etcdManager now topic replicaCount
        faults).state.network.SingleWriter := by
  by_cases generating : generates etcdManager now topic faults
  · rw [fromEtcd_of_generates generating]
    exact world.generate_singleWriter etcdManager now topic replicaCount faults
      (takesOver generating) single
  · exact (fromEtcd_noNewLeaders generating replicaCount).singleWriter single

/-- Whenever a request generates a new record for a topic, its new leader takes over safely
from the brokers that lead the topic so far.
-/
def HandsOver (world : World) : Int × SentinelEvent → Prop
  | (now, .getTopicLeader topic replicaCount unreachable fates faults _) =>
      ∀ etcdManager ∈ world.sentinel.etcdManager,
        unreachable = []
        → generates etcdManager now topic faults
        → ∀ leader ∈ (world.records
              (world.sentinel.selectBrokers topic replicaCount.toNat)).head?,
            TakesOver { world.network with fates } topic
              (world.records (world.sentinel.selectBrokers topic replicaCount.toNat)) leader
  | _ => True

instance (world : World) : DecidablePred world.HandsOver := fun action => by
  unfold World.HandsOver
  split <;> infer_instance

def SingleWriter (world : World) : Prop := world.network.SingleWriter

/-- Every event keeps a single leader a topic. -/
theorem SingleWriter.step {event : Int × SentinelEvent} (single : world.SingleWriter)
    (handsOver : world.HandsOver event)
    : (world.step event).SingleWriter := by
  obtain ⟨now, event⟩ := event
  cases event with
  | getTopicLeader topic replicaCount unreachable fates faults remote =>
      have same : Network.SingleWriter { world.network with fates } := single
      unfold SingleWriter World.step
      simp only [getTopicLeader]
      cases etcd : world.sentinel.etcdManager with
      | none => exact (legacy_noNewLeaders _ topic _ unreachable).singleWriter same
      | some etcdManager =>
          simp only
          split
          · next reachable =>
              exact fromEtcd_singleWriter _ etcdManager now topic _ faults
                (handsOver etcdManager etcd reachable) same
          · split
            · exact (handleUnreachable_noNewLeaders _ etcdManager now topic _ unreachable
                faults).singleWriter same
            · unfold forwardToLeader
              split <;> exact same
  | _ => exact single

end World

/-- Single writer: in every run in which new leaders take over safely, at most one broker has
the role leader for a topic.
-/
theorem singleWriter_of_handsOver {world : World} (single : world.SingleWriter)
    {events : List (Int × SentinelEvent)}
    (handsOver : AllSteps World.step World.HandsOver world events)
    : (events.foldl World.step world).SingleWriter :=
  handsOver.invariant (fun world _ allowed single => single.step world allowed) single

def idleBroker (brokerID : GoString) : BrokerServer :=
  .newBrokerServer brokerID dataDir .empty [] 0

theorem idleBroker_isLeader (brokerID topic : GoString)
    : (idleBroker brokerID).raftManager.isLeader topic = false := by
  rw [idleBroker, newBrokerServer_empty (by decide +kernel)]
  rfl

def twoBrokers : World where
  sentinel := .newSentinelServer (some (.newEtcdManager ∅ (some (lit "0"))))
  network := {
    brokers :=
      AList.insert (lit "a") (idleBroker (lit "first"))
        (AList.insert (lit "b") (idleBroker (lit "second")) ∅)
    fates := []
  }

theorem twoBrokers_singleWriter : twoBrokers.SingleWriter := by
  intro topic address other leads
  let none : Network := { brokers := ∅, fates := [] }
  let one : Network :=
    { brokers := none.brokers.insert (lit "b") (idleBroker (lit "second")), fates := [] }
  have second : one.brokers = none.brokers.insert (lit "b") (idleBroker (lit "second")) := rfl
  have first
      : twoBrokers.network.brokers = one.brokers.insert (lit "a") (idleBroker (lit "first")) :=
    rfl
  have onOne := leads_insert second address topic
  have onTwo := leads_insert first address topic
  have idle : none.leads address topic = false := rfl
  rw [idleBroker_isLeader, idle, ite_self] at onOne
  rw [idleBroker_isLeader, onOne, ite_self] at onTwo
  rw [onTwo] at leads
  cases leads

def askLeader : SentinelEvent :=
  .getTopicLeader (lit "t") 1 [] [] .none (.error [])

def reelected : List (Int × SentinelEvent) :=
  [
    (0, .registerBroker (lit "first") (lit "a") [] .none),
    (0, askLeader),
    (301000000000, askLeader)
  ]

theorem singleWriter_reelected
    : AllSteps World.step World.HandsOver twoBrokers reelected
      ∧ (reelected.foldl World.step twoBrokers).network.leads (lit "a") (lit "t")
      ∧ (reelected.foldl World.step twoBrokers).SingleWriter := by
  have run
      : AllSteps World.step World.HandsOver twoBrokers reelected
        ∧ (reelected.foldl World.step twoBrokers).network.leads (lit "a") (lit "t") := by
    decide +kernel
  exact ⟨run.1, run.2, singleWriter_of_handsOver twoBrokers_singleWriter run.1⟩

/-- The leader leaves the table; when its record expires, another broker is chosen. -/
def deposed : List (Int × SentinelEvent) :=
  [
    (0, .registerBroker (lit "first") (lit "a") [] .none),
    (0, askLeader),
    (0, .unregisterBroker (lit "first") none),
    (0, .registerBroker (lit "second") (lit "b") [] .none),
    (301000000000, askLeader)
  ]

/-- The broker that left was never told: both lead. -/
theorem not_singleWriter_deposed : ¬ (deposed.foldl World.step twoBrokers).SingleWriter := by
  intro single
  have both
      : (deposed.foldl World.step twoBrokers).network.leads (lit "a") (lit "t")
        ∧ (deposed.foldl World.step twoBrokers).network.leads (lit "b") (lit "t") := by
    decide +kernel
  exact absurd (single (lit "t") (lit "a") (lit "b") both.1 both.2) (by decide)

end Goulette.Sentinel
