import Goulette.Sentinel.Placement
import Goulette.Storage.Replication

/-! The assignment of a topic's successor in `sentinel/server.go`. Every request takes index and
count from the table it meets, and the index is always the last one.
-/

namespace Goulette.Sentinel

open Goulette.Go Goulette.Storage OwnedSlots Rounds List

structure ReplicationRequest where
  topic : GoString
  targetBrokerID : GoString
  targetBrokerAddress : GoString
  replicaIndex : UInt64
  totalReplicas : UInt64
deriving DecidableEq, Repr

namespace SentinelServer

def healthyHolder (server : SentinelServer) (topic : GoString) (ref : BrokerRef) : Bool :=
  decide ((server.record ref).status = .healthy) && decide (topic ∈ (server.record ref).topics)

def otherHolders (server : SentinelServer) (brokerID topic : GoString) : List BrokerRef :=
  (server.brokers.entries.map Sigma.snd).filter
    (fun ref => server.healthyHolder topic ref && decide ((server.record ref).brokerID ≠ brokerID))

def currentReplicas (server : SentinelServer) (topic : GoString) : UInt64 :=
  UInt64.ofNat ((server.brokers.entries.map Sigma.snd).countP (server.healthyHolder topic))

def replicationRequest (server : SentinelServer) (topic targetBrokerID : GoString)
    (target : BrokerRef)
    : ReplicationRequest where
  topic
  targetBrokerID
  targetBrokerAddress := (server.record target).address
  replicaIndex := server.currentReplicas topic - 1
  totalReplicas := server.currentReplicas topic

end SentinelServer

def callRequestFragmentReplication (states : Nat → SentinelServer) (k : Nat)
    (topic targetBrokerID : GoString)
    : Except GoError ReplicationRequest :=
  match (states k).brokers.lookup targetBrokerID with
  | none => .error (lit "目标 broker " ++ targetBrokerID ++ lit " 不存在")
  -- the replicas are counted in the next state
  | some target => .ok ((states (k + 1)).replicationRequest topic targetBrokerID target)

def requestAll (states : Nat → SentinelServer) (topic targetBrokerID : GoString)
    : Nat → List BrokerRef → List (GoString × Except GoError ReplicationRequest)
  | _, [] => []
  | k, peer :: rest =>
      (((states k).record peer).address,
          callRequestFragmentReplication states k topic targetBrokerID)
        :: requestAll states topic targetBrokerID (k + 2) rest

def SentinelServer.findSuccessor (server : SentinelServer) (topic : GoString)
    (currentBrokers : List BrokerRef)
    : Except GoError GoString :=
  match server.findReplacementBrokers topic currentBrokers 1 with
  | (_, some failure) => .error (lit "未找到可用继承人: " ++ failure)
  | ([], none) => .error (lit "未找到可用继承人: <nil>")
  | (successor :: _, none) => .ok (server.record successor).brokerID

/-- Peers are collected in the first state, and the successor is searched in the second. -/
def findAndAssignTopicSuccessor (states : Nat → SentinelServer) (brokerID topic : GoString)
    : Except GoError (List (GoString × Except GoError ReplicationRequest)) :=
  let currentBrokers := (states 0).otherHolders brokerID topic
  match (states 1).findSuccessor topic currentBrokers with
  | .error failure => .error failure
  | .ok successor => .ok (requestAll states topic successor 2 currentBrokers)

def sentRequests (states : Nat → SentinelServer) (brokerID topic : GoString)
    : List (GoString × ReplicationRequest) :=
  match findAndAssignTopicSuccessor states brokerID topic with
  | .error _ => []
  | .ok calls =>
      calls.filterMap (fun call => call.2.toOption.map (fun request => (call.1, request)))

def countingStates (states : Nat → SentinelServer) (targetBrokerID : GoString)
    : Nat → List BrokerRef → List SentinelServer
  | _, [] => []
  | k, _ :: rest =>
      if ((states k).brokers.lookup targetBrokerID).isSome then
        states (k + 1) :: countingStates states targetBrokerID (k + 2) rest
      else countingStates states targetBrokerID (k + 2) rest

/-- The states in which a request is made during the whole call; none without a successor. -/
def requestStates (states : Nat → SentinelServer) (brokerID topic : GoString)
    : List SentinelServer :=
  let currentBrokers := (states 0).otherHolders brokerID topic
  match (states 1).findSuccessor topic currentBrokers with
  | .error _ => []
  | .ok successor => countingStates states successor 2 currentBrokers

section Found

variable {states : Nat → SentinelServer} {brokerID topic successor : GoString}
  {currentBrokers : List BrokerRef}
  (peers : (states 0).otherHolders brokerID topic = currentBrokers)
  (found : (states 1).findSuccessor topic currentBrokers = .ok successor)

include peers found

theorem findAndAssignTopicSuccessor_found
    : findAndAssignTopicSuccessor states brokerID topic
      = .ok (requestAll states topic successor 2 currentBrokers) := by
  simp only [findAndAssignTopicSuccessor, peers, found]

theorem requestStates_found
    : requestStates states brokerID topic = countingStates states successor 2 currentBrokers := by
  simp only [requestStates, peers, found]

end Found

theorem countingStates_singleton {states : Nat → SentinelServer} {targetBrokerID : GoString}
    {k : Nat} (known : ((states k).brokers.lookup targetBrokerID).isSome) (peer : BrokerRef)
    : countingStates states targetBrokerID k [peer] = [states (k + 1)] := by
  rw [countingStates, if_pos known, countingStates]

def share (request : ReplicationRequest) : UInt64 × UInt64 :=
  (request.replicaIndex, request.totalReplicas)

def SentinelServer.lastShare (server : SentinelServer) (topic : GoString) : UInt64 × UInt64 :=
  (server.currentReplicas topic - 1, server.currentReplicas topic)

theorem shares_requestAll (states : Nat → SentinelServer) (topic targetBrokerID : GoString)
    (k : Nat) (peers : List BrokerRef)
    : ((requestAll states topic targetBrokerID k peers).filterMap
          (fun call => call.2.toOption.map (fun request => (call.1, request)))).map
        (fun sent => share sent.2)
      = (countingStates states targetBrokerID k peers).map
          (fun server => server.lastShare topic) := by
  induction peers generalizing k with
  | nil => rfl
  | cons peer rest ih =>
      have later := ih (k + 2)
      simp only [requestAll, countingStates, callRequestFragmentReplication]
      cases found : (states k).brokers.lookup targetBrokerID with
      | none => exact later
      | some target => exact congrArg (List.cons _) later

theorem shares_sentRequests (states : Nat → SentinelServer) (brokerID topic : GoString)
    : (sentRequests states brokerID topic).map (fun sent => share sent.2)
      = (requestStates states brokerID topic).map (fun server => server.lastShare topic) := by
  simp only [sentRequests, findAndAssignTopicSuccessor, requestStates]
  cases (states 1).findSuccessor topic ((states 0).otherHolders brokerID topic) with
  | error failure => rfl
  | ok successor => exact shares_requestAll states topic successor 2 _

def selectedIDs (fm : FragmentManager) (request : ReplicationRequest) : List Nat :=
  match
    fm.selectFragmentsForReplication request.topic request.replicaIndex request.totalReplicas with
  | none => []
  | some fragments => fragments.map Fragment.id

/-- No request asks for a share of nothing, no fragment is sent twice and none is left out. -/
structure Covered (stores : GoString → FragmentManager) (ids : List Nat)
    (requests : List (GoString × ReplicationRequest))
    : Prop where
  counted : ∀ sent ∈ requests, sent.2.totalReplicas ≠ 0
  disjoint
    : (requests.map (fun sent => selectedIDs (stores sent.1) sent.2)).Pairwise List.Disjoint
  complete : ∀ id ∈ ids, ∃ sent ∈ requests, id ∈ selectedIDs (stores sent.1) sent.2

/-- Parts of a list are disjoint and cover it exactly if every element is in one of them. -/
theorem disjoint_and_cover_iff {A : Type} (takes : A → Nat → Bool) (items : List A) (ids : List Nat)
    : ((items.map (fun item => ids.filter (takes item))).Pairwise List.Disjoint
        ∧ ∀ id ∈ ids, ∃ item ∈ items, id ∈ ids.filter (takes item))
      ↔ ∀ id ∈ ids, items.countP (fun item => takes item id) = 1 := by
  have atMost
      : (items.map (fun item => ids.filter (takes item))).Pairwise List.Disjoint
        ↔ ∀ id ∈ ids, items.countP (fun item => takes item id) ≤ 1 := by
    induction items with
    | nil => simp
    | cons first rest ih =>
        rw [map_cons, pairwise_cons, ih]
        constructor
        · rintro ⟨apart, few⟩ id member
          rw [countP_cons]
          by_cases taken : takes first id = true
          · have none : rest.countP (fun item => takes item id) = 0 := by
              refine countP_eq_zero.mpr (fun item inRest also => ?_)
              exact apart _ (mem_map_of_mem inRest)
                (mem_filter.mpr ⟨member, taken⟩) (mem_filter.mpr ⟨member, also⟩)
            simp [taken, none]
          · simpa [taken] using few id member
        · intro few
          refine ⟨?_, fun id member => ?_⟩
          · intro part inParts id inFirst inPart
            obtain ⟨item, inRest, rfl⟩ := mem_map.mp inParts
            obtain ⟨member, taken⟩ := mem_filter.mp inFirst
            have bound := few id member
            have positive : 0 < rest.countP (fun item => takes item id) :=
              countP_pos_iff.mpr ⟨item, inRest, (mem_filter.mp inPart).2⟩
            rw [countP_cons, if_pos taken] at bound
            omega
          · have bound := few id member
            rw [countP_cons] at bound
            omega
  rw [atMost]
  constructor
  · rintro ⟨few, some⟩ id member
    obtain ⟨item, inItems, taken⟩ := some id member
    have positive : 0 < items.countP (fun item => takes item id) :=
      countP_pos_iff.mpr ⟨item, inItems, (mem_filter.mp taken).2⟩
    have bound := few id member
    omega
  · intro exact'
    refine ⟨fun id member => Nat.le_of_eq (exact' id member), fun id member => ?_⟩
    have positive : 0 < items.countP (fun item => takes item id) := by
      rw [exact' id member]
      exact Nat.one_pos
    obtain ⟨item, inItems, taken⟩ := countP_pos_iff.mp positive
    exact ⟨item, inItems, mem_filter.mpr ⟨member, taken⟩⟩

/-- The last residue class consists of the predecessors of the multiples. -/
theorem mod_eq_pred_iff {n : Nat} (positive : 0 < n) (id : Nat) : id % n = n - 1 ↔ n ∣ id + 1 := by
  have split := Nat.div_add_mod id n
  have small := Nat.mod_lt id positive
  constructor
  · intro last
    refine ⟨id / n + 1, ?_⟩
    rw [Nat.mul_add]
    omega
  · intro divides
    have rest : n ∣ id % n + 1 := by
      have whole : n ∣ n * (id / n) + (id % n + 1) := by rwa [← Nat.add_assoc, split]
      exact (Nat.dvd_add_right (Dvd.intro _ rfl)).mp whole
    have atLeast := Nat.le_of_dvd (Nat.succ_pos _) rest
    omega

/-- Every request finds a healthy holder of the topic, and for every fragment exactly one request
finds a number of healthy holders that divides the number behind the fragment's.
-/
def SplitOnce (topic : GoString) (ids : List Nat) (servers : List SentinelServer) : Prop :=
  (∀ server ∈ servers, server.currentReplicas topic ≠ 0)
  ∧ ∀ id ∈ ids,
      servers.countP (fun server => decide ((server.currentReplicas topic).toNat ∣ id + 1)) = 1

/-- What a peer selects, by its fragments' numbers. -/
theorem selectedIDs_eq {fm : FragmentManager} {request : ReplicationRequest} {ids : List Nat}
    (same : (fm.listed request.topic).map Fragment.id = ids) (counted : request.totalReplicas ≠ 0)
    : selectedIDs fm request
      = ids.filter (fun id => id % request.totalReplicas.toNat = request.replicaIndex.toNat) := by
  rw [selectedIDs, FragmentManager.selectFragmentsForReplication,
    if_neg (fun zero => counted zero.1), ← same, filter_map]
  rfl

theorem topic_of_mem_requestAll {states : Nat → SentinelServer} {topic targetBrokerID : GoString}
    {k : Nat} {peers : List BrokerRef} {address : GoString} {request : ReplicationRequest}
    (member : (address, .ok request) ∈ requestAll states topic targetBrokerID k peers)
    : request.topic = topic := by
  induction peers generalizing k with
  | nil => cases member
  | cons peer rest ih =>
      rcases mem_cons.mp member with first | later
      · obtain ⟨_, made⟩ := Prod.mk.inj first
        unfold callRequestFragmentReplication at made
        cases found : (states k).brokers.lookup targetBrokerID with
        | none => simp [found] at made
        | some target =>
            simp only [found, Except.ok.injEq] at made
            rw [made]
            rfl
      · exact ih later

theorem topic_of_mem_sentRequests {states : Nat → SentinelServer} {brokerID topic : GoString}
    {sent : GoString × ReplicationRequest} (member : sent ∈ sentRequests states brokerID topic)
    : sent.2.topic = topic := by
  simp only [sentRequests, findAndAssignTopicSuccessor] at member
  cases found : (states 1).findSuccessor topic ((states 0).otherHolders brokerID topic) with
  | error failure => simp [found] at member
  | ok successor =>
      simp only [found] at member
      obtain ⟨⟨address, outcome⟩, inCalls, result⟩ := mem_filterMap.mp member
      cases outcome with
      | error failure => cases result
      | ok request =>
          cases result
          exact topic_of_mem_requestAll inCalls

theorem lastShare_takes {count : UInt64} (counted : count ≠ 0) (id : Nat)
    : decide (id % count.toNat = (count - 1).toNat) = decide (count.toNat ∣ id + 1) := by
  have positive : 0 < count.toNat :=
    Nat.pos_of_ne_zero (fun zero => counted (UInt64.toNat_inj.mp zero))
  have index : (count - 1).toNat = count.toNat - 1 :=
    UInt64.toNat_sub_of_le _ _ (UInt64.le_iff_toNat_le.mpr positive)
  rw [index]
  exact decide_eq_decide.mpr (mod_eq_pred_iff positive id)

/-- The fragments of a topic are sent, each once, exactly if the numbers of healthy holders that
the requests find split them.
-/
theorem covered_iff (states : Nat → SentinelServer) (brokerID topic : GoString)
    (stores : GoString → FragmentManager) {ids : List Nat}
    (same
      : ∀ sent ∈ sentRequests states brokerID topic,
          ((stores sent.1).listed topic).map Fragment.id = ids)
    : Covered stores ids (sentRequests states brokerID topic)
      ↔ SplitOnce topic ids (requestStates states brokerID topic) := by
  have shares := shares_sentRequests states brokerID topic
  have counts
      : (∀ sent ∈ sentRequests states brokerID topic, sent.2.totalReplicas ≠ 0)
        ↔ ∀ server ∈ requestStates states brokerID topic, server.currentReplicas topic ≠ 0 := by
    calc
      _ ↔ ∀ pair ∈ (sentRequests states brokerID topic).map (fun sent => share sent.2),
            pair.2 ≠ 0 := forall_mem_map.symm
      _ ↔ ∀ pair ∈ (requestStates states brokerID topic).map (fun server => server.lastShare topic),
            pair.2 ≠ 0 := by rw [shares]
      _ ↔ _ := forall_mem_map
  by_cases counted
      : ∀ server ∈ requestStates states brokerID topic, server.currentReplicas topic ≠ 0
  · -- the parts and the counts are both read off the shares of the requests
    let takes (pair : UInt64 × UInt64) (id : Nat) : Bool := id % pair.2.toNat = pair.1.toNat
    have parts
        : (sentRequests states brokerID topic).map
            (fun sent => selectedIDs (stores sent.1) sent.2)
          = ((sentRequests states brokerID topic).map (fun sent => share sent.2)).map
              (fun pair => ids.filter (takes pair)) := by
      rw [map_map]
      refine map_congr_left (fun sent member => ?_)
      refine selectedIDs_eq ?_ (counts.mpr counted sent member)
      rw [topic_of_mem_sentRequests member]
      exact same sent member
    have exactly := disjoint_and_cover_iff takes
      ((sentRequests states brokerID topic).map (fun sent => share sent.2)) ids
    have counting (id : Nat)
        : ((sentRequests states brokerID topic).map (fun sent => share sent.2)).countP
            (fun pair => takes pair id)
          = (requestStates states brokerID topic).countP
              (fun server => decide ((server.currentReplicas topic).toNat ∣ id + 1)) := by
      rw [shares, countP_map]
      refine countP_congr (fun server member => ?_)
      rw [← lastShare_takes (counted server member)]
      rfl
    have cover (id : Nat)
        : (∃ sent ∈ sentRequests states brokerID topic, id ∈ selectedIDs (stores sent.1) sent.2)
          ↔ ∃ pair ∈ (sentRequests states brokerID topic).map (fun sent => share sent.2),
              id ∈ ids.filter (takes pair) := by
      calc
        _ ↔ ∃ part ∈ (sentRequests states brokerID topic).map
              (fun sent => selectedIDs (stores sent.1) sent.2), id ∈ part := by
            simp only [mem_map, exists_exists_and_eq_and]
        _ ↔ ∃ part ∈ ((sentRequests states brokerID topic).map (fun sent => share sent.2)).map
              (fun pair => ids.filter (takes pair)), id ∈ part := by rw [parts]
        _ ↔ _ := by simp only [mem_map, exists_exists_and_eq_and]
    constructor
    · intro covered
      refine ⟨counted, fun id member => ?_⟩
      rw [← counting]
      exact exactly.mp ⟨parts ▸ covered.disjoint, fun id member =>
        (cover id).mp (covered.complete id member)⟩ id member
    · rintro ⟨_, once⟩
      obtain ⟨apart, complete⟩ := exactly.mpr (fun id member => by rw [counting, once id member])
      exact {
        counted := counts.mpr counted
        disjoint := parts ▸ apart
        complete := fun id member => (cover id).mpr (complete id member)
      }
  · exact ⟨fun covered => absurd (counts.mp covered.counted) counted,
      fun split => absurd split.1 counted⟩

/-- Several requests that count alike leave a fragment out or send one twice. -/
theorem not_splitOnce_of_alike {topic : GoString} {servers : List SentinelServer}
    (several : 2 ≤ servers.length) {count : UInt64}
    (alike : ∀ server ∈ servers, server.currentReplicas topic = count) (last : Nat)
    : ¬SplitOnce topic (List.range (last + 1)) servers := by
  rintro ⟨_, once⟩
  have single := once 0 (mem_range.mpr (Nat.succ_pos last))
  by_cases takes : count.toNat ∣ 0 + 1
  · rw [countP_eq_length.mpr
      (fun server member => decide_eq_true (alike server member ▸ takes))] at single
    omega
  · rw [countP_eq_zero.mpr
      (fun server member => by simpa only [alike server member, decide_eq_true_eq])] at single
    omega

/-- Fragments that are numbered from zero on are split exactly if one request finds a single
healthy holder and every other one finds more holders than there are fragments.
-/
theorem splitOnce_range_iff (topic : GoString) (last : Nat) (servers : List SentinelServer)
    : SplitOnce topic (List.range (last + 1)) servers
      ↔ (∀ server ∈ servers, server.currentReplicas topic ≠ 0)
        ∧ servers.countP (fun server => decide ((server.currentReplicas topic).toNat = 1)) = 1
        ∧ ∀ server ∈ servers,
            (server.currentReplicas topic).toNat = 1
            ∨ last + 1 < (server.currentReplicas topic).toNat := by
  have first (server : SentinelServer)
      : decide ((server.currentReplicas topic).toNat ∣ 0 + 1)
        = decide ((server.currentReplicas topic).toNat = 1) :=
    decide_eq_decide.mpr Nat.dvd_one
  constructor
  · rintro ⟨counted, once⟩
    have single := once 0 (mem_range.mpr (Nat.succ_pos last))
    simp only [first] at single
    refine ⟨counted, single, fun server member => ?_⟩
    by_contra between
    rw [not_or] at between
    -- the fragment before the holders' number is taken by this request and by the single one
    have positive : 0 < (server.currentReplicas topic).toNat :=
      Nat.pos_of_ne_zero (fun zero => counted server member (UInt64.toNat_inj.mp zero))
    have twice := once ((server.currentReplicas topic).toNat - 1) (mem_range.mpr (by omega))
    rw [Nat.sub_add_cancel positive] at twice
    have more
        : servers.countP (fun other => decide ((other.currentReplicas topic).toNat = 1))
          < servers.countP (fun other => decide
              ((other.currentReplicas topic).toNat ∣ (server.currentReplicas topic).toNat)) := by
      have weaker (others : List SentinelServer)
          : others.countP (fun other => decide ((other.currentReplicas topic).toNat = 1))
            ≤ others.countP (fun other => decide
                ((other.currentReplicas topic).toNat ∣ (server.currentReplicas topic).toNat)) := by
        refine countP_mono_left (fun other _ one => ?_)
        rw [decide_eq_true_eq] at one ⊢
        rw [one]
        exact Nat.one_dvd _
      obtain ⟨front, back, rfl⟩ := append_of_mem member
      have before := weaker front
      have behind := weaker back
      rw [countP_append, countP_append,
        countP_cons_of_neg (by simpa using between.1),
        countP_cons_of_pos (by simp)]
      omega
    omega
  · rintro ⟨counted, single, others⟩
    refine ⟨counted, fun id member => Eq.trans ?_ single⟩
    refine countP_congr (fun server inServers => ?_)
    rw [decide_eq_true_eq, decide_eq_true_eq]
    have bound := mem_range.mp member
    constructor
    · intro divides
      rcases others server inServers with one | many
      · exact one
      · have small := Nat.le_of_dvd (Nat.succ_pos id) divides
        omega
    · intro one
      rw [one]
      exact Nat.one_dvd _

/-- A healthy broker on the ring that does not hold the topic yet is found as a successor, or
another one before it.
-/
theorem SentinelServer.RingOf.findSuccessor_isOk {server : SentinelServer} {nodes : List GoString}
    (ring : server.RingOf nodes) (named : ∀ node ∈ nodes, node ≠ []) {spare : GoString}
    (present : spare ∈ nodes) {ref : BrokerRef} (healthy : server.healthyBroker spare = some ref)
    {currentBrokers : List BrokerRef}
    (outside : spare ∉ currentBrokers.map (fun ref => (server.record ref).brokerID))
    (topic : GoString)
    : ∃ successor name,
        server.findSuccessor topic currentBrokers = .ok (server.record successor).brokerID
        ∧ server.healthyBroker name = some successor := by
  have inOrder := ring.inOrder topic
  have found := ring.replaceFrom_eq inOrder currentBrokers 1
  have spares : spare ∈ server.replacements currentBrokers
      ((server.hashRing.enumeration topic).takeWhile (fun name => name ≠ [])) := by
    rw [inOrder.takeWhile_eq named]
    refine mem_filter.mpr ⟨inOrder.nodes.mem_iff.mpr present, ?_⟩
    rw [healthy, Option.isSome_some, Bool.true_and]
    exact decide_eq_true outside
  obtain ⟨successor, rest, split⟩ :=
    exists_cons_of_ne_nil (ne_nil_of_mem (mem_filterMap.mpr ⟨spare, spares, healthy⟩))
  rw [split, take_succ_cons, take_zero] at found
  obtain ⟨name, registered⟩ := mem_replaceFrom (found ▸ mem_cons_self)
  refine ⟨successor, name, ?_, registered⟩
  simp [findSuccessor, findReplacementBrokers, found]

def oneHolder : SentinelServer :=
  ((SentinelServer.newSentinelServer none).registerBroker 0 (lit "a") (lit "a:1") [lit "t"]
    .none).state

def holderAndSpare : SentinelServer :=
  (oneHolder.registerBroker 0 (lit "s") (lit "s:1") [] .none).state

def twoHolders : SentinelServer :=
  (oneHolder.registerBroker 0 (lit "b") (lit "b:1") [lit "t"] .none).state

/-- Both holders are healthy when one of them leaves, and a third broker is spare. -/
def healthyLeaver : SentinelServer :=
  (twoHolders.registerBroker 0 (lit "s") (lit "s:1") [] .none).state

theorem collisionFree_healthyLeaver
    : HashRing.CollisionFree 150 [lit "a", lit "b", lit "s"] := by
  refine collisionFree_of_nodup (List.Nodup.of_map (fun slot => slot.toNat % 16384) ?_)
    (List.Subset.refl _)
  exact (@nodup_of_unmarked 0 _ (by decide +kernel)).1

def oneFragment : FragmentManager :=
  (FragmentManager.newFragmentManager .empty (lit "data") 1000 10 0).writeMessage 0 (lit "t") 1 []

/-- With no change between the steps all requests are made in the same state. -/
theorem mem_requestStates_const {server met : SentinelServer} {brokerID topic : GoString}
    (member : met ∈ requestStates (fun _ => server) brokerID topic)
    : met = server := by
  have counting (targetBrokerID : GoString) (k : Nat) (peers : List BrokerRef)
      (counted : met ∈ countingStates (fun _ => server) targetBrokerID k peers)
      : met = server := by
    induction peers generalizing k with
    | nil => cases counted
    | cons peer rest ih =>
        simp only [countingStates] at counted
        split at counted
        · rcases mem_cons.mp counted with first | later
          · exact first
          · exact ih _ later
        · exact ih _ counted
  simp only [requestStates] at member
  cases found : server.findSuccessor topic (server.otherHolders brokerID topic) with
  | error failure => simp [found] at member
  | ok successor =>
      simp only [found] at member
      exact counting _ _ _ member

/-- The leaving broker is not registered any more: the single peer is asked for the whole topic. -/
theorem covered_iff_holderAndSpare
    : Covered (fun _ => oneFragment) [0]
        (sentRequests (fun _ => holderAndSpare) (lit "b") (lit "t")) := by
  have ring : holderAndSpare.RingOf [lit "a", lit "s"] :=
    .fresh rfl (by decide) (collisionFree_healthyLeaver.mono (by decide))
  have spare : holderAndSpare.healthyBroker (lit "s") = some 1 := rfl
  have peers : holderAndSpare.otherHolders (lit "b") (lit "t") = [0] := by decide
  have outside : lit "s" ∉ [0].map (fun ref => (holderAndSpare.record ref).brokerID) := by decide
  obtain ⟨successor, name, found, healthy⟩ :=
    ring.findSuccessor_isOk (by decide) (by decide) spare outside (lit "t")
  have registered
      : ∀ entry ∈ holderAndSpare.brokers.entries,
          (holderAndSpare.brokers.lookup (holderAndSpare.record entry.2).brokerID).isSome := by
    decide
  have known : (holderAndSpare.brokers.lookup (holderAndSpare.record successor).brokerID).isSome :=
    registered ⟨name, successor⟩
      (AList.mem_lookup_iff.mp (SentinelServer.healthyBroker_found healthy).1)
  have states : requestStates (fun _ => holderAndSpare) (lit "b") (lit "t") = [holderAndSpare] := by
    refine (@requestStates_found (fun _ => holderAndSpare) _ _ _ _ peers found).trans ?_
    exact @countingStates_singleton (fun _ => holderAndSpare) _ 2 known 0
  refine (covered_iff _ _ _ _ (fun sent _ => ?_)).mpr ?_
  · decide +kernel
  · rw [states]
    exact ⟨by decide, by decide⟩

/-- Both holders are healthy: the single peer is asked for the second of two shares, and the only
fragment is in the first.
-/
theorem not_covered_healthyLeaver
    : (oneFragment.listed (lit "t")).map Fragment.id = [0]
      ∧ (∃ calls,
          findAndAssignTopicSuccessor (fun _ => healthyLeaver) (lit "b") (lit "t") = .ok calls
          ∧ calls.map Prod.fst = [lit "a:1"])
      ∧ (∀ sent ∈ sentRequests (fun _ => healthyLeaver) (lit "b") (lit "t"), share sent.2 = (1, 2))
      ∧ ¬Covered (fun _ => oneFragment) [0]
          (sentRequests (fun _ => healthyLeaver) (lit "b") (lit "t")) := by
  have ring : healthyLeaver.RingOf [lit "a", lit "b", lit "s"] :=
    .fresh rfl (by decide) collisionFree_healthyLeaver
  have spare : healthyLeaver.healthyBroker (lit "s") = some 2 := rfl
  have peers : healthyLeaver.otherHolders (lit "b") (lit "t") = [0] := by decide
  have outside : lit "s" ∉ [0].map (fun ref => (healthyLeaver.record ref).brokerID) := by decide
  obtain ⟨successor, name, found, _⟩ :=
    ring.findSuccessor_isOk (by decide) (by decide) spare outside (lit "t")
  have shares
      : ∀ sent ∈ sentRequests (fun _ => healthyLeaver) (lit "b") (lit "t"),
          share sent.2 = (1, 2) := by
    intro sent member
    have counted := mem_map_of_mem (f := fun sent => share sent.2) member
    rw [shares_sentRequests] at counted
    obtain ⟨met, inStates, same⟩ := mem_map.mp counted
    rw [← same, mem_requestStates_const inStates]
    decide
  refine ⟨by decide +kernel, ⟨_, findAndAssignTopicSuccessor_found peers found, rfl⟩, shares,
    fun covered => ?_⟩
  obtain ⟨sent, member, selected⟩ := covered.complete 0 mem_cons_self
  obtain ⟨index, count⟩ := Prod.mk.inj (shares sent member)
  rw [selectedIDs, topic_of_mem_sentRequests member, index, count] at selected
  exact absurd selected (by decide +kernel)

end Goulette.Sentinel
