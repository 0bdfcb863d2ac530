import Goulette.Sentinel.RingOrder
import Goulette.Sentinel.SingleWriter

/-! Which brokers a topic is placed on. The replacement loop finds the first healthy ones in the
order of the ring; the selection loops also count the brokers they pass over.
-/

namespace Goulette.Sentinel

open Goulette.Go Goulette.Storage OwnedSlots Rounds List

namespace HashRing

/-- The nodes in the order of the ring, by their nearest virtual node clockwise from a key. -/
structure InOrder (replicas : Nat) (nodes : List GoString) (key : GoString)
    (order : List GoString)
    : Prop where
  nodes : order.Perm nodes
  clockwise
    : order.Pairwise (fun first later => nearest replicas key first < nearest replicas key later)

variable {replicas : Nat} {nodes order : List GoString} {ring : HashRing} {key : GoString}

theorem InOrder.takeWhile_eq (inOrder : InOrder replicas nodes key order)
    (named : ∀ node ∈ nodes, node ≠ [])
    : order.takeWhile (fun name => name ≠ []) = order := by
  refine takeWhile_eq_self_iff.mpr (fun name member => decide_eq_true ?_)
  exact named name (inOrder.nodes.mem_iff.mp member)

/-- There is one order, and an iterator follows it. -/
theorem Represents.enumeration_eq_order (h : Represents replicas nodes ring)
    (collisionFree : CollisionFree replicas nodes) (unique : nodes.Nodup) (some : 0 < replicas)
    (inOrder : InOrder replicas nodes key order)
    : ring.enumeration key = order := by
  have perm := h.perm_enumeration collisionFree unique some key
  refine (perm.trans inOrder.nodes.symm).eq_of_pairwise ?_
    (h.pairwise_enumeration collisionFree unique some key) inOrder.clockwise
  intro first later _ _ nearer farther
  omega

end HashRing

/-- The ring of a sentinel holds the virtual nodes of some nodes, without collisions. -/
structure SentinelServer.RingOf (server : SentinelServer) (nodes : List GoString) : Prop where
  represents : HashRing.Represents 150 nodes server.hashRing
  unique : nodes.Nodup
  collisionFree : HashRing.CollisionFree 150 nodes

theorem SentinelServer.RingOf.fresh {server : SentinelServer} {nodes : List GoString}
    (ring : server.hashRing = nodes.foldl HashRing.addNode (HashRing.newHashRing 150))
    (unique : nodes.Nodup) (collisionFree : HashRing.CollisionFree 150 nodes)
    : server.RingOf nodes :=
  ⟨ring ▸ HashRing.represents_fresh unique collisionFree, unique, collisionFree⟩

/-- The iterator's own order is the order of the ring. -/
theorem SentinelServer.RingOf.inOrder {server : SentinelServer} {nodes : List GoString}
    (ring : server.RingOf nodes) (key : GoString)
    : HashRing.InOrder 150 nodes key (server.hashRing.enumeration key) where
  nodes := ring.represents.perm_enumeration ring.collisionFree ring.unique (by decide) key
  clockwise := ring.represents.pairwise_enumeration ring.collisionFree ring.unique (by decide) key

theorem SentinelServer.RingOf.updateBrokerStatus {server : SentinelServer}
    {nodes : List GoString} (ring : server.RingOf nodes) (brokerIDs : List GoString)
    (status : BrokerStatus)
    : (server.updateBrokerStatus brokerIDs status).RingOf nodes := by
  have same : (server.updateBrokerStatus brokerIDs status).hashRing = server.hashRing :=
    congrArg Membership.hashRing (server.membership_updateBrokerStatus brokerIDs status)
  exact ⟨same.symm ▸ ring.represents, ring.unique, ring.collisionFree⟩

def pairOfBrokers : SentinelServer :=
  (((SentinelServer.newSentinelServer none).registerBroker 0 (lit "a") (lit "a:1") []
    .none).state.registerBroker 0 (lit "b") (lit "b:1") [] .none).state

theorem keys_pair : pairOfBrokers.brokers.keys = [lit "b", lit "a"] := by decide +kernel

theorem keyed_pair : pairOfBrokers.membership.Keyed := by
  have empty : (SentinelServer.newSentinelServer none).membership.Keyed :=
    fun brokerID ref found => by cases found
  exact (empty.change (.add (lit "a"))).change (.add (lit "b"))

theorem collisionFree_pair : HashRing.CollisionFree 150 [lit "b", lit "a"] := by
  refine collisionFree_of_nodup (List.Nodup.of_map (fun slot => slot.toNat % 4096) ?_)
    (List.Subset.refl _)
  exact (@nodup_of_unmarked 0 _ (by decide +kernel)).1

theorem ringOf_pair : pairOfBrokers.RingOf [lit "b", lit "a"] where
  represents := by
    have joined := @HashRing.represents_fresh 150 [lit "a", lit "b"] (by decide)
      (collisionFree_pair.mono (by decide))
    exact joined.perm (.swap _ _ _)
  unique := by decide
  collisionFree := collisionFree_pair

theorem inOrder_pair : HashRing.InOrder 150 [lit "b", lit "a"] (lit "t") [lit "a", lit "b"] where
  nodes := .swap _ _ _
  clockwise := by
    have nearer
        : HashRing.nearest 150 (lit "t") (lit "a") < HashRing.nearest 150 (lit "t") (lit "b") := by
      decide +kernel
    simpa using nearer

namespace SentinelServer

variable {server : SentinelServer} {iter : NodeIterator} {passed rest current : List GoString}

/-- The selection loop keeps the healthy ones of the nodes it passes. -/
theorem selectFrom_eq_filterMap (server : SentinelServer) (count : Nat) (iter : NodeIterator)
    : server.selectFrom count iter
      = (iter.collect server.hashRing count).filterMap server.healthyBroker := by
  induction count generalizing iter with
  | zero => rfl
  | succ count ih =>
      simp only [selectFrom, NodeIterator.collect, Option.isSome_iff_ne_none]
      split
      · rfl
      · cases healthy : server.healthyBroker (iter.next server.hashRing).1.1 with
        | none => rw [filterMap_cons_none healthy, ih]
        | some ref => rw [filterMap_cons_some healthy, ih]

/-- The replacement loop takes the first healthy brokers that are not present. -/
theorem replaceFrom_eq_take (repeats : iter.Repeats server.hashRing passed rest) (needed : Nat)
    : server.replaceFrom current needed iter
      = (((iter.ahead rest).filter (fun name => name ∉ current)).filterMap
          server.healthyBroker).take needed := by
  fun_induction server.replaceFrom current needed iter generalizing passed rest with
  | case1 iter => rw [take_zero]
  | case2 needed iter wanted ended =>
      rw [repeats.ahead_of_ended ended]
      exact take_nil.symm
  | case3 needed iter wanted goesOn present ih =>
      obtain ⟨_, later, first, onward⟩ := repeats.ahead_of_goesOn goesOn
      rw [first, filter_cons_of_neg (by simpa using present)]
      exact ih onward
  | case4 needed iter wanted goesOn absent unhealthy ih =>
      obtain ⟨_, later, first, onward⟩ := repeats.ahead_of_goesOn goesOn
      rw [first, filter_cons_of_pos (by simpa using absent),
        filterMap_cons_none unhealthy]
      exact ih onward
  | case5 needed iter wanted goesOn absent ref healthy ih =>
      obtain ⟨_, later, first, onward⟩ := repeats.ahead_of_goesOn goesOn
      obtain ⟨fewer, rfl⟩ := Nat.exists_eq_succ_of_ne_zero wanted
      rw [first, filter_cons_of_pos (by simpa using absent),
        filterMap_cons_some healthy, take_succ_cons]
      exact congrArg (List.cons ref) (ih onward)

variable {nodes order : List GoString}

theorem RingOf.namedNodes_eq (ring : server.RingOf nodes) {topic : GoString}
    (inOrder : HashRing.InOrder 150 nodes topic order)
    : server.hashRing.namedNodes topic = order.takeWhile (fun name => name ≠ []) := by
  rw [HashRing.namedNodes,
    ring.represents.enumeration_eq_order ring.collisionFree ring.unique (by decide) inOrder]

theorem RingOf.selectBrokers_eq (ring : server.RingOf nodes) {topic : GoString}
    (inOrder : HashRing.InOrder 150 nodes topic order) (count : Nat)
    : server.selectBrokers topic count
      = ((order.takeWhile (fun name => name ≠ [])).take count).filterMap
          server.healthyBroker := by
  rw [selectBrokers, selectFrom_eq_filterMap, ring.represents.collect_of_several (by decide),
    ring.namedNodes_eq inOrder]

def replacements (server : SentinelServer) (currentBrokers : List BrokerRef)
    (order : List GoString)
    : List GoString :=
  order.filter
    (fun brokerID =>
      (server.healthyBroker brokerID).isSome
      && decide (brokerID ∉ currentBrokers.map (fun ref => (server.record ref).brokerID)))

theorem filterMap_replacements (server : SentinelServer) (currentBrokers : List BrokerRef)
    (order : List GoString)
    : (server.replacements currentBrokers order).filterMap server.healthyBroker
      = (order.filter
          (fun name =>
            name ∉ currentBrokers.map (fun ref => (server.record ref).brokerID))).filterMap
          server.healthyBroker := by
  rw [replacements, filterMap_filter, filterMap_filter]
  refine filterMap_congr (fun brokerID _ => ?_)
  cases server.healthyBroker brokerID with
  | none => simp
  | some ref => simp

theorem RingOf.replaceFrom_eq (ring : server.RingOf nodes) {topic : GoString}
    (inOrder : HashRing.InOrder 150 nodes topic order) (currentBrokers : List BrokerRef)
    (needed : Nat)
    : server.replaceFrom (currentBrokers.map (fun ref => (server.record ref).brokerID)) needed
          (server.hashRing.getNodeIter topic)
      = ((server.replacements currentBrokers
          (order.takeWhile (fun name => name ≠ []))).filterMap server.healthyBroker).take
            needed := by
  rw [replaceFrom_eq_take (ring.represents.repeats (by decide) topic), filterMap_replacements,
    ← ring.namedNodes_eq inOrder, HashRing.namedNodes,
    HashRing.enumeration_eq ring.represents.sorted]
  rfl

theorem findReplacementBrokers_fst (server : SentinelServer) (topic : GoString)
    (currentBrokers : List BrokerRef) (neededCount : Nat)
    : (server.findReplacementBrokers topic currentBrokers neededCount).1
      = server.replaceFrom (currentBrokers.map (fun ref => (server.record ref).brokerID))
          neededCount (server.hashRing.getNodeIter topic) := by
  simp only [findReplacementBrokers]
  split
  · rfl
  · rfl

theorem findReplacementBrokers_snd (server : SentinelServer) (topic : GoString)
    (currentBrokers : List BrokerRef) (neededCount : Nat)
    : (server.findReplacementBrokers topic currentBrokers neededCount).2.isSome
      ↔ (server.findReplacementBrokers topic currentBrokers neededCount).1.length
          < neededCount := by
  rw [findReplacementBrokers_fst]
  simp only [findReplacementBrokers]
  split
  · next few => simp [few]
  · next enough => simp [enough]

/-- Healthy brokers are found under their names. -/
theorem map_filterMap_healthyBroker (keyed : server.membership.Keyed) {brokerIDs : List GoString}
    (healthy : ∀ brokerID ∈ brokerIDs, (server.healthyBroker brokerID).isSome)
    : (brokerIDs.filterMap server.healthyBroker).map (fun ref => (server.record ref).brokerID)
      = brokerIDs := by
  induction brokerIDs with
  | nil => rfl
  | cons brokerID rest ih =>
      obtain ⟨first, later⟩ := forall_mem_cons.mp healthy
      obtain ⟨ref, found⟩ := Option.isSome_iff_exists.mp first
      rw [filterMap_cons_some found, map_cons, ih later,
        healthy_brokerID keyed found]

/-- A count whose list can be allocated is served by the loop. -/
theorem findReplacementBrokers?_eq (server : SentinelServer) (topic : GoString)
    (currentBrokers : List BrokerRef) {neededCount : Nat} (fits : neededCount ≤ 2 ^ 45)
    : server.findReplacementBrokers? topic currentBrokers neededCount
      = some (server.findReplacementBrokers topic currentBrokers neededCount) := by
  cases neededCount with
  | zero => simp [findReplacementBrokers?, findReplacementBrokers, replaceFrom]
  | succ needed =>
      have allocated : makes 8 ((needed + 1 : Nat) : Int) = true := by
        rw [makes_natCast]
        omega
      rw [findReplacementBrokers?, if_neg (by omega), if_pos allocated, Int.toNat_natCast]

/-- Replacements are the first registered, healthy and not present brokers in the order of the ring,
and there is an error exactly if these are too few.
-/
theorem findReplacementBrokers_exact (keyed : server.membership.Keyed)
    (ring : server.RingOf nodes) (named : ∀ node ∈ nodes, node ≠ []) {topic : GoString}
    (inOrder : HashRing.InOrder 150 nodes topic order) (currentBrokers : List BrokerRef)
    {neededCount : Nat} (fits : neededCount ≤ 2 ^ 45)
    : ∃ found error,
        server.findReplacementBrokers? topic currentBrokers neededCount = some (found, error)
        ∧ found.map (fun ref => (server.record ref).brokerID)
          = (server.replacements currentBrokers order).take neededCount
        ∧ (∀ ref ∈ found, server.brokers.lookup (server.record ref).brokerID = some ref)
        ∧ (found.map (fun ref => (server.record ref).brokerID)).Nodup
        ∧ (∀ ref ∈ found, ∀ present ∈ currentBrokers,
            (server.record ref).brokerID ≠ (server.record present).brokerID)
        ∧ (error.isSome ↔ (server.replacements currentBrokers order).length < neededCount)
        ∧ (error.isSome
            → found.map (fun ref => (server.record ref).brokerID)
              = server.replacements currentBrokers order) := by
  refine ⟨(server.findReplacementBrokers topic currentBrokers neededCount).1,
    (server.findReplacementBrokers topic currentBrokers neededCount).2,
    server.findReplacementBrokers?_eq topic currentBrokers fits, ?_⟩
  have found := ring.replaceFrom_eq inOrder currentBrokers neededCount
  rw [inOrder.takeWhile_eq named, ← findReplacementBrokers_fst] at found
  have healthy (brokerID : GoString) (member : brokerID ∈ server.replacements currentBrokers order)
      : (server.healthyBroker brokerID).isSome := by
    have both := (mem_filter.mp member).2
    rw [Bool.and_eq_true] at both
    exact both.1
  have names
      : (server.findReplacementBrokers topic currentBrokers neededCount).1.map
          (fun ref => (server.record ref).brokerID)
        = (server.replacements currentBrokers order).take neededCount := by
    rw [found, map_take, map_filterMap_healthyBroker keyed healthy]
  have error
      : (server.findReplacementBrokers topic currentBrokers neededCount).2.isSome
        ↔ (server.replacements currentBrokers order).length < neededCount := by
    have length := congrArg List.length names
    rw [length_map, length_take] at length
    rw [findReplacementBrokers_snd, length]
    omega
  refine ⟨names, ?_, ?_, ?_, error, ?_⟩
  · intro ref member
    rw [found] at member
    obtain ⟨brokerID, _, known⟩ := mem_filterMap.mp (mem_of_mem_take member)
    have registered := (healthyBroker_found known).1
    rw [record_brokerID keyed registered]
    exact registered
  · rw [names]
    have unique : order.Nodup := inOrder.nodes.nodup_iff.mpr ring.unique
    exact (unique.filter _).sublist (take_sublist _ _)
  · intro ref member present among same
    have listed := mem_map_of_mem (f := fun ref => (server.record ref).brokerID) member
    rw [names] at listed
    have both := (mem_filter.mp (mem_of_mem_take listed)).2
    rw [Bool.and_eq_true, decide_eq_true_eq, same] at both
    exact both.2 (mem_map_of_mem among)
  · intro failed
    rw [names, take_of_length_le (Nat.le_of_lt (error.mp failed))]

/-- One of the brokers is present, and the other one replaces a third that is missing. -/
theorem findReplacementBrokers_exact_pair
    : pairOfBrokers.replacements [0] [lit "a", lit "b"] = [lit "b"]
      ∧ (∃ found error,
          pairOfBrokers.findReplacementBrokers? (lit "t") [0] 1 = some (found, error)
          ∧ found.map (fun ref => (pairOfBrokers.record ref).brokerID) = [lit "b"])
      ∧ ∃ found error,
          pairOfBrokers.findReplacementBrokers? (lit "t") [0] 2 = some (found, error)
          ∧ error.isSome := by
  have spare : pairOfBrokers.replacements [0] [lit "a", lit "b"] = [lit "b"] := by decide +kernel
  have named : ∀ node ∈ [lit "b", lit "a"], node ≠ [] := by decide
  obtain ⟨found, error, one, names, _⟩ := findReplacementBrokers_exact keyed_pair ringOf_pair named
    inOrder_pair [0] (show 1 ≤ 2 ^ 45 by decide)
  obtain ⟨few, failure, two, _, _, _, _, fails, _⟩ := findReplacementBrokers_exact keyed_pair
    ringOf_pair named inOrder_pair [0] (show 2 ≤ 2 ^ 45 by decide)
  rw [spare] at names fails
  exact ⟨spare, ⟨found, error, one, names⟩, few, failure, two, fails.mpr (by decide)⟩

/-- No error is returned for a count whose list cannot be allocated, although one broker is all
there is.
-/
theorem findReplacementBrokers_panics_pair
    : pairOfBrokers.membership.Keyed
      ∧ pairOfBrokers.RingOf [lit "b", lit "a"]
      ∧ pairOfBrokers.replacements [0] [lit "a", lit "b"] = [lit "b"]
      ∧ pairOfBrokers.findReplacementBrokers? (lit "t") [0] (2 ^ 62) = none :=
  ⟨keyed_pair, ringOf_pair, by decide +kernel, by decide +kernel⟩

end SentinelServer

/-! Placement on a cold cache. -/

/-- What is kept of the first items are the first kept items exactly if enough are kept, or nothing
later would be.
-/
theorem filterMap_eq_take_iff {A B : Type} (f : A → Option B) (front back : List A) {count : Nat}
    (atMost : front.length ≤ count)
    : front.filterMap f = ((front ++ back).filterMap f).take count
      ↔ (front.filterMap f).length = count ∨ back.filterMap f = [] := by
  have fewer := length_filterMap_le f front
  have full : count - (front.filterMap f).length = 0 ↔ (front.filterMap f).length = count := by
    omega
  rw [filterMap_append, take_append, take_of_length_le (by omega),
    self_eq_append_right, take_eq_nil_iff, full]

theorem EtcdManager.topicReplicas_logOperation (em : EtcdManager) (fault : Option LogFault)
    : (em.logOperation fault).state.topicReplicas = em.topicReplicas := by
  have next : em.getNextID.state.topicReplicas = em.topicReplicas := by
    unfold getNextID
    repeat' split
    all_goals rfl
  unfold logOperation
  split
  · rfl
  · cases counted : em.getNextID with
    | blocked | returned =>
        rw [counted] at next
        exact next

namespace World

def recorded? (world : World) (topic : GoString) : Option TopicReplicaInfo :=
  world.sentinel.etcdManager.bind (fun etcdManager => etcdManager.getTopicReplicas topic)

/-- A generated record is stored, whatever becomes of its log entry. -/
theorem recorded?_generate {world : World} (free : world.sentinel.mu = false)
    (etcdManager : EtcdManager) (now : Int) (topic : GoString) (replicaCount : Nat)
    (fault : Option LogFault)
    : (world.generateAndStoreTopicLeader etcdManager now topic replicaCount
        { get := none, set := none, log := fault }).state.recorded? topic
      = some {
          topic
          brokers := (world.records (world.sentinel.selectBrokers topic replicaCount)).map
            BrokerInfo.toReplica
          version := Int64.ofInt now
          timestamp := unix now
          replicaCount } := by
  simp only [generateAndStoreTopicLeader, free, Bool.false_eq_true, if_false]
  generalize world.records (world.sentinel.selectBrokers topic replicaCount) = brokers
  have kept :=
    (etcdManager.setTopicReplicas now topic (brokers.map BrokerInfo.toReplica)
      replicaCount).topicReplicas_logOperation fault
  have stored {manager : EtcdManager}
      (same
        : manager.topicReplicas
          = (etcdManager.setTopicReplicas now topic (brokers.map BrokerInfo.toReplica)
              replicaCount).topicReplicas)
      : (world.setEtcd manager).recorded? topic
        = some {
            topic
            brokers := brokers.map BrokerInfo.toReplica
            version := Int64.ofInt now
            timestamp := unix now
            replicaCount } := by
    simp only [recorded?, setEtcd, Option.bind_some, EtcdManager.getTopicReplicas, same,
      EtcdManager.setTopicReplicas, AList.lookup_insert]
  cases logged
      : (etcdManager.setTopicReplicas now topic (brokers.map BrokerInfo.toReplica)
          replicaCount).logOperation fault with
  | blocked manager =>
      rw [logged] at kept
      exact stored kept
  | returned manager _ =>
      rw [logged] at kept
      cases brokers with
      | nil | cons => exact stored kept

def cached? (world : World) (topic : GoString) : Option (List BrokerRef) :=
  (world.sentinel.replicationCache.lookup topic).map ReplicationCache.brokers

theorem cached?_legacy {world : World} {topic : GoString}
    (cold : world.sentinel.replicationCache.lookup topic = none) (replicaCount : Nat)
    : (world.getTopicLeaderLegacy topic replicaCount []).state.cached? topic
      = some (world.sentinel.selectBrokers topic replicaCount) := by
  have stored
      : cached?
          { world with
            sentinel := storeCache world.sentinel topic
              (world.sentinel.selectBrokers topic replicaCount) replicaCount } topic
        = some (world.sentinel.selectBrokers topic replicaCount) := by
    simp only [cached?, storeCache, AList.lookup_insert, Option.map_some]
  simp only [getTopicLeaderLegacy, cachedBrokers, cold, replaceUnreachable, if_true]
  split
  · next failed => cases failed
  · exact stored
  · rw [cached?, confirmLeader_sentinel]
    exact stored

end World

namespace SentinelServer

variable {server : SentinelServer} {order : List GoString}

/-- The brokers that a selection passes before an empty name ends it. -/
abbrev passes (order : List GoString) (replicaCount : Nat) : List GoString :=
  (order.take replicaCount).takeWhile (fun name => name ≠ [])

/-- The first brokers are all healthy and have names, or no healthy broker comes after those that a
selection passes.
-/
def FirstServe (server : SentinelServer) (order : List GoString) (replicaCount : Nat) : Prop :=
  (∀ brokerID ∈ order.take replicaCount,
      brokerID ≠ [] ∧ (server.healthyBroker brokerID).isSome)
  ∨ ∀ brokerID ∈ order,
      (server.healthyBroker brokerID).isSome → brokerID ∈ passes order replicaCount

instance (server : SentinelServer) (order : List GoString) (replicaCount : Nat)
    : Decidable (server.FirstServe order replicaCount) :=
  inferInstanceAs (Decidable ((∀ _ ∈ _, _) ∨ ∀ _ ∈ _, _))

theorem firstServe_iff (unique : order.Nodup) (replicaCount : Nat) {back : List GoString}
    (split : order = passes order replicaCount ++ back)
    : server.FirstServe order replicaCount
      ↔ ((passes order replicaCount).filterMap server.healthyBroker).length = replicaCount
        ∨ back.filterMap server.healthyBroker = [] := by
  have initial : passes order replicaCount <+: order.take replicaCount := takeWhile_prefix _
  constructor
  · rintro (serve | passed)
    · have whole : passes order replicaCount = order.take replicaCount :=
        takeWhile_eq_self_iff.mpr
          (fun name member => decide_eq_true (serve name member).1)
      have kept
          : ((order.take replicaCount).filterMap server.healthyBroker).length
            = (order.take replicaCount).length :=
        filterMap_length_eq_length.mpr (fun name member => (serve name member).2)
      rw [whole] at split ⊢
      rw [kept, length_take]
      rcases Nat.lt_or_ge order.length replicaCount with few | many
      · rw [take_of_length_le (Nat.le_of_lt few)] at split
        refine Or.inr ?_
        rw [self_eq_append_right.mp split, filterMap_nil]
      · exact Or.inl (Nat.min_eq_left many)
    · refine Or.inr (filterMap_eq_nil_iff.mpr (fun brokerID behind => ?_))
      by_contra healthy
      have member : brokerID ∈ order := by
        rw [split]
        exact mem_append_right _ behind
      have before := passed brokerID member (Option.isSome_iff_ne_none.mpr healthy)
      rw [split, nodup_append] at unique
      exact unique.2.2 brokerID before brokerID behind rfl
  · rintro (full | none)
    · have fewer := length_filterMap_le server.healthyBroker (passes order replicaCount)
      have shorter := length_take_le replicaCount order
      have whole : passes order replicaCount = order.take replicaCount :=
        initial.eq_of_length_le (by omega)
      have kept
          : ((passes order replicaCount).filterMap server.healthyBroker).length
            = (passes order replicaCount).length := by
        have least := initial.length_le
        omega
      refine Or.inl (fun name member => ?_)
      rw [← whole] at member
      exact ⟨by simpa using mem_takeWhile_imp member,
        filterMap_length_eq_length.mp kept name member⟩
    · refine Or.inr (fun brokerID member healthy => ?_)
      rw [split] at member
      refine (mem_append.mp member).resolve_right (fun behind => ?_)
      rw [filterMap_eq_nil_iff.mp none brokerID behind] at healthy
      exact Bool.false_ne_true healthy

theorem firstServe_iff_selected (unique : order.Nodup) (replicaCount : Nat)
    : server.FirstServe order replicaCount
      ↔ (passes order replicaCount).filterMap server.healthyBroker
        = (order.filterMap server.healthyBroker).take replicaCount := by
  have initial : passes order replicaCount <+: order :=
    (List.takeWhile_prefix _).trans (List.take_prefix _ _)
  have atMost : (passes order replicaCount).length ≤ replicaCount :=
    (List.takeWhile_prefix _).length_le.trans (length_take_le _ _)
  obtain ⟨back, whole⟩ := initial
  have exactly := filterMap_eq_take_iff server.healthyBroker (passes order replicaCount) back atMost
  rw [firstServe_iff unique replicaCount whole.symm, ← exactly, whole]

/-- What is replaced lies between what is selected and the first healthy brokers. -/
theorem replaced_of_selected {replicaCount : Nat}
    (selected
      : (passes order replicaCount).filterMap server.healthyBroker
        = (order.filterMap server.healthyBroker).take replicaCount)
    : ((order.takeWhile (fun name => name ≠ [])).filterMap server.healthyBroker).take replicaCount
      = (order.filterMap server.healthyBroker).take replicaCount := by
  have below : passes order replicaCount <+: order.takeWhile (fun name => name ≠ []) := by
    rw [passes, ← take_takeWhile]
    exact take_prefix _ _
  have above : order.takeWhile (fun name => name ≠ []) <+: order := takeWhile_prefix _
  have least := (below.filterMap server.healthyBroker).take replicaCount
  have most := (above.filterMap server.healthyBroker).take replicaCount
  have enough := least.length_le
  rw [selected, take_take, Nat.min_self] at enough
  exact most.eq_of_length_le enough

theorem RingOf.findReplacementBrokers_nil {nodes : List GoString} (ring : server.RingOf nodes)
    {topic : GoString} (inOrder : HashRing.InOrder 150 nodes topic order) (replicaCount : Nat)
    : (server.findReplacementBrokers topic [] replicaCount).1
      = ((order.takeWhile (fun name => name ≠ [])).filterMap server.healthyBroker).take
          replicaCount := by
  have found := ring.replaceFrom_eq inOrder [] replicaCount
  rw [filterMap_replacements, ← findReplacementBrokers_fst] at found
  rw [found, filter_eq_self.mpr (by simp)]

/-- More than all healthy brokers cannot be taken. -/
theorem take_min_healthy {nodes : List GoString} (perm : order.Perm nodes) (replicaCount : Nat)
    : (order.filterMap server.healthyBroker).take
        (min replicaCount
          (nodes.countP (fun brokerID => (server.healthyBroker brokerID).isSome)))
      = (order.filterMap server.healthyBroker).take replicaCount := by
  rw [← perm.countP_eq, ← length_filterMap_eq_countP, ← take_eq_take_min]

end SentinelServer

namespace World

open SentinelServer

/-- The replicas cached by a request without etcd, those stored by a request with etcd and those
found as replacements are the same, the first healthy brokers in the order of the ring.
-/
structure PlacesAlike (world : World) (etcdManager : EtcdManager) (now : Int) (topic : GoString)
    (replicaCount : Nat) (order : List GoString)
    : Prop where
  cached
    : (world.getTopicLeaderLegacy topic replicaCount []).state.cached? topic
      = some (world.sentinel.findReplacementBrokers topic [] replicaCount).1
  stored
    : ((world.generateAndStoreTopicLeader etcdManager now topic replicaCount
        .none).state.recorded? topic).map TopicReplicaInfo.brokers
      = some
          ((world.records (world.sentinel.findReplacementBrokers topic [] replicaCount).1).map
            BrokerInfo.toReplica)
  first
    : (world.sentinel.findReplacementBrokers topic [] replicaCount).1
      = (order.filterMap world.sentinel.healthyBroker).take
          (min replicaCount
            (world.sentinel.brokers.keys.countP
              (fun brokerID => (world.sentinel.healthyBroker brokerID).isSome)))

/-- Placement and replacement agree exactly if the first brokers in the order of the ring serve. -/
theorem placesAlike_iff_firstServe {world : World} {topic : GoString} {order : List GoString}
    (ring : world.sentinel.RingOf world.sentinel.brokers.keys)
    (inOrder : HashRing.InOrder 150 world.sentinel.brokers.keys topic order)
    (free : world.sentinel.mu = false)
    (cold : world.sentinel.replicationCache.lookup topic = none) (etcdManager : EtcdManager)
    (now : Int) (replicaCount : Nat)
    : world.PlacesAlike etcdManager now topic replicaCount order
      ↔ world.sentinel.FirstServe order replicaCount := by
  have selected
      : world.sentinel.selectBrokers topic replicaCount
        = (passes order replicaCount).filterMap world.sentinel.healthyBroker := by
    rw [ring.selectBrokers_eq inOrder, take_takeWhile]
  have replaced := ring.findReplacementBrokers_nil inOrder replicaCount
  have healthy := @take_min_healthy world.sentinel order _ inOrder.nodes replicaCount
  rw [firstServe_iff_selected (inOrder.nodes.nodup_iff.mpr ring.unique)]
  constructor
  · rintro ⟨cached, _, first⟩
    rw [cached?_legacy cold, Option.some.injEq, selected] at cached
    rw [cached, first, healthy]
  · intro same
    have between := replaced.trans (replaced_of_selected same)
    have chosen
        : world.sentinel.selectBrokers topic replicaCount
          = (world.sentinel.findReplacementBrokers topic [] replicaCount).1 := by
      rw [selected, same, between]
    refine { cached := ?_, stored := ?_, first := ?_ }
    · rw [cached?_legacy cold, chosen]
    · have stored := recorded?_generate free etcdManager now topic replicaCount none
      rw [EtcdFaults.none, stored, Option.map_some, chosen]
    · rw [between, healthy]

/-- Both brokers are healthy. -/
theorem placesAlike_pair
    : PlacesAlike ⟨pairOfBrokers, noNetwork⟩ (.newEtcdManager ∅ (some (lit "0"))) 0 (lit "t") 2
        [lit "a", lit "b"] :=
  (@placesAlike_iff_firstServe ⟨pairOfBrokers, noNetwork⟩ _ _ (keys_pair.symm ▸ ringOf_pair)
    (keys_pair.symm ▸ inOrder_pair) rfl rfl _ 0 2).mpr (by decide +kernel)

/-- The first broker in the order is down: a selection of one replica passes it and ends. -/
theorem not_placesAlike_firstDown
    : SentinelServer.RingOf (pairOfBrokers.updateBrokerStatus [lit "a"] .down)
          [lit "b", lit "a"]
      ∧ (pairOfBrokers.updateBrokerStatus [lit "a"] .down).brokers.keys = [lit "b", lit "a"]
      ∧ HashRing.InOrder 150 [lit "b", lit "a"] (lit "t") [lit "a", lit "b"]
      ∧ (pairOfBrokers.updateBrokerStatus [lit "a"] .down).selectBrokers (lit "t") 1 = []
      ∧ ((pairOfBrokers.updateBrokerStatus [lit "a"] .down).findReplacementBrokers (lit "t") []
          1).1 = [1]
      ∧ ¬PlacesAlike ⟨pairOfBrokers.updateBrokerStatus [lit "a"] .down, noNetwork⟩
          (.newEtcdManager ∅ (some (lit "0"))) 0 (lit "t") 1 [lit "a", lit "b"] := by
  have same := pairOfBrokers.membership_updateBrokerStatus [lit "a"] .down
  have ring
      : SentinelServer.RingOf (pairOfBrokers.updateBrokerStatus [lit "a"] .down)
          [lit "b", lit "a"] :=
    ringOf_pair.updateBrokerStatus _ _
  have keys
      : (pairOfBrokers.updateBrokerStatus [lit "a"] .down).brokers.keys = [lit "b", lit "a"] :=
    (congrArg (fun members => members.brokers.keys) same).trans keys_pair
  have selected
      : (pairOfBrokers.updateBrokerStatus [lit "a"] .down).selectBrokers (lit "t") 1 = [] := by
    rw [ring.selectBrokers_eq inOrder_pair]
    decide +kernel
  have replaced
      : ((pairOfBrokers.updateBrokerStatus [lit "a"] .down).findReplacementBrokers (lit "t") []
          1).1 = [1] := by
    rw [findReplacementBrokers_fst, ring.replaceFrom_eq inOrder_pair]
    decide +kernel
  refine ⟨ring, keys, inOrder_pair, selected, replaced, fun alike => ?_⟩
  have cached := alike.cached
  rw [cached?_legacy rfl, selected, replaced] at cached
  cases cached

end World

end Goulette.Sentinel
