import Goulette.Sentinel.Operations

/-! The replica table in etcd over a recovery. Calls of several sentinels store a record and log
themselves, in any order; a recovery writes the table once more from the log.
-/

namespace Goulette.Sentinel

open Goulette.Go Goulette.Storage Runs LastWrite List

variable {operation : Operation}

def EtcdManager.replicasOf (em : EtcdManager) (topic : GoString)
    : Option (List ReplicaBroker × Nat) :=
  (em.getTopicReplicas topic).map (fun info => (info.brokers, info.replicaCount))

theorem EtcdManager.replicasOf_setTopicReplicas (em : EtcdManager) (now : Int)
    (topic : GoString) (brokers : List ReplicaBroker) (replicaCount : Nat) (other : GoString)
    : (em.setTopicReplicas now topic brokers replicaCount).replicasOf other
      = if topic = other then some (brokers, replicaCount) else em.replicasOf other := by
  by_cases here : topic = other
  · subst here
    simp [replicasOf, getTopicReplicas, setTopicReplicas]
  · simp [replicasOf, getTopicReplicas, setTopicReplicas, here,
      AList.lookup_insert_ne (Ne.symm here)]

namespace Operation

def topic? : Operation → Option GoString
  | .registerBroker .. => none
  | .generateTopicReplicas topic .. => some topic
  | .handleUnreachableBrokers topic .. => some topic

def Meets (left right : Operation) : Prop := left.topic?.isSome ∧ left.topic? = right.topic?

instance (left right : Operation) : Decidable (left.Meets right) :=
  inferInstanceAs (Decidable (left.topic?.isSome ∧ left.topic? = right.topic?))

def writes (topic : GoString) : Operation → Option (List ReplicaBroker × Nat)
  | .registerBroker .. => none
  | .generateTopicReplicas written replicaCount brokers =>
      if written = topic then some (brokers, replicaCount) else none
  | .handleUnreachableBrokers written replicaCount _ brokers =>
      if written = topic then some (brokers, replicaCount) else none

theorem topic_of_writes {topic : GoString} (writes : operation.writes topic ≠ none)
    : operation.topic? = some topic := by
  cases operation with
  | registerBroker brokerID address topics => exact absurd rfl writes
  | generateTopicReplicas | handleUnreachableBrokers =>
      exact congrArg some (of_not_not (fun other => writes (if_neg other)))

theorem writes_apart {left right : Operation} (apart : ¬left.Meets right) (topic : GoString)
    : left.writes topic = none ∨ right.writes topic = none := by
  by_contra both
  obtain ⟨first, second⟩ := not_or.mp both
  have here := topic_of_writes first
  exact apart ⟨by rw [here]; rfl, here.trans (topic_of_writes second).symm⟩

theorem replicasOf_stored (operation : Operation) (em : EtcdManager) (now : Int)
    (topic : GoString)
    : (operation.stored em now).replicasOf topic
      = (operation.writes topic).or (em.replicasOf topic) := by
  cases operation with
  | registerBroker brokerID address topics => rfl
  | generateTopicReplicas | handleUnreachableBrokers =>
      simp only [stored, writes, em.replicasOf_setTopicReplicas]
      split <;> rfl

end Operation

/-- A log that can be replayed writes the table once more. -/
theorem replicasOf_replayOperations {operations : List (GoString × Operation)}
    (replayable : ∀ record ∈ operations, record.2.Wellformed ∧ record.2.NamesTopics)
    (em : EtcdManager) (now : Int)
    : ∃ recovered etcd,
        (SentinelServer.newSentinelServer (some em)).recoverFromEtcd now
            (.ok (storedLogs operations))
          = some recovered
        ∧ recovered.etcdManager = some etcd
        ∧ ∀ topic,
            etcd.replicasOf topic
            = last (fun record => record.2.writes topic) operations (em.replicasOf topic) := by
  have round
      : ∀ record ∈ operations, ∀ server : SentinelServer, server.etcdManager.isSome
          → ∃ next,
              server.replayOperation now record.2.log none = .done next
              ∧ next.etcdManager.isSome
              ∧ ∀ topic,
                  next.etcdManager.bind (fun em => em.replicasOf topic)
                  = (record.2.writes topic).or
                      (server.etcdManager.bind (fun em => em.replicasOf topic)) := by
    intro record member server inEtcdMode
    obtain ⟨wellformed, named⟩ := replayable record member
    obtain ⟨etcd, found⟩ := Option.isSome_iff_exists.mp inEtcdMode
    obtain ⟨next, applied, stored⟩ := record.2.apply_stored found now
    have replay := (replayOperation_log wellformed named server now none).trans applied
    refine ⟨next, replay, by rw [stored]; rfl, ?_⟩
    intro topic
    rw [stored, found]
    exact record.2.replicasOf_stored etcd now topic
  obtain ⟨next, replay, inEtcdMode, views⟩ := replayOperations_storedLogs _
    (fun server topic => server.etcdManager.bind (fun em => em.replicasOf topic))
    (fun operation topic => operation.writes topic) round
    (show (SentinelServer.newSentinelServer (some em)).etcdManager.isSome from rfl)
  obtain ⟨etcd, found⟩ := Option.isSome_iff_exists.mp inEtcdMode
  refine ⟨next, etcd, ?_, found, ?_⟩
  · rw [SentinelServer.recoverFromEtcd, replay]
    rfl
  · intro topic
    have view := views topic
    rw [found] at view
    exact view

/-- The steps of calls: the first stores the replicas, and the second logs one of the calls that
are so far. A fault of the second one also stands for a sentinel that stops in between.
-/
inductive ReplicaAction
  | set (operation : Operation) (fault : Option GoError)
  | log (index : Nat) (fault : Option LogFault)

/-- What all sentinels share: the table and the counter of a manager, the logged operations by
their key, and the calls between their steps in the order in which they stored.
-/
structure ReplicaHistory where
  etcd : EtcdManager
  operations : List (GoString × Operation)
  pending : List Operation

namespace ReplicaHistory

def start (etcd : EtcdManager) : ReplicaHistory := { etcd, operations := [], pending := [] }

/-- A call that waits for its number takes no further step. -/
def step (state : ReplicaHistory) (action : Int × ReplicaAction) : ReplicaHistory :=
  match action.2 with
  | .set operation none =>
      { state with
        etcd := operation.stored state.etcd action.1
        pending := state.pending ++ [operation] }
  -- a replacement that could not be stored ends with an error
  | .set (.handleUnreachableBrokers ..) (some _) => state
  -- a new record is logged all the same
  | .set operation (some _) => { state with pending := state.pending ++ [operation] }
  | .log index fault =>
      match state.pending[index]? with
      | none => state
      | some operation => {
          etcd := (state.etcd.logOperation fault).state
          operations :=
            match state.etcd.loggedID fault with
            | none => state.operations
            | some id => SortedRecords.put (operationKey id) operation state.operations
          pending := state.pending.eraseIdx index
        }

/-- A call that logs itself behind the waiting ones. -/
theorem etcd_step_log (state : ReplicaHistory) (etcd : EtcdManager) (operation : Operation)
    (now : Int) (fault : Option LogFault)
    : (step { state with etcd, pending := state.pending ++ [operation] }
          (now, .log state.pending.length fault)).etcd
      = (etcd.logOperation fault).state := by
  simp [step]

/-- A new record is stored and logged by two steps. -/
theorem generateAndStoreTopicLeader_steps (state : ReplicaHistory) {world : World}
    (free : world.sentinel.mu = false) (now : Int) (topic : GoString) (replicaCount : Nat)
    (faults : EtcdFaults)
    : ∃ brokers,
        (world.generateAndStoreTopicLeader state.etcd now topic replicaCount
            faults).state.sentinel.etcdManager
        = some ((state.step
              (now, .set (.generateTopicReplicas topic replicaCount brokers) faults.set)).step
            (now, .log state.pending.length faults.log)).etcd := by
  refine ⟨(world.records (world.sentinel.selectBrokers topic replicaCount)).map
    BrokerInfo.toReplica, ?_⟩
  simp only [World.generateAndStoreTopicLeader, free, Bool.false_eq_true, if_false]
  split
  · next blocked =>
      refine (congrArg (fun outcome => some outcome.state) blocked.symm).trans ?_
      cases faults.set <;> exact congrArg some (etcd_step_log state _ _ now faults.log).symm
  · next returned =>
      refine Eq.trans ?_ ((congrArg (fun outcome => some outcome.state) returned.symm).trans ?_)
      · split <;> rfl
      · cases faults.set <;> exact congrArg some (etcd_step_log state _ _ now faults.log).symm

/-- A new sentinel leaves the brokers and counts of all topics as they are. -/
def Kept (state : ReplicaHistory) : Prop :=
  ∀ now, ∃ recovered etcd,
    (SentinelServer.newSentinelServer
        (some (.newEtcdManager state.etcd.topicReplicas state.etcd.operationID))).recoverFromEtcd
          now (.ok (storedLogs state.operations))
      = some recovered
    ∧ recovered.etcdManager = some etcd
    ∧ ∀ topic, etcd.replicasOf topic = state.etcd.replicasOf topic

/-- The next number is new, and its key is behind those of the logged operations on the topic. -/
def Behind (state : ReplicaHistory) (operation : Operation) : Prop :=
  ∀ currentID ∈ state.etcd.counter,
    currentID < currentID + 1
    ∧ ∀ record ∈ state.operations,
        record.2.Meets operation → record.1 < operationKey (currentID + 1)

-- the instance is named because numbers of 64 bits could also be enumerated
instance (state : ReplicaHistory) (operation : Operation) : Decidable (state.Behind operation) :=
  Option.decidableForallMem state.etcd.counter

/-- Whatever is logged is stored, and can be replayed. A call is logged before all that stored
replicas of its topic later, under a key behind those of the topic that are logged already. A
call that is not logged is on a topic without a logged one; a number it took in vain does not
wrap around.
-/
def InOrder (state : ReplicaHistory) (action : Int × ReplicaAction) : Prop :=
  match action.2 with
  | .set (.generateTopicReplicas ..) fault => fault = none
  | .set operation _ => operation.NamesTopics
  | .log index fault =>
      ∀ operation ∈ state.pending[index]?,
        (∀ earlier ∈ state.pending.take index, ¬earlier.Meets operation)
        ∧ (fault = none → state.Behind operation)
        ∧ (fault = some .put → state.etcd.counter = none ∨ state.etcd.CountsOn)
        ∧ (fault ≠ none ∨ state.etcd.counter = none
            → ∀ record ∈ state.operations, ¬record.2.Meets operation)

instance (state : ReplicaHistory)
    : (action : Int × ReplicaAction) → Decidable (state.InOrder action) := fun action => by
  unfold ReplicaHistory.InOrder
  split <;> infer_instance

/-- Writing the table once more, first from the log and then from the calls that are not logged
yet, changes nothing.
-/
structure Ordered (state : ReplicaHistory) : Prop where
  counted : Counted state.etcd state.operations
  logged : ∀ record ∈ state.operations, record.2.Wellformed ∧ record.2.NamesTopics
  pending : ∀ operation ∈ state.pending, operation.Wellformed ∧ operation.NamesTopics
  table
    : ∀ topic,
        last (fun operation => operation.writes topic)
          (state.operations.map Prod.snd ++ state.pending) (state.etcd.replicasOf topic)
        = state.etcd.replicasOf topic

variable {state : ReplicaHistory} {before after : List Operation}

theorem Ordered.start (etcd : EtcdManager) : (start etcd).Ordered where
  counted := .start etcd
  logged := by
    intro record member
    cases member
  pending := by
    intro operation member
    cases member
  table := by
    intro topic
    rfl

/-- With all calls at their end the log alone writes the table. -/
theorem Ordered.kept (h : state.Ordered) (done : state.pending = []) : state.Kept := by
  intro now
  obtain ⟨recovered, etcd, replay, found, views⟩ := replicasOf_replayOperations h.logged
    (.newEtcdManager state.etcd.topicReplicas state.etcd.operationID) now
  refine ⟨recovered, etcd, replay, found, ?_⟩
  intro topic
  have same := h.table topic
  rw [done, append_nil, last_map] at same
  exact (views topic).trans same

theorem Ordered.enter (h : state.Ordered) (wellformed : operation.Wellformed)
    (named : operation.NamesTopics) {etcd : EtcdManager}
    (operationID : etcd.operationID = state.etcd.operationID)
    (stored
      : ∀ topic,
          etcd.replicasOf topic
          = (operation.writes topic).or (state.etcd.replicasOf topic))
    : { state with etcd, pending := state.pending ++ [operation] }.Ordered where
  counted := ⟨h.counted.sorted, operationID ▸ h.counted.passed⟩
  logged := h.logged
  pending := forall_mem_append.mpr ⟨h.pending, forall_mem_singleton.mpr ⟨wellformed, named⟩⟩
  table := by
    intro topic
    rw [← append_assoc, last_append, last_cons, last_nil, stored topic]
    cases written : operation.writes topic with
    | some value => rw [Option.some_or, Option.some_or]
    | none =>
        rw [Option.none_or, Option.none_or]
        exact h.table topic

theorem Ordered.set (h : state.Ordered) {now : Int} {fault : Option GoError}
    (inOrder : state.InOrder (now, .set operation fault)) (wellformed : operation.Wellformed)
    : (state.step (now, .set operation fault)).Ordered := by
  cases operation with
  | generateTopicReplicas topic replicaCount brokers =>
      cases inOrder
      exact h.enter wellformed trivial rfl (Operation.replicasOf_stored _ state.etcd now)
  | registerBroker brokerID address topics =>
      cases fault <;> exact h.enter wellformed inOrder rfl (fun topic => rfl)
  | handleUnreachableBrokers topic replicaCount unreachable brokers =>
      cases fault with
      | none => exact h.enter wellformed trivial rfl (Operation.replicasOf_stored _ state.etcd now)
      | some failure => exact h

section

variable (h : state.Ordered) (split : state.pending = before ++ operation :: after)
include h split

theorem Ordered.pending_rest
    : ∀ other ∈ before ++ after, other.Wellformed ∧ other.NamesTopics := by
  intro other member
  exact h.pending other (split ▸ ((sublist_cons_self _ _).append_left _).subset member)

/-- A call is logged behind all others on its topic. -/
theorem Ordered.logged_pass (first : ∀ earlier ∈ before, ¬earlier.Meets operation)
    {currentID : Int64} (counts : state.etcd.counter = some currentID)
    (room : currentID < currentID + 1)
    (ahead
      : ∀ record ∈ state.operations,
          record.2.Meets operation → record.1 < operationKey (currentID + 1))
    : Ordered {
        etcd := { state.etcd with operationID := some (formatInt (currentID + 1)) }
        operations :=
          SortedRecords.put (operationKey (currentID + 1)) operation state.operations
        pending := before ++ after
      } where
  counted := h.counted.record counts room operation
  logged := by
    intro record member
    rcases SortedRecords.eq_or_mem_of_mem_put member with rfl | old
    · exact h.pending operation (split ▸ by simp)
    · exact h.logged record old
  pending := h.pending_rest split
  table := by
    intro topic
    obtain ⟨below, above, cut⟩ := h.counted.cut counts room
    -- the call passes the records above its key and the calls in front of it
    have apart
        : ∀ other ∈ above.map Prod.snd ++ before,
            other.writes topic = none ∨ operation.writes topic = none := by
      intro other member
      refine Operation.writes_apart ?_ topic
      rcases mem_append.mp member with logged | waits
      · obtain ⟨record, there, rfl⟩ := mem_map.mp logged
        intro meets
        have less := ahead record (cut.split ▸ by simp [there]) meets
        exact Std.lt_irrefl (Std.lt_trans less (cut.above record there))
      · exact first other waits
    have old := h.table topic
    have pass := @last_pass _ _ (fun operation => operation.writes topic) operation
      (below.map Prod.snd) after _ apart (state.etcd.replicasOf topic)
    rw [split, cut.split] at old
    rw [cut.put]
    simp only [map_append, map_cons, append_assoc, cons_append,
      Option.map_none, Option.toList_none, nil_append] at old pass ⊢
    exact pass.trans old

/-- A call that is not logged is forgotten, as long as no other one on its topic was there
before.
-/
theorem Ordered.forget (first : ∀ earlier ∈ before, ¬earlier.Meets operation)
    (unlogged : ∀ record ∈ state.operations, ¬record.2.Meets operation)
    {operationID : Option GoString}
    (counted : Counted { state.etcd with operationID } state.operations)
    : Ordered {
        state with
        etcd := { state.etcd with operationID }
        pending := before ++ after
      } where
  counted
  logged := h.logged
  pending := h.pending_rest split
  table := by
    intro topic
    have old := h.table topic
    rw [split, ← append_assoc] at old
    rw [← append_assoc]
    refine last_without (fun other member => Operation.writes_apart ?_ topic) old
    rcases mem_append.mp member with logged | waits
    · obtain ⟨record, there, rfl⟩ := mem_map.mp logged
      exact unlogged record there
    · exact first other waits

end

theorem Ordered.log (h : state.Ordered) {now : Int} {index : Nat} {fault : Option LogFault}
    (inOrder : state.InOrder (now, .log index fault))
    : (state.step (now, .log index fault)).Ordered := by
  cases found : state.pending[index]? with
  | none => simpa only [step, found] using h
  | some operation =>
      obtain ⟨first, behind, counting, alone⟩ := inOrder operation found
      obtain ⟨bound, there⟩ := List.getElem?_eq_some_iff.mp found
      have split : state.pending
          = state.pending.take index ++ operation :: state.pending.drop (index + 1) := by
        rw [← there, getElem_cons_drop, take_append_drop]
      simp only [step, found, eraseIdx_eq_take_drop_succ]
      rcases state.etcd.logOperation_cases fault with
        ⟨currentID, counts, etcd, ⟨rfl, id⟩ | ⟨rfl, id⟩⟩ | ⟨fails, etcd, id⟩
      · obtain ⟨room, ahead⟩ := behind rfl currentID counts
        rw [etcd, id]
        exact h.logged_pass split first counts room ahead
      · rw [etcd, id]
        have room : currentID < currentID + 1 := by
          rcases counting rfl with lost | ⟨_, here, room⟩
          · exact absurd (lost.symm.trans counts) (Option.some_ne_none _).symm
          · exact Option.some.inj (counts.symm.trans here) ▸ room
        exact h.forget split first (alone (Or.inl (Option.some_ne_none _)))
          (h.counted.skip counts room)
      · rw [etcd, id]
        exact h.forget split first (alone fails) h.counted

end ReplicaHistory

/-- Calls log what they stored, and texts of gRPC are valid UTF-8. -/
def ReplicaAction.Wellformed : ReplicaAction → Prop
  | .set operation _ => operation.Wellformed
  | .log .. => True

/-- As long as the steps are in order, a recovery leaves the replicas of all topics as they are,
whenever it runs with all calls at their end.
-/
theorem kept_of_inOrder (topicReplicas : GoMap GoString TopicReplicaInfo)
    (operationID : Option GoString) {actions : List (Int × ReplicaAction)}
    (wellformed : ∀ action ∈ actions, action.2.Wellformed)
    (inOrder
      : AllSteps ReplicaHistory.step ReplicaHistory.InOrder
          (.start (.newEtcdManager topicReplicas operationID)) actions)
    : ∀ visited ∈ actions.scanl ReplicaHistory.step
          (.start (.newEtcdManager topicReplicas operationID)),
        visited.pending = [] → visited.Kept := by
  have keep (state : ReplicaHistory) (action : Int × ReplicaAction)
      (allowed : state.InOrder action ∧ action.2.Wellformed) (h : state.Ordered)
      : (state.step action).Ordered := by
    obtain ⟨now, action⟩ := action
    cases action with
    | set operation fault => exact h.set allowed.1 allowed.2
    | log index fault => exact h.log allowed.1
  intro visited member done
  exact ((inOrder.and wellformed).always keep (.start _) visited member).kept done

/-- Two sentinels store replicas of different topics and log them the other way round; then a
broker is replaced, and the record of a third topic gets lost behind its number.
-/
def crossedCalls : List (Int × ReplicaAction) := [
  (0, .set (.generateTopicReplicas (lit "t") 1 [⟨lit "first", lit "host:1", 0⟩]) none),
  (1, .set (.generateTopicReplicas (lit "u") 1 [⟨lit "second", lit "host:2", 0⟩]) none),
  (2, .log 1 none),
  (3, .log 0 none),
  (4, .set
    (.handleUnreachableBrokers (lit "t") 1 [lit "first"] [⟨lit "second", lit "host:2", 0⟩]) none),
  (5, .log 0 none),
  (6, .set (.generateTopicReplicas (lit "v") 1 [⟨lit "first", lit "host:1", 0⟩]) none),
  (7, .log 0 (some .put))
]

theorem kept_crossedCalls
    : (crossedCalls.foldl ReplicaHistory.step
          (.start (.newEtcdManager ∅ (some (lit "0"))))).pending = []
      ∧ ∀ visited ∈ crossedCalls.scanl ReplicaHistory.step
            (.start (.newEtcdManager ∅ (some (lit "0")))),
          visited.pending = [] → visited.Kept := by
  refine ⟨by decide +kernel, kept_of_inOrder ∅ (some (lit "0")) ?_ (by decide +kernel)⟩
  simp [crossedCalls, ReplicaAction.Wellformed, Operation.Wellformed, ReplicaBroker.Wellformed,
    validUTF8_lit]

/-- One call after the other, with the brokers that the ring has for the topics: two brokers
register, a topic gets the first one and, by the tenth operation, the second one instead.
-/
def tenCalls : ReplicaHistory :=
  List.foldl ReplicaHistory.step (.start (.newEtcdManager ∅ (some (lit "0"))))
    (List.flatMap (fun operation => [(0, .set operation none), (0, .log 0 none)])
      ([
        .registerBroker (lit "first") (lit "host:1") (some [lit "t"]),
        .registerBroker (lit "second") (lit "host:2") (some [lit "t"]),
        .generateTopicReplicas (lit "t") 1 [⟨lit "first", lit "host:1", 0⟩]
      ] ++ [lit "u", lit "v", lit "w", lit "x", lit "z", lit "b"].map
        (fun topic => .generateTopicReplicas topic 1 [⟨lit "second", lit "host:2", 0⟩])
      ++ [
        .handleUnreachableBrokers (lit "t") 1 [lit "first"] [⟨lit "second", lit "host:2", 0⟩]
      ]))

/-- In the order of bytes the tenth key comes before the third. -/
theorem not_kept_tenCalls : tenCalls.pending = [] ∧ ¬tenCalls.Kept := by
  refine ⟨by decide +kernel, ?_⟩
  intro kept
  obtain ⟨recovered, etcd, replay, found, same⟩ := kept 0
  have rewound
      : ((SentinelServer.newSentinelServer (some (.newEtcdManager tenCalls.etcd.topicReplicas
            tenCalls.etcd.operationID))).recoverFromEtcd 0
            (.ok (storedLogs tenCalls.operations))).bind
          (fun server => server.etcdManager.bind (fun etcd => etcd.replicasOf (lit "t")))
        = some ([⟨lit "first", lit "host:1", 0⟩], 1) := by
    decide +kernel
  have stored
      : tenCalls.etcd.replicasOf (lit "t") = some ([⟨lit "second", lit "host:2", 0⟩], 1) := by
    decide +kernel
  rw [replay, Option.bind_some, found, Option.bind_some, same, stored] at rewound
  revert rewound
  decide

end Goulette.Sentinel
