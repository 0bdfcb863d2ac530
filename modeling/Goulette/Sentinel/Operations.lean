import Goulette.Library.SortedRecords
import Goulette.Sentinel.Recovery

/-! The operations that a sentinel logs in etcd and their way back. A nil list of topics is the one
value whose type assertion fails in the replay.
-/

namespace Goulette.Sentinel

open Goulette.Go Goulette.Storage LastWrite List

/-- The calls of `LogOperation`. Topics that are missing in a request are a nil slice. -/
inductive Operation
  | registerBroker (brokerID address : GoString) (topics : Option (List GoString))
  | generateTopicReplicas (topic : GoString) (replicaCount : Nat) (brokers : List ReplicaBroker)
  | handleUnreachableBrokers (topic : GoString) (replicaCount : Nat) (unreachable : List GoString)
      (brokers : List ReplicaBroker)
deriving DecidableEq, Repr

/-- A nil slice is null. -/
def marshalStrings : Option (List GoString) → Json
  | none => .null
  | some texts => .array (texts.map marshalString)

def ReplicaBroker.marshal (broker : ReplicaBroker) : Json :=
  .object [
    (lit "broker_id", marshalString broker.brokerID),
    (lit "address", marshalString broker.address),
    (lit "status", .number broker.status)
  ]

def ReplicaBroker.Wellformed (broker : ReplicaBroker) : Prop :=
  ValidUTF8 broker.brokerID ∧ ValidUTF8 broker.address ∧ broker.status < 3

namespace Operation

def function : Operation → GoString
  | .registerBroker .. => lit "registerBroker"
  | .generateTopicReplicas .. => lit "generateTopicReplicas"
  | .handleUnreachableBrokers .. => lit "handleUnreachableBrokers"

/-- The parameters; the keys of a map are sorted. The lists of brokers are never nil, and a
request without unreachable brokers is not logged.
-/
def params : Operation → Json
  | .registerBroker brokerID address topics =>
      .object [
        (lit "address", marshalString address),
        (lit "broker_id", marshalString brokerID),
        (lit "topics", marshalStrings topics)
      ]
  | .generateTopicReplicas topic replicaCount brokers =>
      .object [
        (lit "brokers", .array (brokers.map ReplicaBroker.marshal)),
        (lit "replica_count", .number replicaCount),
        (lit "topic", marshalString topic)
      ]
  | .handleUnreachableBrokers topic replicaCount unreachable brokers =>
      .object [
        (lit "new_brokers", .array (brokers.map ReplicaBroker.marshal)),
        (lit "replica_count", .number replicaCount),
        (lit "topic", marshalString topic),
        (lit "unreachable_brokers", marshalStrings (some unreachable))
      ]

def log (operation : Operation) : OperationLog :=
  { function := operation.function, params := some operation.params }

def apply (operation : Operation) (server : SentinelServer) (now : Int) (fault : Option GoError)
    : Replay :=
  match operation with
  | .registerBroker brokerID address topics =>
      .done (server.addBroker
        { brokerID, address, status := .healthy, topics := topics.getD [], lastHeartbeat := now })
  | .generateTopicReplicas topic replicaCount brokers =>
      server.storeReplicas now topic brokers replicaCount fault .store
  | .handleUnreachableBrokers topic replicaCount unreachable brokers =>
      (server.updateBrokerStatus unreachable .down).storeReplicas now topic brokers replicaCount
        fault .update

/-- The call of `SetTopicReplicas`; a registration stores nothing. -/
def stored (em : EtcdManager) (now : Int) : Operation → EtcdManager
  | .registerBroker .. => em
  | .generateTopicReplicas topic replicaCount brokers =>
      em.setTopicReplicas now topic brokers replicaCount
  | .handleUnreachableBrokers topic replicaCount _ brokers =>
      em.setTopicReplicas now topic brokers replicaCount

/-- What a request can bring: texts of gRPC are valid UTF-8, counts have 32 bits, and a status is
one of three.
-/
def Wellformed : Operation → Prop
  | .registerBroker brokerID address topics =>
      ValidUTF8 brokerID ∧ ValidUTF8 address ∧ ∀ topic ∈ topics.getD [], ValidUTF8 topic
  | .generateTopicReplicas topic replicaCount brokers =>
      ValidUTF8 topic ∧ replicaCount < 2 ^ 32 ∧ ∀ broker ∈ brokers, broker.Wellformed
  | .handleUnreachableBrokers topic replicaCount unreachable brokers =>
      ValidUTF8 topic ∧ replicaCount < 2 ^ 32 ∧ (∀ brokerID ∈ unreachable, ValidUTF8 brokerID)
        ∧ ∀ broker ∈ brokers, broker.Wellformed

def NamesTopics : Operation → Prop
  | .registerBroker _ _ topics => topics ≠ none
  | _ => True

instance : DecidablePred NamesTopics := fun value => by
  unfold NamesTopics
  split <;> infer_instance

end Operation

/-- Reading what was written, element by element. -/
theorem mapM_map_of_inverse {A B : Type} {write : A → B} {read : B → Option A} {items : List A}
    (inverse : ∀ item ∈ items, read (write item) = some item)
    : (items.map write).mapM read = some items := by
  induction items with
  | nil => rfl
  | cons item rest ih =>
      have tail := ih (fun other member => inverse other (mem_cons_of_mem _ member))
      rw [map_cons, mapM_cons, inverse item mem_cons_self, tail]
      rfl

theorem assertString_marshalString {text : GoString} (valid : ValidUTF8 text)
    : assertString (marshalString text).toAny = some text := by
  rw [marshalString, toValidUTF8_of_valid valid]
  rfl

theorem assertFloat64_number {value : Nat} (small : value < 2 ^ 53)
    : assertFloat64 (Json.number value).toAny = some (value : Int) := by
  rw [Json.toAny, toFloat64_of_small (by simpa using small)]
  rfl

theorem assertStrings_marshalStrings {texts : List GoString}
    (valid : ∀ text ∈ texts, ValidUTF8 text)
    : assertStrings (marshalStrings (some texts)).toAny = some texts := by
  have read := mapM_map_of_inverse
    (fun text member => assertString_marshalString (valid text member))
  rw [marshalStrings, Json.toAny, elementsToAny_eq_map, map_map]
  exact read

theorem assertBrokers_marshal {brokers : List ReplicaBroker}
    (wellformed : ∀ broker ∈ brokers, broker.Wellformed)
    : assertBrokers (Json.array (brokers.map ReplicaBroker.marshal)).toAny = some brokers := by
  rw [Json.toAny, elementsToAny_eq_map, map_map]
  refine mapM_map_of_inverse ?_
  intro broker member
  obtain ⟨brokerID, address, status⟩ := wellformed broker member
  have first := assertString_marshalString brokerID
  have second := assertString_marshalString address
  have third := assertFloat64_number (show broker.status < 2 ^ 53 by omega)
  change (assertString (marshalString broker.brokerID).toAny).bind
    (fun brokerID => (assertString (marshalString broker.address).toAny).bind
      (fun address => (assertFloat64 (Json.number broker.status).toAny).bind
        (fun status => some ⟨brokerID, address, status.toNat⟩))) = some broker
  rw [first, second, third]
  rfl

namespace SentinelServer

variable {server : SentinelServer} {data : List (GoString × Any)} {topic : GoString}
  {replicaCount : Nat} {brokers : List ReplicaBroker}

theorem replayRegisterBroker_eq {brokerID address : GoString} {topics : List GoString}
    (id : assertString (valueOf data (lit "broker_id")) = some brokerID)
    (place : assertString (valueOf data (lit "address")) = some address)
    (names : assertStrings (valueOf data (lit "topics")) = some topics) (now : Int)
    : server.replayRegisterBroker now data
      = .done (server.addBroker
          { brokerID, address, status := .healthy, topics, lastHeartbeat := now }) := by
  rw [replayRegisterBroker, id, place, names]

variable (name : assertString (valueOf data (lit "topic")) = some topic)
  (count : assertFloat64 (valueOf data (lit "replica_count")) = some (replicaCount : Int))
include name count

theorem replayGenerateTopicReplicas_eq
    (list : assertBrokers (valueOf data (lit "brokers")) = some brokers) (now : Int)
    (fault : Option GoError)
    : server.replayGenerateTopicReplicas now data fault
      = server.storeReplicas now topic brokers replicaCount fault .store := by
  rw [replayGenerateTopicReplicas, name, count, list]

theorem replayHandleUnreachableBrokers_eq {unreachable : List GoString}
    (down : assertStrings (valueOf data (lit "unreachable_brokers")) = some unreachable)
    (list : assertBrokers (valueOf data (lit "new_brokers")) = some brokers) (now : Int)
    (fault : Option GoError)
    : server.replayHandleUnreachableBrokers now data fault
      = (server.updateBrokerStatus unreachable .down).storeReplicas now topic brokers
          replicaCount fault .update := by
  rw [replayHandleUnreachableBrokers, name, count, down, list]

end SentinelServer

def Operation.data (operation : Operation) : List (GoString × Any) :=
  (unmarshalMap operation.log.params).getD []

/-- The replay of a stored record finds the function that was logged. -/
theorem replayOperation_data (server : SentinelServer) (now : Int) (operation : Operation)
    (fault : Option GoError)
    : server.replayOperation now operation.log fault
      = match operation with
        | .registerBroker .. => server.replayRegisterBroker now operation.data
        | .generateTopicReplicas .. =>
            server.replayGenerateTopicReplicas now operation.data fault
        | .handleUnreachableBrokers .. =>
            server.replayHandleUnreachableBrokers now operation.data fault := by
  cases operation <;> rfl

/-- The replay of a stored record is the operation that was logged. -/
theorem replayOperation_log {operation : Operation} (wellformed : operation.Wellformed)
    (named : operation.NamesTopics) (server : SentinelServer) (now : Int)
    (fault : Option GoError)
    : server.replayOperation now operation.log fault = operation.apply server now fault := by
  rw [replayOperation_data]
  cases operation with
  | registerBroker brokerID address topics =>
      obtain ⟨validID, validAddress, validTopics⟩ := wellformed
      obtain ⟨topics, rfl⟩ := Option.ne_none_iff_exists'.mp named
      refine SentinelServer.replayRegisterBroker_eq ?_ ?_ ?_ now
      · exact assertString_marshalString validID
      · exact assertString_marshalString validAddress
      · exact assertStrings_marshalStrings validTopics
  | generateTopicReplicas topic replicaCount brokers =>
      obtain ⟨validTopic, small, validBrokers⟩ := wellformed
      have count : replicaCount < 2 ^ 53 := by omega
      refine SentinelServer.replayGenerateTopicReplicas_eq ?_ ?_ ?_ now fault
      · exact assertString_marshalString validTopic
      · exact assertFloat64_number count
      · exact assertBrokers_marshal validBrokers
  | handleUnreachableBrokers topic replicaCount unreachable brokers =>
      obtain ⟨validTopic, small, validIDs, validBrokers⟩ := wellformed
      have count : replicaCount < 2 ^ 53 := by omega
      refine SentinelServer.replayHandleUnreachableBrokers_eq ?_ ?_ ?_ ?_ now fault
      · exact assertString_marshalString validTopic
      · exact assertFloat64_number count
      · exact assertStrings_marshalStrings validIDs
      · exact assertBrokers_marshal validBrokers

/-- A nil list of topics ends the process. -/
theorem replayOperation_log_nil (server : SentinelServer) (now : Int) (brokerID address : GoString)
    (fault : Option GoError)
    : server.replayOperation now (Operation.registerBroker brokerID address none).log fault
      = .panicked := by
  rw [replayOperation_data]
  rfl

/-- With etcd at hand an operation can be applied, and stores its replicas. -/
theorem Operation.apply_stored {server : SentinelServer} {em : EtcdManager}
    (found : server.etcdManager = some em) (operation : Operation) (now : Int)
    : ∃ next,
        operation.apply server now none = .done next
        ∧ next.etcdManager = some (operation.stored em now) := by
  cases operation with
  | registerBroker brokerID address topics => exact ⟨_, rfl, found⟩
  | generateTopicReplicas topic replicaCount brokers =>
      simp only [apply, SentinelServer.storeReplicas, found]
      exact ⟨_, rfl, rfl⟩
  | handleUnreachableBrokers topic replicaCount unreachable brokers =>
      have kept := server.updateBrokerStatus_etcdManager unreachable .down
      simp only [apply, SentinelServer.storeReplicas, kept, found]
      exact ⟨_, rfl, rfl⟩

/-- The replay of the stored record returns, and has done what was logged with the same broker,
address, topics, count and lists.
-/
def Operation.Reconstructed (operation : Operation) (server : SentinelServer) (now : Int) : Prop :=
  ∃ next,
    server.replayOperation now operation.log none = .done next
    ∧ operation.apply server now none = .done next

/-- Logged operations are replayable exactly if their list of topics is not nil. -/
theorem reconstructed_iff_namesTopics {server : SentinelServer}
    (inEtcdMode : server.etcdManager.isSome) {operation : Operation}
    (wellformed : operation.Wellformed) (now : Int)
    : operation.Reconstructed server now ↔ operation.NamesTopics := by
  constructor
  · rintro ⟨next, replayed, _⟩
    cases operation with
    | registerBroker brokerID address topics =>
        rintro rfl
        rw [replayOperation_log_nil] at replayed
        cases replayed
    | generateTopicReplicas | handleUnreachableBrokers => trivial
  · intro named
    obtain ⟨etcdManager, found⟩ := Option.isSome_iff_exists.mp inEtcdMode
    obtain ⟨next, applied, _⟩ := operation.apply_stored found now
    exact ⟨next, (replayOperation_log wellformed named server now none).trans applied, applied⟩

/-- A request that names a topic. -/
theorem reconstructed_oneTopic
    : (Operation.registerBroker (lit "first") (lit "host:1") (some [lit "t"])).Reconstructed
        (.newSentinelServer freshEtcd) 0 := by
  have topics : ∀ topic ∈ [lit "t"], ValidUTF8 topic := by
    intro topic member
    rw [mem_singleton.mp member]
    exact validUTF8_lit _
  have wellformed
      : (Operation.registerBroker (lit "first") (lit "host:1") (some [lit "t"])).Wellformed :=
    ⟨validUTF8_lit _, validUTF8_lit _, topics⟩
  exact (reconstructed_iff_namesTopics rfl wellformed 0).mpr (by decide)

/-- A request without topics is logged with a null, and its replay ends the sentinel. -/
theorem not_reconstructed_noTopics
    : ¬(Operation.registerBroker (lit "first") (lit "host:1") none).Reconstructed
        (.newSentinelServer freshEtcd) 0 := by
  rintro ⟨next, replayed, _⟩
  cases replayed

/-! The log in etcd. -/

def operationKey (id : Int64) : GoString := lit "/goulette/operations/" ++ formatInt id

/-- The printed form of a negative number starts with a sign, that of others with a digit. -/
theorem formatInt_injective {left right : Int64} (same : formatInt left = formatInt right)
    : left = right := by
  have signed (value number : Nat) : lit "-" ++ decimal value ≠ decimal number := by
    intro equal
    have member : (45 : UInt8) ∈ decimal number := by
      rw [← equal]
      exact mem_append_left _ (by decide)
    exact absurd (digit_of_mem_decimal member).1 (by decide)
  apply Int64.toInt_inj.mp
  unfold formatInt at same
  split at same
  · next negative =>
      rw [Int64.lt_iff_toInt_lt, Int64.toInt_zero] at negative
      split at same
      · next alsoNegative =>
          rw [Int64.lt_iff_toInt_lt, Int64.toInt_zero] at alsoNegative
          have sizes := decimal_injective (append_cancel_left same)
          omega
      · exact absurd same (signed _ _)
  · next positive =>
      rw [Int64.lt_iff_toInt_lt, Int64.toInt_zero] at positive
      split at same
      · exact absurd same.symm (signed _ _)
      · next alsoPositive =>
          rw [Int64.lt_iff_toInt_lt, Int64.toInt_zero] at alsoPositive
          have sizes := decimal_injective same
          omega

theorem operationKey_injective {left right : Int64}
    (same : operationKey left = operationKey right)
    : left = right :=
  formatInt_injective (append_cancel_left same)

namespace EtcdManager

def counter (em : EtcdManager) : Option Int64 :=
  match em.operationID with
  | none => none
  | some text =>
      match parseInt text with
      | none => none
      | some currentID => if text = formatInt currentID then some currentID else none

def CountsOn (em : EtcdManager) : Prop := ∃ currentID ∈ em.counter, currentID < currentID + 1

instance (em : EtcdManager) : Decidable em.CountsOn :=
  inferInstanceAs (Decidable (∃ currentID ∈ em.counter, currentID < currentID + 1))

def loggedID (em : EtcdManager) (fault : Option LogFault) : Option Int64 :=
  match fault, em.getNextID with
  | none, .returned _ id => id
  | _, _ => none

variable {em : EtcdManager} {currentID : Int64}

/-- What the counter is read from. -/
theorem eq_some_of_counter (counts : em.counter = some currentID)
    : em.operationID = some (formatInt currentID)
      ∧ parseInt (formatInt currentID) = some currentID := by
  unfold counter at counts
  cases stored : em.operationID with
  | none => simp [stored] at counts
  | some text =>
      cases parsed : parseInt text with
      | none => simp [stored, parsed] at counts
      | some value =>
          simp only [stored, parsed, Option.ite_none_right_eq_some, Option.some.injEq] at counts
          obtain ⟨printed, rfl⟩ := counts
          rw [printed] at parsed
          exact ⟨congrArg some printed, parsed⟩

/-- A counter that can be read is counted up, and its next number names the record. -/
theorem getNextID_of_counter (counts : em.counter = some currentID)
    : em.getNextID
      = .returned { em with operationID := some (formatInt (currentID + 1)) }
          (some (currentID + 1)) := by
  obtain ⟨stored, parsed⟩ := eq_some_of_counter counts
  simp only [getNextID, stored, parsed, if_true]

/-- A counter that cannot be read gives no number and stays. -/
theorem getNextID_of_none (counts : em.counter = none)
    : em.getNextID = .blocked em ∨ em.getNextID = .returned em none := by
  unfold counter at counts
  unfold getNextID
  cases stored : em.operationID with
  | none => exact Or.inl rfl
  | some text =>
      cases parsed : parseInt text with
      | none => exact Or.inr (by simp only [parsed])
      | some value =>
          simp only [stored, parsed, ite_eq_right_iff, reduceCtorEq, imp_false] at counts
          exact Or.inl (by simp only [parsed, if_neg counts])

/-- The next number is taken, for a record or in vain, or neither record nor counter change. -/
theorem logOperation_cases (em : EtcdManager) (fault : Option LogFault)
    : (∃ currentID,
        em.counter = some currentID
        ∧ (em.logOperation fault).state
          = { em with operationID := some (formatInt (currentID + 1)) }
        ∧ (fault = none ∧ em.loggedID fault = some (currentID + 1)
          ∨ fault = some .put ∧ em.loggedID fault = none))
      ∨ (fault ≠ none ∨ em.counter = none)
        ∧ (em.logOperation fault).state = em
        ∧ em.loggedID fault = none := by
  by_cases early : fault = some .number
  · subst early
    exact Or.inr ⟨Or.inl (Option.some_ne_none _), rfl, rfl⟩
  cases counts : em.counter with
  | some currentID =>
      have next := getNextID_of_counter counts
      refine Or.inl
        ⟨currentID, rfl, by simp only [logOperation, if_neg early, next, Outcome.state], ?_⟩
      rcases fault with _ | _ | _
      · exact Or.inl ⟨rfl, by simp only [loggedID, next]⟩
      · exact absurd rfl early
      · exact Or.inr ⟨rfl, rfl⟩
  | none =>
      refine Or.inr ⟨Or.inr rfl, ?_⟩
      rcases getNextID_of_none counts with waits | fails
      · cases fault <;>
          simp only [logOperation, loggedID, if_neg early, waits, Outcome.state, and_self]
      · cases fault <;>
          simp only [logOperation, loggedID, if_neg early, fails, Outcome.state, and_self]

end EtcdManager

/-- What a new sentinel finds: the records in the order of their keys. No write of its replay
fails.
-/
def storedLogs (operations : List (GoString × Operation)) : List (OperationLog × Option GoError) :=
  operations.map (fun record => (record.2.log, none))

/-- A log whose records can all be replayed is replayed to its end, and what the records write is
there as the last of them wrote it.
-/
theorem replayOperations_storedLogs {K V : Type} (holds : SentinelServer → Prop)
    (view : SentinelServer → K → Option V) (write : Operation → K → Option V)
    {operations : List (GoString × Operation)} {now : Int}
    (round
      : ∀ record ∈ operations, ∀ server, holds server
          → ∃ next,
              server.replayOperation now record.2.log none = .done next
              ∧ holds next
              ∧ ∀ key, view next key = (write record.2 key).or (view server key))
    {server : SentinelServer} (start : holds server)
    : ∃ next,
        server.replayOperations now (storedLogs operations) = some (next, none)
        ∧ holds next
        ∧ ∀ key,
            view next key = last (fun record => write record.2 key) operations (view server key)
    := by
  induction operations generalizing server with
  | nil => exact ⟨server, rfl, start, fun key => rfl⟩
  | cons record rest ih =>
      obtain ⟨first, done, kept, written⟩ := round record mem_cons_self server start
      obtain ⟨next, replay, finished, views⟩ :=
        ih (fun other member => round other (mem_cons_of_mem _ member)) kept
      refine ⟨next, ?_, finished, ?_⟩
      · rw [storedLogs, map_cons, SentinelServer.replayOperations, done]
        exact replay
      · intro key
        rw [views, written, last_cons]

structure Counted (em : EtcdManager) (operations : List (GoString × Operation)) : Prop where
  sorted : SortedRecords.Sorted operations
  passed
    : ∀ currentID, em.operationID = some (formatInt currentID)
        → ∀ record ∈ operations, ∃ id ≤ currentID, record.1 = operationKey id

namespace Counted

variable {em : EtcdManager} {operations : List (GoString × Operation)} {currentID : Int64}

theorem start (em : EtcdManager) : Counted em [] where
  sorted := .nil
  passed := by simp

variable (h : Counted em operations) (counts : em.counter = some currentID)
  (room : currentID < currentID + 1)
include h counts room

/-- The next number is new. -/
theorem cut
    : ∃ below above,
        SortedRecords.Cut (operationKey (currentID + 1)) operations below none above := by
  obtain ⟨below, own, above, cut⟩ := h.sorted.cut (operationKey (currentID + 1))
  cases own with
  | none => exact ⟨below, above, cut⟩
  | some operation =>
      obtain ⟨id, old, same⟩ := h.passed currentID (EtcdManager.eq_some_of_counter counts).1
        (operationKey (currentID + 1), operation) (cut.split ▸ by simp)
      rw [← operationKey_injective same] at old
      exact absurd room (Int64.not_lt.mpr old)

theorem record (operation : Operation)
    : Counted { em with operationID := some (formatInt (currentID + 1)) }
        (SortedRecords.put (operationKey (currentID + 1)) operation operations) where
  sorted := h.sorted.put _ _
  passed := by
    intro nextID counted stored member
    have next : nextID = currentID + 1 := (formatInt_injective (Option.some.inj counted)).symm
    subst next
    rcases SortedRecords.eq_or_mem_of_mem_put member with rfl | old
    · exact ⟨currentID + 1, Int64.le_refl _, rfl⟩
    · obtain ⟨id, before, same⟩ :=
        h.passed currentID (EtcdManager.eq_some_of_counter counts).1 _ old
      exact ⟨id, Int64.le_trans before (Int64.le_of_lt room), same⟩

/-- A number without a record leaves a gap. -/
theorem skip : Counted { em with operationID := some (formatInt (currentID + 1)) } operations where
  sorted := h.sorted
  passed := by
    intro nextID counted record member
    have next : nextID = currentID + 1 := (formatInt_injective (Option.some.inj counted)).symm
    obtain ⟨id, before, same⟩ :=
      h.passed currentID (EtcdManager.eq_some_of_counter counts).1 record member
    exact ⟨id, next ▸ Int64.le_trans before (Int64.le_of_lt room), same⟩

end Counted

end Goulette.Sentinel
