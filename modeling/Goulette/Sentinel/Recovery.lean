import Goulette.Sentinel.Membership

/-! The start of a sentinel on what etcd holds, in `sentinel/server.go`. A replay reads its
parameters by type assertions, which end the process when they fail.
-/

namespace Goulette.Sentinel

open Goulette.Go Goulette.Storage Runs List

variable {server : SentinelServer}

/-- A logged operation; parameters that are no JSON text are missing. -/
structure OperationLog where
  function : GoString
  params : Option Json

/-- Why a replay stops; the texts put `解析参数失败`, `存储topic副本信息失败` or
`更新topic副本信息失败` in front.
-/
inductive ReplayFailure
  | params
  | store (error : GoError)
  | update (error : GoError)

/-- How a replay ends; a failed type assertion ends the process. -/
inductive Replay
  | done (server : SentinelServer)
  | failed (server : SentinelServer) (failure : ReplayFailure)
  | panicked

/-- `json.Unmarshal` into a `map[string]interface{}`. -/
def unmarshalMap : Option Json → Option (List (GoString × Any))
  | some (.object members) => some (membersToAny members)
  | some .null => some []
  | _ => none

def valueOf (data : List (GoString × Any)) (key : GoString) : Any :=
  ((data.reverse.find? (fun entry => entry.1 = key)).map Prod.snd).getD .nil

def assertString : Any → Option GoString
  | .string text => some text
  | _ => none

def assertFloat64 : Any → Option Int
  | .float64 value => some value
  | _ => none

def assertSlice : Any → Option (List Any)
  | .slice elements => some elements
  | _ => none

def assertMap : Any → Option (List (GoString × Any))
  | .map entries => some entries
  | _ => none

def assertStrings (value : Any) : Option (List GoString) := do
  (← assertSlice value).mapM assertString

/-- The brokers of a slice. Statuses and counts are not negative. -/
def assertBrokers (value : Any) : Option (List ReplicaBroker) := do
  (← assertSlice value).mapM (fun element => do
    let data ← assertMap element
    let brokerID ← assertString (valueOf data (lit "broker_id"))
    let address ← assertString (valueOf data (lit "address"))
    let status ← assertFloat64 (valueOf data (lit "status"))
    return { brokerID, address, status := status.toNat })

namespace SentinelServer

def replayAddBrokerToHashRing (server : SentinelServer) (data : List (GoString × Any))
    : Replay :=
  match assertString (valueOf data (lit "broker_id")) with
  | none => .panicked
  | some brokerID => .done { server with hashRing := server.hashRing.addNode brokerID }

def replayRegisterBroker (server : SentinelServer) (now : Int) (data : List (GoString × Any))
    : Replay :=
  match assertString (valueOf data (lit "broker_id")),
      assertString (valueOf data (lit "address")),
      assertStrings (valueOf data (lit "topics")) with
  | some brokerID, some address, some topics =>
      -- nobody asks whether the broker is in the table
      .done (server.addBroker
        { brokerID, address, status := .healthy, topics, lastHeartbeat := now })
  | _, _, _ => .panicked

def replayUnregisterBroker (server : SentinelServer) (data : List (GoString × Any))
    : Replay :=
  match assertString (valueOf data (lit "broker_id")) with
  | none => .panicked
  | some brokerID => .done (server.dropBroker brokerID [])

def storeReplicas (server : SentinelServer) (now : Int) (topic : GoString)
    (brokers : List ReplicaBroker) (replicaCount : Int) (fault : Option GoError)
    (failure : GoError → ReplayFailure)
    : Replay :=
  match server.etcdManager, fault with
  | none, _ => .panicked
  | some _, some error => .failed server (failure (lit "设置Topic副本信息失败: " ++ error))
  | some etcdManager, none =>
      .done { server with
        etcdManager := etcdManager.setTopicReplicas now topic brokers replicaCount.toNat }

def replayGenerateTopicReplicas (server : SentinelServer) (now : Int)
    (data : List (GoString × Any)) (fault : Option GoError)
    : Replay :=
  match assertString (valueOf data (lit "topic")),
      assertFloat64 (valueOf data (lit "replica_count")),
      assertBrokers (valueOf data (lit "brokers")) with
  | some topic, some replicaCount, some brokers =>
      server.storeReplicas now topic brokers replicaCount fault .store
  | _, _, _ => .panicked

def replayHandleUnreachableBrokers (server : SentinelServer) (now : Int)
    (data : List (GoString × Any)) (fault : Option GoError)
    : Replay :=
  match assertString (valueOf data (lit "topic")),
      assertFloat64 (valueOf data (lit "replica_count")),
      assertStrings (valueOf data (lit "unreachable_brokers")),
      assertBrokers (valueOf data (lit "new_brokers")) with
  | some topic, some replicaCount, some unreachable, some brokers =>
      (server.updateBrokerStatus unreachable .down).storeReplicas now topic brokers replicaCount
        fault .update
  | _, _, _, _ => .panicked

def replayOperation (server : SentinelServer) (now : Int) (operation : OperationLog)
    (fault : Option GoError)
    : Replay :=
  let read (replay : List (GoString × Any) → Replay) : Replay :=
    match unmarshalMap operation.params with
    | none => .failed server .params
    | some data => replay data
  if operation.function = lit "addBrokerToHashRing" then
    read server.replayAddBrokerToHashRing
  else if operation.function = lit "registerBroker" then
    read (server.replayRegisterBroker now)
  else if operation.function = lit "unregisterBroker" then
    read server.replayUnregisterBroker
  else if operation.function = lit "generateTopicReplicas" then
    read (server.replayGenerateTopicReplicas now · fault)
  else if operation.function = lit "handleUnreachableBrokers" then
    read (server.replayHandleUnreachableBrokers now · fault)
  -- unknown functions are skipped before their parameters are read
  else .done server

def replayOperations (server : SentinelServer) (now : Int)
    : List (OperationLog × Option GoError) → Option (SentinelServer × Option ReplayFailure)
  | [] => some (server, none)
  | (operation, fault) :: rest =>
      match server.replayOperation now operation fault with
      | .panicked => none
      -- the replay stops at the first failure, with what was done so far
      | .failed server failure => some (server, some failure)
      | .done server => server.replayOperations now rest

def recoverFromEtcd (server : SentinelServer) (now : Int)
    (operations : Except GoError (List (OperationLog × Option GoError)))
    : Option SentinelServer :=
  match operations with
  -- errors of etcd and of the replay are only logged by the caller
  | .error _ => some server
  | .ok operations => (server.replayOperations now operations).map Prod.fst

/-- The broker of a heartbeat is added, also if it is in the table. -/
def recoverBroker (now : Int) (server : SentinelServer) (broker : ReplicaBroker)
    : SentinelServer :=
  server.addBroker {
    brokerID := broker.brokerID
    address := broker.address
    status := .healthy
    topics := []
    lastHeartbeat := now
  }

def recoverBrokersFromEtcd (server : SentinelServer) (now : Int)
    (heartbeats : Except GoError (List ReplicaBroker))
    : SentinelServer :=
  match heartbeats with
  | .error _ => server
  | .ok heartbeats => heartbeats.foldl (recoverBroker now) server

/-- The start of a sentinel up to its first request; none if the replay ends the process. -/
def start (etcdManager : Option EtcdManager) (now : Int)
    (operations : Except GoError (List (OperationLog × Option GoError)))
    (heartbeats : Except GoError (List ReplicaBroker))
    : Option SentinelServer :=
  let server := newSentinelServer etcdManager
  match etcdManager with
  | none => some server
  | some _ =>
      (server.recoverFromEtcd now operations).map
        (fun server => server.recoverBrokersFromEtcd now heartbeats)

end SentinelServer

/-- A virtual name names its node: the number behind the last colon has none. -/
theorem HashRing.virtualNode_injective {left right : GoString} {i j : Nat}
    (same : virtualNode left i = virtualNode right j)
    : left = right := by
  have plain (n : Nat) : (58 : UInt8) ∉ decimal n := by
    intro member
    exact absurd (digit_of_mem_decimal member).2 (by decide)
  have colon : lit ":" = [58] := by decide +kernel
  have split : left ++ 58 :: decimal i = right ++ 58 :: decimal j := by
    simpa [virtualNode, colon] using same
  rcases append_eq_append_iff.mp split with ⟨middle, longer, rest⟩ | ⟨middle, longer, rest⟩
  · cases middle with
    | nil => rw [longer, append_nil]
    | cons first middle =>
        refine absurd ?_ (plain i)
        rw [(List.cons.inj rest).2]
        simp
  · cases middle with
    | nil => rw [longer, append_nil]
    | cons first middle =>
        refine absurd ?_ (plain j)
        rw [(List.cons.inj rest).2]
        simp

namespace HashRing

def slots (replicas : Nat) (node : GoString) : List UInt32 :=
  (range replicas).map (fun i => hash (virtualNode node i))

/-- Different virtual names of the nodes have different checksums. -/
def CollisionFree (replicas : Nat) (nodes : List GoString) : Prop :=
  ∀ left ∈ nodes, ∀ right ∈ nodes, ∀ i < replicas, ∀ j < replicas,
    hash (virtualNode left i) = hash (virtualNode right j)
    → virtualNode left i = virtualNode right j

instance (replicas : Nat) (nodes : List GoString) : Decidable (CollisionFree replicas nodes) :=
  inferInstanceAs (Decidable (∀ left ∈ nodes, ∀ right ∈ nodes, ∀ i < replicas, ∀ j < replicas,
    _ → _))

/-- Without collisions different nodes have different positions. -/
theorem CollisionFree.apart {replicas : Nat} {nodes : List GoString}
    (collisionFree : CollisionFree replicas nodes) {left right : GoString} (inLeft : left ∈ nodes)
    (inRight : right ∈ nodes) (different : left ≠ right)
    : ∀ slot ∈ slots replicas left, slot ∉ slots replicas right := by
  intro slot ofLeft ofRight
  obtain ⟨i, iBound, rfl⟩ := mem_map.mp ofLeft
  obtain ⟨j, jBound, same⟩ := mem_map.mp ofRight
  rw [mem_range] at iBound jBound
  exact different (virtualNode_injective
    (collisionFree left inLeft right inRight i iBound j jBound same.symm))

end HashRing

def CollisionFree (brokerIDs : List GoString) : Prop := HashRing.CollisionFree 150 brokerIDs

/-- The ring holds the 150 virtual nodes of every broker in the table, each once, and nothing
else, and every position belongs to the broker whose virtual node it is.
-/
structure SentinelServer.RingAgrees (server : SentinelServer) : Prop where
  replicas : server.hashRing.replicas = 150
  nodes : server.hashRing.nodes.Perm
    (server.brokers.keys.flatMap server.hashRing.virtualHashes)
  owner : ∀ hash ∈ server.hashRing.nodes, ∃ brokerID ∈ server.brokers,
    hash ∈ server.hashRing.virtualHashes brokerID
    ∧ server.hashRing.nodeMap.lookup hash = some brokerID

namespace Membership

/-- The same agreement as an invariant of a membership whose brokers are known. -/
structure OnRing (used : List GoString) (members : Membership) : Prop where
  replicas : members.hashRing.replicas = 150
  holds : OwnedSlots.Holds members.hashRing.virtualHashes members.brokers.keys
    members.hashRing.nodes members.hashRing.nodeMap
  known : ∀ brokerID ∈ members.brokers.keys, brokerID ∈ used

variable {used : List GoString} {members : Membership} {brokerID : GoString}
  (h : members.OnRing used) (collisionFree : CollisionFree used)
include h collisionFree

theorem OnRing.apart {other : GoString} (present : other ∈ members.brokers.keys)
    (inUse : brokerID ∈ used) (different : other ≠ brokerID)
    : ∀ slot ∈ members.hashRing.virtualHashes other,
        slot ∉ members.hashRing.virtualHashes brokerID := by
  have free : HashRing.CollisionFree members.hashRing.replicas used := h.replicas ▸ collisionFree
  exact free.apart (h.known other present) inUse different

/-- A broker that is not in the table comes onto the ring with its virtual nodes. -/
theorem OnRing.add (fresh : brokerID ∉ members.brokers) (inUse : brokerID ∈ used)
    : (members.change (.add brokerID)).OnRing used := by
  have keys : (members.change (.add brokerID)).brokers.keys = brokerID :: members.brokers.keys := by
    simp only [change, AList.keys, AList.entries_insert_of_notMem fresh, keys_cons]
  refine ⟨h.replicas, ?_, ?_⟩
  · rw [keys]
    refine h.holds.add ?_ (perm_insertionSort _ _)
    intro other present
    refine h.apart collisionFree present inUse ?_
    rintro rfl
    exact fresh present
  · rw [keys]
    exact forall_mem_cons.mpr ⟨inUse, h.known⟩

/-- A broker leaves the ring with its virtual nodes, whether it was in the table or not. -/
theorem OnRing.drop (inUse : brokerID ∈ used)
    : (members.change (.drop brokerID)).OnRing used := by
  refine ⟨h.replicas, ?_, ?_⟩
  · simp only [change, AList.keys_erase]
    exact h.holds.remove members.brokers.keys_nodup
      (fun other present => h.apart collisionFree present inUse)
  · intro other present
    exact h.known other (AList.mem_erase.mp present).2

theorem OnRing.change {named : Option GoString} (inUse : ∀ brokerID ∈ named, brokerID ∈ used)
    {change : MemberChange} (live : MemberChange.Live members named change)
    : (members.change change).OnRing used := by
  cases change with
  | keep => exact h
  | add brokerID => exact h.add collisionFree live.2 (inUse brokerID live.1)
  | drop brokerID => exact h.drop collisionFree (inUse brokerID live)
  | ring brokerID => exact live.elim

end Membership

theorem SentinelServer.ringAgrees_of_onRing {used : List GoString}
    (h : server.membership.OnRing used)
    : server.RingAgrees where
  replicas := h.replicas
  nodes := h.holds.taken
  owner := fun _ member => h.holds.lookup member

def OperationLog.brokerID? (operation : OperationLog) : Option GoString :=
  (unmarshalMap operation.params).bind
    (fun data => assertString (valueOf data (lit "broker_id")))

def OperationLog.Makes (operation : OperationLog) : MemberChange → Prop
  | .keep => True
  | .add brokerID =>
      brokerID ∈ operation.brokerID? ∧ operation.function = lit "registerBroker"
  | .drop brokerID => brokerID ∈ operation.brokerID?
  | .ring brokerID =>
      brokerID ∈ operation.brokerID? ∧ operation.function = lit "addBrokerToHashRing"

def Replay.Leaves (property : SentinelServer → Prop) : Replay → Prop
  | .done server => property server
  | .failed server _ => property server
  | .panicked => True

theorem Replay.Leaves.mono {property other : SentinelServer → Prop} {replay : Replay}
    (leaves : replay.Leaves property) (implies : ∀ server, property server → other server)
    : replay.Leaves other := by
  cases replay with
  | done server => exact implies server leaves
  | failed server failure => exact implies server leaves
  | panicked => trivial

namespace SentinelServer

theorem membership_storeReplicas (now : Int) (topic : GoString) (brokers : List ReplicaBroker)
    (replicaCount : Int) (fault : Option GoError) (failure : GoError → ReplayFailure)
    : (server.storeReplicas now topic brokers replicaCount fault failure).Leaves
        (fun next => next.membership = server.membership) := by
  unfold storeReplicas
  split
  · exact trivial
  · exact rfl
  · exact rfl

theorem replayOperation_changes (server : SentinelServer) (now : Int) (operation : OperationLog)
    (fault : Option GoError)
    : (server.replayOperation now operation fault).Leaves
        (fun next =>
          ∃ change, operation.Makes change
            ∧ next.membership = server.membership.change change) := by
  have keep (next : SentinelServer) (same : next.membership = server.membership)
      : ∃ change, operation.Makes change ∧ next.membership = server.membership.change change :=
    ⟨.keep, trivial, same⟩
  simp only [replayOperation]
  cases params : unmarshalMap operation.params with
  | none =>
      -- Parameters that cannot be read stop the replay before anything is changed.
      simp only
      repeat' split
      all_goals exact keep server rfl
  | some data =>
      have names {brokerID : GoString}
          (named : assertString (valueOf data (lit "broker_id")) = some brokerID)
          : brokerID ∈ operation.brokerID? := by
        rw [OperationLog.brokerID?, params]
        exact named
      simp only
      split
      · next alone =>
          unfold replayAddBrokerToHashRing
          split
          · exact trivial
          · next brokerID named => exact ⟨.ring brokerID, ⟨names named, alone⟩, rfl⟩
      split
      · next register =>
          unfold replayRegisterBroker
          split
          · next brokerID address topics named _ _ =>
              exact ⟨.add brokerID, ⟨names named, register⟩, server.membership_addBroker _⟩
          · exact trivial
      split
      · unfold replayUnregisterBroker
        split
        · exact trivial
        · next brokerID named =>
            exact ⟨.drop brokerID, names named, server.membership_dropBroker brokerID []⟩
      split
      · unfold replayGenerateTopicReplicas
        split
        · exact (membership_storeReplicas now _ _ _ fault _).mono keep
        · exact trivial
      split
      · unfold replayHandleUnreachableBrokers
        split
        · exact (membership_storeReplicas now _ _ _ fault _).mono
            (fun next same => keep next
              (same.trans (server.membership_updateBrokerStatus _ _)))
        · exact trivial
      · exact keep server rfl

/-- Every operation of a replay meets a condition in the state it finds. -/
def AllReplays (allowed : SentinelServer → OperationLog → Prop) (now : Int)
    : SentinelServer → List (OperationLog × Option GoError) → Prop
  | _, [] => True
  | server, (operation, fault) :: rest =>
      allowed server operation
      ∧ match server.replayOperation now operation fault with
        | .done server => AllReplays allowed now server rest
        | _ => True

instance AllReplays.decidable (allowed : SentinelServer → OperationLog → Prop)
    [∀ server operation, Decidable (allowed server operation)] (now : Int)
    : ∀ server operations, Decidable (AllReplays allowed now server operations)
  | _, [] => .isTrue trivial
  | server, (operation, fault) :: rest =>
      have : Decidable
          (match server.replayOperation now operation fault with
            | .done server => AllReplays allowed now server rest
            | _ => True) :=
        match server.replayOperation now operation fault with
        | .done server => AllReplays.decidable allowed now server rest
        | .failed _ _ => .isTrue trivial
        | .panicked => .isTrue trivial
      inferInstanceAs (Decidable (_ ∧ _))

variable {allowed : SentinelServer → OperationLog → Prop}

theorem AllReplays.of_forall (always : ∀ server operation, allowed server operation) (now : Int)
    (server : SentinelServer) (operations : List (OperationLog × Option GoError))
    : AllReplays allowed now server operations := by
  induction operations generalizing server with
  | nil => trivial
  | cons entry rest ih =>
      refine ⟨always server entry.1, ?_⟩
      split
      · exact ih _
      · trivial

/-- An invariant of the membership that allowed operations keep holds after the replay, by
induction on the operations.
-/
theorem AllReplays.invariant {holds : Membership → Prop} {now : Int}
    {operations : List (OperationLog × Option GoError)}
    (keep
      : ∀ entry ∈ operations, ∀ server change,
          allowed server entry.1
          → entry.1.Makes change
          → holds server.membership
          → holds (server.membership.change change))
    (start : holds server.membership) (all : AllReplays allowed now server operations)
    {result : SentinelServer × Option ReplayFailure}
    (replayed : server.replayOperations now operations = some result)
    : holds result.1.membership := by
  induction operations generalizing server with
  | nil =>
      cases replayed
      exact start
  | cons entry rest ih =>
      obtain ⟨operation, fault⟩ := entry
      obtain ⟨first, later⟩ := all
      have left := (server.replayOperation_changes now operation fault).mono (fun next changed => by
        obtain ⟨change, makes, after⟩ := changed
        exact after ▸ keep (operation, fault) mem_cons_self server change first makes start)
      unfold replayOperations at replayed
      cases step : server.replayOperation now operation fault with
      | panicked =>
          rw [step] at replayed
          cases replayed
      | failed next failure =>
          rw [step] at replayed left
          cases replayed
          exact left
      | done next =>
          rw [step] at replayed left later
          exact ih (fun entry member => keep entry (mem_cons_of_mem _ member)) left later
            replayed

/-- Every operation and every heartbeat of a start meets a condition in the state it finds. -/
structure AllRecovered (allowed : SentinelServer → OperationLog → Prop)
    (beats : SentinelServer → ReplicaBroker → Prop) (etcdManager : Option EtcdManager) (now : Int)
    (operations : Except GoError (List (OperationLog × Option GoError)))
    (heartbeats : Except GoError (List ReplicaBroker))
    : Prop where
  replay : ∀ entries, operations = .ok entries
    → AllReplays allowed now (newSentinelServer etcdManager) entries
  beat : ∀ brokers, heartbeats = .ok brokers
    → ∀ server ∈ (newSentinelServer etcdManager).recoverFromEtcd now operations,
        AllSteps (recoverBroker now) beats server brokers

section Start

variable {etcdManager : Option EtcdManager} {now : Int}
  {operations : Except GoError (List (OperationLog × Option GoError))}
  {heartbeats : Except GoError (List ReplicaBroker)} {started : SentinelServer}

/-- An invariant of the membership that allowed operations and heartbeats keep holds after the
start.
-/
theorem AllRecovered.invariant {beats : SentinelServer → ReplicaBroker → Prop}
    {holds : Membership → Prop}
    (all : AllRecovered allowed beats etcdManager now operations heartbeats)
    (new : holds (newSentinelServer etcdManager).membership)
    (keep
      : ∀ entries, operations = .ok entries
        → ∀ entry ∈ entries, ∀ server change,
            allowed server entry.1
            → entry.1.Makes change
            → holds server.membership
            → holds (server.membership.change change))
    (add
      : ∀ brokers, heartbeats = .ok brokers
        → ∀ broker ∈ brokers, ∀ server,
            beats server broker
            → holds server.membership
            → holds (server.membership.change (.add broker.brokerID)))
    (ran : start etcdManager now operations heartbeats = some started)
    : holds started.membership := by
  unfold start at ran
  cases etcdManager with
  | none =>
      cases ran
      exact new
  | some manager =>
      obtain ⟨recovered, replayed, rfl⟩ := Option.map_eq_some_iff.mp ran
      have afterReplay : (holds ∘ membership) recovered := by
        cases operations with
        | error failure =>
            cases replayed
            exact new
        | ok entries =>
            obtain ⟨result, finished, rfl⟩ := Option.map_eq_some_iff.mp replayed
            exact (all.replay entries rfl).invariant (keep entries rfl) new finished
      cases heartbeats with
      | error failure => exact afterReplay
      | ok brokers =>
          have steps := (all.beat brokers rfl recovered replayed).and (add brokers rfl)
          change (holds ∘ membership) (brokers.foldl (recoverBroker now) recovered)
          refine steps.invariant (fun server broker fits before => ?_) afterReplay
          rw [Function.comp_apply, recoverBroker, membership_addBroker]
          exact fits.2 server fits.1 before

/-- The table knows its brokers by their names after every start. -/
theorem keyed_of_start (ran : start etcdManager now operations heartbeats = some started)
    : started.membership.Keyed := by
  have all
      : AllRecovered (fun _ _ => True) (fun _ _ => True) etcdManager now operations heartbeats :=
    ⟨fun entries _ => .of_forall (fun _ _ => trivial) now _ entries,
      fun brokers _ server _ => .of_forall (fun _ _ => trivial) server brokers⟩
  refine all.invariant ?_ (fun _ _ _ _ _ change _ _ keyed => keyed.change change)
    (fun _ _ _ _ _ _ keyed => keyed.change _) ran
  intro brokerID ref found
  cases found

end Start

def AddsOnce (server : SentinelServer) (operation : OperationLog) : Prop :=
  (operation.function = lit "addBrokerToHashRing" → operation.brokerID? = none)
  ∧ (operation.function = lit "registerBroker"
    → ∀ brokerID ∈ operation.brokerID?, brokerID ∉ server.brokers)

instance (server : SentinelServer) (operation : OperationLog)
    : Decidable (server.AddsOnce operation) :=
  inferInstanceAs (Decidable (_ ∧ _))

theorem AddsOnce.live {operation : OperationLog} (once : server.AddsOnce operation)
    {change : MemberChange} (makes : operation.Makes change)
    : MemberChange.Live server.membership operation.brokerID? change := by
  cases change with
  | keep => exact trivial
  | add brokerID => exact ⟨makes.1, once.2 makes.2 brokerID makes.1⟩
  | drop brokerID => exact makes
  | ring brokerID =>
      have named := makes.1
      rw [once.1 makes.2] at named
      cases named

def BeatsOnce (server : SentinelServer) (broker : ReplicaBroker) : Prop :=
  broker.brokerID ∉ server.brokers

instance (server : SentinelServer) (broker : ReplicaBroker)
    : Decidable (server.BeatsOnce broker) :=
  inferInstanceAs (Decidable (¬ _))

/-- Nothing that the recovery adds is there already. -/
def StartsOnce (etcdManager : Option EtcdManager) (now : Int)
    (operations : Except GoError (List (OperationLog × Option GoError)))
    (heartbeats : Except GoError (List ReplicaBroker))
    : Prop :=
  AllRecovered AddsOnce BeatsOnce etcdManager now operations heartbeats

end SentinelServer

def brokersNamed (operations : Except GoError (List (OperationLog × Option GoError)))
    (heartbeats : Except GoError (List ReplicaBroker)) (events : List (Int × SentinelEvent))
    : List GoString :=
  (operations.toOption.getD []).filterMap (fun entry => entry.1.brokerID?)
  ++ (heartbeats.toOption.getD []).map ReplicaBroker.brokerID
  ++ events.filterMap (fun event => event.2.brokerID?)

theorem mem_brokersNamed {operations : Except GoError (List (OperationLog × Option GoError))}
    {heartbeats : Except GoError (List ReplicaBroker)} {events : List (Int × SentinelEvent)}
    {brokerID : GoString}
    : brokerID ∈ brokersNamed operations heartbeats events
      ↔ (∃ entry ∈ operations.toOption.getD [], brokerID ∈ entry.1.brokerID?)
        ∨ (∃ broker ∈ heartbeats.toOption.getD [], broker.brokerID = brokerID)
        ∨ ∃ event ∈ events, brokerID ∈ event.2.brokerID? := by
  simp only [brokersNamed, mem_append, mem_filterMap, mem_map, Option.mem_def,
    or_assoc]

/-- Ring and table agree: in every run whose recovery adds nothing twice, the ring holds exactly
the virtual nodes of the brokers in the table.
-/
theorem ringAgrees_of_startsOnce {etcdManager : Option EtcdManager} {now : Int}
    {operations : Except GoError (List (OperationLog × Option GoError))}
    {heartbeats : Except GoError (List ReplicaBroker)} {started : SentinelServer}
    (ran : SentinelServer.start etcdManager now operations heartbeats = some started)
    (once : SentinelServer.StartsOnce etcdManager now operations heartbeats) (network : Network)
    {events : List (Int × SentinelEvent)}
    (collisionFree : CollisionFree (brokersNamed operations heartbeats events))
    : (events.foldl World.step ⟨started, network⟩).sentinel.RingAgrees := by
  apply SentinelServer.ringAgrees_of_onRing
  have new
      : (SentinelServer.newSentinelServer etcdManager).membership.OnRing
          (brokersNamed operations heartbeats events) :=
    ⟨rfl, .empty _, by simp [SentinelServer.membership, SentinelServer.newSentinelServer]⟩
  have onStart
      : started.membership.OnRing (brokersNamed operations heartbeats events) := by
    refine once.invariant new ?_ ?_ ran
    · rintro entries rfl entry member server change allowed makes on
      exact on.change collisionFree
        (fun brokerID named => mem_brokersNamed.mpr (Or.inl ⟨entry, member, named⟩))
        (allowed.live makes)
    · rintro brokers rfl broker member server fresh on
      exact on.add collisionFree fresh
        (mem_brokersNamed.mpr (Or.inr (Or.inl ⟨broker, member, rfl⟩)))
  refine World.membership_run (fun event member members change live on => ?_) onStart
  exact on.change collisionFree
    (fun brokerID named => mem_brokersNamed.mpr (Or.inr (Or.inr ⟨event, member, named⟩))) live

/-- Brokers whose virtual nodes all stand at different positions have no collisions. -/
theorem collisionFree_of_nodup {names brokerIDs : List GoString}
    (distinct : (names.flatMap (HashRing.newHashRing 150).virtualHashes).Nodup)
    (within : brokerIDs ⊆ names)
    : CollisionFree brokerIDs := by
  intro left inLeft right inRight i iBound j jBound same
  obtain ⟨each, apart⟩ := nodup_flatMap.mp distinct
  have standsAt (brokerID : GoString) {k : Nat} (bound : k < 150)
      : HashRing.hash (HashRing.virtualNode brokerID k)
        ∈ (HashRing.newHashRing 150).virtualHashes brokerID :=
    mem_map_of_mem (mem_range.mpr bound)
  by_cases here : left = right
  · subst here
    have injective := inj_on_of_nodup_map (each left (within inLeft))
    rw [injective (mem_range.mpr iBound) (mem_range.mpr jBound) same]
  · have : Std.Symm (Function.onFun List.Disjoint (HashRing.newHashRing 150).virtualHashes) :=
      ⟨fun _ _ disjoint => disjoint.symm⟩
    have disjoint := apart.forall (within inLeft) (within inRight) here
    exact absurd (same ▸ standsAt right jBound) (disjoint (standsAt left iBound))

def registration (brokerID address topic : GoString) : OperationLog where
  function := lit "registerBroker"
  params := some (.object [
    (lit "broker_id", .string brokerID),
    (lit "address", .string address),
    (lit "topics", .array [.string topic])
  ])

def unregistration (brokerID : GoString) : OperationLog where
  function := lit "unregisterBroker"
  params := some (.object [(lit "broker_id", .string brokerID)])

def freshEtcd : Option EtcdManager := some (.newEtcdManager ∅ (some (lit "0")))

def noNetwork : Network := { brokers := ∅, fates := [] }

theorem collisionFree_first {brokerIDs : List GoString} (within : brokerIDs ⊆ [lit "first"])
    : CollisionFree brokerIDs := by
  refine collisionFree_of_nodup (List.Nodup.of_map (fun slot => slot.toNat % 1024) ?_) within
  exact (@OwnedSlots.nodup_of_unmarked 0 _ (by decide +kernel)).1

/-- A broker came and went in the log, and it has a heartbeat. -/
def comesAndGoes : List (OperationLog × Option GoError) :=
  [
    (registration (lit "first") (lit "a") (lit "t"), none),
    (unregistration (lit "first"), none)
  ]

def firstBeats : List ReplicaBroker := [⟨lit "first", lit "a", 0⟩]

def comesBack : List (Int × SentinelEvent) :=
  [
    (0, .unregisterBroker (lit "first") none),
    (0, .registerBroker (lit "first") (lit "a") [lit "t"] .none)
  ]

theorem ringAgrees_comesBack
    : SentinelServer.StartsOnce freshEtcd 0 (.ok comesAndGoes) (.ok firstBeats)
      ∧ CollisionFree (brokersNamed (.ok comesAndGoes) (.ok firstBeats) comesBack)
      ∧ ∃ started,
          SentinelServer.start freshEtcd 0 (.ok comesAndGoes) (.ok firstBeats) = some started
          ∧ (comesBack.foldl World.step ⟨started, noNetwork⟩).sentinel.brokers.keys
            = [lit "first"]
          ∧ (comesBack.foldl World.step ⟨started, noNetwork⟩).sentinel.RingAgrees := by
  have once : SentinelServer.StartsOnce freshEtcd 0 (.ok comesAndGoes) (.ok firstBeats) := by
    constructor
    · intro entries same
      cases same
      decide +kernel
    · intro brokers same
      cases same
      decide +kernel
  have collisionFree
      : CollisionFree (brokersNamed (.ok comesAndGoes) (.ok firstBeats) comesBack) :=
    collisionFree_first (by decide +kernel)
  have ends
      : (SentinelServer.start freshEtcd 0 (.ok comesAndGoes) (.ok firstBeats)).map
          (fun started =>
            (comesBack.foldl World.step ⟨started, noNetwork⟩).sentinel.brokers.keys)
        = some [lit "first"] := by
    decide +kernel
  obtain ⟨started, ran, keys⟩ := Option.map_eq_some_iff.mp ends
  exact ⟨once, collisionFree, started, ran, keys,
    ringAgrees_of_startsOnce ran once noNetwork collisionFree⟩

/-- The broker was registered, left and was registered again; a sentinel with etcd only logs
the registrations.
-/
def twiceReplayed : List (OperationLog × Option GoError) :=
  [
    (registration (lit "first") (lit "a") (lit "t"), none),
    (registration (lit "first") (lit "a") (lit "t"), none)
  ]

/-- The log of a broker that left in between puts it on the ring twice. -/
theorem not_ringAgrees_twiceReplayed
    : CollisionFree (brokersNamed (.ok twiceReplayed) (.ok []) [])
      ∧ ∃ started, SentinelServer.start freshEtcd 0 (.ok twiceReplayed) (.ok []) = some started
        ∧ ¬ started.RingAgrees := by
  have ends
      : (SentinelServer.start freshEtcd 0 (.ok twiceReplayed) (.ok [])).map
          (fun started => (started.brokers.keys, started.hashRing))
        = some ([lit "first"],
            ((HashRing.newHashRing 150).addNode (lit "first")).addNode (lit "first")) := rfl
  obtain ⟨started, ran, ends⟩ := Option.map_eq_some_iff.mp ends
  obtain ⟨keys, ring⟩ := Prod.mk.inj ends
  refine ⟨collisionFree_first (by decide +kernel), started, ran, fun agrees => ?_⟩
  have length := agrees.nodes.length_eq
  rw [keys, ring, HashRing.length_addNode, HashRing.length_addNode] at length
  simp [HashRing.virtualHashes, HashRing.newHashRing, HashRing.addNode] at length

end Goulette.Sentinel
