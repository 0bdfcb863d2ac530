import Goulette.Library.Runs
import Goulette.Sentinel.Etcd

/-! Heartbeat leases, in `internal/etcd/etcd.go`. A lease may be lost between calls, and its keys
with it; the calls to etcd succeed otherwise.
-/

namespace Goulette.Sentinel

open Goulette.Go Runs Function

structure HeartbeatRecord where
  broker : ReplicaBroker
  lease : Int64
deriving DecidableEq

structure HeartbeatStore where
  alive : Int64 → Bool
  keys : GoString → Option HeartbeatRecord

namespace HeartbeatStore

def grant (store : HeartbeatStore) (lease : Int64) : HeartbeatStore :=
  { store with alive := update store.alive lease true }

def lose (store : HeartbeatStore) (lease : Int64) : HeartbeatStore where
  alive := update store.alive lease false
  keys := fun key => (store.keys key).filter (fun record => record.lease ≠ lease)

def put (store : HeartbeatStore) (key : GoString) (broker : ReplicaBroker) (lease : Int64)
    : HeartbeatStore :=
  { store with keys := update store.keys key (some { broker, lease }) }

def delete (store : HeartbeatStore) (key : GoString) : HeartbeatStore :=
  { store with keys := update store.keys key none }

end HeartbeatStore

/-- etcd's error for a lease that it does not know any more. -/
def leaseNotFound : GoError := lit "etcdserver: requested lease not found"

def heartbeatKey (brokerID : GoString) : GoString := lit "/goulette/brokers/" ++ brokerID

structure HeartbeatSystem where
  em : EtcdManager
  store : HeartbeatStore

namespace HeartbeatSystem

/-- A body between `leaseMu.Lock()` and the deferred `leaseMu.Unlock()`. The mutex is not
reentrant: who finds it held waits.
-/
def locked (system : HeartbeatSystem)
    (body : HeartbeatSystem → Outcome HeartbeatSystem (Option GoError))
    : Outcome HeartbeatSystem (Option GoError) :=
  if system.em.leaseMu then .blocked system
  else
    match body { system with em := { system.em with leaseMu := true } } with
    | .blocked waiting => .blocked waiting
    | .returned done error =>
        .returned { done with em := { done.em with leaseMu := false } } error

/-- The lease is the one that etcd grants. -/
def registerBrokerHeartbeat (system : HeartbeatSystem) (brokerID address : GoString)
    (lease : Int64)
    : Outcome HeartbeatSystem (Option GoError) :=
  system.locked (fun system =>
    let broker : ReplicaBroker := { brokerID, address, status := 0 }
    .returned {
      em := { system.em with leases := system.em.leases.insert brokerID lease }
      store := (system.store.grant lease).put (heartbeatKey brokerID) broker lease
    } none)

def renewBrokerHeartbeat (system : HeartbeatSystem) (brokerID address : GoString)
    (lease : Int64)
    : Outcome HeartbeatSystem (Option GoError) :=
  system.locked (fun system =>
    match system.em.leases.lookup brokerID with
    | none => system.registerBrokerHeartbeat brokerID address lease
    | some leaseID =>
        if system.store.alive leaseID then
          let broker : ReplicaBroker := { brokerID, address, status := 0 }
          .returned
            { system with store := system.store.put (heartbeatKey brokerID) broker leaseID } none
        else system.registerBrokerHeartbeat brokerID address lease)

def unregisterBrokerHeartbeat (system : HeartbeatSystem) (brokerID : GoString)
    : Outcome HeartbeatSystem (Option GoError) :=
  system.locked (fun system =>
    match system.em.leases.lookup brokerID with
    | none => .returned system none
    | some leaseID =>
        if system.store.alive leaseID then
          .returned {
            em := { system.em with leases := system.em.leases.erase brokerID }
            store := (system.store.lose leaseID).delete (heartbeatKey brokerID)
          } none
        else .returned system (some (lit "撤销lease失败: " ++ leaseNotFound)))

end HeartbeatSystem

inductive HeartbeatAction
  | renewBrokerHeartbeat (brokerID address : GoString) (lease : Int64)
  | unregisterBrokerHeartbeat (brokerID : GoString)
  | loseLease (lease : Int64)

def HeartbeatAction.renewed : HeartbeatAction → Option GoString
  | .renewBrokerHeartbeat brokerID _ _ => some brokerID
  | .unregisterBrokerHeartbeat _ => none
  | .loseLease _ => none

namespace HeartbeatSystem

def perform (system : HeartbeatSystem)
    : HeartbeatAction → Outcome HeartbeatSystem (Option GoError)
  | .renewBrokerHeartbeat brokerID address lease =>
      system.renewBrokerHeartbeat brokerID address lease
  | .unregisterBrokerHeartbeat brokerID => system.unregisterBrokerHeartbeat brokerID
  | .loseLease lease => .returned { system with store := system.store.lose lease } none

def step (system : HeartbeatSystem) (action : HeartbeatAction) : HeartbeatSystem :=
  (system.perform action).state

def Holds (system : HeartbeatSystem) (brokerID : GoString) : Prop :=
  ∃ lease record,
    system.em.leases.lookup brokerID = some lease
    ∧ system.store.keys (heartbeatKey brokerID) = some record
    ∧ record.lease = lease

/-- The call returns with the mutex released; after a renewal the broker's key is there. -/
def Tracks (system : HeartbeatSystem) (action : HeartbeatAction) : Prop :=
  ∃ next error,
    system.perform action = .returned next error
    ∧ next.em.leaseMu = false
    ∧ ∀ brokerID ∈ action.renewed, next.Holds brokerID

variable {system : HeartbeatSystem}

theorem locked_of_free (free : system.em.leaseMu = false)
    (body : HeartbeatSystem → Outcome HeartbeatSystem (Option GoError))
    : system.locked body
      = match body { system with em := { system.em with leaseMu := true } } with
        | .blocked waiting => .blocked waiting
        | .returned done error =>
            .returned { done with em := { done.em with leaseMu := false } } error := by
  simp [locked, free]

/-- A registration inside a renewal waits for the mutex that the renewal holds. -/
theorem registerBrokerHeartbeat_of_held (held : system.em.leaseMu = true)
    (brokerID address : GoString) (lease : Int64)
    : system.registerBrokerHeartbeat brokerID address lease = .blocked system := by
  simp [registerBrokerHeartbeat, locked, held]

def Live (system : HeartbeatSystem) (brokerID : GoString) : Prop :=
  ∃ leaseID ∈ system.em.leases.lookup brokerID, system.store.alive leaseID = true

section

variable (free : system.em.leaseMu = false)
include free

theorem renewBrokerHeartbeat_of_live {brokerID : GoString} {leaseID : Int64}
    (known : system.em.leases.lookup brokerID = some leaseID)
    (alive : system.store.alive leaseID = true) (address : GoString) (lease : Int64)
    : system.renewBrokerHeartbeat brokerID address lease
      = .returned
          { system with
            store := system.store.put (heartbeatKey brokerID)
              { brokerID, address, status := 0 } leaseID }
          none := by
  have same : { system.em with leaseMu := false } = system.em := by rw [← free]
  simp only [renewBrokerHeartbeat, locked_of_free free, known, alive, if_true, same]

theorem renewBrokerHeartbeat_of_not_live {brokerID : GoString} (lacks : ¬system.Live brokerID)
    (address : GoString) (lease : Int64)
    : system.renewBrokerHeartbeat brokerID address lease
      = .blocked { system with em := { system.em with leaseMu := true } } := by
  have waits := @registerBrokerHeartbeat_of_held
    { system with em := { system.em with leaseMu := true } } rfl brokerID address lease
  rw [renewBrokerHeartbeat, locked_of_free free]
  cases known : system.em.leases.lookup brokerID with
  | none => simp only [waits]
  | some leaseID =>
      have lost : ¬system.store.alive leaseID = true := fun alive => lacks ⟨leaseID, known, alive⟩
      simp only [lost, if_false, waits, Bool.false_eq_true]

/-- A renewal is tracked exactly if it finds its lease, and finds it alive. -/
theorem tracks_renew_iff (brokerID address : GoString) (lease : Int64)
    : system.Tracks (.renewBrokerHeartbeat brokerID address lease) ↔ system.Live brokerID := by
  constructor
  · rintro ⟨next, error, returned, _⟩
    by_contra lacks
    rw [perform, renewBrokerHeartbeat_of_not_live free lacks] at returned
    cases returned
  · rintro ⟨leaseID, known, alive⟩
    refine ⟨_, _, renewBrokerHeartbeat_of_live free known alive address lease, free, ?_⟩
    intro other renewed
    obtain rfl : brokerID = other := Option.some.inj renewed
    exact ⟨leaseID, _, known, update_self _ _ _, rfl⟩

/-- The manager seen alone: a lost lease is a failure of the renewal. -/
theorem renewBrokerHeartbeat_em (brokerID address : GoString) (lease : Int64)
    {fault : Option GoError}
    (fails : fault = none ↔ ∀ leaseID ∈ system.em.leases.lookup brokerID,
      system.store.alive leaseID = true)
    : system.em.renewBrokerHeartbeat brokerID lease fault
      = match system.renewBrokerHeartbeat brokerID address lease with
        | .blocked waiting => .blocked waiting.em
        | .returned done error => .returned done.em error := by
  by_cases live : system.Live brokerID
  · obtain ⟨leaseID, known, alive⟩ := live
    have known : system.em.leases.lookup brokerID = some leaseID := known
    have succeeds : fault = none := by
      rw [fails, known]
      simpa using alive
    rw [renewBrokerHeartbeat_of_live free known alive]
    simp [EtcdManager.renewBrokerHeartbeat, free, known, succeeds]
  · have refused : ¬((system.em.leases.lookup brokerID).isSome ∧ fault = none) := by
      rintro ⟨some, none⟩
      obtain ⟨leaseID, known⟩ := Option.isSome_iff_exists.mp some
      exact live ⟨leaseID, known, fails.mp none leaseID known⟩
    rw [renewBrokerHeartbeat_of_not_live free live, EtcdManager.renewBrokerHeartbeat,
      if_neg (by simp [free]), if_neg refused]
    rfl

end

structure Fresh (system : HeartbeatSystem) : Prop where
  free : system.em.leaseMu = false
  leases : system.em.leases = ∅

theorem Fresh.not_live (fresh : system.Fresh) (brokerID : GoString) : ¬system.Live brokerID := by
  rintro ⟨leaseID, known, _⟩
  rw [fresh.leases] at known
  cases known

theorem Fresh.unregister (fresh : system.Fresh) (brokerID : GoString)
    : system.unregisterBrokerHeartbeat brokerID = .returned system none := by
  have same : { system.em with leaseMu := false } = system.em := by rw [← fresh.free]
  have unknown : system.em.leases.lookup brokerID = none := by
    rw [fresh.leases]
    rfl
  simp only [unregisterBrokerHeartbeat, locked_of_free fresh.free, unknown, same]

/-- On a fresh manager exactly the actions without a renewal are tracked. -/
theorem Fresh.tracks_iff (fresh : system.Fresh) (action : HeartbeatAction)
    : system.Tracks action ↔ action.renewed = none := by
  cases action with
  | renewBrokerHeartbeat brokerID address lease =>
      rw [tracks_renew_iff fresh.free]
      exact iff_of_false (fresh.not_live brokerID) (Option.some_ne_none brokerID)
  | unregisterBrokerHeartbeat brokerID =>
      refine iff_of_true ⟨system, none, fresh.unregister brokerID, fresh.free, ?_⟩ rfl
      exact fun other renewed => by cases renewed
  | loseLease lease =>
      refine iff_of_true ⟨_, none, rfl, fresh.free, ?_⟩ rfl
      exact fun other renewed => by cases renewed

theorem Fresh.step (fresh : system.Fresh) {action : HeartbeatAction}
    (quiet : action.renewed = none)
    : (system.step action).Fresh := by
  cases action with
  | renewBrokerHeartbeat brokerID address lease => cases quiet
  | unregisterBrokerHeartbeat brokerID =>
      rw [HeartbeatSystem.step, perform, fresh.unregister]
      exact fresh
  | loseLease lease => exact ⟨fresh.free, fresh.leases⟩

def new (topicReplicas : GoMap GoString TopicReplicaInfo) (operationID : Option GoString)
    (store : HeartbeatStore)
    : HeartbeatSystem :=
  { em := EtcdManager.newEtcdManager topicReplicas operationID, store }

end HeartbeatSystem

open HeartbeatSystem

/-- On a new manager every call returns with the mutex released, and every renewal leaves the
broker's key under its lease, exactly if nothing is renewed at all: the first renewal knows no
lease and waits for its own mutex.
-/
theorem heartbeats_tracked_iff (topicReplicas : GoMap GoString TopicReplicaInfo)
    (operationID : Option GoString) (store : HeartbeatStore) (actions : List HeartbeatAction)
    : AllSteps HeartbeatSystem.step Tracks (new topicReplicas operationID store) actions
      ↔ ∀ action ∈ actions, action.renewed = none := by
  have exactly (system : HeartbeatSystem) (action : HeartbeatAction) (fresh : system.Fresh)
      : system.Tracks action ↔ action.renewed = none := fresh.tracks_iff action
  have keep (system : HeartbeatSystem) (action : HeartbeatAction) (quiet : action.renewed = none)
      (fresh : system.Fresh) : (system.step action).Fresh := fresh.step quiet
  exact AllSteps.iff_all exactly keep ⟨rfl, rfl⟩ actions

def emptyHeartbeats : HeartbeatStore := { alive := fun _ => false, keys := fun _ => none }

/-- The first heartbeat of the first broker. -/
theorem not_tracked_first_heartbeat
    : ¬AllSteps HeartbeatSystem.step Tracks (new ∅ none emptyHeartbeats)
        [.renewBrokerHeartbeat (lit "b1") (lit "host:1") 7] := by
  rintro ⟨⟨next, error, returned, _⟩, _⟩
  cases returned

end Goulette.Sentinel
