import Goulette.Sentinel.Assignments
import Goulette.Sentinel.Placement

/-! `handleUnreachableBrokersForLeader` and the record of the topic in etcd. The leader is looked
for after the write, so a request may fail with the new record in place.
-/

namespace Goulette.Sentinel

open Goulette.Go Goulette.Storage Goulette.Broker List

variable {refs : List BrokerRef}

namespace SentinelServer

variable {server : SentinelServer} {current : List GoString} {topic : GoString} {ref : BrokerRef}

def names (server : SentinelServer) (refs : List BrokerRef) : List GoString :=
  refs.map (fun ref => (server.record ref).brokerID)

end SentinelServer

/-! The record of the topic. -/

namespace World

variable {world : World} {em : EtcdManager} {now : Int} {topic : GoString} {replicaCount : Nat}
  {unreachable : List GoString} {faults : EtcdFaults}

/-- The sentinel with the reported brokers down. -/
def marked (world : World) (unreachable : List GoString) : SentinelServer :=
  world.sentinel.updateBrokerStatus unreachable .down

def reported (world : World) (now : Int) (topic : GoString) (unreachable : List GoString)
    : World :=
  { sentinel := world.marked unreachable
    network := (world.removeFromUnreachable now topic unreachable).network }

def survivors (world : World) (em : EtcdManager) (topic : GoString) (unreachable : List GoString)
    : List BrokerRef :=
  stillAvailable (world.marked unreachable) (em.getTopicReplicas topic) unreachable

def refilled (world : World) (em : EtcdManager) (topic : GoString) (replicaCount : Nat)
    (unreachable : List GoString)
    : Except GoError (List BrokerRef) :=
  refill (world.marked unreachable) topic (world.survivors em topic unreachable) replicaCount

/-- The replicas that a request writes, if it gets there and returns. -/
def rewritten? (world : World) (em : EtcdManager) (topic : GoString) (replicaCount : Nat)
    (unreachable : List GoString) (faults : EtcdFaults)
    : Option (List BrokerRef) :=
  if world.sentinel.mu ∨ faults.get.isSome ∨ faults.set.isSome ∨ em.counts faults.log = false then
    none
  else
    match world.refilled em topic replicaCount unreachable with
    | .error _ => none
    | .ok refs => if refs.length = replicaCount then some refs else none

def rewrittenRecord (world : World) (now : Int) (topic : GoString) (replicaCount : Nat)
    (unreachable : List GoString) (refs : List BrokerRef)
    : TopicReplicaInfo where
  topic
  brokers := ((world.reported now topic unreachable).records refs).map BrokerInfo.toReplica
  version := Int64.ofInt now
  timestamp := unix now
  replicaCount

/-- How a request ends: it waits for ever, fails before the write, or writes the record and looks
for the leader.
-/
inductive Handled (world : World) (em : EtcdManager) (now : Int) (topic : GoString)
    (replicaCount : Nat) (unreachable : List GoString) (faults : EtcdFaults)
    : LeaderOutcome → Prop
  | waits (state : World)
      (quiet : world.rewritten? em topic replicaCount unreachable faults = none)
      : Handled world em now topic replicaCount unreachable faults (.blocked state)
  | fails (failure : GoError)
      (quiet : world.rewritten? em topic replicaCount unreachable faults = none)
      : Handled world em now topic replicaCount unreachable faults
          (.returned (world.reported now topic unreachable) (.error failure))
  | writes (refs : List BrokerRef) (manager : EtcdManager)
      (rewrites : world.rewritten? em topic replicaCount unreachable faults = some refs)
      (stored
        : manager.getTopicReplicas topic
          = some (world.rewrittenRecord now topic replicaCount unreachable refs))
      : Handled world em now topic replicaCount unreachable faults
          (((world.reported now topic unreachable).setEtcd manager).confirmLeader topic
            ((world.reported now topic unreachable).records refs) (fun _ => []))

/-- Whether the write is reached, by what stands in its way. -/
theorem rewritten?_eq (free : ¬world.sentinel.mu = true) (got : faults.get = none)
    (set : faults.set = none) (counts : em.counts faults.log = true)
    (filled : world.refilled em topic replicaCount unreachable = .ok refs)
    (length : refs.length = replicaCount)
    : world.rewritten? em topic replicaCount unreachable faults = some refs := by
  simp only [rewritten?, free, got, set, counts, filled, if_pos length, Option.isSome_none,
    Bool.false_eq_true, Bool.true_eq_false, or_self, if_false]

theorem rewritten?_of_error {failure : GoError}
    (filled : world.refilled em topic replicaCount unreachable = .error failure)
    : world.rewritten? em topic replicaCount unreachable faults = none := by
  simp only [rewritten?, filled, ite_self]

theorem rewritten?_of_length (filled : world.refilled em topic replicaCount unreachable = .ok refs)
    (length : refs.length ≠ replicaCount)
    : world.rewritten? em topic replicaCount unreachable faults = none := by
  simp only [rewritten?, filled, if_neg length, ite_self]

theorem handled (world : World) (em : EtcdManager) (now : Int) (topic : GoString)
    (replicaCount : Nat) (unreachable : List GoString) (faults : EtcdFaults)
    : world.Handled em now topic replicaCount unreachable faults
        (world.handleUnreachableBrokersForLeader em now topic replicaCount unreachable faults) := by
  unfold handleUnreachableBrokersForLeader
  simp only
  split
  · next held => exact .waits _ (if_pos (Or.inl held))
  next free =>
  split
  · next failure got => exact .fails _ (if_pos (Or.inr (Or.inl (by rw [got]; rfl))))
  next got =>
  split
  · next failure filled => exact .fails failure (rewritten?_of_error filled)
  next refs filled =>
  split
  · next different => exact .fails _ (rewritten?_of_length filled different)
  next enough =>
  split
  · next failure set =>
      exact .fails _ (if_pos (Or.inr (Or.inr (Or.inl (by rw [set]; rfl)))))
  next set =>
  -- the write; the log entry behind it may wait for ever
  have kept :=
    (em.setTopicReplicas now topic
      (((world.reported now topic unreachable).records refs).map BrokerInfo.toReplica)
      replicaCount).topicReplicas_logOperation faults.log
  have logged :=
    @EtcdManager.logOperation_eq em
      (em.setTopicReplicas now topic
        (((world.reported now topic unreachable).records refs).map BrokerInfo.toReplica)
        replicaCount) faults.log rfl
  split
  · next manager blocked =>
      refine .waits _ (if_pos (Or.inr (Or.inr (Or.inr (Bool.eq_false_iff.mpr fun counts => ?_)))))
      rw [counts] at logged
      cases blocked.symm.trans logged
  · next manager _ returned =>
      have counts : em.counts faults.log = true := by
        by_contra waits
        rw [Bool.eq_false_iff.mpr waits] at logged
        cases returned.symm.trans logged
      have length := Decidable.not_not.mp enough
      refine .writes refs manager (rewritten?_eq free got set counts filled length) ?_
      have same := congrArg Outcome.state returned
      rw [EtcdManager.getTopicReplicas, ← show _ = manager from same]
      refine (congrArg (fun replicas => AList.lookup topic replicas) kept).trans ?_
      exact AList.lookup_insert _

end World

namespace World

open SentinelServer

variable {world : World} {em : EtcdManager} {now : Int} {topic : GoString} {replicaCount : Nat}
  {unreachable : List GoString} {faults : EtcdFaults} {refs : List BrokerRef}

section Outcomes

variable {before : Option TopicReplicaInfo} {state : World}

end Outcomes

end World

/-! What can be seen before the call. -/

namespace SentinelServer

variable {server : SentinelServer} {brokerID : GoString} {ref : BrokerRef}

end SentinelServer

namespace Network

variable {network : Network} {address topic : GoString} {broker : BrokerServer}

end Network

namespace World

open SentinelServer

variable {world : World} {em : EtcdManager} {now : Int} {topic : GoString} {replicaCount : Nat}
  {unreachable : List GoString} {faults : EtcdFaults} {refs : List BrokerRef}

/-- The brokers of the record that are healthy and not reported. -/
def kept (world : World) (em : EtcdManager) (topic : GoString) (unreachable : List GoString)
    : List GoString :=
  let brokers := (em.getTopicReplicas topic).elim [] TopicReplicaInfo.brokers
  (brokers.map ReplicaBroker.brokerID).filter
    (fun brokerID => brokerID ∉ unreachable ∧ (world.sentinel.healthyBroker brokerID).isSome)

/-- The other brokers of the table that are healthy and not reported. -/
def spare (world : World) (em : EtcdManager) (topic : GoString) (unreachable : List GoString)
    : List GoString :=
  world.sentinel.brokers.keys.filter
    (fun brokerID =>
      brokerID ∉ unreachable
      ∧ (world.sentinel.healthyBroker brokerID).isSome
      ∧ brokerID ∉ world.kept em topic unreachable)

/-- The request does not get to its write: it waits for ever, etcd fails, or the brokers that are
left are too many or too few.
-/
def Unwritten (world : World) (em : EtcdManager) (topic : GoString) (replicaCount : Nat)
    (unreachable : List GoString) (faults : EtcdFaults)
    : Prop :=
  world.sentinel.mu
  ∨ faults.get.isSome
  ∨ faults.set.isSome
  ∨ em.counts faults.log = false
  ∨ replicaCount < (world.kept em topic unreachable).length
  ∨ (world.kept em topic unreachable).length + (world.spare em topic unreachable).length
      < replicaCount

/-- The broker leads the topic at its address, where no reported broker is told to remove it. -/
def LeadsOn (world : World) (topic : GoString) (unreachable : List GoString) (brokerID : GoString)
    : Prop :=
  ∃ ref ∈ world.sentinel.brokers.lookup brokerID,
    (∃ broker ∈ world.network.brokers.lookup (world.sentinel.record ref).address,
      broker.getBrokerTopicRole brokerID topic = .ok .leader)
    ∧ ∀ gone ∈ unreachable, ∀ other ∈ world.sentinel.brokers.lookup gone,
        (world.sentinel.record other).address ≠ (world.sentinel.record ref).address

/-- What becomes of the calls behind the removals. -/
def laterFates (world : World) (unreachable : List GoString) : List CallFate :=
  world.network.fates.drop
    (unreachable.countP (fun gone => (world.sentinel.brokers.lookup gone).isSome))

/-- The request does not get to its write, or the brokers of the record that are left are different,
one of them leads on, and the calls behind the removals are answered.
-/
def Settles (world : World) (em : EtcdManager) (topic : GoString) (replicaCount : Nat)
    (unreachable : List GoString) (faults : EtcdFaults)
    : Prop :=
  world.Unwritten em topic replicaCount unreachable faults
  ∨ (world.kept em topic unreachable).Nodup
    ∧ (∃ brokerID ∈ world.kept em topic unreachable, world.LeadsOn topic unreachable brokerID)
    ∧ ∀ fate ∈ world.laterFates unreachable, fate = .answered

section

variable (keyed : world.sentinel.membership.Keyed)
include keyed

end

end World

end Goulette.Sentinel
