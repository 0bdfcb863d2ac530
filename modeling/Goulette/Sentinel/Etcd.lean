import Goulette.Storage.Fragment

/-! The etcd manager of `internal/etcd/etcd.go`, with the part of the etcd store it works on. A call
to etcd is one step, and whether it fails is an input. Records pass through JSON unchanged.
-/

namespace Goulette.Sentinel

open Goulette.Go Goulette.Storage

/-- How a call ends: it returns, or it waits for ever with what it did so far. -/
inductive Outcome (S A : Type)
  | returned (state : S) (value : A)
  | blocked (state : S)

def Outcome.state {S A : Type} : Outcome S A → S
  | .returned state _ => state
  | .blocked state => state

def parseDigits (text : GoString) : Option Nat :=
  if text ≠ [] ∧ text.all (fun byte => 48 ≤ byte ∧ byte ≤ 57) then
    some (text.foldl (fun value byte => 10 * value + (byte.toNat - 48)) 0)
  else none

/-- `strconv.ParseInt` with base 10 and 64 bits: an optional sign in front of digits. -/
def parseInt (text : GoString) : Option Int64 :=
  let signed : Option Int :=
    match text with
    | 45 :: digits => (parseDigits digits).map (fun value => -(value : Int))
    | 43 :: digits => (parseDigits digits).map (fun value => (value : Int))
    | digits => (parseDigits digits).map (fun value => (value : Int))
  match signed with
  | none => none
  | some value => if -(2 ^ 63) ≤ value ∧ value < 2 ^ 63 then some (Int64.ofInt value) else none

def formatInt (value : Int64) : GoString :=
  if value < 0 then lit "-" ++ decimal value.toInt.natAbs else decimal value.toInt.natAbs

/-- Below the largest number the successor does not wrap around. -/
theorem toInt_succ {value : Int64} (room : value.toInt + 1 < 2 ^ 63)
    : (value + 1).toInt = value.toInt + 1 := by
  have low := Int64.le_toInt value
  rw [Int64.toInt_add]
  exact Int.bmod_eq_of_le (by simp; omega) (by simp; omega)

structure ReplicaBroker where
  brokerID : GoString
  address : GoString
  status : Nat
deriving DecidableEq, Repr

structure TopicReplicaInfo where
  topic : GoString
  brokers : List ReplicaBroker
  version : Int64
  timestamp : Int64
  replicaCount : Nat
deriving DecidableEq, Repr

/-- The manager with the store's replica records and the text of the operation counter.
`leaseMu` is set when a call holds the mutex for ever.
-/
structure EtcdManager where
  isLeader : Bool
  leaderAddr : GoString
  leases : GoMap GoString Int64
  leaseMu : Bool
  topicReplicas : GoMap GoString TopicReplicaInfo
  operationID : Option GoString

/-- Where logging fails: before it has a number, or with the number taken and without a record. -/
inductive LogFault
  | number
  | put
deriving DecidableEq, Repr

/-- The errors of the etcd calls of a request, by kind; a missing one is a success. -/
structure EtcdFaults where
  get : Option GoError
  set : Option GoError
  log : Option LogFault

def EtcdFaults.none : EtcdFaults := { get := .none, set := .none, log := .none }

namespace EtcdManager

def newEtcdManager (topicReplicas : GoMap GoString TopicReplicaInfo)
    (operationID : Option GoString)
    : EtcdManager :=
  { isLeader := false, leaderAddr := [], leases := ∅, leaseMu := false, topicReplicas,
    operationID }

def checkLeader (em : EtcdManager) (isLeader : Bool) (leaderAddr : GoString) : EtcdManager :=
  { em with isLeader, leaderAddr }

/-- The transaction compares the stored text with the printed number. Without an ID the call
returns an error.
-/
def getNextID (em : EtcdManager) : Outcome EtcdManager (Option Int64) :=
  match em.operationID with
  -- a missing key never compares equal, and the call retries for ever
  | none => .blocked em
  | some text =>
      match parseInt text with
      | none => .returned em none
      | some currentID =>
          if text = formatInt currentID then
            .returned { em with operationID := some (formatInt (currentID + 1)) }
              (some (currentID + 1))
          -- so does a number in another spelling
          else .blocked em

/-- Only a later recovery reads the record; the callers drop the error. -/
def logOperation (em : EtcdManager) (fault : Option LogFault) : Outcome EtcdManager Unit :=
  if fault = some .number then .returned em ()
  else
    match em.getNextID with
    | .blocked em => .blocked em
    | .returned em _ => .returned em ()

def getTopicReplicas (em : EtcdManager) (topic : GoString) : Option TopicReplicaInfo :=
  em.topicReplicas.lookup topic

def setTopicReplicas (em : EtcdManager) (now : Int) (topic : GoString)
    (brokers : List ReplicaBroker) (replicaCount : Nat)
    : EtcdManager :=
  { em with
    topicReplicas := em.topicReplicas.insert topic
      { topic, brokers, version := Int64.ofInt now, timestamp := unix now, replicaCount } }

/-- The lease is the one etcd grants. -/
def registerBrokerHeartbeat (em : EtcdManager) (brokerID : GoString) (lease : Int64)
    (fault : Option GoError)
    : Outcome EtcdManager (Option GoError) :=
  if em.leaseMu then .blocked em
  else
    match fault with
    | some failure => .returned em (some (lit "创建lease失败: " ++ failure))
    | none => .returned { em with leases := em.leases.insert brokerID lease } none

/-- A broker without a lease, or with one that cannot be renewed, is registered. -/
def renewBrokerHeartbeat (em : EtcdManager) (brokerID : GoString) (lease : Int64)
    (fault : Option GoError)
    : Outcome EtcdManager (Option GoError) :=
  if em.leaseMu then .blocked em
  else if (em.leases.lookup brokerID).isSome ∧ fault = none then .returned em none
  else
    -- the registration waits for the mutex that is held here
    match registerBrokerHeartbeat { em with leaseMu := true } brokerID lease fault with
    | .blocked em => .blocked em
    | .returned em error => .returned { em with leaseMu := false } error

def unregisterBrokerHeartbeat (em : EtcdManager) (brokerID : GoString)
    (fault : Option GoError)
    : Outcome EtcdManager (Option GoError) :=
  if em.leaseMu then .blocked em
  else if (em.leases.lookup brokerID).isNone then .returned em none
  else
    match fault with
    | some failure => .returned em (some (lit "撤销lease失败: " ++ failure))
    | none => .returned { em with leases := em.leases.erase brokerID } none

end EtcdManager

end Goulette.Sentinel
