import Goulette.Sentinel.OperationIDs

/-! The retry loop of `getNextID`, in `internal/etcd/etcd.go`. Without interference every round
meets the same text, so a call that does not succeed in its first round never returns.
-/

namespace Goulette.Sentinel

open Goulette.Go

/-- Why a call returns an error: `获取递增ID失败`, `解析递增ID失败` or `更新递增ID失败`. -/
inductive CounterFailure
  | get (cause : GoError)
  | parse (text : GoString)
  | txn (cause : GoError)
deriving DecidableEq

/-- What the requests of a call meet, by their number: an error, or the store of etcd. -/
abbrev Requests := Nat → Except GoError (GoMap GoString GoString)

def currentID : Option GoString → Except CounterFailure Int64
  | none => .ok 0
  | some text =>
      match parseInt text with
      | none => .error (.parse text)
      | some value => .ok value

/-- At most `rounds` rounds of the loop from request number `n` on; none if all of them fail
to compare.
-/
def getNextID (key : GoString) (requests : Requests) (n : Nat)
    : (rounds : Nat) → Option (Except CounterFailure Int64)
  | 0 => none
  | rounds + 1 =>
      match requests n with
      | .error cause => some (.error (.get cause))
      | .ok store =>
          match currentID (store.lookup key) with
          | .error failure => some (.error failure)
          | .ok currentID =>
              match requests (n + 1) with
              | .error cause => some (.error (.txn cause))
              | .ok store =>
                  -- a comparison with an absent value fails
                  if store.lookup key = some (formatInt currentID) then
                    some (.ok (currentID + 1))
                  else getNextID key requests (n + 2) rounds

def Undisturbed (key : GoString) (stored : Option GoString) (requests : Requests) : Prop :=
  ∀ n, ∃ store, requests n = .ok store ∧ store.lookup key = stored

/-- The number that a call should get: one more than the stored one, or 1 if there is none. -/
def successorID : Option GoString → Option Int
  | none => some 1
  | some text => (parseInt text).map (fun value => value.toInt + 1)

/-- The call returns after finitely many rounds, with the successor of the stored number if
there is one.
-/
def ReturnsSuccessor (key : GoString) (stored : Option GoString) (requests : Requests) : Prop :=
  ∃ rounds result,
    getNextID key requests 0 rounds = some result
    ∧ ∀ number ∈ successorID stored, ∃ nextID, result = .ok nextID ∧ nextID.toInt = number

/-- The key holds a text that is the decimal spelling `FormatInt` gives a number below the
largest one, or no number at all.
-/
def CanonicalCounter : Option GoString → Prop
  | none => False
  | some text => ∀ value ∈ parseInt text, text = formatInt value ∧ value.toInt + 1 < 2 ^ 63

section

variable {key : GoString} {stored : Option GoString} {requests : Requests} {value : Int64}

section

variable (quiet : Undisturbed key stored requests)
include quiet

theorem getNextID_succ (n rounds : Nat)
    : getNextID key requests n (rounds + 1)
      = match currentID stored with
        | .error failure => some (.error failure)
        | .ok value =>
            if stored = some (formatInt value) then some (.ok (value + 1))
            else getNextID key requests (n + 2) rounds := by
  obtain ⟨read, reads, lookedUp⟩ := quiet n
  obtain ⟨compared, compares, found⟩ := quiet (n + 1)
  simp only [getNextID, reads, compares, lookedUp, found]

/-- A text that differs from the printed number fails every comparison. -/
theorem getNextID_eq_none (read : currentID stored = .ok value)
    (differs : stored ≠ some (formatInt value)) (n rounds : Nat)
    : getNextID key requests n rounds = none := by
  induction rounds generalizing n with
  | zero => rfl
  | succ rounds ih =>
      rw [getNextID_succ quiet, read]
      simp only [differs, if_false]
      exact ih (n + 2)

theorem getNextID_eq_some (read : currentID stored = .ok value)
    (same : stored = some (formatInt value)) (n rounds : Nat)
    : getNextID key requests n (rounds + 1) = some (.ok (value + 1)) := by
  rw [getNextID_succ quiet, read]
  simp only [same, if_true]

end

theorem canonicalCounter_iff {text : GoString} (parsed : parseInt text = some value)
    : CanonicalCounter (some text) ↔ text = formatInt value ∧ value.toInt + 1 < 2 ^ 63 := by
  simp [CanonicalCounter, parsed]

/-- The printed number compares equal; its successor is the right one if it does not wrap. -/
theorem returnsSuccessor_iff_room {text : GoString}
    (quiet : Undisturbed key (some text) requests) (parsed : parseInt text = some value)
    (canonical : text = formatInt value)
    : ReturnsSuccessor key (some text) requests ↔ value.toInt + 1 < 2 ^ 63 := by
  have read : currentID (some text) = .ok value := by simp [currentID, parsed]
  constructor
  · rintro ⟨rounds, result, _, succeeds⟩
    obtain ⟨nextID, _, next⟩ := succeeds (value.toInt + 1) (by simp [successorID, parsed])
    rw [← next]
    exact nextID.toInt_lt
  · intro room
    refine ⟨1, _, getNextID_eq_some quiet read (congrArg some canonical) 0 0, ?_⟩
    intro number expected
    obtain rfl : value.toInt + 1 = number := by simpa [successorID, parsed] using expected
    exact ⟨value + 1, rfl, toInt_succ room⟩

end

/-- A call that nobody disturbs returns the successor exactly if the counter is there, is
spelled as `FormatInt` spells it, and is not the largest number.
-/
theorem returnsSuccessor_iff {key : GoString} {stored : Option GoString} {requests : Requests}
    (quiet : Undisturbed key stored requests)
    : ReturnsSuccessor key stored requests ↔ CanonicalCounter stored := by
  cases stored with
  | none =>
      refine iff_of_false ?_ id
      rintro ⟨rounds, result, returns, _⟩
      have read : currentID none = .ok 0 := rfl
      have never := getNextID_eq_none quiet read (by simp) 0 rounds
      rw [never] at returns
      cases returns
  | some text =>
      cases parsed : parseInt text with
      | none =>
          have read : currentID (some text) = .error (.parse text) := by
            simp [currentID, parsed]
          refine iff_of_true ⟨1, .error (.parse text), ?_, ?_⟩ ?_
          · rw [getNextID_succ quiet, read]
          · simp [successorID, parsed]
          · simp [CanonicalCounter, parsed]
      | some value =>
          have read : currentID (some text) = .ok value := by simp [currentID, parsed]
          by_cases canonical : text = formatInt value
          · rw [canonicalCounter_iff parsed, returnsSuccessor_iff_room quiet parsed canonical]
            exact ⟨fun room => ⟨canonical, room⟩, fun spelled => spelled.2⟩
          · refine iff_of_false ?_ (fun spelled => canonical (spelled value parsed).1)
            rintro ⟨rounds, result, returns, _⟩
            have never := getNextID_eq_none quiet read (by simpa using canonical) 0 rounds
            rw [never] at returns
            cases returns

/-- In a fresh store there is no counter: no comparison ever succeeds. -/
theorem not_returnsSuccessor_fresh
    : ¬ReturnsSuccessor operationIDKey none (fun _ => .ok ∅) := by
  rintro ⟨rounds, result, returns, _⟩
  have quiet : Undisturbed operationIDKey none (fun _ => .ok ∅) := fun _ => ⟨∅, rfl, rfl⟩
  have read : currentID none = .ok 0 := rfl
  rw [getNextID_eq_none quiet read (by simp) 0 rounds] at returns
  cases returns

/-- A counter at 41 gives 42. -/
theorem returnsSuccessor_fortyOne
    : ReturnsSuccessor operationIDKey (some (lit "41"))
        (fun _ => .ok (AList.insert operationIDKey (lit "41") ∅)) := by
  refine (returnsSuccessor_iff (fun _ => ⟨_, rfl, AList.lookup_insert _⟩)).mpr ?_
  have parsed : parseInt (lit "41") = some 41 := by decide +kernel
  exact (canonicalCounter_iff parsed).mpr ⟨by decide +kernel, by decide⟩

/-- The manager that waits for ever, returns an error or returns a number is the loop, seen
from its end.
-/
theorem EtcdManager.getNextID_rounds (em : EtcdManager) {key : GoString} {requests : Requests}
    (quiet : Undisturbed key em.operationID requests)
    : match em.getNextID with
      | .blocked _ => ∀ rounds, Sentinel.getNextID key requests 0 rounds = none
      | .returned _ (some nextID) =>
          ∀ rounds, Sentinel.getNextID key requests 0 (rounds + 1) = some (.ok nextID)
      | .returned _ none =>
          ∀ rounds, ∃ text,
            Sentinel.getNextID key requests 0 (rounds + 1) = some (.error (.parse text)) := by
  unfold EtcdManager.getNextID
  cases stored : em.operationID with
  | none =>
      rw [stored] at quiet
      have read : currentID none = .ok 0 := rfl
      exact fun rounds => getNextID_eq_none quiet read (by simp) 0 rounds
  | some text =>
      rw [stored] at quiet
      cases parsed : parseInt text with
      | none =>
          simp only [parsed]
          refine fun rounds => ⟨text, ?_⟩
          rw [getNextID_succ quiet]
          simp [currentID, parsed]
      | some value =>
          have read : currentID (some text) = .ok value := by simp [currentID, parsed]
          simp only [parsed]
          by_cases canonical : text = formatInt value
          · rw [if_pos canonical]
            exact fun rounds => getNextID_eq_some quiet read (congrArg some canonical) 0 rounds
          · rw [if_neg canonical]
            exact fun rounds => getNextID_eq_none quiet read (by simpa using canonical) 0 rounds

theorem getNextID_rounds_absent
    : (EtcdManager.newEtcdManager ∅ none).operationID = none
      ∧ ∀ rounds, getNextID (lit "k") (fun _ => .ok ∅) 0 rounds = none :=
  ⟨rfl, EtcdManager.getNextID_rounds (.newEtcdManager ∅ none) (fun _ => ⟨∅, rfl, rfl⟩)⟩

end Goulette.Sentinel
