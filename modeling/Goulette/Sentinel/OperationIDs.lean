import Goulette.Library.Pool
import Goulette.Sentinel.Operations

/-! Concurrent calls of `LogOperation` on one etcd store. Every request to etcd is one step; the
managers share nothing but the store, so it does not matter whose call it is.
-/

namespace Goulette.Sentinel

open Goulette.Go List

def operationIDKey : GoString := lit "/goulette/increment/operation"

structure OperationRecord where
  id : Int64
  function : GoString
  params : GoString
  timestamp : Int64
deriving DecidableEq

/-- Why a call returns an error though etcd did not fail: `解析递增ID失败` or `序列化参数失败`. -/
inductive LogFailure
  | parse
  | marshal (nextID : Int64)
deriving DecidableEq

inductive LogPhase
  | get
  | txn (currentID : Int64)
  | put (nextID : Int64)
  | returned (record : OperationRecord)
  | failed (failure : LogFailure)
deriving DecidableEq

/-- A call with its parameters as JSON text, which are missing if they cannot be marshalled. -/
structure LogCall where
  function : GoString
  params : Option GoString
  phase : LogPhase
deriving DecidableEq

def LogCall.id? (call : LogCall) : Option Int64 :=
  match call.phase with
  | .get => none
  | .txn _ => none
  | .put nextID => some nextID
  | .returned record => some record.id
  | .failed .parse => none
  | .failed (.marshal nextID) => some nextID

def LogCall.record? (call : LogCall) : Option OperationRecord :=
  match call.phase with
  | .returned record => some record
  | .get | .txn _ | .put _ | .failed _ => none

structure LogSystem where
  store : GoMap GoString GoString
  calls : List LogCall

inductive LogAction
  | start (function : GoString) (params : Option GoString)
  | advance (call : Nat) (now : Int64)
deriving DecidableEq

section

-- `json.Marshal` of a record
variable (marshal : OperationRecord → GoString)

/-- The next request of a call. -/
def LogCall.advance (call : LogCall) (now : Int64) (store : GoMap GoString GoString)
    : GoMap GoString GoString × LogPhase :=
  match call.phase with
  | .get =>
      match store.lookup operationIDKey with
      -- a missing counter counts as zero, and no transaction finds it
      | none => (store, .txn 0)
      | some text =>
          match parseInt text with
          | none => (store, .failed .parse)
          | some currentID => (store, .txn currentID)
  | .txn currentID =>
      if store.lookup operationIDKey = some (formatInt currentID) then
        (store.insert operationIDKey (formatInt (currentID + 1)), .put (currentID + 1))
      else (store, .get)
  | .put nextID =>
      match call.params with
      | none => (store, .failed (.marshal nextID))
      | some params =>
          let record : OperationRecord :=
            { id := nextID, function := call.function, params, timestamp := now }
          (store.insert (operationKey nextID) (marshal record), .returned record)
  | .returned record => (store, .returned record)
  | .failed failure => (store, .failed failure)

namespace LogSystem

def step (system : LogSystem) : LogAction → LogSystem
  | .start function params =>
      { system with calls := system.calls ++ [{ function, params, phase := .get }] }
  | .advance i now =>
      match system.calls[i]? with
      | none => system
      | some call =>
          let result := call.advance marshal now system.store
          { store := result.1, calls := system.calls.set i { call with phase := result.2 } }

def run (store : GoMap GoString GoString) (actions : List LogAction) : LogSystem :=
  actions.foldl (step marshal) { store, calls := [] }

end LogSystem

end

namespace LogSystem

def ids (system : LogSystem) : List Int64 := system.calls.filterMap LogCall.id?

def records (system : LogSystem) : List OperationRecord :=
  system.calls.filterMap LogCall.record?

variable {marshal : OperationRecord → GoString} {system : LogSystem}

/-- What a step does: nothing that can be seen, a number is given out, or a record is put. -/
inductive Effect (marshal : OperationRecord → GoString) (system next : LogSystem) : Prop
  | none (store : next.store = system.store) (ids : next.ids = system.ids)
      (records : next.records = system.records)
  | number (currentID : Int64)
      (found : system.store.lookup operationIDKey = some (formatInt currentID))
      (store
        : next.store = system.store.insert operationIDKey (formatInt (currentID + 1)))
      (ids : next.ids.Perm ((currentID + 1) :: system.ids))
      (records : next.records = system.records)
  | record (record : OperationRecord)
      (store : next.store = system.store.insert (operationKey record.id) (marshal record))
      (ids : next.ids = system.ids)
      (records : next.records.Perm (record :: system.records))

/-- A call that does not get a number or a record is not seen. -/
theorem Effect.of_same {i : Nat} {call : LogCall} (found : system.calls[i]? = some call)
    {phase : LogPhase} (id : ({ call with phase } : LogCall).id? = call.id?)
    (record : ({ call with phase } : LogCall).record? = call.record?)
    : Effect marshal system
        { store := system.store, calls := system.calls.set i { call with phase } } :=
  .none rfl (Pool.filterMap_set_same found id) (Pool.filterMap_set_same found record)

theorem effect_advance {i : Nat} {call : LogCall} (found : system.calls[i]? = some call)
    (now : Int64)
    : Effect marshal system
        { store := (call.advance marshal now system.store).1
          calls := system.calls.set i
            { call with phase := (call.advance marshal now system.store).2 } } := by
  obtain ⟨function, params, phase⟩ := call
  cases phase with
  | get =>
      simp only [LogCall.advance]
      cases stored : system.store.lookup operationIDKey with
      | none => exact .of_same found rfl rfl
      | some text =>
          simp only
          cases parsed : parseInt text with
          | none | some => exact .of_same found rfl rfl
  | txn currentID =>
      simp only [LogCall.advance]
      by_cases unchanged : system.store.lookup operationIDKey = some (formatInt currentID)
      · rw [if_pos unchanged]
        exact .number currentID unchanged rfl (Pool.filterMap_set_some found rfl rfl)
          (Pool.filterMap_set_same found rfl)
      · rw [if_neg unchanged]
        exact .of_same found rfl rfl
  | put nextID =>
      cases params with
      | none => exact .of_same found rfl rfl
      | some params =>
          exact .record { id := nextID, function, params, timestamp := now } rfl
            (Pool.filterMap_set_same found rfl) (Pool.filterMap_set_some found rfl rfl)
  | returned | failed => exact .of_same found rfl rfl

theorem effect_step (marshal : OperationRecord → GoString) (system : LogSystem)
    (action : LogAction)
    : Effect marshal system (system.step marshal action) := by
  cases action with
  | start function params =>
      refine .none rfl ?_ ?_
      · simp [step, ids, LogCall.id?]
      · simp [step, records, LogCall.record?]
  | advance i now =>
      simp only [step]
      cases found : system.calls[i]? with
      | none => exact .none rfl rfl rfl
      | some call => exact effect_advance found now

/-- Numbers and records stay with their calls. -/
theorem Effect.grows {next : LogSystem} (effect : Effect marshal system next)
    : system.ids.length ≤ next.ids.length ∧ system.records ⊆ next.records := by
  cases effect with
  | none _ ids records => exact ⟨Nat.le_of_eq (by rw [ids]), records ▸ List.Subset.refl _⟩
  | number _ _ _ ids records =>
      refine ⟨?_, records ▸ List.Subset.refl _⟩
      rw [ids.length_eq, length_cons]
      omega
  | record _ _ ids records =>
      exact ⟨Nat.le_of_eq (by rw [ids]),
        fun other member => records.mem_iff.mpr (mem_cons_of_mem _ member)⟩

/-- The number of a record is the number its call got. -/
theorem records_ids_sublist (system : LogSystem)
    : (system.records.map OperationRecord.id).Sublist system.ids := by
  unfold records ids
  induction system.calls with
  | nil => exact List.Sublist.refl _
  | cons call rest ih =>
      obtain ⟨function, params, phase⟩ := call
      cases phase with
      | get | txn _ => exact ih
      | put nextID => exact ih.cons nextID
      | returned record => exact ih.cons_cons record.id
      | failed failure =>
          cases failure with
          | parse => exact ih
          | marshal nextID => exact ih.cons nextID

/-- The numbers given out follow the first value of the counter without a gap, the counter shows
the last of them, and every record is under its number.
-/
structure Numbered (marshal : OperationRecord → GoString) (first : Int64) (system : LogSystem)
    : Prop where
  counter
    : ∃ current : Int64,
        system.store.lookup operationIDKey = some (formatInt current)
        ∧ current.toInt = first.toInt + system.ids.length
  ids
    : (system.ids.map Int64.toInt).Perm
        ((List.range system.ids.length).map (fun i : Nat => first.toInt + 1 + i))
  stored
    : ∀ record ∈ system.records,
        system.store.lookup (operationKey record.id) = some (marshal record)

theorem Numbered.nodup {first : Int64} (h : Numbered marshal first system) : system.ids.Nodup := by
  have distinct
      : ((List.range system.ids.length).map (fun i : Nat => first.toInt + 1 + i)).Nodup := by
    refine List.Nodup.map (fun i j same => ?_) nodup_range
    simpa using same
  exact (h.ids.nodup_iff.mpr distinct).of_map Int64.toInt

theorem operationKey_ne (id : Int64) : operationKey id ≠ operationIDKey := by
  intro same
  have letters := congrArg (List.take 11) same
  rw [operationKey, take_append_of_le_length (by decide +kernel)] at letters
  exact absurd letters (by decide +kernel)

/-- The successor of the last number follows without a gap. -/
theorem perm_range_succ {first : Int} {numbers : List Int} {count : Nat}
    (perm : numbers.Perm ((List.range count).map (fun i : Nat => first + 1 + i)))
    : ((first + count + 1) :: numbers).Perm
        ((List.range (count + 1)).map (fun i : Nat => first + 1 + i)) := by
  rw [range_succ, map_append, map_singleton]
  have next : first + count + 1 = first + 1 + count := by omega
  rw [next]
  exact (perm.cons _).trans (perm_append_singleton _ _).symm

/-- Every step keeps the numbering while there is room. -/
theorem Numbered.effect {first : Int64} {next : LogSystem} (h : Numbered marshal first system)
    (effect : Effect marshal system next) (room : first.toInt + next.ids.length < 2 ^ 63)
    : Numbered marshal first next := by
  cases effect with
  | none store ids records =>
      exact {
        counter := by rw [store, ids]; exact h.counter
        ids := by rw [ids]; exact h.ids
        stored := by rw [store, records]; exact h.stored
      }
  | number currentID found store ids records =>
      obtain ⟨current, shown, value⟩ := h.counter
      have same : currentID = current :=
        formatInt_injective (Option.some.inj (found.symm.trans shown))
      subst same
      have count : next.ids.length = system.ids.length + 1 := by
        rw [ids.length_eq, length_cons]
      rw [count] at room
      have raised : (currentID + 1).toInt = first.toInt + system.ids.length + 1 := by
        rw [toInt_succ (by omega), value]
      exact {
        counter := by
          refine ⟨currentID + 1, by rw [store, AList.lookup_insert], ?_⟩
          rw [raised, count]
          omega
        ids := by
          rw [count]
          refine (ids.map _).trans ?_
          rw [map_cons, raised]
          exact perm_range_succ h.ids
        stored := by
          intro record member
          rw [store, AList.lookup_insert_ne (operationKey_ne record.id)]
          exact h.stored record (records ▸ member)
      }
  | record record store ids records =>
      -- the new record's number is none of the other records' numbers
      have unique : (next.records.map OperationRecord.id).Nodup :=
        (records_ids_sublist next).nodup (ids ▸ h.nodup)
      rw [(records.map OperationRecord.id).nodup_iff, map_cons, nodup_cons] at unique
      exact {
        counter := by
          rw [store, ids, AList.lookup_insert_ne (operationKey_ne record.id).symm]
          exact h.counter
        ids := by rw [ids]; exact h.ids
        stored := by
          intro other member
          rw [store]
          rcases mem_cons.mp (records.mem_iff.mp member) with rfl | old
          · rw [AList.lookup_insert]
          · rw [AList.lookup_insert_ne]
            · exact h.stored other old
            · intro same
              refine unique.1 (mem_map.mpr ⟨other, old, ?_⟩)
              exact operationKey_injective same
      }

theorem run_append (marshal : OperationRecord → GoString) (store : GoMap GoString GoString)
    (actions later : List LogAction)
    : run marshal store (actions ++ later) = later.foldl (step marshal) (run marshal store actions)
    := by
  rw [run, run, foldl_append]

/-- Numbers and records stay over a run, by induction on its steps. -/
theorem run_grows (marshal : OperationRecord → GoString) (system : LogSystem)
    (actions : List LogAction)
    : system.ids.length ≤ (actions.foldl (step marshal) system).ids.length
      ∧ system.records ⊆ (actions.foldl (step marshal) system).records := by
  induction actions generalizing system with
  | nil => exact ⟨Nat.le_refl _, List.Subset.refl _⟩
  | cons action rest ih =>
      have now := (effect_step marshal system action).grows
      have later := ih (system.step marshal action)
      exact ⟨now.1.trans later.1, fun record member => later.2 (now.2 member)⟩

/-- While there is room every run stays numbered, by induction on its steps. -/
theorem Numbered.run {first : Int64} (h : Numbered marshal first system)
    (actions : List LogAction)
    (room : first.toInt + (actions.foldl (step marshal) system).ids.length < 2 ^ 63)
    : Numbered marshal first (actions.foldl (step marshal) system) := by
  induction actions generalizing system with
  | nil => exact h
  | cons action rest ih =>
      have grown := (run_grows marshal (system.step marshal action) rest).1
      rw [foldl_cons] at room
      exact ih (h.effect (effect_step marshal system action) (by omega)) room

theorem Numbered.start {store : GoMap GoString GoString} {first : Int64}
    (counter : store.lookup operationIDKey = some (formatInt first))
    : Numbered marshal first { store, calls := [] } where
  counter := ⟨first, counter, by simp [LogSystem.ids]⟩
  ids := .rfl
  stored := by simp [records]

/-- Over every interleaving of calls the numbers are different and follow the first value of the
counter without a gap, and every completed call's record is under a key of its own, from its
completion on.
-/
theorem operation_ids_unique (marshal : OperationRecord → GoString)
    {store : GoMap GoString GoString} {first : Int64}
    (counter : store.lookup operationIDKey = some (formatInt first)) (actions : List LogAction)
    (room : first.toInt + (run marshal store actions).ids.length < 2 ^ 63)
    : (run marshal store actions).ids.Nodup
      ∧ ((run marshal store actions).ids.map Int64.toInt).Perm
          ((List.range (run marshal store actions).ids.length).map
            (fun i : Nat => first.toInt + 1 + i))
      ∧ (run marshal store actions).store.lookup operationIDKey
          = some (formatInt (Int64.ofInt
              (first.toInt + (run marshal store actions).ids.length)))
      ∧ ((run marshal store actions).records.map (fun record => operationKey record.id)).Nodup
      ∧ ∀ before after,
          actions = before ++ after
          → ∀ record ∈ (run marshal store before).records,
              (run marshal store actions).store.lookup (operationKey record.id)
                = some (marshal record) := by
  have numbered := (Numbered.start counter).run actions room
  rw [← LogSystem.run] at numbered
  refine ⟨numbered.nodup, numbered.ids, ?_, ?_, ?_⟩
  · obtain ⟨current, shown, value⟩ := numbered.counter
    rw [shown, ← value, Int64.ofInt_toInt]
  · have unique := (records_ids_sublist (run marshal store actions)).nodup numbered.nodup
    have keys := unique.map (fun _ _ same => operationKey_injective same)
    rwa [map_map] at keys
  · rintro before after rfl record member
    refine numbered.stored record ?_
    rw [run_append]
    exact (run_grows marshal _ after).2 member

/-- The JSON text of a record whose strings need no escapes. -/
def jsonText (record : OperationRecord) : GoString :=
  lit "\x7b\"id\":" ++ formatInt record.id ++ lit ",\"function\":\"" ++ record.function
    ++ lit "\",\"params\":\"" ++ record.params ++ lit "\",\"timestamp\":"
    ++ formatInt record.timestamp ++ lit "\x7d"

def twoCalls : List LogAction :=
  [.start (lit "f") (some (lit "null")), .start (lit "g") (some (lit "null")), .advance 0 7,
    .advance 1 7, .advance 0 7, .advance 1 7, .advance 1 8, .advance 0 8, .advance 1 9,
    .advance 1 9]

theorem operation_ids_unique_twoCalls
    : (run jsonText (AList.singleton operationIDKey (lit "41")) twoCalls).ids = [42, 43]
      ∧ (run jsonText (AList.singleton operationIDKey (lit "41")) twoCalls).store.lookup
          (operationKey 42)
        = some (lit "\x7b\"id\":42,\"function\":\"f\",\"params\":\"null\",\"timestamp\":8\x7d")
      ∧ (run jsonText (AList.singleton operationIDKey (lit "41")) twoCalls).ids.Nodup :=
  ⟨by decide +kernel, by decide +kernel,
    (@operation_ids_unique jsonText _ 41 (by decide +kernel) twoCalls (by decide +kernel)).1⟩

end LogSystem

end Goulette.Sentinel
