import Goulette.Sentinel.OperationIDs

/-! `GetAllOperations` and `ReplayOperations` of `internal/etcd/etcd.go`. A read with a prefix
returns the records in the byte order of their keys, so the tenth operation comes before the
second.
-/

namespace Goulette.Sentinel

open Goulette.Go List

def operationLogPrefix : GoString := lit "/goulette/operations/"

def keysFrom (start : GoString) (store : GoMap GoString GoString) : List GoString :=
  (store.keys.filter (fun key => start.isPrefixOf key)).insertionSort (· ≤ ·)

/-- The calls of the handler, which keeps a state of its own, and the error that ends them. -/
def replayFrom {S : Type} (handler : S → OperationRecord → S × Option GoError) (state : S)
    : List OperationRecord → List OperationRecord × Option GoError
  | [] => ([], none)
  | operation :: rest =>
      match handler state operation with
      | (_, some err) => ([operation], some (lit "重放操作失败: " ++ err))
      | (next, none) =>
          (operation :: (replayFrom handler next rest).1, (replayFrom handler next rest).2)

section

-- `json.Unmarshal` of a record
variable (unmarshal : GoString → Option OperationRecord)

/-- The records that can be read; the others are passed over. `fault` is the error of etcd. -/
def getAllOperations (fault : Option GoError) (store : GoMap GoString GoString)
    : Except GoError (List OperationRecord) :=
  match fault with
  | some err => .error (lit "获取操作日志失败: " ++ err)
  | none =>
      .ok ((keysFrom operationLogPrefix store).filterMap
        (fun key => (store.lookup key).bind unmarshal))

def replayOperations {S : Type} (fault : Option GoError)
    (handler : S → OperationRecord → S × Option GoError) (state : S)
    (store : GoMap GoString GoString)
    : List OperationRecord × Option GoError :=
  match getAllOperations unmarshal fault store with
  | .error err => ([], some (lit "获取操作日志失败: " ++ err))
  | .ok operations => replayFrom handler state operations

/-- Every handler is called in the order of the numbers, and one that does not fail is called once
for every record.
-/
def ReplaysInOrder (store : GoMap GoString GoString) (records : List OperationRecord) : Prop :=
  (∀ (S : Type) (handler : S → OperationRecord → S × Option GoError) (state : S),
    (replayOperations unmarshal none handler state store).1.Pairwise
      (fun first later => first.id < later.id))
  ∧ ∀ (S : Type) (handler : S → OperationRecord → S × Option GoError) (state : S),
      (∀ state operation, (handler state operation).2 = none)
      → (replayOperations unmarshal none handler state store).1.Perm records

end

/-- The handler is called on the first operations. -/
theorem replayFrom_isPrefix {S : Type} (handler : S → OperationRecord → S × Option GoError)
    (state : S) (operations : List OperationRecord)
    : (replayFrom handler state operations).1 <+: operations := by
  induction operations generalizing state with
  | nil => exact prefix_refl _
  | cons operation rest ih =>
      rw [replayFrom]
      split
      · exact prefix_cons_inj operation |>.mpr nil_prefix
      · next next _ => exact prefix_cons_inj operation |>.mpr (ih next)

theorem replayFrom_all {S : Type} {handler : S → OperationRecord → S × Option GoError}
    (works : ∀ state operation, (handler state operation).2 = none) (state : S)
    (operations : List OperationRecord)
    : (replayFrom handler state operations).1 = operations := by
  induction operations generalizing state with
  | nil => rfl
  | cons operation rest ih =>
      rw [replayFrom]
      split
      · next err failed =>
          have fine := works state operation
          rw [failed] at fine
          cases fine
      · next next _ => rw [ih next]

theorem replaysInOrder_iff_read {unmarshal : GoString → Option OperationRecord}
    {store : GoMap GoString GoString} {operations records : List OperationRecord}
    (read : getAllOperations unmarshal none store = .ok operations)
    (perm : operations.Perm records)
    : ReplaysInOrder unmarshal store records
      ↔ operations.Pairwise (fun first later => first.id < later.id) := by
  have calls {S : Type} (handler : S → OperationRecord → S × Option GoError) (state : S)
      : replayOperations unmarshal none handler state store
        = replayFrom handler state operations := by
    rw [replayOperations, read]
  constructor
  · intro inOrder
    have all := inOrder.1 Unit (fun state _ => (state, none)) ()
    rwa [calls, replayFrom_all (fun _ _ => rfl)] at all
  · intro ordered
    refine ⟨fun S handler state => ?_, fun S handler state works => ?_⟩
    · rw [calls]
      exact ordered.sublist (replayFrom_isPrefix handler state operations).sublist
    · rw [calls, replayFrom_all works]
      exact perm

namespace LogSystem

variable {marshal : OperationRecord → GoString} {unmarshal : GoString → Option OperationRecord}
  {system : LogSystem}

def OnlyRecords (system : LogSystem) : Prop :=
  ∀ key ∈ system.store,
    operationLogPrefix <+: key → ∃ record ∈ system.records, key = operationKey record.id

theorem operationIDKey_not_operation : ¬operationLogPrefix <+: operationIDKey := by
  decide +kernel

theorem OnlyRecords.effect {next : LogSystem} (h : system.OnlyRecords)
    (effect : Effect marshal system next)
    : next.OnlyRecords := by
  intro key member starts
  cases effect with
  | none store ids records =>
      rw [records]
      exact h key (store ▸ member) starts
  | number currentID found store ids records =>
      rw [records]
      rw [store, AList.mem_insert] at member
      rcases member with rfl | old
      · exact absurd starts operationIDKey_not_operation
      · exact h key old starts
  | record record store ids records =>
      rw [store, AList.mem_insert] at member
      rcases member with rfl | old
      · exact ⟨record, records.mem_iff.mpr mem_cons_self, rfl⟩
      · obtain ⟨other, known, same⟩ := h key old starts
        exact ⟨other, records.mem_iff.mpr (mem_cons_of_mem _ known), same⟩

theorem OnlyRecords.run (h : system.OnlyRecords) (marshal : OperationRecord → GoString)
    (actions : List LogAction)
    : (actions.foldl (step marshal) system).OnlyRecords := by
  induction actions generalizing system with
  | nil => exact h
  | cons action rest ih => exact ih (h.effect (effect_step marshal system action))

theorem keysFrom_perm {first : Int64} (only : system.OnlyRecords)
    (numbered : Numbered marshal first system)
    : (keysFrom operationLogPrefix system.store).Perm
        (system.records.map (fun record => operationKey record.id)) := by
  have unique : (system.records.map OperationRecord.id).Nodup :=
    (records_ids_sublist system).nodup numbered.nodup
  have keys := unique.map (fun _ _ same => operationKey_injective same)
  rw [map_map] at keys
  refine (perm_insertionSort _ _).trans ?_
  refine (perm_ext_iff_of_nodup (system.store.keys_nodup.filter _) keys).mpr (fun key => ?_)
  rw [mem_filter, isPrefixOf_iff_prefix]
  constructor
  · rintro ⟨member, starts⟩
    obtain ⟨record, known, rfl⟩ := only key member starts
    exact mem_map.mpr ⟨record, known, rfl⟩
  · intro member
    obtain ⟨record, known, rfl⟩ := mem_map.mp member
    refine ⟨?_, prefix_append _ _⟩
    rw [← AList.mem_keys, ← AList.lookup_isSome, Function.comp_apply,
      numbered.stored record known]
    rfl

/-- The read returns the records in the order of their keys. -/
theorem getAllOperations_eq {first : Int64} (only : system.OnlyRecords)
    (numbered : Numbered marshal first system)
    (readable : ∀ record ∈ system.records, unmarshal (marshal record) = some record)
    : ∃ operations,
        getAllOperations unmarshal none system.store = .ok operations
        ∧ operations.Perm system.records
        ∧ operations.Pairwise
            (fun first later => operationKey first.id ≤ operationKey later.id) := by
  have perm := keysFrom_perm only numbered
  have each (record : OperationRecord) (known : record ∈ system.records)
      : (system.store.lookup (operationKey record.id)).bind unmarshal = some record := by
    rw [numbered.stored record known, Option.bind_some, readable record known]
  refine ⟨_, rfl, ?_, ?_⟩
  · have all
        : (system.records.map (fun record => operationKey record.id)).filterMap
            (fun key => (system.store.lookup key).bind unmarshal)
          = system.records := by
      rw [filterMap_map]
      exact (filterMap_congr each).trans filterMap_some
    exact all ▸ perm.filterMap _
  · have own {key : GoString} (member : key ∈ keysFrom operationLogPrefix system.store)
        {record : OperationRecord} (read : (system.store.lookup key).bind unmarshal = some record)
        : key = operationKey record.id := by
      obtain ⟨other, known, rfl⟩ := mem_map.mp (perm.mem_iff.mp member)
      rw [each other known, Option.some_inj] at read
      rw [read]
    rw [pairwise_filterMap]
    refine (pairwise_insertionSort (· ≤ ·) _).imp_of_mem ?_
    intro key later inKeys inLater below record read other readOther
    rw [← own inKeys read, ← own inLater readOther]
    exact below

theorem Numbered.mem_record (numbered : Numbered marshal 0 system)
    (complete : system.ids.length = system.records.length) (number : Int)
    : (∃ record ∈ system.records, record.id.toInt = number)
      ↔ 1 ≤ number ∧ number ≤ system.records.length := by
  have all : system.records.map OperationRecord.id = system.ids :=
    (records_ids_sublist system).eq_of_length (by rw [length_map, complete])
  have members := numbered.ids.mem_iff (a := number)
  rw [← all, map_map, mem_map, mem_map] at members
  refine members.trans ?_
  rw [length_map]
  constructor
  · rintro ⟨i, inside, rfl⟩
    rw [mem_range] at inside
    simp only [Int64.toInt_zero]
    omega
  · rintro ⟨atLeast, atMost⟩
    refine ⟨(number - 1).toNat, mem_range.mpr (by omega), ?_⟩
    simp only [Int64.toInt_zero]
    omega

/-- Of two numbers with one digit the smaller one has the smaller key. -/
theorem lt_of_oneDigit {left right : Int64} (different : left ≠ right)
    (leftDigit : 1 ≤ left.toInt ∧ left.toInt ≤ 9)
    (rightDigit : 1 ≤ right.toInt ∧ right.toInt ≤ 9)
    (below : operationKey left ≤ operationKey right)
    : left < right := by
  have digits
      : ∀ i ∈ List.range 9, ∀ j ∈ List.range 9,
          Int64.ofInt (1 + i) ≠ Int64.ofInt (1 + j)
          → operationKey (Int64.ofInt (1 + i)) ≤ operationKey (Int64.ofInt (1 + j))
          → Int64.ofInt (1 + i) < Int64.ofInt (1 + j) := by
    decide +kernel
  have number {value : Int64} (digit : 1 ≤ value.toInt ∧ value.toInt ≤ 9)
      : ∃ i ∈ List.range 9, value = Int64.ofInt (1 + i) := by
    refine ⟨(value.toInt - 1).toNat, mem_range.mpr (by omega), ?_⟩
    rw [show (1 + ((value.toInt - 1).toNat : Int)) = value.toInt by omega, Int64.ofInt_toInt]
  obtain ⟨i, iBound, rfl⟩ := number leftDigit
  obtain ⟨j, jBound, rfl⟩ := number rightDigit
  exact digits i iBound j jBound different below

/-- The operations of a log that began with a fresh counter are replayed in their order exactly if
there are at most nine.
-/
theorem replaysInOrder_iff {store : GoMap GoString GoString}
    (counter : store.lookup operationIDKey = some (formatInt 0))
    (fresh : ∀ key ∈ store, ¬operationLogPrefix <+: key) (actions : List LogAction)
    (room : (run marshal store actions).ids.length < 2 ^ 63)
    (complete
      : (run marshal store actions).ids.length = (run marshal store actions).records.length)
    (readable
      : ∀ record ∈ (run marshal store actions).records,
          unmarshal (marshal record) = some record)
    : ReplaysInOrder unmarshal (run marshal store actions).store (run marshal store actions).records
      ↔ (run marshal store actions).records.length ≤ 9 := by
  have numbered : Numbered marshal 0 (run marshal store actions) :=
    (Numbered.start counter).run actions (by simpa [run] using room)
  have only : (run marshal store actions).OnlyRecords :=
    OnlyRecords.run (fun key member starts => absurd starts (fresh key member)) marshal actions
  obtain ⟨operations, read, perm, sorted⟩ := getAllOperations_eq only numbered readable
  have numbers := numbered.mem_record complete
  rw [replaysInOrder_iff_read read perm]
  constructor
  · -- the second and the tenth operation
    intro ordered
    by_contra more
    obtain ⟨second, inSecond, two⟩ := (numbers 2).mpr (by omega)
    obtain ⟨tenth, inTenth, ten⟩ := (numbers 10).mpr (by omega)
    obtain ⟨i, iBound, rfl⟩ := mem_iff_getElem.mp (perm.mem_iff.mpr inSecond)
    obtain ⟨j, jBound, rfl⟩ := mem_iff_getElem.mp (perm.mem_iff.mpr inTenth)
    rcases Nat.lt_trichotomy i j with before | rfl | after
    · have below := pairwise_iff_getElem.mp sorted i j iBound jBound before
      rw [Int64.toInt_inj.mp (two.trans (by decide : (2 : Int) = (2 : Int64).toInt)),
        Int64.toInt_inj.mp (ten.trans (by decide : (10 : Int) = (10 : Int64).toInt))] at below
      exact absurd below (by decide +kernel)
    · omega
    · have less := pairwise_iff_getElem.mp ordered j i jBound iBound after
      rw [Int64.lt_iff_toInt_lt] at less
      omega
  · intro few
    have unique : (operations.map OperationRecord.id).Nodup :=
      (perm.map _).nodup_iff.mpr ((records_ids_sublist _).nodup numbered.nodup)
    have digit (record : OperationRecord) (member : record ∈ operations)
        : 1 ≤ record.id.toInt ∧ record.id.toInt ≤ 9 := by
      have bounds := (numbers _).mp ⟨record, perm.mem_iff.mp member, rfl⟩
      omega
    refine (sorted.and (pairwise_map.mp unique)).imp_of_mem ?_
    rintro first later inFirst inLater ⟨below, different⟩
    exact lt_of_oneDigit different (digit first inFirst) (digit later inLater) below

def oneByOne (count : Nat) : List LogAction :=
  (List.range count).flatMap (fun i =>
    [.start (lit "f") (some (lit "null")), .advance i 7, .advance i 7, .advance i 7])

def logged (count : Nat) : LogSystem :=
  run jsonText (AList.singleton operationIDKey (lit "0")) (oneByOne count)

/-- Reads such a text by the quotes in it. -/
def readText (text : GoString) : Option OperationRecord :=
  match text.splitOn 34 with
  | [_, _, id, _, _, function, _, _, _, params, _, _, timestamp] => do
      let id ← parseInt (id.drop 1).dropLast
      let timestamp ← parseInt (timestamp.drop 1).dropLast
      return { id, function, params, timestamp }
  | _ => none

theorem replaysInOrder_three
    : (logged 3).records.map OperationRecord.id = [1, 2, 3]
      ∧ ReplaysInOrder readText (logged 3).store (logged 3).records :=
  ⟨by decide +kernel,
    (@replaysInOrder_iff jsonText readText
      (AList.singleton operationIDKey (lit "0")) (by decide +kernel) (by decide +kernel)
      (oneByOne 3) (by decide +kernel) (by decide +kernel) (by decide +kernel)).mpr
      (by decide +kernel)⟩

/-- The tenth operation is replayed after the first one. -/
theorem not_replaysInOrder_ten
    : (logged 10).records.map OperationRecord.id = [1, 2, 3, 4, 5, 6, 7, 8, 9, 10]
      ∧ (∀ record ∈ (logged 10).records, readText (jsonText record) = some record)
      ∧ (replayOperations readText none (fun (_ : Unit) _ => ((), none)) ()
          (logged 10).store).1.map OperationRecord.id
        = [1, 10, 2, 3, 4, 5, 6, 7, 8, 9]
      ∧ ¬ReplaysInOrder readText (logged 10).store (logged 10).records := by
  have replayed
      : (replayOperations readText none (fun (_ : Unit) _ => ((), none)) ()
          (logged 10).store).1.map OperationRecord.id
        = [1, 10, 2, 3, 4, 5, 6, 7, 8, 9] := by
    decide +kernel
  refine ⟨by decide +kernel, by decide +kernel, replayed, fun inOrder => ?_⟩
  have ordered := (pairwise_map (f := OperationRecord.id) (R := (· < ·))).mpr
    (inOrder.1 Unit (fun _ _ => ((), none)) ())
  rw [replayed] at ordered
  exact absurd ordered (by decide)

end LogSystem

end Goulette.Sentinel
