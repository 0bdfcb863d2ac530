import Goulette.Library.LastWrite

/-! Records in the order of their keys, as a directory lists its files and a key-value store its
entries.
-/

namespace SortedRecords

open List

variable {K V W : Type} [LT K] [DecidableLT K]

def put (key : K) (value : V) : List (K × V) → List (K × V)
  | [] => [(key, value)]
  | (first, old) :: rest =>
      if key < first then (key, value) :: (first, old) :: rest
      else if first < key then (first, old) :: put key value rest
      else (key, value) :: rest

def get [DecidableEq K] (key : K) (records : List (K × V)) : Option V :=
  (records.find? (fun record => record.1 = key)).map Prod.snd

def erase [DecidableEq K] (key : K) (records : List (K × V)) : List (K × V) :=
  records.filter (fun record => record.1 ≠ key)

def Sorted (records : List (K × V)) : Prop :=
  records.Pairwise (fun first later => first.1 < later.1)

/-- Sorted records around a key: those below it, its own one if there is any, those above. -/
structure Cut (key : K) (records below : List (K × V)) (own : Option V) (above : List (K × V))
    : Prop where
  split : records = below ++ ((own.map (Prod.mk key)).toList ++ above)
  below : ∀ record ∈ below, record.1 < key
  above : ∀ record ∈ above, key < record.1

/-- Records may be stored before or after their values are mapped. -/
theorem put_map (f : V → W) (key : K) (value : V) (records : List (K × V))
    : put key (f value) (records.map (fun record => (record.1, f record.2)))
      = (put key value records).map (fun record => (record.1, f record.2)) := by
  induction records with
  | nil => rfl
  | cons first rest ih =>
      simp only [map_cons, put]
      split
      · rfl
      · split
        · rw [ih, map_cons]
        · rfl

/-- Nothing is stored but the new record. -/
theorem eq_or_mem_of_mem_put {key : K} {value : V} {records : List (K × V)} {record : K × V}
    (member : record ∈ put key value records)
    : record = (key, value) ∨ record ∈ records := by
  induction records with
  | nil => exact Or.inl (mem_singleton.mp member)
  | cons first rest ih =>
      simp only [put] at member
      split at member
      · exact mem_cons.mp member
      · split at member
        · rcases mem_cons.mp member with here | later
          · exact Or.inr (mem_cons.mpr (Or.inl here))
          · exact (ih later).imp_right (mem_cons_of_mem _)
        · exact (mem_cons.mp member).imp_right (mem_cons_of_mem _)

omit [DecidableLT K] in
theorem Cut.map {key : K} {records below above : List (K × V)} {own : Option V}
    (cut : Cut key records below own above) (f : V → W)
    : Cut key (records.map (fun record => (record.1, f record.2)))
        (below.map (fun record => (record.1, f record.2))) (own.map f)
        (above.map (fun record => (record.1, f record.2))) where
  split := by
    rw [cut.split, map_append, map_append]
    cases own <;> rfl
  below := by
    intro record member
    obtain ⟨source, found, rfl⟩ := mem_map.mp member
    exact cut.below source found
  above := by
    intro record member
    obtain ⟨source, found, rfl⟩ := mem_map.mp member
    exact cut.above source found

variable [LE K] [Std.IsLinearOrder K] [Std.LawfulOrderLT K] {key : K}
  {records below above : List (K × V)} {own : Option V}

omit [DecidableLT K] in
/-- Sorted records can be cut at every key, by induction on the records below it. -/
theorem Sorted.cut (sorted : Sorted records) (key : K)
    : ∃ below own above, Cut key records below own above := by
  induction records with
  | nil => exact ⟨[], none, [], rfl, by simp, by simp⟩
  | cons first rest ih =>
      obtain ⟨ahead, tail⟩ := pairwise_cons.mp sorted
      rcases Std.lt_trichotomy first.1 key with before | same | behind
      · obtain ⟨below, own, above, cut⟩ := ih tail
        refine ⟨first :: below, own, above, by rw [cut.split]; rfl, ?_, cut.above⟩
        exact forall_mem_cons.mpr ⟨before, cut.below⟩
      · subst same
        exact ⟨[], some first.2, rest, rfl, by simp, ahead⟩
      · refine ⟨[], none, first :: rest, rfl, by simp, ?_⟩
        refine forall_mem_cons.mpr ⟨behind, fun record member => ?_⟩
        exact Std.lt_trans behind (ahead record member)

theorem Cut.put (cut : Cut key records below own above) (value : V)
    : put key value records = below ++ (key, value) :: above := by
  obtain ⟨rfl, before, behind⟩ := cut
  induction below with
  | nil =>
      cases own with
      | some old =>
          have irrefl : ¬key < key := Std.lt_irrefl
          simp [SortedRecords.put, irrefl]
      | none =>
          cases above with
          | nil => rfl
          | cons first rest =>
              simp [SortedRecords.put, behind first mem_cons_self]
  | cons first rest ih =>
      have less : first.1 < key := before first mem_cons_self
      have greater : ¬key < first.1 := fun other => Std.lt_irrefl (Std.lt_trans less other)
      have more := ih (fun record member => before record (mem_cons_of_mem _ member))
      simp only [cons_append, SortedRecords.put, less, greater, if_true, if_false, more]

/-- Storing a record leaves the cut where it is. -/
theorem Cut.stored (cut : Cut key records below own above) (value : V)
    : Cut key (SortedRecords.put key value records) below (some value) above :=
  ⟨cut.put value, cut.below, cut.above⟩

omit [DecidableLT K] [Std.IsLinearOrder K] in
theorem Cut.get [DecidableEq K] (cut : Cut key records below own above)
    : get key records = own := by
  have before : below.find? (fun record => record.1 = key) = none := by
    rw [List.find?_eq_none]
    intro record member same
    have less := cut.below record member
    rw [of_decide_eq_true same] at less
    exact Std.lt_irrefl less
  have behind : above.find? (fun record => record.1 = key) = none := by
    rw [List.find?_eq_none]
    intro record member same
    have greater := cut.above record member
    rw [of_decide_eq_true same] at greater
    exact Std.lt_irrefl greater
  rw [SortedRecords.get, cut.split, List.find?_append, List.find?_append, before, behind]
  cases own <;> simp

theorem Sorted.put (sorted : Sorted records) (key : K) (value : V)
    : Sorted (put key value records) := by
  obtain ⟨below, own, above, cut⟩ := sorted.cut key
  rw [cut.put, Sorted, pairwise_append, pairwise_cons]
  have parts := sorted
  rw [cut.split, Sorted, pairwise_append, pairwise_append] at parts
  obtain ⟨low, ⟨_, high, _⟩, _⟩ := parts
  refine ⟨low, ⟨cut.above, high⟩, ?_⟩
  intro record member other behind
  rcases mem_cons.mp behind with rfl | behind
  · exact cut.below record member
  · exact Std.lt_trans (cut.below record member) (cut.above other behind)

theorem Sorted.get_put [DecidableEq K] (sorted : Sorted records) (key : K) (value : V)
    : get key (SortedRecords.put key value records) = some value := by
  obtain ⟨below, own, above, cut⟩ := sorted.cut key
  exact (cut.stored value).get

/-- Of two records stored under one key the second one stays. -/
theorem Sorted.put_put (sorted : Sorted records) (key : K) (old value : V)
    : SortedRecords.put key value (SortedRecords.put key old records)
      = SortedRecords.put key value records := by
  obtain ⟨below, own, above, cut⟩ := sorted.cut key
  rw [(cut.stored old).put, cut.put]

section Others

variable [DecidableEq K] {other : K}

omit [LT K] [DecidableLT K] [LE K] [Std.IsLinearOrder K] [Std.LawfulOrderLT K] in
theorem get_cons (first : K × V) (rest : List (K × V)) (key : K)
    : get key (first :: rest) = if first.1 = key then some first.2 else get key rest := by
  by_cases same : first.1 = key
  · simp [SortedRecords.get, same]
  · simp [SortedRecords.get, same]

theorem get_put_of_ne (different : other ≠ key) (value : V) (records : List (K × V))
    : get other (put key value records) = get other records := by
  induction records with
  | nil => rw [put, get_cons, if_neg (Ne.symm different)]
  | cons first rest ih =>
      rw [put]
      split
      · rw [get_cons, if_neg (Ne.symm different)]
      · next notBelow =>
          split
          · rw [get_cons, get_cons, ih]
          · next notAbove =>
              have same : first.1 = key := by
                rcases Std.lt_trichotomy first.1 key with less | equal | greater
                · exact absurd less notAbove
                · exact equal
                · exact absurd greater notBelow
              rw [get_cons, get_cons, same]
              simp [Ne.symm different]

omit [LE K] [Std.IsLinearOrder K] [Std.LawfulOrderLT K] [DecidableLT K] in
theorem Sorted.erase (sorted : Sorted records) (key : K) : Sorted (erase key records) :=
  List.Pairwise.filter _ sorted

omit [LT K] [DecidableLT K] [LE K] [Std.IsLinearOrder K] [Std.LawfulOrderLT K] in
theorem get_erase (key other : K) (records : List (K × V))
    : get other (SortedRecords.erase key records)
      = if other = key then none else get other records := by
  induction records with
  | nil => simp [SortedRecords.erase, SortedRecords.get]
  | cons first rest ih =>
      by_cases same : first.1 = key
      · have gone : SortedRecords.erase key (first :: rest) = SortedRecords.erase key rest := by
          simp [SortedRecords.erase, same]
        rw [gone, ih, get_cons, same]
        by_cases here : other = key
        · simp [here]
        · simp [here, Ne.symm here]
      · have kept
            : SortedRecords.erase key (first :: rest)
              = first :: SortedRecords.erase key rest := by
          simp [SortedRecords.erase, same]
        rw [kept, get_cons, get_cons, ih]
        by_cases here : other = key
        · subst here
          simp [same]
        · simp [here]

omit [DecidableLT K] [Std.IsLinearOrder K] in
/-- Worked through in order, sorted records write to every key once. -/
theorem Sorted.last_eq_get (sorted : Sorted records) (f : V → W) (key : K) (old : Option W)
    : LastWrite.last (fun record => if record.1 = key then some (f record.2) else none) records old
      = ((get key records).map f).or old := by
  induction records generalizing old with
  | nil => rfl
  | cons first rest ih =>
      obtain ⟨ahead, tail⟩ := pairwise_cons.mp sorted
      rw [LastWrite.last_cons, get_cons]
      by_cases same : first.1 = key
      · rw [if_pos same, if_pos same, Option.map_some, LastWrite.last_of_none]
        intro later member
        refine if_neg (fun equal => ?_)
        have less := ahead later member
        rw [same, equal] at less
        exact Std.lt_irrefl less
      · rw [if_neg same, if_neg same, ih tail, Option.none_or]

end Others

end SortedRecords
