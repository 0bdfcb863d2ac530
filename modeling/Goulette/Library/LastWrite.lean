import Mathlib.Data.List.Basic

/-! The last write wins: what a place holds after a list of items is the last value written. -/

namespace LastWrite

open List

variable {S A V : Type} {write : A → Option V} {item : A} {items before after : List A}
  {old : Option V}

/-- The value of a place behind some items. -/
def last (write : A → Option V) (items : List A) (old : Option V) : Option V :=
  (items.filterMap write).getLast?.or old

@[simp] theorem last_nil (write : A → Option V) (old : Option V) : last write [] old = old := rfl

theorem last_cons (write : A → Option V) (item : A) (rest : List A) (old : Option V)
    : last write (item :: rest) old = last write rest ((write item).or old) := by
  cases written : write item with
  | none => simp [last, written]
  | some value =>
      simp only [last, filterMap_cons, written, List.getLast?_cons]
      cases (rest.filterMap write).getLast? <;> rfl

theorem last_append (write : A → Option V) (items more : List A) (old : Option V)
    : last write (items ++ more) old = last write more (last write items old) := by
  induction items generalizing old with
  | nil => rfl
  | cons item rest ih => rw [cons_append, last_cons, last_cons, ih]

/-- Items that do not write leave the old value. -/
theorem last_of_none (silent : ∀ item ∈ items, write item = none) (old : Option V)
    : last write items old = old := by
  rw [last, filterMap_eq_nil_iff.mpr silent]
  rfl

theorem last_eq_none : last write items none = none ↔ ∀ item ∈ items, write item = none := by
  rw [last, Option.or_none, List.getLast?_eq_none_iff, filterMap_eq_nil_iff]

/-- An item that does not write may stand anywhere. -/
theorem last_middle_of_none (silent : write item = none) (old : Option V)
    : last write (before ++ item :: after) old = last write (before ++ after) old := by
  rw [last_append, last_append, last_cons, silent, Option.none_or]

/-- A write behind which no other one follows is the last. -/
theorem last_middle {value : V} (writes : write item = some value)
    (silent : ∀ later ∈ after, write later = none) (old : Option V)
    : last write (before ++ item :: after) old = some value := by
  rw [last_append, last_cons, writes, Option.some_or, last_of_none silent]

theorem last_map {B : Type} (f : B → A) (items : List B)
    : last write (items.map f) old = last (fun item => write (f item)) items old := by
  rw [last, filterMap_map]
  rfl

/-- Items that are apart from one that writes do not write. -/
theorem silent_of_apart (apart : ∀ other ∈ items, write other = none ∨ write item = none)
    {value : V} (writes : write item = some value)
    : ∀ other ∈ items, write other = none := by
  intro other member
  rcases apart other member with silent | absent
  · exact silent
  · rw [writes] at absent
    cases absent

/-- An item may pass others, unless both write to the place. -/
theorem last_pass {middle : List A}
    (apart : ∀ other ∈ middle, write other = none ∨ write item = none) (old : Option V)
    : last write (before ++ item :: (middle ++ after)) old
      = last write (before ++ (middle ++ item :: after)) old := by
  cases writes : write item with
  | none =>
      rw [last_middle_of_none writes, last_append, last_append _ before,
        last_middle_of_none writes]
  | some value =>
      have silent := silent_of_apart apart writes
      rw [last_append, last_cons, last_append, last_of_none silent, last_append, last_append,
        last_of_none silent, last_cons]

/-- A value that all items write again is written again by the later ones. -/
theorem last_of_append (fixed : last write (before ++ after) old = old)
    : last write after old = old := by
  rw [last_append] at fixed
  cases written : (after.filterMap write).getLast? with
  | none => rw [last, written, Option.none_or]
  | some value =>
      rw [last, written, Option.some_or] at fixed
      rw [last, written, Option.some_or, fixed]

/-- What is written again stays so without an item that no other one in front of it meets. -/
theorem last_without (apart : ∀ other ∈ before, write other = none ∨ write item = none)
    (fixed : last write (before ++ item :: after) old = old)
    : last write (before ++ after) old = old := by
  cases writes : write item with
  | none => rwa [last_middle_of_none writes] at fixed
  | some value =>
      rw [last_append, last_of_none (silent_of_apart apart writes)]
      rw [append_cons] at fixed
      exact last_of_append fixed

/-- A loop whose rounds write to a place, as long as an invariant holds. -/
theorem last_foldl {step : S → A → S} (view : S → Option V) (holds : S → Prop)
    (keep : ∀ state, ∀ item ∈ items, holds state → holds (step state item))
    (round
      : ∀ state, ∀ item ∈ items, holds state
          → view (step state item) = (write item).or (view state))
    {state : S} (start : holds state)
    : holds (items.foldl step state)
      ∧ view (items.foldl step state) = last write items (view state) := by
  induction items generalizing state with
  | nil => exact ⟨start, rfl⟩
  | cons item rest ih =>
      obtain ⟨kept, viewed⟩ := ih
        (fun state other member => keep state other (mem_cons_of_mem _ member))
        (fun state other member => round state other (mem_cons_of_mem _ member))
        (keep state item mem_cons_self start)
      refine ⟨kept, ?_⟩
      rw [foldl_cons, viewed, round state item mem_cons_self start, last_cons]

end LastWrite
