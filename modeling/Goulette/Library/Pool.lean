import Mathlib.Data.List.Basic
import Mathlib.Data.List.Perm.Basic

/-! Pools of running calls, in the order they began, each with the phase it is in. -/

namespace Pool

open List

variable {A B : Type} {calls : List A} {call next : A} {i : Nat}

section

variable (found : calls[i]? = some call)
include found

/-- Replacing a call leaves those before it and those behind it alone. -/
theorem exists_split
    : ∃ before after,
        before.length = i
        ∧ calls = before ++ call :: after
        ∧ ∀ next, calls.set i next = before ++ next :: after := by
  obtain ⟨inside, rfl⟩ := List.getElem?_eq_some_iff.mp found
  refine ⟨calls.take i, calls.drop (i + 1), ?_, ?_, ?_⟩
  · rw [length_take]
    omega
  · rw [← drop_eq_getElem_cons inside, take_append_drop]
  · intro next
    rw [set_eq_take_append_cons_drop, if_pos inside]

/-- Up to the order, the other calls stand beside a call and beside its replacement. -/
theorem exists_others
    : ∃ others, calls.Perm (call :: others) ∧ ∀ next, (calls.set i next).Perm (next :: others) := by
  obtain ⟨before, after, _, rfl, replaced⟩ := exists_split found
  refine ⟨before ++ after, perm_middle, fun next => ?_⟩
  rw [replaced]
  exact perm_middle

/-- After a replacement there are the new call and old ones. -/
theorem mem_set {other : A} (member : other ∈ calls.set i next)
    : other = next ∨ other ∈ calls := by
  obtain ⟨before, after, _, rfl, replaced⟩ := exists_split found
  rw [replaced] at member
  rcases mem_append.mp member with front | rest
  · exact Or.inr (mem_append_left _ front)
  · rcases mem_cons.mp rest with same | back
    · exact Or.inl same
    · exact Or.inr (mem_append_right _ (mem_cons_of_mem _ back))

/-- A replacement moves one call in or out of a count. -/
theorem countP_set (property : A → Bool) (next : A)
    : (calls.set i next).countP property + (property call).toNat
      = calls.countP property + (property next).toNat := by
  obtain ⟨others, before, after⟩ := exists_others found
  rw [before.countP_eq, (after next).countP_eq, countP_cons, countP_cons]
  cases property call <;> cases property next <;> simp

/-- A result that a call gets joins the results of the others. -/
theorem filterMap_set_some {result : A → Option B} {value : B} (none : result call = none)
    (some : result next = some value)
    : ((calls.set i next).filterMap result).Perm (value :: calls.filterMap result) := by
  obtain ⟨before, after, _, rfl, replaced⟩ := exists_split found
  rw [replaced, filterMap_append, filterMap_append,
    filterMap_cons_some some, filterMap_cons_none none]
  exact perm_middle

/-- A step without a new result keeps the results. -/
theorem filterMap_set_same {result : A → Option B} (same : result next = result call)
    : (calls.set i next).filterMap result = calls.filterMap result := by
  obtain ⟨before, after, _, rfl, replaced⟩ := exists_split found
  rw [replaced, filterMap_append, filterMap_append]
  cases value : result call with
  | none => rw [filterMap_cons_none value, filterMap_cons_none (same.trans value)]
  | some value' =>
      rw [filterMap_cons_some value, filterMap_cons_some (same.trans value)]

end

def Exclusive (holds : A → Bool) (calls : List A) : Prop := calls.countP holds ≤ 1

variable {holds : A → Bool}

theorem Exclusive.start (h : Exclusive holds calls) (free : holds call = false)
    : Exclusive holds (calls ++ [call]) := by
  rw [Exclusive, countP_append, countP_singleton, free]
  exact h

/-- A call takes the lock only when nobody holds it. -/
theorem Exclusive.set (h : Exclusive holds calls) (found : calls[i]? = some call)
    (enters : holds next = true → holds call = true ∨ calls.any holds = false)
    : Exclusive holds (calls.set i next) := by
  obtain ⟨others, before, after⟩ := exists_others found
  rw [Exclusive, before.countP_eq, countP_cons] at h
  rw [Exclusive, (after next).countP_eq, countP_cons]
  cases taken : holds next with
  | false =>
      rw [if_neg Bool.false_ne_true]
      omega
  | true =>
      rcases enters taken with held | free
      · rwa [held] at h
      · have nobody : others.countP holds = 0 := by
          rw [countP_eq_zero]
          intro other member
          exact any_eq_false.mp free other (before.mem_iff.mpr (mem_cons_of_mem _ member))
        rw [nobody]
        decide

/-- While a call holds the lock the others do not. -/
theorem Exclusive.others (h : Exclusive holds calls) (found : calls[i]? = some call)
    (held : holds call = true) {other : A} (member : other ∈ calls.set i next)
    : other = next ∨ holds other = false := by
  obtain ⟨others, before, after⟩ := exists_others found
  rw [Exclusive, before.countP_eq, countP_cons, if_pos held] at h
  have nobody : others.countP holds = 0 := by omega
  rcases mem_cons.mp ((after next).mem_iff.mp member) with same | old
  · exact Or.inl same
  · exact Or.inr (Bool.eq_false_iff.mpr (countP_eq_zero.mp nobody other old))

end Pool
