import Mathlib.Data.List.Basic

/-! Readers that address a log of segments by offset. A reader misses items when a segment that it
has passed is dropped.
-/

namespace OffsetReader

open List

variable {E S : Type}

structure Reader (E : Type) where
  offset : Nat
  received : List E

def Reader.read (reader : Reader E) (log : List E) (count : Nat) : Reader E where
  offset := reader.offset + ((log.drop reader.offset).take count).length
  received := reader.received ++ (log.drop reader.offset).take count

/-- A reader that has received exactly the items in front of its offset. -/
structure InStep (log : List E) (reader : Reader E) : Prop where
  offset : reader.offset ≤ log.length
  received : reader.received = log.take reader.offset

namespace InStep

variable {log next : List E} {reader : Reader E}

theorem start (log : List E) : InStep log { offset := 0, received := [] } :=
  ⟨Nat.zero_le _, rfl⟩

theorem append (h : InStep log reader) (more : List E) : InStep (log ++ more) reader where
  offset := by
    rw [length_append]
    exact Nat.le_add_right_of_le h.offset
  received := by
    rw [take_append_of_le_length h.offset]
    exact h.received

theorem read (h : InStep log reader) (count : Nat) : InStep log (reader.read log count) where
  offset := by
    have before := h.offset
    simp only [Reader.read, length_take, length_drop]
    omega
  received := by
    have before := h.offset
    have batch
        : (log.drop reader.offset).take ((log.drop reader.offset).take count).length
          = (log.drop reader.offset).take count := by
      rw [length_take, ← take_eq_take_min]
    simp only [Reader.read]
    rw [take_add, batch, h.received]

/-- Dropping items is harmless as long as the items in front of the offset stay. -/
theorem drop (h : InStep log reader) (kept : next.take reader.offset = log.take reader.offset)
    : InStep next reader where
  offset := by
    have length := congrArg List.length kept
    have before := h.offset
    rw [length_take, length_take] at length
    omega
  received := by rw [kept, h.received]

/-- What comes before a received item of a sorted log has been received too. -/
theorem complete {before : E → E → Prop} (asymmetric : ∀ a b, before a b → ¬before b a)
    (sorted : log.Pairwise before) (h : InStep log reader) {item later : E}
    (got : later ∈ reader.received) (earlier : before item later) (logged : item ∈ log)
    : item ∈ reader.received := by
  have split := take_append_drop reader.offset log
  rw [← split, pairwise_append] at sorted
  rw [h.received] at got ⊢
  rw [← split] at logged
  rcases mem_append.mp logged with passed | ahead
  · exact passed
  · exact absurd earlier (asymmetric _ _ (sorted.2.2 later got item ahead))

end InStep

/-- No segment that goes holds an item in front of an offset. -/
def PassedKept (gone : S → Bool) (size : S → Nat) : Nat → List S → Prop
  | _, [] => True
  | offset, segment :: rest =>
      (gone segment → size segment = 0 ∨ offset = 0)
      ∧ PassedKept gone size (offset - size segment) rest

instance PassedKept.decidable (gone : S → Bool) (size : S → Nat)
    : ∀ offset segments, Decidable (PassedKept gone size offset segments)
  | _, [] => .isTrue trivial
  | offset, segment :: rest =>
      have := PassedKept.decidable gone size (offset - size segment) rest
      inferInstanceAs (Decidable (_ ∧ _))

/-- Where no passed segment goes, the items in front of the offset stay, by induction on the
segments.
-/
theorem PassedKept.take {gone : S → Bool} {items : S → List E} {offset : Nat}
    {segments : List S}
    (h : PassedKept gone (fun segment => (items segment).length) offset segments)
    : ((segments.filter (fun segment => !gone segment)).flatMap items).take offset
      = (segments.flatMap items).take offset := by
  induction segments generalizing offset with
  | nil => rfl
  | cons segment rest ih =>
      obtain ⟨now, later⟩ := h
      rw [flatMap_cons, take_append, ← ih later]
      cases goes : gone segment with
      | false =>
          rw [filter_cons_of_pos (by simp [goes]), flatMap_cons, take_append]
      | true =>
          rw [filter_cons_of_neg (by simp [goes])]
          rcases now goes with empty | zero
          · have none : items segment = [] := length_eq_zero_iff.mp empty
            simp [none]
          · simp [zero]

/-- An item is in a segment that stays or in one that goes. -/
theorem mem_filter_or_filter {items : S → List E} {segments : List S} (gone : S → Bool) {item : E}
    (member : item ∈ segments.flatMap items)
    : item ∈ (segments.filter (fun segment => !gone segment)).flatMap items
      ∨ item ∈ (segments.filter (fun segment => gone segment)).flatMap items := by
  obtain ⟨segment, here, inside⟩ := mem_flatMap.mp member
  cases goes : gone segment with
  | false =>
      have stays : segment ∈ segments.filter (fun segment => !gone segment) :=
        mem_filter.mpr ⟨here, by simp [goes]⟩
      exact Or.inl (mem_flatMap.mpr ⟨segment, stays, inside⟩)
  | true =>
      have leaves : segment ∈ segments.filter (fun segment => gone segment) :=
        mem_filter.mpr ⟨here, goes⟩
      exact Or.inr (mem_flatMap.mpr ⟨segment, leaves, inside⟩)

end OffsetReader
