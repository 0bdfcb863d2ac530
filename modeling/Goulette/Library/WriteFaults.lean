import Goulette.Library.ByteFrames

/-! Sequences of writes of which one may fail: it reaches the file up to some byte, and the writes
behind it are not made.
-/

namespace WriteFaults

open ByteFrames

variable {L E : Type}

/-- Which write of a sequence fails, how many of its bytes it has written by then, and the
error it returns.
-/
structure Fault (E : Type) where
  write : Nat
  bytes : Nat
  error : E
deriving DecidableEq, Repr

/-- The bytes that reach the file, and the label and error of the write that failed. -/
def attempt : List (L × Bytes) → Option (Fault E) → Bytes × Option (L × E)
  | [], _ => ([], none)
  | (_, bytes) :: rest, none => (bytes ++ (attempt rest none).1, none)
  | (label, bytes) :: _, some ⟨0, count, error⟩ => (bytes.take count, some (label, error))
  | (_, bytes) :: rest, some ⟨write + 1, count, error⟩ =>
      let later := attempt rest (some ⟨write, count, error⟩)
      (bytes ++ later.1, later.2)

def whole (writes : List (L × Bytes)) : Bytes := (writes.map Prod.snd).flatten

theorem attempt_none (writes : List (L × Bytes))
    : attempt writes (none : Option (Fault E)) = (whole writes, none) := by
  induction writes with
  | nil => rfl
  | cons first rest ih =>
      rw [attempt, ih]
      rfl

/-- Whatever fails, the file gets a part of the whole from its beginning, and all of it if
nothing fails.
-/
theorem attempt_spec (writes : List (L × Bytes)) (fault : Option (Fault E))
    : (attempt writes fault).1 <+: whole writes
      ∧ ((attempt writes fault).2 = none → (attempt writes fault).1 = whole writes) := by
  induction writes generalizing fault with
  | nil => exact ⟨List.prefix_rfl, fun _ => rfl⟩
  | cons first rest ih =>
      obtain ⟨label, bytes⟩ := first
      rcases fault with _ | ⟨_ | write, count, error⟩
      · rw [attempt_none]
        exact ⟨List.prefix_rfl, fun _ => rfl⟩
      · refine ⟨(List.take_prefix count bytes).trans (List.prefix_append _ _), fun fine => ?_⟩
        cases fine
      · obtain ⟨part, all⟩ := ih (some ⟨write, count, error⟩)
        refine ⟨(List.prefix_append_right_inj bytes).mpr part, fun fine => ?_⟩
        exact congrArg (bytes ++ ·) (all fine)

end WriteFaults
