import Mathlib.Algebra.Group.Nat.Defs
import Mathlib.Data.List.Basic

/-! Go's `uint64` arithmetic and slice expressions with their faults. A subtraction below zero is no
panic, but no index computed from it is meant, so it counts as a fault. An `int` wraps around.
-/

namespace Goulette.Go

inductive Fault
  | index
  | bounds
  | wrap
deriving DecidableEq, Repr

variable {A : Type} {a b : Nat} {items : List A}

def addWord (a b : Nat) : Nat := (a + b) % 2 ^ 64

def subWord (a b : Nat) : Except Fault Nat :=
  if b ≤ a then .ok (a - b) else .error .wrap

/-- `uint64(len(items))`. -/
def lenWord (items : List A) : Nat := items.length % 2 ^ 64

/-- `items[i]`. -/
def index (items : List A) (i : Nat) : Except Fault A :=
  match items[i]? with
  | some item => .ok item
  | none => .error .index

/-- `items[low:]`. -/
def sliceFrom (items : List A) (low : Nat) : Except Fault (List A) :=
  if low ≤ items.length then .ok (items.drop low) else .error .bounds

/-- `items[:high]`. -/
def sliceTo (items : List A) (high : Nat) : Except Fault (List A) :=
  if high ≤ items.length then .ok (items.take high) else .error .bounds

/-- `make` of a slice, by the size of an element in bytes: a negative capacity panics, and so does
one beyond the 48 bits of the address space.
-/
def makes (size : Nat) (capacity : Int) : Bool :=
  0 ≤ capacity ∧ size * capacity.toNat ≤ 2 ^ 48

theorem makes_natCast (size capacity : Nat)
    : makes size capacity = true ↔ size * capacity ≤ 2 ^ 48 := by
  simp [makes]

theorem ok_bind {B : Type} (value : A) (next : A → Except Fault B)
    : (Except.ok value >>= next) = next value :=
  rfl

theorem addWord_eq (small : a + b < 2 ^ 64) : addWord a b = a + b :=
  Nat.mod_eq_of_lt small

theorem subWord_eq (below : b ≤ a) : subWord a b = .ok (a - b) := by
  simp [subWord, below]

theorem lenWord_eq (small : items.length < 2 ^ 64)
    : lenWord items = items.length :=
  Nat.mod_eq_of_lt small

theorem index_eq {i : Nat} {item : A} (found : items[i]? = some item)
    : index items i = .ok item := by
  simp [index, found]

theorem sliceFrom_eq {low : Nat} (inside : low ≤ items.length)
    : sliceFrom items low = .ok (items.drop low) := by
  simp [sliceFrom, inside]

theorem sliceTo_eq {high : Nat} (inside : high ≤ items.length)
    : sliceTo items high = .ok (items.take high) := by
  simp [sliceTo, inside]

/-- A slice: its length is an `int`. -/
structure Slice (A : Type) where
  items : List A
  small : items.length < 2 ^ 63

def addInt (a b : Int) : Int := (a + b).bmod (2 ^ 64)

/-- `len(items)`. -/
def lenInt (items : List A) : Int := items.length

/-- `items[i]`. -/
def indexInt (items : List A) (i : Int) : Except Fault A :=
  if 0 ≤ i then index items i.toNat else .error .index

/-- `items[low:high]`. -/
def sliceInt (items : List A) (low high : Int) : Except Fault (List A) :=
  if 0 ≤ low ∧ low ≤ high ∧ high ≤ items.length then
    .ok ((items.drop low.toNat).take (high - low).toNat)
  else .error .bounds

theorem addInt_eq (small : a + b < 2 ^ 63) : addInt a b = (a + b : Nat) := by
  rw [addInt, ← Int.natCast_add]
  exact Int.bmod_eq_of_le (by omega) (by omega)

theorem sliceInt_eq {low high : Nat} (ordered : low ≤ high) (inside : high ≤ items.length)
    : sliceInt items low high = .ok ((items.drop low).take (high - low)) := by
  have range : (0 : Int) ≤ low ∧ (low : Int) ≤ high ∧ (high : Int) ≤ items.length := by omega
  have count : ((high : Int) - low).toNat = high - low := by omega
  rw [sliceInt, if_pos range, count, Int.toNat_natCast]

end Goulette.Go
