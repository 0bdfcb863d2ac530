import Mathlib.Tactic.IntervalCases
import Goulette.Library.ByteFrames

/-! Base64 with padding. Decoding skips line breaks and does not look at the unused bits of the last
group.
-/

namespace Base64

open ByteFrames List

def letter (digit : Nat) : UInt8 :=
  if digit < 26 then UInt8.ofNat (65 + digit)
  else if digit < 52 then UInt8.ofNat (71 + digit)
  else if digit < 62 then UInt8.ofNat (digit - 4)
  else if digit = 62 then 43
  else 47

def digit (char : UInt8) : Option Nat :=
  if 65 ≤ char ∧ char ≤ 90 then some (char.toNat - 65)
  else if 97 ≤ char ∧ char ≤ 122 then some (char.toNat - 71)
  else if 48 ≤ char ∧ char ≤ 57 then some (char.toNat + 4)
  else if char = 43 then some 62
  else if char = 47 then some 63
  else none

def padding : UInt8 := 61

def encode : Bytes → Bytes
  | [] => []
  | [a] => [letter (a.toNat / 4), letter (a.toNat % 4 * 16), padding, padding]
  | [a, b] =>
      [letter (a.toNat / 4), letter (a.toNat % 4 * 16 + b.toNat / 16),
        letter (b.toNat % 16 * 4), padding]
  | a :: b :: c :: rest =>
      [letter (a.toNat / 4), letter (a.toNat % 4 * 16 + b.toNat / 16),
        letter (b.toNat % 16 * 4 + c.toNat / 64), letter (c.toNat % 64)]
        ++ encode rest

/-- Groups of four characters; only the last may be padded. -/
def decodeGroups : Bytes → Option Bytes
  | [] => some []
  | w :: x :: y :: z :: rest =>
      match digit w, digit x, digit y, digit z with
      | some first, some second, some third, some fourth =>
          (decodeGroups rest).map
            (fun bytes =>
              UInt8.ofNat (first * 4 + second / 16)
                :: UInt8.ofNat (second % 16 * 16 + third / 4)
                :: UInt8.ofNat (third % 4 * 64 + fourth)
                :: bytes)
      | some first, some second, some third, none =>
          if z = padding ∧ rest = [] then
            some [UInt8.ofNat (first * 4 + second / 16),
              UInt8.ofNat (second % 16 * 16 + third / 4)]
          else none
      | some first, some second, none, none =>
          if y = padding ∧ z = padding ∧ rest = [] then
            some [UInt8.ofNat (first * 4 + second / 16)]
          else none
      | _, _, _, _ => none
  | _ => none

def lineBreak (char : UInt8) : Bool := char == 10 || char == 13

def decode (text : Bytes) : Option Bytes :=
  decodeGroups (text.filter (fun char => !lineBreak char))

theorem digit_letter {value : Nat} (small : value < 64) : digit (letter value) = some value := by
  interval_cases value <;> rfl

theorem lineBreak_letter {value : Nat} (small : value < 64)
    : lineBreak (letter value) = false := by
  interval_cases value <;> rfl

theorem digit_padding : digit padding = none := rfl

theorem byte_of_eq {value : Nat} {byte : UInt8} (same : value = byte.toNat)
    : UInt8.ofNat value = byte := by
  rw [same, UInt8.ofNat_toNat]

/-- Encoding uses no line breaks. -/
theorem lineBreak_encode (bytes : Bytes) : ∀ char ∈ encode bytes, lineBreak char = false := by
  fun_induction encode bytes with
  | case1 => exact fun _ member => absurd member not_mem_nil
  | case2 a =>
      have := a.toNat_lt
      simp only [forall_mem_cons, not_mem_nil, false_implies, implies_true, and_true]
      exact ⟨lineBreak_letter (by omega), lineBreak_letter (by omega), rfl, rfl⟩
  | case3 a b =>
      have := a.toNat_lt
      have := b.toNat_lt
      simp only [forall_mem_cons, not_mem_nil, false_implies, implies_true, and_true]
      exact ⟨lineBreak_letter (by omega), lineBreak_letter (by omega),
        lineBreak_letter (by omega), rfl⟩
  | case4 a b c rest ih =>
      have := a.toNat_lt
      have := b.toNat_lt
      have := c.toNat_lt
      simp only [cons_append, nil_append, forall_mem_cons]
      exact ⟨lineBreak_letter (by omega), lineBreak_letter (by omega),
        lineBreak_letter (by omega), lineBreak_letter (by omega), ih⟩

/-- Decoding inverts encoding group by group. -/
theorem decodeGroups_encode (bytes : Bytes) : decodeGroups (encode bytes) = some bytes := by
  fun_induction encode bytes with
  | case1 => rfl
  | case2 a =>
      have := a.toNat_lt
      rw [decodeGroups, digit_letter (by omega), digit_letter (by omega), digit_padding]
      simp only [and_self, if_true]
      rw [byte_of_eq (by omega : _ = a.toNat)]
  | case3 a b =>
      have := a.toNat_lt
      have := b.toNat_lt
      rw [decodeGroups, digit_letter (by omega), digit_letter (by omega),
        digit_letter (by omega), digit_padding]
      simp only [and_self, if_true]
      rw [byte_of_eq (by omega : _ = a.toNat), byte_of_eq (by omega : _ = b.toNat)]
  | case4 a b c rest ih =>
      have := a.toNat_lt
      have := b.toNat_lt
      have := c.toNat_lt
      simp only [cons_append, nil_append]
      rw [decodeGroups, digit_letter (by omega), digit_letter (by omega),
        digit_letter (by omega), digit_letter (by omega), ih]
      simp only [Option.map_some]
      rw [byte_of_eq (by omega : _ = a.toNat), byte_of_eq (by omega : _ = b.toNat),
        byte_of_eq (by omega : _ = c.toNat)]

theorem decode_encode (bytes : Bytes) : decode (encode bytes) = some bytes := by
  have kept : (encode bytes).filter (fun char => !lineBreak char) = encode bytes :=
    filter_eq_self.mpr (fun char member => by rw [lineBreak_encode bytes char member]; rfl)
  rw [decode, kept, decodeGroups_encode]

end Base64
