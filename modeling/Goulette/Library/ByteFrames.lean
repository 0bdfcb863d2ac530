import Mathlib.Data.List.Infix
import Mathlib.Tactic.Ring

/-! Fixed-width big-endian numbers and streams of framed records. A torn stream is one cut at an
arbitrary byte.
-/

namespace ByteFrames

open List

variable {data : Bytes} {offset length : Nat}

abbrev Bytes := List UInt8

def bigEndian : Nat → Nat → Bytes
  | 0, _ => []
  | width + 1, value => UInt8.ofNat (value / 256 ^ width) :: bigEndian width value

def fromBigEndian (bytes : Bytes) : Nat :=
  bytes.foldl (fun high byte => high * 256 + byte.toNat) 0

@[simp] theorem bigEndian_length (width value : Nat) : (bigEndian width value).length = width := by
  induction width with
  | zero => rfl
  | succ width ih => rw [bigEndian, length_cons, ih]

/-- Reading continues from the bytes read before, by induction on the width. -/
theorem foldl_bigEndian (width value high : Nat)
    : (bigEndian width value).foldl (fun high byte => high * 256 + byte.toNat) high
      = high * 256 ^ width + value % 256 ^ width := by
  induction width generalizing high with
  | zero => simp [bigEndian, Nat.mod_one]
  | succ width ih =>
      have digit : (UInt8.ofNat (value / 256 ^ width)).toNat = value / 256 ^ width % 256 := by
        simp
      rw [bigEndian, foldl_cons, ih, digit, Nat.pow_succ, Nat.mod_mul]
      ring

/-- Writing and reading back keeps the number up to the width. -/
theorem fromBigEndian_bigEndian (width value : Nat)
    : fromBigEndian (bigEndian width value) = value % 256 ^ width := by
  rw [fromBigEndian, foldl_bigEndian]
  simp

theorem fromBigEndian_of_lt {width value : Nat} (fits : value < 256 ^ width)
    : fromBigEndian (bigEndian width value) = value := by
  rw [fromBigEndian_bigEndian, Nat.mod_eq_of_lt fits]

/-- A first byte counts as often as the rest has values. -/
theorem fromBigEndian_cons (byte : UInt8) (rest : Bytes)
    : fromBigEndian (byte :: rest) = byte.toNat * 256 ^ rest.length + fromBigEndian rest := by
  have continued (high : Nat)
      : rest.foldl (fun high byte => high * 256 + byte.toNat) high
        = high * 256 ^ rest.length + fromBigEndian rest := by
    induction rest generalizing high with
    | nil => simp [fromBigEndian]
    | cons next rest ih =>
        rw [fromBigEndian, foldl_cons, foldl_cons, ih, ih, length_cons]
        ring
  rw [fromBigEndian, foldl_cons, continued]
  simp

theorem fromBigEndian_lt (bytes : Bytes) : fromBigEndian bytes < 256 ^ bytes.length := by
  induction bytes with
  | nil => simp [fromBigEndian]
  | cons byte rest ih =>
      have digit := byte.toNat_lt
      rw [fromBigEndian_cons, length_cons, Nat.pow_succ']
      calc byte.toNat * 256 ^ rest.length + fromBigEndian rest
          < byte.toNat * 256 ^ rest.length + 256 ^ rest.length := by omega
        _ = (byte.toNat + 1) * 256 ^ rest.length := by ring
        _ ≤ 256 * 256 ^ rest.length := Nat.mul_le_mul_right _ (by omega)

/-- Only the low bytes of a number are written. -/
theorem bigEndian_add_mul (width value high : Nat)
    : bigEndian width (high * 256 ^ width + value) = bigEndian width value := by
  induction width generalizing high with
  | zero => rfl
  | succ width ih =>
      have split : high * 256 ^ (width + 1) + value = high * 256 * 256 ^ width + value := by ring
      have digit
          : (high * 256 * 256 ^ width + value) / 256 ^ width
            = value / 256 ^ width + 256 * high := by
        rw [Nat.add_comm, Nat.add_mul_div_right _ _ (Nat.pow_pos (by decide)), Nat.mul_comm high]
      rw [split, bigEndian, bigEndian, ih, digit]
      congr 1
      apply UInt8.toNat_inj.mp
      simp

/-- Reading and writing again keeps the bytes. -/
theorem bigEndian_fromBigEndian (bytes : Bytes)
    : bigEndian bytes.length (fromBigEndian bytes) = bytes := by
  induction bytes with
  | nil => rfl
  | cons byte rest ih =>
      have low := fromBigEndian_lt rest
      have digit
          : (byte.toNat * 256 ^ rest.length + fromBigEndian rest) / 256 ^ rest.length
            = byte.toNat := by
        rw [Nat.add_comm, Nat.add_mul_div_right _ _ (Nat.pow_pos (by decide)),
          Nat.div_eq_of_lt low, Nat.zero_add]
      rw [fromBigEndian_cons, length_cons, bigEndian, bigEndian_add_mul, ih, digit,
        UInt8.ofNat_toNat]

theorem bigEndian_of_length {bytes : Bytes} {width : Nat} (sized : bytes.length = width)
    : bigEndian width (fromBigEndian bytes) = bytes := by
  rw [← sized, bigEndian_fromBigEndian]

def slice (bytes : Bytes) (offset length : Nat) : Bytes := (bytes.drop offset).take length

/-- The slice at the start of a byte string. -/
theorem slice_head (part after : Bytes) (size : part.length = length)
    : slice (part ++ after) 0 length = part := by
  rw [slice, drop_zero, ← size, take_left]

/-- A slice behind a part is a slice of what follows the part. -/
theorem slice_behind (before rest : Bytes) (start : Nat) (behind : offset = before.length + start)
    : slice (before ++ rest) offset length = slice rest start length := by
  rw [slice, slice, behind, ← drop_drop, drop_left]

/-- A slice and what follows it. -/
theorem slice_append_drop
    : data.drop offset = slice data offset length ++ data.drop (offset + length) := by
  rw [slice, ← drop_drop, take_append_drop]

theorem slice_length (inside : offset + length ≤ data.length)
    : (slice data offset length).length = length := by
  rw [slice, length_take, length_drop]
  omega

section Frames

variable {R : Type} (frame : R → Bytes)

def stream (records : List R) : Bytes := records.flatMap frame

@[simp] theorem stream_nil : stream frame [] = [] := rfl

@[simp] theorem stream_cons (record : R) (records : List R)
    : stream frame (record :: records) = frame record ++ stream frame records := rfl

theorem stream_append (records more : List R)
    : stream frame (records ++ more) = stream frame records ++ stream frame more :=
  flatMap_append

/-- What is left of a record at the end of a torn stream behind `k` whole records: nothing,
or a proper part of the next frame.
-/
def Torn (records : List R) (k : Nat) (tail : Bytes) : Prop :=
  tail = []
  ∨ ∃ record,
      records[k]? = some record ∧ tail <+: frame record ∧ tail ≠ [] ∧ tail ≠ frame record

/-- A torn stream is a stream of whole records followed by a proper part of the next frame.
Witness: induction on the records, cutting inside the first frame or behind it.
-/
theorem take_stream (records : List R) (n : Nat)
    : ∃ k tail,
        (stream frame records).take n = stream frame (records.take k) ++ tail
        ∧ k ≤ records.length
        ∧ Torn frame records k tail := by
  induction records generalizing n with
  | nil => exact ⟨0, [], by simp, le_rfl, Or.inl rfl⟩
  | cons record rest ih =>
      rcases Nat.lt_or_ge n (frame record).length with inside | behind
      · refine ⟨0, (frame record).take n, ?_, Nat.zero_le _, ?_⟩
        · rw [stream_cons, take_append_of_le_length inside.le]
          rfl
        · rcases Nat.eq_zero_or_pos n with rfl | positive
          · exact Or.inl rfl
          · refine Or.inr ⟨record, rfl, take_prefix _ _, ?_, ?_⟩
            · intro empty
              have length := congrArg List.length empty
              simp only [length_take, length_nil] at length
              omega
            · intro whole
              have length := congrArg List.length whole
              simp only [length_take] at length
              omega
      · obtain ⟨k, tail, cut, bound, torn⟩ := ih (n - (frame record).length)
        refine ⟨k + 1, tail, ?_, Nat.succ_le_succ bound, torn⟩
        rw [stream_cons, take_append, take_of_length_le behind, cut]
        simp [append_assoc]

variable {frame} {records : List R} {i k : Nat}

/-- Streams of initial records grow strictly when no frame is empty. -/
theorem stream_take_length_lt (nonempty : ∀ record, frame record ≠ []) {j : Nat} (lt : i < j)
    (bound : j ≤ records.length)
    : (stream frame (records.take i)).length < (stream frame (records.take j)).length := by
  have split : records.take j = records.take i ++ (records.drop i).take (j - i) := by
    rw [← take_add]
    congr 1
    omega
  rw [split, stream_append, length_append, drop_eq_getElem_cons (by omega),
    show j - i = (j - i - 1) + 1 by omega, take_succ_cons, stream_cons, length_append]
  have := length_pos_of_ne_nil (nonempty records[i])
  omega

theorem stream_take_length_le (nonempty : ∀ record, frame record ≠ []) {j : Nat} (le : i ≤ j)
    (bound : j ≤ records.length)
    : (stream frame (records.take i)).length ≤ (stream frame (records.take j)).length := by
  rcases Nat.lt_or_eq_of_le le with lt | rfl
  · exact (stream_take_length_lt nonempty lt bound).le
  · exact le_rfl

variable {tail : Bytes}

/-- The end of a torn stream lies before the end of the record it cuts. -/
theorem Torn.length_lt (torn : Torn frame records k tail) (some : tail ≠ [])
    : k < records.length
      ∧ (stream frame (records.take k)).length + tail.length
        < (stream frame (records.take (k + 1))).length := by
  obtain ⟨record, found, part, _, proper⟩ := torn.resolve_left some
  obtain ⟨inside, _⟩ := List.getElem?_eq_some_iff.mp found
  have lt : tail.length < (frame record).length :=
    lt_of_le_of_ne part.length_le (fun same => proper (part.eq_of_length same))
  refine ⟨inside, ?_⟩
  rw [take_add_one, found, stream_append, length_append]
  simpa [stream] using lt

variable (nonempty : ∀ record, frame record ≠ []) (torn : Torn frame records k tail)
  (bound : k ≤ records.length)
include nonempty torn bound

/-- The whole records of a torn stream are those that end inside it. -/
theorem Torn.lt_iff (inside : i < records.length)
    : i < k
      ↔ (stream frame (records.take (i + 1))).length
        ≤ (stream frame (records.take k)).length + tail.length := by
  constructor
  · intro lt
    exact (stream_take_length_le nonempty lt bound).trans (Nat.le_add_right _ _)
  · intro ends
    by_contra beyond
    by_cases empty : tail = []
    · have := stream_take_length_lt nonempty (by omega : k < i + 1) inside
      simp only [empty, length_nil] at ends
      omega
    · have := (torn.length_lt empty).2
      have := stream_take_length_le nonempty (by omega : k + 1 ≤ i + 1) inside
      omega

/-- A torn stream ends on a record boundary exactly if nothing of a record is left. -/
theorem Torn.boundary_iff
    : tail = []
      ↔ ∃ j ≤ records.length,
          (stream frame (records.take k)).length + tail.length
            = (stream frame (records.take j)).length := by
  constructor
  · rintro rfl
    exact ⟨k, bound, rfl⟩
  · rintro ⟨j, jBound, ends⟩
    by_contra some
    obtain ⟨inside, lt⟩ := torn.length_lt some
    have positive := length_pos_of_ne_nil some
    rcases Nat.lt_or_ge k j with later | earlier
    · have := stream_take_length_le nonempty (by omega : k + 1 ≤ j) jBound
      omega
    · have := stream_take_length_le nonempty earlier bound
      omega

end Frames

end ByteFrames
