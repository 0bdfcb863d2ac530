import Goulette.Go.Checked
import Goulette.Storage.Wal

/-! The parser of log entries, in `internal/storage/wal.go`, on bytes of any origin. -/

namespace Goulette.Storage

open Goulette.Go ByteFrames List

variable {length : Nat} {data : Bytes} {entry : WALEntry}

namespace Checked

/-- `binary.BigEndian.Uint32` and `Uint64`, which look at the last byte they need first. -/
def uintBE (width : Nat) (bytes : Bytes) : Except Fault Nat :=
  if width ≤ bytes.length then .ok (fromBigEndian (bytes.take width)) else .error .index

variable {R : Type}

def uintField (data : Bytes) (offset : Int) (width : Nat) (message : GoError)
    (next : Nat → Int → Except Fault (Except GoError R))
    : Except Fault (Except GoError R) :=
  if addInt offset width > lenInt data then .ok (.error message)
  else do
    let value ← uintBE width (← sliceInt data offset (lenInt data))
    next value (addInt offset width)

/-- As many bytes as a length field says at the offset, or the error if the data end before. -/
def bytesField (data : Bytes) (offset : Int) (length : Nat) (message : GoError)
    (next : Bytes → Int → Except Fault (Except GoError R))
    : Except Fault (Except GoError R) :=
  if addInt offset length > lenInt data then .ok (.error message)
  else do
    let bytes ← sliceInt data offset (addInt offset length)
    next bytes (addInt offset length)

def parseEntry (data : Bytes) : Except Fault (Except GoError WALEntry) :=
  if lenInt data < 1 then .ok (.error (lit "条目数据太短"))
  else do
    let entryType ← indexInt data 0
    uintField data (addInt 0 1) 4 (lit "数据不足，无法读取Topic长度") fun topicLen offset =>
    bytesField data offset topicLen (lit "数据不足，无法读取Topic") fun topic offset =>
    uintField data offset 8 (lit "数据不足，无法读取消息ID") fun messageID offset =>
    uintField data offset 4 (lit "数据不足，无法读取负载长度") fun payloadLen offset =>
    bytesField data offset payloadLen (lit "数据不足，无法读取负载") fun payload offset =>
    uintField data offset 8 (lit "数据不足，无法读取时间戳") fun timestamp _ =>
    .ok (.ok {
      type := entryType
      topic
      messageID := UInt64.ofNat messageID
      payload
      timestamp := (UInt64.ofNat timestamp).toInt64 })

section

variable {data : Bytes} {offset : Nat} {message : GoError}

/-- A sum of offsets that does not wrap around is compared as it is. -/
theorem addInt_gt_iff (small : offset + length < 2 ^ 63)
    : addInt offset length > lenInt data ↔ offset + length > data.length := by
  rw [addInt_eq small, lenInt]
  omega

/-- The check in front of a number is what its access needs. -/
theorem uintField_eq {width : Nat} (small : offset + width < 2 ^ 63)
    (next : Nat → Int → Except Fault (Except GoError R))
    : uintField data offset width message next
      = if offset + width > data.length then .ok (.error message)
        else next (fromBigEndian (slice data offset width)) (offset + width : Nat) := by
  unfold uintField
  refine ite_congr (propext (addInt_gt_iff small)) (fun _ => rfl) (fun inside => ?_)
  have behind : sliceInt data offset (lenInt data) = .ok (data.drop offset) := by
    rw [lenInt, sliceInt_eq (by omega) le_rfl, take_of_length_le (by simp)]
  rw [behind, ok_bind, uintBE, if_pos (by rw [length_drop]; omega), ok_bind, addInt_eq small,
    slice]

/-- The check in front of a topic or payload is what its access needs. -/
theorem bytesField_eq (small : offset + length < 2 ^ 63)
    (next : Bytes → Int → Except Fault (Except GoError R))
    : bytesField data offset length message next
      = if offset + length > data.length then .ok (.error message)
        else next (slice data offset length) (offset + length : Nat) := by
  unfold bytesField
  refine ite_congr (propext (addInt_gt_iff small)) (fun _ => rfl) (fun inside => ?_)
  rw [addInt_eq small, sliceInt_eq (by omega) (by omega), ok_bind, Nat.add_sub_cancel_left, slice]

end

/-- No access of the parser is out of range, and no offset wraps around, since the length fields
have 32 bits.
-/
theorem parseEntry_eq (data : Slice UInt8)
    : parseEntry data.items = .ok (Storage.parseEntry data.items) := by
  obtain ⟨data, small⟩ := data
  have field (offset : Nat) : fromBigEndian (slice data offset 4) < 2 ^ 32 := by
    refine lt_of_lt_of_le (fromBigEndian_lt _) ?_
    exact Nat.pow_le_pow_right (by decide : 0 < 256) (length_take_le _ _)
  have start : addInt 0 1 = ((1 : Nat) : Int) := by decide
  unfold parseEntry Storage.parseEntry
  dsimp only
  rw [apply_ite Except.ok]
  refine ite_congr (propext ?_) (fun _ => rfl) (fun some => ?_)
  · rw [lenInt]
    omega
  have head : indexInt data 0 = .ok (data.headD 0) := by
    cases data with
    | nil => exact absurd Nat.zero_lt_one some
    | cons first rest => rfl
  have topicLen := field 1
  rw [head, ok_bind, start, uintField_eq (by omega), apply_ite Except.ok]
  refine ite_congr rfl (fun _ => rfl) (fun _ => ?_)
  rw [bytesField_eq (by omega), apply_ite Except.ok]
  refine ite_congr rfl (fun _ => rfl) (fun _ => ?_)
  rw [uintField_eq (by omega), apply_ite Except.ok]
  refine ite_congr rfl (fun _ => rfl) (fun _ => ?_)
  have payloadLen := field (1 + 4 + fromBigEndian (slice data 1 4) + 8)
  rw [uintField_eq (by omega), apply_ite Except.ok]
  refine ite_congr rfl (fun _ => rfl) (fun _ => ?_)
  rw [bytesField_eq (by omega), apply_ite Except.ok]
  refine ite_congr rfl (fun _ => rfl) (fun _ => ?_)
  rw [uintField_eq (by omega), apply_ite Except.ok]

end Checked

/-- An entry that is found has its seven fields in front of the rest. -/
theorem parseEntry_cases (parsed : parseEntry data = .ok entry)
    : ∃ (type : UInt8) (topicLen topic messageID payloadLen payload timestamp rest : Bytes),
        data = [type] ++ (topicLen ++ (topic ++ (messageID ++ (payloadLen ++ (payload
          ++ (timestamp ++ rest))))))
        ∧ topicLen.length = 4
        ∧ topic.length = fromBigEndian topicLen
        ∧ messageID.length = 8
        ∧ payloadLen.length = 4
        ∧ payload.length = fromBigEndian payloadLen
        ∧ timestamp.length = 8
        ∧ entry = {
            type
            topic
            messageID := UInt64.ofNat (fromBigEndian messageID)
            payload
            timestamp := (UInt64.ofNat (fromBigEndian timestamp)).toInt64 } := by
  unfold parseEntry at parsed
  dsimp only at parsed
  split at parsed
  · cases parsed
  next some =>
  split at parsed
  · cases parsed
  split at parsed
  · cases parsed
  split at parsed
  · cases parsed
  split at parsed
  · cases parsed
  split at parsed
  · cases parsed
  split at parsed
  · cases parsed
  next inside =>
  generalize counted : fromBigEndian (slice data 1 4) = topicLen at *
  generalize sized : fromBigEndian (slice data (5 + topicLen + 8) 4) = payloadLen at *
  obtain ⟨type, tail, whole⟩ := exists_cons_of_length_pos (Nat.not_lt.mp some)
  have behind : data = [type] ++ data.drop 1 := by
    rw [whole]
    rfl
  refine ⟨type, slice data 1 4, slice data 5 topicLen, slice data (5 + topicLen) 8,
    slice data (5 + topicLen + 8) 4, slice data (5 + topicLen + 12) payloadLen,
    slice data (5 + topicLen + 12 + payloadLen) 8,
    data.drop (5 + topicLen + 12 + payloadLen + 8),
    ?_, slice_length (by omega), ?_, slice_length (by omega), slice_length (by omega), ?_,
    slice_length (by omega), ?_⟩
  · -- Each field joins what lies behind it, the last one first.
    rw [← slice_append_drop, ← slice_append_drop, ← @slice_append_drop data (5 + topicLen + 8) 4,
      ← @slice_append_drop data (5 + topicLen) 8, ← slice_append_drop,
      ← @slice_append_drop data 1 4, ← behind]
  · rw [counted, slice_length (by omega)]
  · rw [sized, slice_length (by omega)]
  · cases parsed
    rw [whole]
    rfl

theorem bigEndian_ofNat {bytes : Bytes} (sized : bytes.length = 8)
    : bigEndian 8 (UInt64.ofNat (fromBigEndian bytes)).toNat = bytes := by
  have small := fromBigEndian_lt bytes
  rw [sized] at small
  rw [UInt64.toNat_ofNat', Nat.mod_eq_of_lt (by omega), bigEndian_of_length sized]

/-- An entry that is returned fits its length fields, and the data starts with its bytes. -/
theorem parseEntry_sound (parsed : parseEntry data = .ok entry)
    : entry.Fits ∧ entry.body <+: data := by
  obtain ⟨type, topicLen, topic, messageID, payloadLen, payload, timestamp, rest, whole,
    topicLenSize, topicSize, messageIDSize, payloadLenSize, payloadSize, timestampSize, rfl⟩ :=
    parseEntry_cases parsed
  have topicSmall := fromBigEndian_lt topicLen
  have payloadSmall := fromBigEndian_lt payloadLen
  rw [topicLenSize] at topicSmall
  rw [payloadLenSize] at payloadSmall
  refine ⟨⟨?_, ?_⟩, rest, ?_⟩
  · change topic.length < 2 ^ 32
    omega
  · change payload.length < 2 ^ 32
    omega
  · rw [whole]
    simp only [WALEntry.body, topicSize, payloadSize, UInt64.toUInt64_toInt64,
      bigEndian_of_length topicLenSize, bigEndian_of_length payloadLenSize,
      bigEndian_ofNat messageIDSize, bigEndian_ofNat timestampSize, append_assoc]

theorem parseEntry_complete (fits : entry.Fits) (begins : entry.body <+: data)
    : parseEntry data = .ok entry := by
  obtain ⟨rest, rfl⟩ := begins
  exact parseEntry_body fits rest

/-- Over every byte string the parser stays within the data. It returns an entry exactly if the
entry fits its length fields and the data start with its body as `Write` emits it. No two such
entries exist, and without one the result is an error. In data shorter than `2 ^ 32` bytes,
which is all that a replayed record can have, every entry whose body is there fits.
-/
theorem parseEntry_exact (data : Slice UInt8)
    : Checked.parseEntry data.items = .ok (parseEntry data.items)
      ∧ (∀ entry, parseEntry data.items = .ok entry ↔ entry.Fits ∧ entry.body <+: data.items)
      ∧ (∀ entry other : WALEntry, entry.Fits ∧ entry.body <+: data.items
          → other.Fits ∧ other.body <+: data.items → entry = other)
      ∧ ((¬∃ entry : WALEntry, entry.Fits ∧ entry.body <+: data.items)
          → ∃ failure, parseEntry data.items = .error failure)
      ∧ (data.items.length < 2 ^ 32
          → ∀ entry : WALEntry, entry.body <+: data.items → entry.Fits) := by
  have accepted (entry : WALEntry)
      : parseEntry data.items = .ok entry ↔ entry.Fits ∧ entry.body <+: data.items :=
    ⟨parseEntry_sound, fun ⟨fits, begins⟩ => parseEntry_complete fits begins⟩
  refine ⟨Checked.parseEntry_eq data, accepted, ?_, ?_, ?_⟩
  · intro entry other isEntry isOther
    have same := ((accepted entry).mpr isEntry).symm.trans ((accepted other).mpr isOther)
    exact Except.ok.inj same
  · intro refused
    cases result : parseEntry data.items with
    | error failure => exact ⟨failure, rfl⟩
    | ok entry => exact absurd ⟨entry, (accepted entry).mp result⟩ refused
  · intro small entry begins
    have within := begins.length_le
    rw [WALEntry.body_length] at within
    exact entry.fits_of_entrySize (by omega)

def zeroEntry (length : Nat) : WALEntry where
  type := 0
  topic := List.replicate length 0
  messageID := 0
  payload := []
  timestamp := 0

/-- A topic whose length field wraps around to zero is not seen, and its zeros are read as the
fields behind it.
-/
theorem zeroEntry_begins {high : Nat} (wraps : length = high * 256 ^ 4) (fields : 20 ≤ length)
    : (zeroEntry 0).body <+: (zeroEntry length).body := by
  have lengthField : bigEndian 4 length = bigEndian 4 0 := by
    rw [wraps, ← bigEndian_add_mul 4 0 high, Nat.add_zero]
  have zeros : List.replicate length (0 : UInt8)
      = List.replicate 20 0 ++ List.replicate (length - 20) 0 := by
    rw [replicate_append_replicate, Nat.add_sub_cancel' fields]
  have short : (zeroEntry 0).body = [0] ++ (bigEndian 4 0 ++ List.replicate 20 0) := by decide
  have long : (zeroEntry length).body
      = [0] ++ (bigEndian 4 0 ++ List.replicate 20 0) ++ (List.replicate (length - 20) 0
        ++ (bigEndian 8 0 ++ (bigEndian 4 0 ++ bigEndian 8 0))) := by
    rw [WALEntry.body, zeroEntry, length_replicate, lengthField, zeros]
    simp only [append_assoc]
    rfl
  rw [short, long]
  exact prefix_append _ _

/-- The data start with the bodies of two entries, and the one with the topic of `2 ^ 32` bytes
is not the one returned.
-/
theorem parseEntry_topic_wraps
    : ∃ long short : WALEntry,
        long = zeroEntry (2 ^ 32)
        ∧ short = zeroEntry 0
        ∧ short.body <+: long.body
        ∧ parseEntry long.body = .ok short
        ∧ long ≠ short := by
  have begins : (zeroEntry 0).body <+: (zeroEntry (2 ^ 32)).body :=
    zeroEntry_begins (Nat.one_mul _).symm (by decide)
  have fits : (zeroEntry 0).Fits := by
    constructor <;> decide
  refine ⟨_, _, rfl, rfl, begins, parseEntry_complete fits begins, fun same => ?_⟩
  have topics := congrArg (fun entry : WALEntry => entry.topic.length) same
  simp only [zeroEntry, length_replicate] at topics
  omega

end Goulette.Storage
