import Goulette.Storage.Fragment

/-! Reading a topic back: the nested read loops return the window of the concatenated messages that
offset and limit ask for, also when their sum wraps around.
-/

namespace Goulette.Storage

open Goulette.Go ByteFrames FileStore List

variable {offset stop current : UInt64} {fm : FragmentManager} {fragments : List Fragment}
  {limit : Int64}

def MessageEntry.Valid (entry : MessageEntry) : Prop :=
  entry.payloadSize.toNat = entry.payload.length

theorem readMessage_nil : readMessage [] = none := rfl

theorem readMessage_encode {entry : MessageEntry} (valid : entry.Valid) (rest : Bytes)
    : readMessage (entry.encode ++ rest) = some (entry, rest) := by
  have id : fromBigEndian (bigEndian 8 entry.messageID.toNat) = entry.messageID.toNat :=
    fromBigEndian_of_lt entry.messageID.toNat_lt
  have time
      : fromBigEndian (bigEndian 8 entry.timestamp.toUInt64.toNat)
        = entry.timestamp.toUInt64.toNat :=
    fromBigEndian_of_lt entry.timestamp.toUInt64.toNat_lt
  have size : fromBigEndian (bigEndian 4 entry.payloadSize.toNat) = entry.payloadSize.toNat :=
    fromBigEndian_of_lt entry.payloadSize.toNat_lt
  have found := readMessage_fields (bigEndian_length 8 entry.messageID.toNat)
    (bigEndian_length 8 entry.timestamp.toUInt64.toNat)
    (bigEndian_length 4 entry.payloadSize.toNat) (valid.symm.trans size.symm) rest
  simpa only [MessageEntry.encode, append_assoc, id, time, size, UInt64.ofNat_toNat,
    UInt32.ofNat_toNat, Int64.toInt64_toUInt64] using found

def window (offset stop start : Nat) (messages : List MessageEntry) : List MessageEntry :=
  (messages.take (stop - start)).drop (offset - start)

/-- The message loop collects the window of its file and advances past the messages it read.
Witness: induction on the messages; the loop stops at the window's end or behind the last
whole message.
-/
theorem readFragment_stream {entries : List MessageEntry} (valid : ∀ entry ∈ entries, entry.Valid)
    {tail : Bytes} (unread : readMessage tail = none) (messages : List MessageEntry)
    : (readFragment offset stop current messages
          (stream MessageEntry.encode entries ++ tail)).1.toNat
        = current.toNat + min entries.length (stop.toNat - current.toNat)
      ∧ (readFragment offset stop current messages
            (stream MessageEntry.encode entries ++ tail)).2
        = messages ++ window offset.toNat stop.toNat current.toNat entries := by
  induction entries generalizing current messages with
  | nil =>
      rw [readFragment, stream_nil, nil_append, unread]
      simp [window]
  | cons entry rest ih =>
      rw [readFragment]
      split
      · next done => simp [window, Nat.sub_eq_zero_of_le (UInt64.le_iff_toNat_le.mp done)]
      · next more =>
          have before := UInt64.lt_iff_toNat_lt.mp (UInt64.not_le.mp more)
          -- below the end of the window the offset does not wrap
          have last := stop.toNat_lt
          have next : (current + 1).toNat = current.toNat + 1 := by
            rw [UInt64.toNat_add, UInt64.toNat_one]
            exact Nat.mod_eq_of_lt (by omega)
          have found := readMessage_encode (valid entry mem_cons_self)
            (stream MessageEntry.encode rest ++ tail)
          rw [stream_cons, append_assoc, found]
          simp only
          obtain ⟨advanced, collected⟩ :=
            ih (fun other member => valid other (mem_cons_of_mem _ member))
              (if current ≥ offset then messages ++ [entry] else messages)
          refine ⟨?_, ?_⟩
          · rw [advanced, next, length_cons]
            omega
          · rw [collected, next]
            have room : stop.toNat - current.toNat = stop.toNat - (current.toNat + 1) + 1 := by
              omega
            rw [window, window, room, take_succ_cons]
            split
            · next inside =>
                have := UInt64.le_iff_toNat_le.mp inside
                have now : offset.toNat - current.toNat = 0 := by omega
                have later : offset.toNat - (current.toNat + 1) = 0 := by omega
                rw [now, later, append_assoc]
                rfl
            · next ahead =>
                have := mt UInt64.le_iff_toNat_le.mpr ahead
                have skip
                    : offset.toNat - current.toNat = offset.toNat - (current.toNat + 1) + 1 := by
                  omega
                rw [skip, drop_succ_cons]

/-- Windows of consecutive messages join up. -/
theorem window_append (offset stop start : Nat) (first rest : List MessageEntry)
    : window offset stop start first
        ++ window offset stop (start + min first.length (stop - start)) rest
      = window offset stop start (first ++ rest) := by
  have stops : stop - (start + min first.length (stop - start)) = stop - start - first.length := by
    omega
  have offsets
      : offset - (start + min first.length (stop - start))
        = offset - start - min (stop - start) first.length := by
    omega
  rw [window, window, window, stops, offsets, take_append, drop_append,
    length_take]

def FileHolds (fm : FragmentManager) (fragment : Fragment) (messages : List MessageEntry) : Prop :=
  ∃ header,
    header.length = 20 + fragment.topic.length
    ∧ fm.disk.read fragment.path = some (header ++ stream MessageEntry.encode messages)
    ∧ ∀ entry ∈ messages, entry.Valid

/-- A listed file that may hold, behind its messages, bytes that are no message. -/
def FileKeeps (fm : FragmentManager) (fragment : Fragment) (messages : List MessageEntry) : Prop :=
  ∃ header tail,
    header.length = 20 + fragment.topic.length
    ∧ fm.disk.read fragment.path = some (header ++ (stream MessageEntry.encode messages ++ tail))
    ∧ readMessage tail = none
    ∧ ∀ entry ∈ messages, entry.Valid

theorem FileHolds.keeps {fragment : Fragment} {messages : List MessageEntry}
    (h : FileHolds fm fragment messages)
    : FileKeeps fm fragment messages := by
  obtain ⟨header, size, content, valid⟩ := h
  exact ⟨header, [], size, by rw [content, append_nil], readMessage_nil, valid⟩

/-- The fragment loop collects the window of all messages, by induction on the fragments. -/
theorem readFragments_keeps {contents : List (List MessageEntry)}
    (held : List.Forall₂ (FileKeeps fm) fragments contents) (messages : List MessageEntry)
    : fm.readFragments offset stop current messages fragments
      = messages ++ window offset.toNat stop.toNat current.toNat contents.flatten := by
  induction held generalizing current messages with
  | nil => simp [FragmentManager.readFragments, window]
  | cons first _ ih =>
      obtain ⟨header, tail, size, content, unread, valid⟩ := first
      rw [FragmentManager.readFragments, flatten_cons]
      split
      · next done => simp [window, Nat.sub_eq_zero_of_le (UInt64.le_iff_toNat_le.mp done)]
      · rw [content]
        simp only
        rw [show 4 + 4 + 4 + _ + 8 = header.length by omega, drop_left]
        obtain ⟨advanced, collected⟩ :=
          @readFragment_stream offset stop current _ valid tail unread messages
        rw [ih, advanced, collected, append_assoc, window_append]

theorem readFragments_eq {contents : List (List MessageEntry)}
    (held : List.Forall₂ (FileHolds fm) fragments contents) (messages : List MessageEntry)
    : fm.readFragments offset stop current messages fragments
      = messages ++ window offset.toNat stop.toNat current.toNat contents.flatten :=
  readFragments_keeps (held.imp (fun _ _ => FileHolds.keeps)) messages

theorem readFragments_congr {next : FragmentManager}
    (files
      : ∀ fragment ∈ fragments, next.disk.read fragment.path = fm.disk.read fragment.path)
    (offset stop current : UInt64) (messages : List MessageEntry)
    : next.readFragments offset stop current messages fragments
      = fm.readFragments offset stop current messages fragments := by
  induction fragments generalizing current messages with
  | nil => rfl
  | cons fragment rest ih =>
      have later := ih (fun other member => files other (mem_cons_of_mem _ member))
      simp only [FragmentManager.readFragments, files fragment mem_cons_self, later]

/-- The file of a fragment is missing, or no whole message stands behind its header. -/
def FragmentManager.holdsNoMessage (fm : FragmentManager) (fragment : Fragment) : Bool :=
  match fm.disk.read fragment.path with
  | none => true
  | some content => (readMessage (content.drop (4 + 4 + 4 + fragment.topic.length + 8))).isNone

theorem readFragment_extends (offset stop current : UInt64) (messages : List MessageEntry)
    (bytes : Bytes)
    : messages <+: (readFragment offset stop current messages bytes).2 := by
  fun_induction readFragment offset stop current messages bytes with
  | case1 current messages bytes done => exact prefix_rfl
  | case2 current messages bytes more none => exact prefix_rfl
  | case3 current messages bytes more entry rest found ih =>
      refine List.IsPrefix.trans ?_ ih
      split
      · exact prefix_append _ _
      · exact prefix_rfl

theorem readFragments_extends (fm : FragmentManager) (offset stop current : UInt64)
    (messages : List MessageEntry) (fragments : List Fragment)
    : messages <+: fm.readFragments offset stop current messages fragments := by
  induction fragments generalizing current messages with
  | nil => exact prefix_rfl
  | cons fragment rest ih =>
      rw [FragmentManager.readFragments]
      split
      · exact prefix_rfl
      · split
        · exact ih _ _
        · exact (readFragment_extends offset stop current messages _).trans (ih _ _)

/-- The first message of a file is collected when the read starts there. -/
theorem readFragment_of_some (room : 0 < stop) {bytes rest : Bytes} {entry : MessageEntry}
    (found : readMessage bytes = some (entry, rest))
    : [entry] <+: (readFragment 0 stop 0 [] bytes).2 := by
  rw [readFragment, if_neg (UInt64.not_le.mpr room)]
  split
  · next none => rw [found] at none; cases none
  · next first after same =>
      rw [found, Option.some.injEq, Prod.mk.injEq] at same
      obtain ⟨rfl, rfl⟩ := same
      rw [if_pos (UInt64.le_refl 0), nil_append]
      exact readFragment_extends _ _ _ _ _

/-- A read from the beginning returns nothing exactly if no listed file holds a message, by
induction on the fragments.
-/
theorem readFragments_eq_nil_iff (fm : FragmentManager) (room : 0 < stop)
    (fragments : List Fragment)
    : fm.readFragments 0 stop 0 [] fragments = []
      ↔ ∀ fragment ∈ fragments, fm.holdsNoMessage fragment = true := by
  induction fragments with
  | nil => simp [FragmentManager.readFragments]
  | cons fragment rest ih =>
      rw [forall_mem_cons, ← ih, FragmentManager.readFragments,
        if_neg (UInt64.not_le.mpr room), FragmentManager.holdsNoMessage]
      cases file : fm.disk.read fragment.path with
      | none => simp
      | some content =>
          simp only
          cases found : readMessage (content.drop (4 + 4 + 4 + fragment.topic.length + 8)) with
          | none =>
              have nothing
                  : readFragment 0 stop 0 []
                      (content.drop (4 + 4 + 4 + fragment.topic.length + 8)) = (0, []) := by
                rw [readFragment, if_neg (UInt64.not_le.mpr room)]
                split
                · rfl
                · next first after same => rw [found] at same; cases same
              simp [nothing]
          | some message =>
              have nonempty (current : UInt64)
                  : fm.readFragments 0 stop current
                      (readFragment 0 stop 0 []
                        (content.drop (4 + 4 + 4 + fragment.topic.length + 8))).2 rest ≠ [] := by
                have first := (readFragment_of_some room found).trans
                  (readFragments_extends fm 0 stop current _ rest)
                exact first.ne_nil (cons_ne_nil _ _)
              simp [nonempty]

theorem zero_lt_of_positive (positive : 0 < limit)
    : (0 : UInt64) < 0 + limit.toUInt64 := by
  rw [UInt64.zero_add, UInt64.pos_iff_ne_zero]
  intro zero
  have same : limit = 0 := by
    rw [← Int64.toInt64_toUInt64 limit, zero]
    rfl
  rw [same] at positive
  exact absurd positive (by decide)

/-- A read with room for a message returns nothing exactly if there is none. -/
theorem readMessages_eq_nil_iff (fm : FragmentManager) (topic : GoString) (positive : 0 < limit)
    : fm.readMessages topic 0 limit = []
      ↔ ∀ fragment ∈ fm.listed topic, fm.holdsNoMessage fragment = true :=
  readFragments_eq_nil_iff fm (zero_lt_of_positive positive) (fm.listed topic)

/-- A window that is asked for by a wrapped sum lies behind all messages. -/
theorem window_eq {messages : List MessageEntry} (few : messages.length ≤ 2 ^ 63) (offset : UInt64)
    (nonneg : 0 ≤ limit)
    : window offset.toNat (offset + limit.toUInt64).toNat 0 messages
      = (messages.drop offset.toNat).take limit.toInt.toNat := by
  have size : limit.toUInt64.toNat = limit.toInt.toNat := by
    have positive : 0 ≤ limit.toBitVec.toInt := by
      simpa using Int64.le_iff_toInt_le.mp nonneg
    have read : limit.toInt = limit.toBitVec.toInt := rfl
    have same : limit.toUInt64.toNat = limit.toBitVec.toNat := rfl
    have value := BitVec.toInt_eq_toNat_cond limit.toBitVec
    split at value <;> omega
  have small : limit.toInt.toNat < 2 ^ 63 := by
    have := limit.toInt_lt
    omega
  rw [window, Nat.sub_zero, Nat.sub_zero, UInt64.toNat_add, size]
  rcases Nat.lt_or_ge (offset.toNat + limit.toInt.toNat) (2 ^ 64) with inside | wrapped
  · rw [Nat.mod_eq_of_lt inside, drop_take, Nat.add_sub_cancel_left]
  · rw [drop_eq_nil_of_le, drop_eq_nil_of_le, take_nil]
    · omega
    · rw [length_take]
      omega

end Goulette.Storage
