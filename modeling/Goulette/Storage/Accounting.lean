import Goulette.Storage.FragmentRuns

/-! The counters of the fragments, `Size` and `MessageCount`, which are kept in memory and never
read back from the files.
-/

namespace Goulette.Storage

open Goulette.Go ByteFrames FileStore Runs List

def decodable (bytes : Bytes) : List MessageEntry :=
  match _found : readMessage bytes with
  | none => []
  | some (entry, rest) => entry :: decodable rest
termination_by bytes.length
decreasing_by exact readMessage_shorter _found

/-- Nothing but the entries written is found, by induction on the entries. -/
theorem decodable_stream {entries : List MessageEntry} (valid : ∀ entry ∈ entries, entry.Valid)
    : decodable (stream MessageEntry.encode entries) = entries := by
  induction entries with
  | nil =>
      rw [decodable]
      rfl
  | cons entry rest ih =>
      have found := readMessage_encode (valid entry mem_cons_self)
        (stream MessageEntry.encode rest)
      have later := ih (fun other member => valid other (mem_cons_of_mem _ member))
      rw [stream_cons, decodable]
      split
      · next none => rw [found] at none; cases none
      · next first after same =>
          rw [found, Option.some.injEq, Prod.mk.injEq] at same
          rw [← same.1, ← same.2, later]

/-- The size of a bucket is the number of bytes of its entries. -/
theorem Bucket.size_eq (bucket : Bucket)
    : bucket.size = (stream MessageEntry.encode bucket.messages).length := by
  unfold Bucket.size
  induction bucket.messages with
  | nil => rfl
  | cons entry rest ih =>
      have own : entry.encode.length = 8 + 8 + 4 + entry.payload.length := by
        simp only [MessageEntry.encode, length_append, bigEndian_length]
        omega
      rw [map_cons, sum_cons, ih, stream_cons, length_append, own]
      omega

def Bucket.beforeLast (bucket : Bucket) : Bucket :=
  { bucket with messages := bucket.messages.dropLast }

/-- Every bucket but a topic's last one is full, and none was full when its last message came,
unless it was empty.
-/
structure Archive.Rotated (archive : Archive) : Prop where
  rotated : ∀ topic, ∀ bucket ∈ (archive.buckets topic).dropLast, archive.full bucket
  withRoom : ∀ topic, ∀ bucket ∈ archive.buckets topic,
    bucket.beforeLast.messages = [] ∨ ¬archive.full bucket.beforeLast

namespace Archive

variable {archive : Archive}

/-- A bucket is opened only behind a full one, and only a bucket with room is written to. -/
theorem roll_cases (archive : Archive) (now : Int) (topic : GoString)
    : (archive.roll now topic = archive.create now topic
        ∧ ∀ before bucket, archive.buckets topic = before ++ [bucket] → archive.full bucket)
      ∨ (archive.roll now topic = archive
        ∧ ∃ before bucket,
            archive.buckets topic = before ++ [bucket] ∧ ¬archive.full bucket) := by
  unfold roll
  cases last : (archive.buckets topic).getLast? with
  | none =>
      have nothing := List.getLast?_eq_none_iff.mp last
      exact Or.inl ⟨rfl, by simp [nothing]⟩
  | some bucket =>
      obtain ⟨before, split⟩ := List.getLast?_eq_some_iff.mp last
      by_cases full : archive.full bucket
      · refine Or.inl ⟨if_pos full, fun front other same => ?_⟩
        rw [split] at same
        rwa [← singleton_inj.mp (append_inj' same rfl).2]
      · exact Or.inr ⟨if_neg full, before, bucket, split, full⟩

theorem write_limits (archive : Archive) (now : Int) (topic : GoString) (entry : MessageEntry)
    : (archive.write now topic entry).maxSize = archive.maxSize
      ∧ (archive.write now topic entry).maxMessages = archive.maxMessages := by
  rcases archive.roll_cases now topic with ⟨rolls, -⟩ | ⟨stays, before, bucket, last, -⟩
  · rw [archive.write_of_roll rolls]
    exact ⟨rfl, rfl⟩
  · rw [archive.write_of_last stays last]
    exact ⟨rfl, rfl⟩

namespace Rotated

theorem empty (maxSize maxMessages ttl : Int) : (empty maxSize maxMessages ttl).Rotated where
  rotated := fun _ _ member => absurd member not_mem_nil
  withRoom := fun _ _ member => absurd member not_mem_nil

theorem set (h : archive.Rotated) {topic : GoString} {buckets : List Bucket}
    (rotated : ∀ bucket ∈ buckets.dropLast, archive.full bucket)
    (withRoom : ∀ bucket ∈ buckets,
      bucket.beforeLast.messages = [] ∨ ¬archive.full bucket.beforeLast)
    : (archive.set topic buckets).Rotated where
  rotated := (Function.forall_update_iff archive.buckets
      (fun _ list => ∀ bucket ∈ list.dropLast, archive.full bucket)).mpr
    ⟨rotated, fun other _ => h.rotated other⟩
  withRoom := (Function.forall_update_iff archive.buckets (fun _ list => ∀ bucket ∈ list,
      bucket.beforeLast.messages = [] ∨ ¬archive.full bucket.beforeLast)).mpr
    ⟨withRoom, fun other _ => h.withRoom other⟩

theorem write (h : archive.Rotated) (now : Int) (topic : GoString) (entry : MessageEntry)
    : (archive.write now topic entry).Rotated := by
  rcases archive.roll_cases now topic with ⟨rolls, full⟩ | ⟨stays, before, bucket, last, room⟩
  · rw [archive.write_of_roll rolls]
    refine h.set ?_ ?_
    · rw [dropLast_concat]
      rcases eq_nil_or_concat' (archive.buckets topic) with nothing | ⟨before, last, split⟩
      · rw [nothing]
        exact forall_mem_nil _
      · have rotated := h.rotated topic
        rw [split, dropLast_concat] at rotated
        rw [split]
        exact forall_mem_append.mpr
          ⟨rotated, forall_mem_singleton.mpr (full before last split)⟩
    · exact forall_mem_append.mpr ⟨h.withRoom topic, forall_mem_singleton.mpr (Or.inl rfl)⟩
  · rw [archive.write_of_last stays last]
    have known := h.rotated topic
    have wasOpen := h.withRoom topic
    rw [last] at known wasOpen
    refine h.set ?_ ?_
    · rw [dropLast_concat] at known ⊢
      exact known
    · refine forall_mem_append.mpr
        ⟨(forall_mem_append.mp wasOpen).1, forall_mem_singleton.mpr (Or.inr ?_)⟩
      rwa [Bucket.beforeLast, dropLast_concat]

end Rotated

end Archive

/-- The counters of a fragment agree with the content of its file, and without the last of the
entries in it the file was empty or below both limits.
-/
structure Accounted (maxSize maxMessages : Int) (topic : GoString) (fragment : Fragment)
    (content : Bytes) (entries : List MessageEntry)
    : Prop where
  decoded : decodable (content.drop (20 + topic.length)) = entries
  length : (content.length : Int) = 20 + topic.length + fragment.size
  messageCount : fragment.messageCount = entries.length
  withRoom
    : entries.dropLast = []
      ∨ ((stream MessageEntry.encode entries.dropLast).length : Int) < maxSize
        ∧ (entries.dropLast.length : Int) < maxMessages

structure TopicAccounted (maxSize maxMessages : Int) (fm : FragmentManager) (topic : GoString)
    : Prop where
  counted
    : ∀ fragment ∈ fm.listed topic,
        ∃ content entries,
          fm.disk.read fragment.path = some content
          ∧ Accounted maxSize maxMessages topic fragment content entries
  rotated
    : ∀ fragment ∈ (fm.listed topic).dropLast,
        fragment.size ≥ maxSize ∨ fragment.messageCount ≥ maxMessages

variable {fm : FragmentManager} {archive : Archive} {topic : GoString} {fragment : Fragment}
  {bucket : Bucket}

theorem FragmentHolds.accounted (h : FragmentHolds fm topic fragment bucket)
    (withRoom : bucket.beforeLast.messages = [] ∨ ¬archive.full bucket.beforeLast)
    : ∃ content,
        fm.disk.read fragment.path = some content
        ∧ Accounted archive.maxSize archive.maxMessages topic fragment content
            bucket.messages := by
  obtain ⟨header, size, holds⟩ := h.content
  refine ⟨_, holds.read, ?_, ?_, h.messageCount, ?_⟩
  · rw [← size, drop_left, decodable_stream h.valid]
  · rw [length_append, size, h.size, bucket.size_eq]
    omega
  · refine withRoom.imp_right (fun room => ?_)
    rw [Archive.full, bucket.beforeLast.size_eq, not_or, Int.not_le, Int.not_le] at room
    exact room

theorem forall₂_mem {A B : Type} {related : A → B → Prop} {items : List A} {others : List B}
    (h : List.Forall₂ related items others) {item : A} (member : item ∈ items)
    : ∃ other ∈ others, related item other := by
  obtain ⟨before, after, rfl⟩ := append_of_mem member
  obtain ⟨front, other, back, rfl, -, -, own, -⟩ := forall₂_middle h
  exact ⟨other, mem_append_right _ mem_cons_self, own⟩

theorem forall₂_dropLast {A B : Type} {related : A → B → Prop} {items : List A}
    {others : List B} (h : List.Forall₂ related items others)
    : List.Forall₂ related items.dropLast others.dropLast := by
  rw [dropLast_eq_take, dropLast_eq_take, h.length_eq]
  exact forall₂_take _ h

/-- The fragments of a manager that refines a rotated archive are counted right. -/
theorem Refines.accounted (h : Refines fm archive) (rotated : archive.Rotated) (topic : GoString)
    : TopicAccounted archive.maxSize archive.maxMessages fm topic where
  counted := by
    intro fragment member
    obtain ⟨bucket, inBuckets, holds⟩ := forall₂_mem (h.held topic) member
    obtain ⟨content, read, accounted⟩ := holds.accounted (rotated.withRoom topic bucket inBuckets)
    exact ⟨content, bucket.messages, read, accounted⟩
  rotated := by
    intro fragment member
    obtain ⟨bucket, inBuckets, holds⟩ := forall₂_mem (forall₂_dropLast (h.held topic)) member
    rw [holds.size, holds.messageCount]
    exact rotated.rotated topic bucket inBuckets

def FragmentCall.Writes : FragmentCall → Prop
  | .createFragment _ => False
  | .writeMessage topic _ payload => PlainName topic ∧ payload.length < 2 ^ 32
  | .cleanupExpiredFragments => False
  | .closeTopic _ => False

instance : (call : FragmentCall) → Decidable call.Writes
  | .createFragment _ => .isFalse id
  | .writeMessage topic _ payload =>
      inferInstanceAs (Decidable (PlainName topic ∧ payload.length < 2 ^ 32))
  | .cleanupExpiredFragments => .isFalse id
  | .closeTopic _ => .isFalse id

theorem FragmentCall.Writes.appendOnly {call : FragmentCall} (writes : call.Writes)
    : call.AppendOnly := by
  cases call with
  | createFragment topic => exact writes.elim
  | _ => exact writes

/-- Writes keep the archive rotated and its limits, by induction on the calls. -/
theorem Archive.Rotated.run (h : archive.Rotated) {calls : List (Int × FragmentCall)}
    (writes : ∀ call ∈ calls, call.2.Writes)
    : (calls.foldl Archive.step archive).Rotated
      ∧ (calls.foldl Archive.step archive).maxSize = archive.maxSize
      ∧ (calls.foldl Archive.step archive).maxMessages = archive.maxMessages := by
  induction calls generalizing archive with
  | nil => exact ⟨h, rfl, rfl⟩
  | cons call rest ih =>
      have later := fun other member => writes other (mem_cons_of_mem call member)
      have now := writes call mem_cons_self
      obtain ⟨time, call⟩ := call
      cases call with
      | writeMessage topic messageID payload =>
          obtain ⟨maxSize, maxMessages⟩ :=
            archive.write_limits time topic (newEntry time messageID payload)
          rw [foldl_cons, ← maxSize, ← maxMessages]
          exact ih (h.write time topic _) later
      | _ => exact now.elim

/-- Whatever the limits, after any writes to plain topics every listed fragment is counted as
its file has it, every fragment but the last of its topic has reached a limit, and each was
empty or below both limits before its last entry.
-/
theorem writes_accounted (disk : Disk GoString) (baseDir : GoString)
    (maxSize maxMessages ttl : Int) {calls : List (Int × FragmentCall)}
    (writes : ∀ call ∈ calls, call.2.Writes) (topic : GoString)
    : TopicAccounted maxSize maxMessages
        (calls.foldl FragmentManager.step
          (.newFragmentManager disk baseDir maxSize maxMessages ttl))
        topic := by
  have refines := Refines.appendOnly disk baseDir maxSize maxMessages ttl
    (fun call member => (writes call member).appendOnly)
  obtain ⟨rotated, sameSize, sameMessages⟩ :=
    (Archive.Rotated.empty maxSize maxMessages ttl).run writes
  have accounted := refines.accounted rotated topic
  rwa [sameSize, sameMessages] at accounted

/-- The first two messages of one topic reach 40 bytes together, the third one alone. -/
def rotatingWrites : List (Int × FragmentCall) :=
  [
    (0, .writeMessage (lit "a") 1 [1]),
    (1, .writeMessage (lit "b") 2 [2]),
    (2, .writeMessage (lit "a") 3 [3, 3, 3]),
    (3, .writeMessage (lit "a") 4 (List.replicate 30 4)),
    (4, .writeMessage (lit "a") 5 [])
  ]

def rotatingManager : FragmentManager :=
  rotatingWrites.foldl FragmentManager.step (.newFragmentManager .empty (lit "data") 40 3 0)

theorem rotatingManager_accounted
    : (rotatingManager.listed (lit "a")).map
          (fun fragment => (fragment.size, fragment.messageCount))
        = [(44, 2), (50, 1), (20, 1)]
      ∧ TopicAccounted 40 3 rotatingManager (lit "a") :=
  ⟨by decide +kernel, writes_accounted .empty (lit "data") 40 3 0 (by decide) (lit "a")⟩

end Goulette.Storage
