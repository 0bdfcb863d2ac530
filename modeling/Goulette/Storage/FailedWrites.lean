import Goulette.Library.WriteFaults
import Goulette.Storage.FragmentRuns

/-! Fragment writes that fail after some of their bytes. As long as nothing is written behind such a
rest, reads skip it.
-/

namespace Goulette.Storage

open Goulette.Go ByteFrames FileStore Runs WriteFaults List

variable {topic : GoString} {part : Bytes}

/-- What fails in a call that gets there. -/
structure CallFaults where
  header : Option (Fault GoError)
  entry : Option (Fault GoError)
  sync : Option GoError
deriving DecidableEq, Repr

def CallFaults.none : CallFaults := { header := .none, entry := .none, sync := .none }

def headerWrites (topic : GoString) (createdAt : Int64) : List (GoString × Bytes) := [
  (lit "写入魔数失败: ", [0x46, 0x52, 0x41, 0x47]),
  (lit "写入版本失败: ", bigEndian 4 1),
  (lit "写入Topic长度失败: ", bigEndian 4 topic.length),
  (lit "写入Topic失败: ", topic),
  (lit "写入创建时间失败: ", bigEndian 8 createdAt.toUInt64.toNat)
]

def MessageEntry.writes (entry : MessageEntry) : List (GoString × Bytes) := [
  (lit "写入消息ID失败: ", bigEndian 8 entry.messageID.toNat),
  (lit "写入时间戳失败: ", bigEndian 8 entry.timestamp.toUInt64.toNat),
  (lit "写入负载大小失败: ", bigEndian 4 entry.payloadSize.toNat),
  (lit "写入负载数据失败: ", entry.payload)
]

theorem whole_headerWrites (topic : GoString) (createdAt : Int64)
    : whole (headerWrites topic createdAt) = fragmentHeader topic createdAt := by
  simp [whole, headerWrites, fragmentHeader]

theorem MessageEntry.whole_writes (entry : MessageEntry) : whole entry.writes = entry.encode := by
  simp [whole, writes, encode]

namespace FragmentManager

def tryCreateFragment (fm : FragmentManager) (now : Int) (topic : GoString)
    (fault : Option (Fault GoError))
    : FragmentManager × Except GoError Fragment :=
  let id := (fm.listed topic).length
  let path := fm.getFragmentPath topic id
  let created := fm.disk.create path
  let header := attempt (headerWrites topic (unix now)) fault
  let written := created.1.write created.2 header.1
  match header.2 with
  -- the file is closed and stays where it is; the fragment is not listed
  | some failure => ({ fm with disk := written.1 }, .error (failure.1 ++ failure.2))
  | none =>
      let fragment : Fragment :=
        { id, topic, path, size := 0, messageCount := 0, createdAt := now, file := written.2 }
      ({ fm with
          fragments := fm.fragments.insert topic (fm.listed topic ++ [fragment])
          disk := written.1 },
        .ok fragment)

def tryGetCurrentFragment (fm : FragmentManager) (now : Int) (topic : GoString)
    (fault : Option (Fault GoError))
    : FragmentManager × Except GoError Fragment :=
  match (fm.listed topic).getLast? with
  | none => fm.tryCreateFragment now topic fault
  | some current =>
      if current.size ≥ fm.maxSize ∨ current.messageCount ≥ fm.maxMessages then
        fm.tryCreateFragment now topic fault
      else (fm, .ok current)

def setLast (fm : FragmentManager) (topic : GoString) (fragment : Fragment) (disk : Disk GoString)
    : FragmentManager :=
  { fm with
    fragments := fm.fragments.insert topic ((fm.listed topic).dropLast ++ [fragment])
    disk }

def tryWriteMessage (fm : FragmentManager) (now : Int) (topic : GoString) (messageID : UInt64)
    (payload : Bytes) (faults : CallFaults)
    : FragmentManager × Option GoError :=
  match fm.tryGetCurrentFragment now topic faults.header with
  | (fm, .error failure) => (fm, some failure)
  | (fm, .ok current) =>
      let entry := newEntry now messageID payload
      let sent := attempt entry.writes faults.entry
      let written := fm.disk.write current.file sent.1
      match sent.2 with
      -- a failed write leaves the counters alone
      | some failure =>
          (fm.setLast topic { current with file := written.2 } written.1,
            some (failure.1 ++ failure.2))
      | none =>
          (fm.setLast topic
              { current with
                size := current.size + (8 + 8 + 4 + payload.length)
                messageCount := current.messageCount + 1
                file := written.2 }
              written.1,
            -- a failed sync comes behind the counters
            faults.sync.map (lit "刷盘失败: " ++ ·))

/-- With a whole header the fragment is the one that is created when nothing fails. -/
theorem tryCreateFragment_of_header (fm : FragmentManager) {now : Int}
    {fault : Option (Fault GoError)}
    (fine : (attempt (headerWrites topic (unix now)) fault).2 = none)
    : fm.tryCreateFragment now topic fault
      = ((fm.createFragment now topic).1, .ok (fm.createFragment now topic).2) := by
  simp only [tryCreateFragment, fine, (attempt_spec _ fault).2 fine, whole_headerWrites]
  rfl

/-- Without a fault the call is the one that succeeds. -/
theorem tryWriteMessage_none (fm : FragmentManager) (now : Int) (topic : GoString)
    (messageID : UInt64) (payload : Bytes)
    : fm.tryWriteMessage now topic messageID payload .none
      = (fm.writeMessage now topic messageID payload, none) := by
  have current
      : fm.tryGetCurrentFragment now topic none
        = ((fm.getCurrentFragment now topic).1, .ok (fm.getCurrentFragment now topic).2) := by
    have created := fm.tryCreateFragment_of_header
      (congrArg Prod.snd (attempt_none (headerWrites topic (unix now))))
    unfold tryGetCurrentFragment getCurrentFragment
    cases (fm.listed topic).getLast? with
    | none => exact created
    | some current =>
        simp only
        split
        · exact created
        · rfl
  simp only [tryWriteMessage, CallFaults.none, current, attempt_none, MessageEntry.whole_writes]
  rfl

end FragmentManager

/-- A message that is found is found whatever follows in the file. -/
theorem readMessage_more {bytes rest : Bytes} {entry : MessageEntry}
    (found : readMessage bytes = some (entry, rest)) (more : Bytes)
    : readMessage (bytes ++ more) = some (entry, rest ++ more) := by
  obtain ⟨messageID, timestamp, payloadSize, payload, rfl, idSize, timeSize, sizeSize, size, rfl⟩ :=
    readMessage_cases found
  simp only [append_assoc]
  exact readMessage_fields idSize timeSize sizeSize size (rest ++ more)

/-- A proper part of a message is no message: what would be found in it would be found in the
whole message too, and leave bytes over.
-/
theorem readMessage_part {entry : MessageEntry} (valid : entry.Valid)
    (start : part <+: entry.encode) (proper : part ≠ entry.encode)
    : readMessage part = none := by
  obtain ⟨more, together⟩ := start
  cases found : readMessage part with
  | none => rfl
  | some message =>
      exfalso
      have inWhole := readMessage_more found more
      have encoded := readMessage_encode valid []
      rw [append_nil, ← together, inWhole, Option.some.injEq, Prod.mk.injEq] at encoded
      rw [(append_eq_nil_iff.mp encoded.2).2, append_nil] at together
      exact proper together

/-- The open file ends where the counted messages end. -/
def Fragment.Whole (fragment : Fragment) : Prop :=
  (fragment.file.offset : Int) = 20 + fragment.topic.length + fragment.size

instance (fragment : Fragment) : Decidable fragment.Whole :=
  inferInstanceAs (Decidable (_ = _))

structure FragmentKeeps (disk : Disk GoString) (fragment : Fragment)
    (messages : List MessageEntry) (rest : Bytes)
    : Prop where
  size : fragment.size = (stream MessageEntry.encode messages).length
  valid : ∀ entry ∈ messages, entry.Valid
  unread : readMessage rest = none
  content
    : ∃ header : Bytes,
        header.length = 20 + fragment.topic.length
        ∧ Holds disk fragment.path fragment.file
            (header ++ (stream MessageEntry.encode messages ++ rest))

/-- The listed fragments of a topic keep the returned messages, each under the path of its
position.
-/
structure TopicKeeps (fm : FragmentManager) (topic : GoString) (returned : List MessageEntry)
    : Prop where
  paths
    : (fm.listed topic).map Fragment.path
      = (List.range (fm.listed topic).length).map (fm.getFragmentPath topic)
  files
    : ∃ contents,
        contents.flatten = returned
        ∧ List.Forall₂
            (fun fragment messages => ∃ rest, FragmentKeeps fm.disk fragment messages rest)
            (fm.listed topic) contents

variable {fm next : FragmentManager} {topic : GoString} {returned messages : List MessageEntry}
  {fragment current : Fragment} {before : List Fragment} {disk : Disk GoString} {rest : Bytes}

namespace FragmentKeeps

/-- A file that ends where its counted messages end has no rest. -/
theorem rest_eq_nil (h : FragmentKeeps disk fragment messages rest) (whole : fragment.Whole)
    : rest = [] := by
  obtain ⟨header, size, holds⟩ := h.content
  have ends := holds.offset
  have counted := h.size
  unfold Fragment.Whole at whole
  simp only [length_append] at ends
  exact length_eq_zero_iff.mp (by omega)

theorem frame (h : FragmentKeeps disk fragment messages rest) {later : Disk GoString}
    (kept
      : ∀ content, Holds disk fragment.path fragment.file content
          → Holds later fragment.path fragment.file content)
    : FragmentKeeps later fragment messages rest where
  size := h.size
  valid := h.valid
  unread := h.unread
  content := by
    obtain ⟨header, size, holds⟩ := h.content
    exact ⟨header, size, kept _ holds⟩

theorem reads (h : FragmentKeeps fm.disk fragment messages rest)
    : FileKeeps fm fragment messages := by
  obtain ⟨header, size, holds⟩ := h.content
  exact ⟨header, rest, size, holds.read, h.unread, h.valid⟩

/-- A whole message behind the counted ones is counted. -/
theorem push (h : FragmentKeeps disk fragment messages []) {entry : MessageEntry}
    (valid : entry.Valid)
    : FragmentKeeps (disk.write fragment.file entry.encode).1
        { fragment with
          size := fragment.size + (8 + 8 + 4 + entry.payload.length)
          messageCount := fragment.messageCount + 1
          file := (disk.write fragment.file entry.encode).2 }
        (messages ++ [entry]) [] where
  size := by
    simp only [stream_append, stream_cons, stream_nil, append_nil, length_append,
      MessageEntry.encode, bigEndian_length, h.size]
    omega
  valid := forall_mem_append.mpr ⟨h.valid, forall_mem_singleton.mpr valid⟩
  unread := readMessage_nil
  content := by
    obtain ⟨header, size, holds⟩ := h.content
    refine ⟨header, size, ?_⟩
    have written := holds.write entry.encode
    simpa [stream_append] using written

theorem tear (h : FragmentKeeps disk fragment messages rest)
    (unread : readMessage (rest ++ part) = none)
    : FragmentKeeps (disk.write fragment.file part).1
        { fragment with file := (disk.write fragment.file part).2 } messages (rest ++ part) where
  size := h.size
  valid := h.valid
  unread := unread
  content := by
    obtain ⟨header, size, holds⟩ := h.content
    refine ⟨header, size, ?_⟩
    have written := holds.write part
    simpa using written

end FragmentKeeps

/-- What leaves the files of some fragments alone leaves what they keep alone. -/
theorem forall₂_keeps {fragments : List Fragment} {contents : List (List MessageEntry)}
    (held
      : List.Forall₂ (fun fragment messages => ∃ rest, FragmentKeeps disk fragment messages rest)
          fragments contents)
    {later : Disk GoString}
    (kept
      : ∀ fragment ∈ fragments, ∀ content,
          Holds disk fragment.path fragment.file content
          → Holds later fragment.path fragment.file content)
    : List.Forall₂ (fun fragment messages => ∃ rest, FragmentKeeps later fragment messages rest)
        fragments contents := by
  have listed := (forall₂_and_left fragments contents).mpr ⟨fun _ member => member, held⟩
  refine listed.imp (fun fragment messages own => ?_)
  obtain ⟨member, rest, keeps⟩ := own
  exact ⟨rest, keeps.frame (kept fragment member)⟩

theorem getFragmentPath_number {id number : Nat}
    (same : fm.getFragmentPath topic id = fm.getFragmentPath topic number)
    : id = number := by
  have parts := congrArg pathParts same
  simp only [FragmentManager.getFragmentPath, pathParts_join _ (fragmentName_plain _)] at parts
  exact fragmentName_injective (List.cons.inj (append_cancel_left parts)).1

namespace TopicKeeps

/-- A manager that has just been made keeps nothing, whatever the disk holds. -/
theorem new (disk : Disk GoString) (baseDir : GoString) (maxSize maxMessages ttl : Int)
    (topic : GoString)
    : TopicKeeps (.newFragmentManager disk baseDir maxSize maxMessages ttl) topic [] where
  paths := rfl
  files := ⟨[], rfl, .nil⟩

variable (h : TopicKeeps fm topic returned)
include h

/-- The next fragment's file is no listed one. -/
theorem path_ne (member : fragment ∈ fm.listed topic)
    : fragment.path ≠ fm.getFragmentPath topic (fm.listed topic).length := by
  intro same
  have listed : fragment.path ∈ (fm.listed topic).map Fragment.path := mem_map_of_mem member
  rw [h.paths] at listed
  obtain ⟨position, inRange, taken⟩ := mem_map.mp listed
  have := getFragmentPath_number (taken.trans same)
  have := mem_range.mp inRange
  omega

/-- No other fragment has the last one's file. -/
theorem last_apart (last : fm.listed topic = before ++ [current]) (member : fragment ∈ before)
    : fragment.path ≠ current.path := by
  have distinct : ((fm.listed topic).map Fragment.path).Nodup := by
    rw [h.paths]
    exact nodup_range.map (fun _ _ same => getFragmentPath_number same)
  rw [last, map_append, nodup_append] at distinct
  exact distinct.2.2 _ (mem_map_of_mem member) _ mem_cons_self

/-- A change of the disk that leaves the listed files alone. -/
theorem onDisk
    (kept
      : ∀ fragment ∈ fm.listed topic, ∀ content,
          Holds fm.disk fragment.path fragment.file content
          → Holds disk fragment.path fragment.file content)
    : TopicKeeps { fm with disk } topic returned where
  paths := h.paths
  files := by
    obtain ⟨contents, all, held⟩ := h.files
    exact ⟨contents, all, forall₂_keeps held kept⟩

variable (last : fm.listed topic = before ++ [current])
include last

/-- A write to the last fragment's file that leaves a fragment with the messages it should
have.
-/
theorem setLast {bytes : Bytes} {more : List MessageEntry} (path : fragment.path = current.path)
    (write
      : ∀ messages rest, FragmentKeeps fm.disk current messages rest
          → ∃ rest,
              FragmentKeeps (fm.disk.write current.file bytes).1 fragment (messages ++ more) rest)
    : TopicKeeps (fm.setLast topic fragment (fm.disk.write current.file bytes).1) topic
        (returned ++ more) := by
  have listed
      : (fm.setLast topic fragment (fm.disk.write current.file bytes).1).listed topic
        = before ++ [fragment] := by
    rw [FragmentManager.listed_of_insert rfl, Function.update_self, last, dropLast_concat]
  obtain ⟨contents, all, held⟩ := h.files
  rw [last] at held
  obtain ⟨earlier, messages, rfl, front, rest, own⟩ := forall₂_concat held
  obtain ⟨header, size, holds⟩ := own.content
  refine ⟨?_, earlier ++ [messages ++ more], ?_, ?_⟩
  · have paths := h.paths
    rw [last, map_append, length_append] at paths
    rw [listed, map_append, length_append, map_singleton, path]
    exact paths
  · rw [← all]
    simp
  · rw [listed]
    refine rel_append (forall₂_keeps front ?_) (.cons (write messages rest own) .nil)
    intro other member content others
    exact others.write_other holds (h.last_apart last member) bytes

theorem push (whole : current.Whole) {entry : MessageEntry} (valid : entry.Valid)
    : TopicKeeps
        (fm.setLast topic
          { current with
            size := current.size + (8 + 8 + 4 + entry.payload.length)
            messageCount := current.messageCount + 1
            file := (fm.disk.write current.file entry.encode).2 }
          (fm.disk.write current.file entry.encode).1)
        topic (returned ++ [entry]) := by
  refine h.setLast last rfl (fun messages rest own => ⟨[], ?_⟩)
  rw [own.rest_eq_nil whole] at own
  exact own.push valid

theorem tear (unseen : part = [] ∨ current.Whole ∧ readMessage part = none)
    : TopicKeeps
        (fm.setLast topic { current with file := (fm.disk.write current.file part).2 }
          (fm.disk.write current.file part).1)
        topic returned := by
  rw [← append_nil returned]
  refine h.setLast last rfl (fun messages rest own => ⟨rest ++ part, ?_⟩)
  rw [append_nil]
  refine own.tear ?_
  rcases unseen with rfl | ⟨whole, unread⟩
  · rw [append_nil]
    exact own.unread
  · rw [own.rest_eq_nil whole]
    exact unread

end TopicKeeps

/-! What a call leaves. -/

/-- The fragment that a call writes to, if the call gets that far: it has just been created,
or is the one that the topic had last.
-/
inductive Opened (fm : FragmentManager) (topic : GoString) (returned : List MessageEntry)
    : FragmentManager × Except GoError Fragment → Prop
  | failed {next : FragmentManager} {failure : GoError} (kept : TopicKeeps next topic returned)
    : Opened fm topic returned (next, .error failure)
  | opened {next : FragmentManager} {current : Fragment} {before : List Fragment}
    (kept : TopicKeeps next topic returned) (last : next.listed topic = before ++ [current])
    (which
      : current.Whole
        ∨ fm.needsFragment topic = false ∧ (fm.listed topic).getLast? = some current)
    : Opened fm topic returned (next, .ok current)

/-- A new fragment keeps no message, and its file ends behind the header. -/
theorem FragmentKeeps.created (fm : FragmentManager) (now : Int) (topic : GoString)
    : FragmentKeeps (fm.createFragment now topic).1.disk (fm.createFragment now topic).2 [] []
      ∧ (fm.createFragment now topic).2.Whole := by
  have size : (fragmentHeader topic (unix now)).length = 20 + topic.length := by
    simp [fragmentHeader]
    omega
  have holds
      : Holds (fm.createFragment now topic).1.disk (fm.createFragment now topic).2.path
          (fm.createFragment now topic).2.file (fragmentHeader topic (unix now)) :=
    Holds.create.write (fragmentHeader topic (unix now))
  refine ⟨?_, ?_⟩
  · exact {
      size := rfl
      valid := fun entry member => absurd member not_mem_nil
      unread := readMessage_nil
      content := ⟨fragmentHeader topic (unix now), size, by simpa using holds⟩
    }
  · have ends := holds.offset
    have counted : (fm.createFragment now topic).2.size = 0 := rfl
    have ofTopic : (fm.createFragment now topic).2.topic = topic := rfl
    rw [Fragment.Whole, ends, size, counted, ofTopic]
    omega

theorem TopicKeeps.tryCreateFragment (h : TopicKeeps fm topic returned) (now : Int)
    (fault : Option (Fault GoError))
    : Opened fm topic returned (fm.tryCreateFragment now topic fault) := by
  let path := fm.getFragmentPath topic (fm.listed topic).length
  have created : Holds (fm.disk.create path).1 path (fm.disk.create path).2 [] := Holds.create
  have kept (bytes : Bytes) (fragment : Fragment) (member : fragment ∈ fm.listed topic)
      (content : Bytes) (holds : Holds fm.disk fragment.path fragment.file content)
      : Holds ((fm.disk.create path).1.write (fm.disk.create path).2 bytes).1 fragment.path
          fragment.file content :=
    (holds.create_other (h.path_ne member)).write_other created (h.path_ne member) bytes
  cases failed : (attempt (headerWrites topic (unix now)) fault).2 with
  | some failure =>
      simp only [FragmentManager.tryCreateFragment, failed]
      exact .failed (h.onDisk (kept _))
  | none =>
      rw [fm.tryCreateFragment_of_header failed]
      have listed
          : (fm.createFragment now topic).1.listed topic
            = fm.listed topic ++ [(fm.createFragment now topic).2] := by
        rw [FragmentManager.createFragment_listed, Function.update_self]
      obtain ⟨new, whole⟩ := FragmentKeeps.created fm now topic
      obtain ⟨contents, all, held⟩ := h.files
      refine .opened ⟨?_, contents ++ [[]], by simpa using all, ?_⟩ listed (Or.inl whole)
      · rw [listed, map_append, h.paths, length_append, length_singleton,
          range_succ, map_append]
        rfl
      · rw [listed]
        exact rel_append (forall₂_keeps held (kept _)) (.cons ⟨[], new⟩ .nil)

theorem TopicKeeps.tryGetCurrentFragment (h : TopicKeeps fm topic returned) (now : Int)
    (fault : Option (Fault GoError))
    : Opened fm topic returned (fm.tryGetCurrentFragment now topic fault) := by
  unfold FragmentManager.tryGetCurrentFragment
  cases last : (fm.listed topic).getLast? with
  | none => exact h.tryCreateFragment now fault
  | some current =>
      simp only
      split
      · exact h.tryCreateFragment now fault
      · next room =>
          obtain ⟨before, listed⟩ := List.getLast?_eq_some_iff.mp last
          refine .opened h listed (Or.inr ⟨?_, last⟩)
          simpa [FragmentManager.needsFragment, last] using room

structure WriteCall where
  now : Int
  messageID : UInt64
  payload : Bytes
  faults : CallFaults
deriving DecidableEq, Repr

namespace WriteCall

def entry (call : WriteCall) : MessageEntry := newEntry call.now call.messageID call.payload

/-- What the writes of the message do, if the call makes them. -/
def sent (call : WriteCall) : Bytes × Option (GoString × GoError) :=
  attempt call.entry.writes call.faults.entry

end WriteCall

structure WriteRun where
  fm : FragmentManager
  returned : List MessageEntry

namespace WriteRun

def step (topic : GoString) (run : WriteRun) (call : WriteCall) : WriteRun :=
  let result :=
    run.fm.tryWriteMessage call.now topic call.messageID call.payload call.faults
  { fm := result.1
    returned :=
      match result.2 with
      | none => run.returned ++ [call.entry]
      | some _ => run.returned }

def start (disk : Disk GoString) (baseDir : GoString) (maxSize maxMessages ttl : Int)
    : WriteRun :=
  { fm := .newFragmentManager disk baseDir maxSize maxMessages ttl, returned := [] }

/-- Every read from the beginning with a limit that reaches far enough returns the messages
whose call returned nil.
-/
def NoTrace (topic : GoString) (run : WriteRun) : Prop :=
  ∀ limit : Int64, (run.returned.length : Int) ≤ limit.toInt
    → run.fm.readMessages topic 0 limit = run.returned

/-- Reads skip what is left of failed calls. -/
theorem noTrace {run : WriteRun} (h : TopicKeeps run.fm topic run.returned)
    : run.NoTrace topic := by
  intro limit reaches
  obtain ⟨contents, all, held⟩ := h.files
  have small := limit.toInt_lt
  have nonneg : 0 ≤ limit := Int64.le_iff_toInt_le.mpr (by simp; omega)
  have reads
      : List.Forall₂ (FileKeeps run.fm) (run.fm.listed topic) contents :=
    held.imp (fun _ _ own => own.elim (fun _ kept => kept.reads))
  have few : run.returned.length ≤ 2 ^ 63 := by omega
  rw [FragmentManager.readMessages, readFragments_keeps reads, nil_append, all,
    UInt64.toNat_zero]
  refine (window_eq few 0 nonneg).trans ?_
  rw [UInt64.toNat_zero, drop_zero]
  exact take_of_length_le (by omega)

/-- A call whose failure cannot be seen: the payload fits its size field, a message whose
writes all succeed is synced, one whose writes fail has not been written to its end, and
nothing is written behind what is left of an earlier one.
-/
structure Clean (topic : GoString) (run : WriteRun) (call : WriteCall) : Prop where
  fits : call.payload.length < 2 ^ 32
  synced : call.sent.2 = none → call.faults.sync = none
  cut : call.sent.2 ≠ none → call.sent.1 ≠ call.entry.encode
  behind
    : call.sent.1 = []
      ∨ run.fm.needsFragment topic = true
      ∨ ∀ current ∈ (run.fm.listed topic).getLast?, current.Whole

instance (topic : GoString) (run : WriteRun) (call : WriteCall)
    : Decidable (Clean topic run call) :=
  have := @Option.decidableForallMem _ (fun current => Fragment.Whole current)
    (fun _ => inferInstance) (run.fm.listed topic).getLast?
  decidable_of_iff
    (call.payload.length < 2 ^ 32
      ∧ (call.sent.2 = none → call.faults.sync = none)
      ∧ (call.sent.2 ≠ none → call.sent.1 ≠ call.entry.encode)
      ∧ (call.sent.1 = []
          ∨ run.fm.needsFragment topic = true
          ∨ ∀ current ∈ (run.fm.listed topic).getLast?, current.Whole))
    ⟨fun h => ⟨h.1, h.2.1, h.2.2.1, h.2.2.2⟩, fun h => ⟨h.fits, h.synced, h.cut, h.behind⟩⟩

/-- A clean call keeps exactly the messages whose call returned nil. -/
theorem keeps_step {run : WriteRun} {call : WriteCall} (clean : Clean topic run call)
    (h : TopicKeeps run.fm topic run.returned)
    : TopicKeeps (step topic run call).fm topic (step topic run call).returned := by
  have valid : call.entry.Valid := newEntry_valid call.now call.messageID clean.fits
  obtain ⟨start, whole⟩ := attempt_spec call.entry.writes call.faults.entry
  rw [MessageEntry.whole_writes] at start whole
  have sent : attempt (newEntry call.now call.messageID call.payload).writes call.faults.entry
      = call.sent := rfl
  have spec := h.tryGetCurrentFragment call.now call.faults.header
  unfold step FragmentManager.tryWriteMessage
  cases opening : run.fm.tryGetCurrentFragment call.now topic call.faults.header with
  | mk next found =>
      rw [opening] at spec
      cases spec with
      | failed kept => exact kept
      | @opened _ current before kept last which =>
          have untorn : call.sent.1 = [] ∨ current.Whole := by
            rcases clean.behind with nothing | needed | ends
            · exact Or.inl nothing
            · rcases which with fresh | ⟨room, _⟩
              · exact Or.inr fresh
              · rw [room] at needed
                cases needed
            · rcases which with fresh | ⟨_, current⟩
              · exact Or.inr fresh
              · exact Or.inr (ends _ current)
          simp only [sent]
          cases failed : call.sent.2 with
          | some failure =>
              have unread : readMessage call.sent.1 = none :=
                readMessage_part valid start (clean.cut (by simp [failed]))
              exact kept.tear last (untorn.imp_right (fun ends => ⟨ends, unread⟩))
          | none =>
              have all : call.sent.1 = call.entry.encode := whole failed
              have nonempty : call.entry.encode ≠ [] := by simp [MessageEntry.encode, bigEndian]
              have ends : current.Whole := untorn.resolve_left (by rwa [all])
              rw [clean.synced failed, all]
              exact kept.push last ends valid

end WriteRun

/-- In every run of clean calls, reads return exactly the messages whose call returned nil, in
order, whatever the disk held before.
-/
theorem failedWrites_noTrace (disk : Disk GoString) (baseDir : GoString)
    (maxSize maxMessages ttl : Int) (topic : GoString) (calls : List WriteCall)
    (clean
      : AllSteps (WriteRun.step topic) (WriteRun.Clean topic)
          (.start disk baseDir maxSize maxMessages ttl) calls)
    : ∀ run ∈ calls.scanl (WriteRun.step topic) (.start disk baseDir maxSize maxMessages ttl),
        run.NoTrace topic := by
  intro run visited
  have keep (run : WriteRun) (call : WriteCall) (clean : WriteRun.Clean topic run call)
      (h : TopicKeeps run.fm topic run.returned)
      : TopicKeeps (WriteRun.step topic run call).fm topic
          (WriteRun.step topic run call).returned :=
    WriteRun.keeps_step clean h
  have kept : TopicKeeps run.fm topic run.returned :=
    clean.always keep (TopicKeeps.new disk baseDir maxSize maxMessages ttl topic) run visited
  exact WriteRun.noTrace kept

namespace WriteRun

def fresh : WriteRun := start .empty (lit "data") 1048576 1000 0

def diskFull : CallFaults := {
  header := .none
  entry := some { write := 0, bytes := 1, error := lit "no space left on device" }
  sync := .none
}

/-- A message after a failed creation of its fragment, and one that fails last. -/
def failedLast : List WriteCall := [
  { now := 1000000000, messageID := 1, payload := [1]
    faults := { diskFull with header := diskFull.entry } },
  { now := 1000000000, messageID := 1, payload := [1], faults := .none },
  { now := 2000000000, messageID := 2, payload := [2], faults := diskFull }
]

/-- A message that fails, and one behind it that does not. -/
def failedFirst : List WriteCall := [
  { now := 1000000000, messageID := 1, payload := [], faults := diskFull },
  { now := 1000000000, messageID := 2, payload := [], faults := .none }
]

end WriteRun

theorem failedWrites_noTrace_failedLast
    : AllSteps (WriteRun.step (lit "orders")) (WriteRun.Clean (lit "orders")) .fresh
        WriteRun.failedLast
      ∧ ∀ run ∈ WriteRun.failedLast.scanl (WriteRun.step (lit "orders")) .fresh,
          run.NoTrace (lit "orders") := by
  have clean
      : AllSteps (WriteRun.step (lit "orders")) (WriteRun.Clean (lit "orders")) .fresh
          WriteRun.failedLast := by
    decide +kernel
  exact ⟨clean, failedWrites_noTrace _ _ _ _ _ _ _ clean⟩

/-- The acknowledged message stands behind the byte of the failed one, and no read finds it. -/
theorem not_noTrace_failedFirst
    : (WriteRun.failedFirst.foldl (WriteRun.step (lit "orders")) .fresh).returned
        = [{ messageID := 2, timestamp := 1, payloadSize := 0, payload := [] }]
      ∧ (∀ limit : Int64, 0 < limit
          → (WriteRun.failedFirst.foldl (WriteRun.step (lit "orders")) .fresh).fm.readMessages
              (lit "orders") 0 limit = [])
      ∧ ¬∀ run ∈ WriteRun.failedFirst.scanl (WriteRun.step (lit "orders")) .fresh,
          run.NoTrace (lit "orders") := by
  have returned
      : (WriteRun.failedFirst.foldl (WriteRun.step (lit "orders")) .fresh).returned
        = [{ messageID := 2, timestamp := 1, payloadSize := 0, payload := [] }] := by
    decide +kernel
  have files
      : ∀ fragment ∈ (WriteRun.failedFirst.foldl (WriteRun.step (lit "orders")) .fresh).fm.listed
            (lit "orders"),
          (WriteRun.failedFirst.foldl (WriteRun.step (lit "orders")) .fresh).fm.holdsNoMessage
            fragment = true := by
    decide +kernel
  have nothing (limit : Int64) (positive : 0 < limit) :=
    (readMessages_eq_nil_iff _ _ positive).mpr files
  refine ⟨returned, nothing, fun all => ?_⟩
  have last := all _ (foldl_mem_scanl _ _ _) 1 (by rw [returned]; decide)
  rw [returned] at last
  exact absurd ((nothing 1 (by decide)).symm.trans last) (by simp)

end Goulette.Storage
