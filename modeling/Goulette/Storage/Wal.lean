import Goulette.Go.Reader

/-! The write-ahead log of `internal/storage/wal.go`. File operations succeed; the periodic flush
has no effect on contents.
-/

namespace Goulette.Storage

open Goulette.Go ByteFrames List

variable {bytes : Bytes}

structure WALEntry where
  type : UInt8
  topic : GoString
  messageID : UInt64
  payload : Bytes
  timestamp : Int64
deriving DecidableEq, Repr

/-- The log directory and the file being written. A file is named after the clock second it
was created in, so that the directory listing, sorted by name, is in ascending order.
-/
structure WAL where
  files : List (Nat × Bytes)
  current : Nat
  maxFileSize : Int

def walHeader : Bytes := [0x57, 0x41, 0x4c, 0x31] ++ bigEndian 4 1

def createFile (second : Nat) (content : Bytes) : List (Nat × Bytes) → List (Nat × Bytes)
  | [] => [(second, content)]
  | (name, old) :: rest =>
      if second < name then (second, content) :: (name, old) :: rest
      else if second = name then (name, content) :: rest
      else (name, old) :: createFile second content rest

def fileContent (second : Nat) (files : List (Nat × Bytes)) : Bytes :=
  (files.lookup second).getD []

namespace WAL

def createNewFile (wal : WAL) (second : Nat) : WAL :=
  { wal with files := createFile second walHeader wal.files, current := second }

def newWAL (files : List (Nat × Bytes)) (maxFileSize : Int) (second : Nat) : WAL :=
  createNewFile { files, current := 0, maxFileSize } second

def content (wal : WAL) : Bytes := fileContent wal.current wal.files

end WAL

def WALEntry.entrySize (entry : WALEntry) : Nat :=
  1 + 4 + entry.topic.length + 8 + 4 + entry.payload.length + 8

/-- The writes of one entry behind its size, in order. A number longer than its field is
truncated.
-/
def WALEntry.body (entry : WALEntry) : Bytes :=
  [entry.type]
    ++ (bigEndian 4 entry.topic.length
    ++ (entry.topic
    ++ (bigEndian 8 entry.messageID.toNat
    ++ (bigEndian 4 entry.payload.length
    ++ (entry.payload
    ++ bigEndian 8 entry.timestamp.toUInt64.toNat)))))

def WALEntry.encode (entry : WALEntry) : Bytes := bigEndian 4 entry.entrySize ++ entry.body

namespace WAL

def write (wal : WAL) (entry : WALEntry) : Option WAL :=
  -- `createNewFile` waits for the lock that `Write` holds: the call never returns
  if (wal.content.length : Int) ≥ wal.maxFileSize then none
  else
    some { wal with
      files := createFile wal.current (wal.content ++ entry.encode) wal.files }

def writeMessage (wal : WAL) (now : Int64) (topic : GoString) (messageID : UInt64)
    (payload : Bytes)
    : Option WAL :=
  wal.write { type := 1, topic, messageID, payload, timestamp := now }

def writeRemoveTopic (wal : WAL) (now : Int64) (topic reason : GoString) : Option WAL :=
  wal.write { type := 2, topic, messageID := 0, payload := reason, timestamp := now }

end WAL

def parseEntry (data : Bytes) : Except GoError WALEntry :=
  if data.length < 1 then .error (lit "条目数据太短")
  else if 1 + 4 > data.length then .error (lit "数据不足，无法读取Topic长度")
  else
    let topicLen := fromBigEndian (slice data 1 4)
    if 5 + topicLen > data.length then .error (lit "数据不足，无法读取Topic")
    else
      let idOffset := 5 + topicLen
      if idOffset + 8 > data.length then .error (lit "数据不足，无法读取消息ID")
      else if idOffset + 8 + 4 > data.length then .error (lit "数据不足，无法读取负载长度")
      else
        let payloadLen := fromBigEndian (slice data (idOffset + 8) 4)
        let payloadOffset := idOffset + 12
        if payloadOffset + payloadLen > data.length then .error (lit "数据不足，无法读取负载")
        else if payloadOffset + payloadLen + 8 > data.length then
          .error (lit "数据不足，无法读取时间戳")
        else
          .ok {
            type := data.headD 0
            topic := slice data 5 topicLen
            messageID := UInt64.ofNat (fromBigEndian (slice data idOffset 8))
            payload := slice data payloadOffset payloadLen
            timestamp :=
              (UInt64.ofNat (fromBigEndian (slice data (payloadOffset + payloadLen) 8))).toInt64
          }

/-- What one round of the replay loop finds in front of it. -/
inductive NextEntry
  | finished
  | failed (error : GoError)
  | entry (entry : WALEntry) (rest : Bytes)

def nextEntry (bytes : Bytes) : NextEntry :=
  match readFull 4 bytes with
  | .error .eof => .finished
  | .error .unexpectedEOF =>
      .failed (lit "读取条目大小失败: " ++ ReadError.unexpectedEOF.text)
  | .ok (entrySize, rest) =>
      match readFull (fromBigEndian entrySize) rest with
      | .error failure => .failed (lit "读取条目数据失败: " ++ failure.text)
      | .ok (entryData, rest) =>
          match parseEntry entryData with
          | .error failure => .failed (lit "解析条目失败: " ++ failure)
          | .ok entry => .entry entry rest

variable {entry : WALEntry}

/-- A found entry took its bytes from the front of the file. -/
theorem nextEntry_shorter {rest : Bytes} (next : nextEntry bytes = .entry entry rest)
    : rest.length < bytes.length := by
  unfold nextEntry at next
  split at next
  · cases next
  · cases next
  · next entrySize behind read =>
      split at next
      · cases next
      · next entryData left readData =>
          split at next
          · cases next
          · cases next
            have first := congrArg List.length (readFull_ok read).1
            have second := congrArg List.length (readFull_ok readData).1
            have size := (readFull_ok read).2
            simp only [length_append] at first second
            omega

/-- The characters that make a pattern of a path. -/
def hasMeta (path : GoString) : Bool := path.any (fun byte => byte ∈ lit "*?[\\")

/-- A directory and what `Glob` finds there, given its files. A path with such characters stands for
other directories, and need not match itself.
-/
structure GlobDirectory (Name : Type) where
  path : GoString
  glob : List (Name × Bytes) → List (Name × Bytes)
  literal : hasMeta path = false → ∀ files, glob files = files

def GlobDirectory.plain (Name : Type) (path : GoString) : GlobDirectory Name :=
  ⟨path, id, fun _ _ => rfl⟩

section Replay

variable {S : Type} (handler : S → WALEntry → S × Option GoError)

/-- The entry loop of `replayFile`; a missing error is a nil one. -/
def replayEntries (state : S) (bytes : Bytes) : S × Option GoError :=
  match _next : nextEntry bytes with
  | .finished => (state, none)
  | .failed error => (state, some error)
  | .entry entry rest =>
      match handler state entry with
      | (state, some failure) => (state, some (lit "处理条目失败: " ++ failure))
      | (state, none) => replayEntries state rest
termination_by bytes.length
decreasing_by exact nextEntry_shorter _next

def replayFile (state : S) (bytes : Bytes) : S × Option GoError :=
  match readFull 4 bytes with
  | .error failure => (state, some (lit "读取WAL魔数失败: " ++ failure.text))
  | .ok (magic, rest) =>
      if magic ≠ [0x57, 0x41, 0x4c, 0x31] then (state, some (lit "无效的WAL文件格式"))
      else
        match readFull 4 rest with
        | .error failure => (state, some (lit "读取WAL版本失败: " ++ failure.text))
        | .ok (_, rest) => replayEntries handler state rest

/-- A file that cannot be replayed to its end is skipped from there. -/
def WAL.replay (directory : GlobDirectory Nat) (wal : WAL) (state : S) : S :=
  (directory.glob wal.files).foldl (fun state file => (replayFile handler state file.2).1) state

end Replay

/-! Entries survive the round trip. -/

@[simp] theorem WALEntry.body_length (entry : WALEntry)
    : entry.body.length = entry.entrySize := by
  simp only [WALEntry.body, WALEntry.entrySize, length_append, bigEndian_length,
    length_singleton]
  omega

theorem WALEntry.encode_ne_nil (entry : WALEntry) : entry.encode ≠ [] := by
  intro empty
  have length := congrArg List.length empty
  simp [WALEntry.encode] at length

/-- The fields of an entry whose length fields tell the lengths of topic and payload, whatever
follows them. Each slice that the parser takes skips the fields in front of it.
-/
theorem parseEntry_fields {type : UInt8}
    {topicLen topic messageID payloadLen payload timestamp : Bytes}
    (topicLenSize : topicLen.length = 4) (topicSize : topic.length = fromBigEndian topicLen)
    (idSize : messageID.length = 8) (payloadLenSize : payloadLen.length = 4)
    (payloadSize : payload.length = fromBigEndian payloadLen) (timeSize : timestamp.length = 8)
    (rest : Bytes)
    : parseEntry ([type] ++ (topicLen ++ (topic ++ (messageID ++ (payloadLen ++ (payload
          ++ (timestamp ++ rest)))))))
      = .ok {
          type
          topic
          messageID := UInt64.ofNat (fromBigEndian messageID)
          payload
          timestamp := (UInt64.ofNat (fromBigEndian timestamp)).toInt64 } := by
  generalize whole
    : [type] ++ (topicLen ++ (topic ++ (messageID ++ (payloadLen ++ (payload
        ++ (timestamp ++ rest)))))) = data
  have length : data.length = 25 + topic.length + payload.length + rest.length := by
    rw [← whole]
    simp only [length_append, length_singleton, topicLenSize, idSize, payloadLenSize,
      timeSize]
    omega
  have head : data.headD 0 = type := by
    rw [← whole]
    rfl
  have first : slice data 1 4 = topicLen := by
    rw [← whole, slice_behind _ _ 0 (by simp), slice_head _ _ topicLenSize]
  have second : slice data 5 topic.length = topic := by
    rw [← whole, slice_behind _ _ 4 (by simp), slice_behind _ _ 0 (by omega), slice_head _ _ rfl]
  have third : slice data (5 + topic.length) 8 = messageID := by
    rw [← whole, slice_behind _ _ (4 + topic.length) (by simp; omega),
      slice_behind _ _ topic.length (by omega), slice_behind _ _ 0 (by omega),
      slice_head _ _ idSize]
  have fourth : slice data (5 + topic.length + 8) 4 = payloadLen := by
    rw [← whole, slice_behind _ _ (12 + topic.length) (by simp; omega),
      slice_behind _ _ (8 + topic.length) (by omega), slice_behind _ _ 8 (by omega),
      slice_behind _ _ 0 (by omega), slice_head _ _ payloadLenSize]
  have fifth : slice data (5 + topic.length + 12) payload.length = payload := by
    rw [← whole, slice_behind _ _ (16 + topic.length) (by simp; omega),
      slice_behind _ _ (12 + topic.length) (by omega), slice_behind _ _ 12 (by omega),
      slice_behind _ _ 4 (by omega), slice_behind _ _ 0 (by omega), slice_head _ _ rfl]
  have sixth : slice data (5 + topic.length + 12 + payload.length) 8 = timestamp := by
    rw [← whole, slice_behind _ _ (16 + topic.length + payload.length) (by simp; omega),
      slice_behind _ _ (12 + topic.length + payload.length) (by omega),
      slice_behind _ _ (12 + payload.length) (by omega),
      slice_behind _ _ (4 + payload.length) (by omega), slice_behind _ _ payload.length (by omega),
      slice_behind _ _ 0 (by omega), slice_head _ _ timeSize]
  unfold parseEntry
  simp only [first, ← topicSize, fourth, ← payloadSize, length]
  rw [if_neg (by omega), if_neg (by omega), if_neg (by omega), if_neg (by omega),
    if_neg (by omega), if_neg (by omega), if_neg (by omega)]
  simp only [head, second, third, fifth, sixth]

def WALEntry.Fits (entry : WALEntry) : Prop :=
  entry.topic.length < 2 ^ 32 ∧ entry.payload.length < 2 ^ 32

/-- The parser inverts the writes, whatever follows them. -/
theorem parseEntry_body (fits : entry.Fits) (rest : Bytes)
    : parseEntry (entry.body ++ rest) = .ok entry := by
  have topicFits : fromBigEndian (bigEndian 4 entry.topic.length) = entry.topic.length :=
    fromBigEndian_of_lt fits.1
  have payloadFits : fromBigEndian (bigEndian 4 entry.payload.length) = entry.payload.length :=
    fromBigEndian_of_lt fits.2
  have idFits
      : fromBigEndian (bigEndian 8 entry.messageID.toNat) = entry.messageID.toNat :=
    fromBigEndian_of_lt entry.messageID.toNat_lt
  have timeFits
      : fromBigEndian (bigEndian 8 entry.timestamp.toUInt64.toNat)
        = entry.timestamp.toUInt64.toNat :=
    fromBigEndian_of_lt entry.timestamp.toUInt64.toNat_lt
  have parsed := @parseEntry_fields entry.type _ entry.topic _ _ entry.payload _
    (bigEndian_length 4 _) topicFits.symm (bigEndian_length 8 entry.messageID.toNat)
    (bigEndian_length 4 _) payloadFits.symm
    (bigEndian_length 8 entry.timestamp.toUInt64.toNat) rest
  simpa only [WALEntry.body, append_assoc, idFits, timeFits, UInt64.ofNat_toNat,
    Int64.toInt64_toUInt64] using parsed

theorem WALEntry.fits_of_entrySize (small : entry.entrySize < 2 ^ 32)
    : entry.Fits := by
  unfold WALEntry.entrySize at small
  exact ⟨by omega, by omega⟩

theorem nextEntry_encode (fits : entry.entrySize < 2 ^ 32) (rest : Bytes)
    : nextEntry (entry.encode ++ rest) = .entry entry rest := by
  have readSize
      : readFull 4 (entry.encode ++ rest)
        = .ok (bigEndian 4 entry.entrySize, entry.body ++ rest) := by
    rw [WALEntry.encode, append_assoc]
    exact readFull_append (bigEndian_length _ _) _
  have readData
      : readFull (fromBigEndian (bigEndian 4 entry.entrySize)) (entry.body ++ rest)
        = .ok (entry.body, rest) := by
    rw [fromBigEndian_of_lt (by omega)]
    exact readFull_append entry.body_length _
  have parsed := parseEntry_body (WALEntry.fits_of_entrySize fits) []
  rw [append_nil] at parsed
  simp only [nextEntry, readSize, readData, parsed]

/-- An entry cut anywhere behind its first byte is an error: its size cannot be read, or its
data ends early.
-/
theorem nextEntry_torn (fits : entry.entrySize < 2 ^ 32) {tail : Bytes}
    (part : tail <+: entry.encode) (some : tail ≠ []) (proper : tail ≠ entry.encode)
    : ∃ error, nextEntry tail = .failed error := by
  have short : tail.length < 4 + entry.entrySize := by
    have le := part.length_le
    have ne : tail.length ≠ entry.encode.length := fun same => proper (part.eq_of_length same)
    simp only [WALEntry.encode, length_append, bigEndian_length,
      WALEntry.body_length] at le ne
    omega
  rcases Nat.lt_or_ge tail.length 4 with inSize | behind
  · exact ⟨_, by simp only [nextEntry, readFull_short inSize some]; rfl⟩
  · obtain ⟨data, rfl⟩ : bigEndian 4 entry.entrySize <+: tail :=
      prefix_of_prefix_length_le (prefix_append _ _) part (by simpa using behind)
    have readSize := readFull_append (bigEndian_length 4 entry.entrySize) data
    have dataShort : data.length < fromBigEndian (bigEndian 4 entry.entrySize) := by
      rw [fromBigEndian_of_lt (by omega)]
      simp only [length_append, bigEndian_length] at short
      omega
    cases readData : readFull (fromBigEndian (bigEndian 4 entry.entrySize)) data with
    | error failure => exact ⟨_, by simp only [nextEntry, readSize, readData]; rfl⟩
    | ok found =>
        have split := congrArg List.length (readFull_ok readData).1
        have size := (readFull_ok readData).2
        simp only [length_append] at split
        omega

variable {entries : List WALEntry}

section Replay

variable {S : Type} {handler : S → WALEntry → S × Option GoError}

/-- Replaying whole entries hands them to a handler that accepts them in order and goes on behind
them, by induction on the entries.
-/
theorem replayEntries_stream (accepts : ∀ entry ∈ entries, ∀ state, (handler state entry).2 = none)
    (fits : ∀ entry ∈ entries, entry.entrySize < 2 ^ 32) (state : S) (rest : Bytes)
    : replayEntries handler state (stream WALEntry.encode entries ++ rest)
      = replayEntries handler
          (entries.foldl (fun state entry => (handler state entry).1) state) rest := by
  induction entries generalizing state with
  | nil => rfl
  | cons entry more ih =>
      have handled : handler state entry = ((handler state entry).1, none) := by
        rw [← accepts entry mem_cons_self state]
      rw [stream_cons, append_assoc, replayEntries,
        nextEntry_encode (fits entry mem_cons_self)]
      simp only
      rw [handled]
      exact ih (fun other member => accepts other (mem_cons_of_mem _ member))
        (fun other member => fits other (mem_cons_of_mem _ member)) _

theorem replayEntries_nil (state : S) : replayEntries handler state [] = (state, none) := by
  rw [replayEntries, show nextEntry [] = .finished from rfl]

theorem replayEntries_failed (state : S) {error : GoError}
    (failed : nextEntry bytes = .failed error)
    : replayEntries handler state bytes = (state, some error) := by
  rw [replayEntries, failed]

theorem replayFile_header (state : S) (rest : Bytes)
    : replayFile handler state (walHeader ++ rest) = replayEntries handler state rest := by
  have magic : readFull 4 (walHeader ++ rest)
      = .ok ([0x57, 0x41, 0x4c, 0x31], bigEndian 4 1 ++ rest) := by
    rw [walHeader, append_assoc]
    exact readFull_append (rfl : ([0x57, 0x41, 0x4c, 0x31] : Bytes).length = 4) _
  have version := readFull_append (bigEndian_length 4 1) rest
  simp only [replayFile, magic, version, ne_eq, not_true_eq_false, if_false]

theorem replayFile_whole (accepts : ∀ entry ∈ entries, ∀ state, (handler state entry).2 = none)
    (fits : ∀ entry ∈ entries, entry.entrySize < 2 ^ 32) (state : S)
    : replayFile handler state (walHeader ++ stream WALEntry.encode entries)
      = (entries.foldl (fun state entry => (handler state entry).1) state, none) := by
  have whole := replayEntries_stream accepts fits state []
  rw [append_nil, replayEntries_nil] at whole
  rw [replayFile_header, whole]

/-- Whole files hand over the entries of all of them, one file behind the other. -/
theorem replayFiles_whole {groups : List (List WALEntry)}
    (accepts : ∀ entry ∈ groups.flatten, ∀ state, (handler state entry).2 = none)
    (fits : ∀ entry ∈ groups.flatten, entry.entrySize < 2 ^ 32) (state : S)
    : groups.foldl
        (fun state entries =>
          (replayFile handler state (walHeader ++ stream WALEntry.encode entries)).1) state
      = groups.flatten.foldl (fun state entry => (handler state entry).1) state := by
  induction groups generalizing state with
  | nil => rfl
  | cons entries rest ih =>
      rw [flatten_cons] at accepts fits
      have whole := replayFile_whole
        (fun entry member => accepts entry (mem_append_left _ member))
        (fun entry member => fits entry (mem_append_left _ member)) state
      rw [flatten_cons, foldl_cons, foldl_append, whole]
      exact ih (fun entry member => accepts entry (mem_append_right _ member))
        (fun entry member => fits entry (mem_append_right _ member)) _

theorem replayFile_short (state : S) (part : bytes <+: walHeader) (short : bytes.length < 8)
    : ∃ error, replayFile handler state bytes = (state, some error) := by
  cases magic : readFull 4 bytes with
  | error failure => exact ⟨_, by simp only [replayFile, magic]; rfl⟩
  | ok found =>
      obtain ⟨split, size⟩ := readFull_ok magic
      have start : found.1 = [0x57, 0x41, 0x4c, 0x31] := by
        rw [split] at part
        exact (prefix_of_prefix_length_le ((prefix_append _ _).trans part)
          (prefix_append _ _) (by simp [size])).eq_of_length (by simp [size])
      cases version : readFull 4 found.2 with
      | error failure => exact ⟨_, by simp only [replayFile, magic, start, version]; rfl⟩
      | ok rest =>
          have lengths := congrArg List.length (readFull_ok version).1
          have total := congrArg List.length split
          have versionSize := (readFull_ok version).2
          simp only [length_append] at lengths total
          omega

/-- Replaying a torn file: the handler gets the whole entries, and the replay fails unless
nothing but whole entries follows a whole header.
-/
theorem replayFile_torn (accepts : ∀ state entry, (handler state entry).2 = none)
    (fits : ∀ entry ∈ entries, entry.entrySize < 2 ^ 32) (state : S) {k : Nat} {tail : Bytes}
    (torn : Torn WALEntry.encode entries k tail)
    : (replayFile handler state
          (walHeader ++ (stream WALEntry.encode (entries.take k) ++ tail))).1
        = (entries.take k).foldl (fun state entry => (handler state entry).1) state
      ∧ ((replayFile handler state
            (walHeader ++ (stream WALEntry.encode (entries.take k) ++ tail))).2 = none
          ↔ tail = []) := by
  rw [replayFile_header,
    replayEntries_stream (fun entry _ state => accepts state entry)
      (fun entry member => fits entry (mem_of_mem_take member))]
  rcases torn with rfl | ⟨entry, found, part, some, proper⟩
  · rw [replayEntries_nil]
    exact ⟨rfl, by simp⟩
  · obtain ⟨error, failed⟩ :=
      nextEntry_torn (fits entry (mem_of_getElem? found)) part some proper
    rw [replayEntries_failed _ failed]
    exact ⟨rfl, by simp [some]⟩

end Replay

@[simp] theorem fileContent_createFile (second : Nat) (content : Bytes)
    (files : List (Nat × Bytes))
    : fileContent second (createFile second content files) = content := by
  induction files with
  | nil => simp [createFile, fileContent]
  | cons file rest ih =>
      obtain ⟨name, old⟩ := file
      simp only [createFile]
      split
      · simp [fileContent]
      · split
        · next same => simp [fileContent, same]
        · next different =>
            have apart : (second == name) = false := by simpa using different
            simpa [fileContent, lookup_cons, apart] using ih

namespace WAL

def writeAll (wal : WAL) (entries : List WALEntry) : Option WAL := entries.foldlM write wal

/-- A returned write appends the entry's bytes. -/
theorem write_content {wal next : WAL} (written : wal.write entry = some next)
    : next.content = wal.content ++ entry.encode := by
  unfold write at written
  split at written
  · cases written
  · cases written
    exact fileContent_createFile _ _ _

theorem writeAll_content {wal last : WAL} (written : wal.writeAll entries = some last)
    : last.content = wal.content ++ stream WALEntry.encode entries := by
  induction entries generalizing wal with
  | nil =>
      cases written
      simp
  | cons entry rest ih =>
      obtain ⟨next, first, more⟩ := Option.bind_eq_some_iff.mp written
      rw [ih more, write_content first, append_assoc, stream_cons]

theorem newWAL_content (files : List (Nat × Bytes)) (maxFileSize : Int) (second : Nat)
    : (newWAL files maxFileSize second).content = walHeader :=
  fileContent_createFile _ _ _

end WAL

/-- Replay of any crash prefix of a file written by the log: an accepting handler is called
with exactly the entries whose bytes lie wholly inside the prefix, in order, and the replay
returns nil if and only if the prefix ends behind the header on an entry boundary.
-/
theorem replayFile_crash {S : Type} {handler : S → WALEntry → S × Option GoError}
    (accepts : ∀ state entry, (handler state entry).2 = none)
    (files : List (Nat × Bytes)) (maxFileSize : Int) (second : Nat) {entries : List WALEntry}
    (fits : ∀ entry ∈ entries, entry.entrySize < 2 ^ 32) {wal : WAL}
    (written : (WAL.newWAL files maxFileSize second).writeAll entries = some wal)
    {crashed : Bytes} (part : crashed <+: wal.content) (state : S)
    : ∃ k ≤ entries.length,
        (∀ i < entries.length,
          i < k
            ↔ (walHeader ++ stream WALEntry.encode (entries.take (i + 1))).length
              ≤ crashed.length)
        ∧ (replayFile handler state crashed).1
          = (entries.take k).foldl (fun state entry => (handler state entry).1) state
        ∧ ((replayFile handler state crashed).2 = none
          ↔ ∃ j ≤ entries.length,
              crashed.length
                = (walHeader ++ stream WALEntry.encode (entries.take j)).length) := by
  have header : walHeader.length = 8 := by simp [walHeader]
  rw [WAL.writeAll_content written, WAL.newWAL_content] at part
  rcases Nat.lt_or_ge crashed.length 8 with short | whole
  · have inHeader : crashed <+: walHeader :=
      prefix_of_prefix_length_le part (prefix_append _ _) (by omega)
    obtain ⟨error, failed⟩ : ∃ error, replayFile handler state crashed = (state, some error) :=
      replayFile_short state inHeader short
    refine ⟨0, Nat.zero_le _, fun i _ => ?_, by rw [failed]; rfl, ?_⟩
    · simp only [length_append, header]
      omega
    · rw [failed]
      constructor
      · intro returned
        cases returned
      · intro boundary
        obtain ⟨j, _, ends⟩ := boundary
        simp only [length_append, header] at ends
        omega
  · obtain ⟨rest, rfl⟩ : walHeader <+: crashed :=
      prefix_of_prefix_length_le (prefix_append _ _) part (by omega)
    have inStream := (prefix_append_right_inj walHeader).mp part
    obtain ⟨k, tail, cut, bound, torn⟩ := take_stream WALEntry.encode entries rest.length
    rw [← prefix_iff_eq_take.mp inStream] at cut
    obtain ⟨calls, returned⟩ := replayFile_torn accepts fits state torn
    have nonempty := WALEntry.encode_ne_nil
    subst cut
    refine ⟨k, bound, fun i inside => ?_, calls, returned.trans ?_⟩
    · rw [torn.lt_iff nonempty bound inside]
      simp only [length_append]
      omega
    · rw [torn.boundary_iff nonempty bound]
      simp only [length_append, Nat.add_left_cancel_iff]

def twoMessages : List WALEntry :=
  [
    { type := 1, topic := [97], messageID := 1, payload := [7], timestamp := 5 },
    { type := 1, topic := [97], messageID := 2, payload := [], timestamp := -1 }
  ]

def collect (seen : List WALEntry) (entry : WALEntry) : List WALEntry × Option GoError :=
  (seen ++ [entry], none)

/-- A log with both messages, cut inside the second one: only the first is replayed. -/
theorem replayFile_crash_twoMessages
    : ∃ wal,
        (WAL.newWAL [] 1000 3).writeAll twoMessages = some wal
        ∧ (∀ entry ∈ twoMessages, entry.entrySize < 2 ^ 32)
        ∧ (replayFile collect [] (wal.content.take 45)).1 = twoMessages.take 1 := by
  obtain ⟨wal, written⟩ : ∃ wal, (WAL.newWAL [] 1000 3).writeAll twoMessages = some wal :=
    ⟨_, rfl⟩
  have length : (wal.content.take 45).length = 45 := by
    rw [WAL.writeAll_content written, WAL.newWAL_content]
    decide
  obtain ⟨k, bound, inside, calls, _⟩ :=
    replayFile_crash (fun _ _ => rfl : ∀ state entry, (collect state entry).2 = none) [] 1000 3
      (by decide) written (List.take_prefix 45 _) []
  have first : 0 < k := (inside 0 (by decide)).mpr (by rw [length]; decide)
  have second : ¬1 < k := by
    intro more
    exact absurd ((inside 1 (by decide)).mp more) (by rw [length]; decide)
  have only : k = 1 := by omega
  refine ⟨wal, written, by decide, ?_⟩
  rw [calls, only]
  rfl

end Goulette.Storage
