import Goulette.Library.Runs
import Goulette.Library.WriteFaults
import Goulette.Storage.Wal

/-! Log writes that fail after some of their bytes. Behind such a rest the size of the next entry is
read from the wrong bytes.
-/

namespace Goulette.Storage

open Goulette.Go ByteFrames Runs WriteFaults List

def WALEntry.writes (entry : WALEntry) : List (GoString × Bytes) := [
  (lit "写入条目大小失败: ", bigEndian 4 entry.entrySize),
  (lit "写入条目类型失败: ", [entry.type]),
  (lit "写入Topic长度失败: ", bigEndian 4 entry.topic.length),
  (lit "写入Topic失败: ", entry.topic),
  (lit "写入消息ID失败: ", bigEndian 8 entry.messageID.toNat),
  (lit "写入负载长度失败: ", bigEndian 4 entry.payload.length),
  (lit "写入负载失败: ", entry.payload),
  (lit "写入时间戳失败: ", bigEndian 8 entry.timestamp.toUInt64.toNat)
]

theorem WALEntry.whole_writes (entry : WALEntry) : whole entry.writes = entry.encode := by
  simp [whole, writes, encode, body]

namespace WAL

/-- A call that never returns has no result. -/
def tryWrite (wal : WAL) (entry : WALEntry) (fault : Option (Fault GoError))
    : Option (WAL × Option GoError) :=
  if (wal.content.length : Int) ≥ wal.maxFileSize then none
  else
    let sent := attempt entry.writes fault
    some
      ({ wal with files := createFile wal.current (wal.content ++ sent.1) wal.files },
        sent.2.map (fun failure => failure.1 ++ failure.2))

/-- Without a fault the call is the one that succeeds. -/
theorem tryWrite_none (wal : WAL) (entry : WALEntry)
    : wal.tryWrite entry none = (wal.write entry).map (fun next => (next, none)) := by
  simp only [tryWrite, write, attempt_none, WALEntry.whole_writes]
  split <;> rfl

end WAL

structure LogCall where
  entry : WALEntry
  fault : Option (Fault GoError)
deriving DecidableEq, Repr

def LogCall.sent (call : LogCall) : Bytes × Option (GoString × GoError) :=
  attempt call.entry.writes call.fault

structure LogWrites where
  wal : WAL
  returned : List WALEntry

namespace LogWrites

def step (run : LogWrites) (call : LogCall) : LogWrites :=
  match run.wal.tryWrite call.entry call.fault with
  | none => run
  | some (wal, none) => { wal, returned := run.returned ++ [call.entry] }
  | some (wal, some _) => { run with wal }

def start (maxFileSize : Int) (second : Nat) : LogWrites :=
  { wal := .newWAL [] maxFileSize second, returned := [] }

/-- A replay hands every accepting handler the entries whose write returned nil. -/
def NoTrace (directory : GlobDirectory Nat) (run : LogWrites) : Prop :=
  ∀ (S : Type) (handler : S → WALEntry → S × Option GoError),
    (∀ state entry, (handler state entry).2 = none)
    → ∀ state,
        run.wal.replay handler directory state
        = run.returned.foldl (fun state entry => (handler state entry).1) state

/-- A call whose failure cannot be seen: the entry fits its size field, one whose writes fail
has not been written to its end, and nothing is written behind what is left of an earlier one.
A call on a full file waits for ever and writes nothing.
-/
structure Clean (run : LogWrites) (call : LogCall) : Prop where
  fits : call.entry.entrySize < 2 ^ 32
  cut : call.sent.2 ≠ none → call.sent.1 ≠ call.entry.encode
  behind
    : call.sent.1 = []
      ∨ (run.wal.content.length : Int) ≥ run.wal.maxFileSize
      ∨ run.wal.content.length
        = walHeader.length + (stream WALEntry.encode run.returned).length

instance (run : LogWrites) (call : LogCall) : Decidable (Clean run call) :=
  decidable_of_iff
    (call.entry.entrySize < 2 ^ 32
      ∧ (call.sent.2 ≠ none → call.sent.1 ≠ call.entry.encode)
      ∧ (call.sent.1 = []
          ∨ (run.wal.content.length : Int) ≥ run.wal.maxFileSize
          ∨ run.wal.content.length
            = walHeader.length + (stream WALEntry.encode run.returned).length))
    ⟨fun h => ⟨h.1, h.2.1, h.2.2⟩, fun h => ⟨h.fits, h.cut, h.behind⟩⟩

/-- What may follow the whole entries of a file: nothing, or something a replay stops at. -/
def Unread (rest : Bytes) : Prop := rest = [] ∨ ∃ error, nextEntry rest = .failed error

/-- The file holds the returned entries and a rest, and is the only one. -/
structure Keeps (run : LogWrites) (rest : Bytes) : Prop where
  files : run.wal.files
    = [(run.wal.current, walHeader ++ (stream WALEntry.encode run.returned ++ rest))]
  fits : ∀ entry ∈ run.returned, entry.entrySize < 2 ^ 32
  unread : Unread rest

variable {run : LogWrites} {rest : Bytes} {call : LogCall}

theorem keeps_start (maxFileSize : Int) (second : Nat) : Keeps (start maxFileSize second) [] where
  files := rfl
  fits := fun _ member => absurd member not_mem_nil
  unread := Or.inl rfl

namespace Keeps

theorem content (h : Keeps run rest)
    : run.wal.content = walHeader ++ (stream WALEntry.encode run.returned ++ rest) := by
  simp [WAL.content, fileContent, h.files]

theorem noTrace (h : Keeps run rest) {directory : GlobDirectory Nat}
    (literal : hasMeta directory.path = false)
    : run.NoTrace directory := by
  intro S handler accepts state
  have delivered :=
    replayEntries_stream (fun entry _ state => accepts state entry) h.fits state rest
  rw [WAL.replay, directory.literal literal, h.files, foldl_cons, foldl_nil,
    replayFile_header, delivered]
  rcases h.unread with rfl | ⟨error, failed⟩
  · rw [replayEntries_nil]
  · rw [replayEntries_failed _ failed]

theorem files_append (h : Keeps run rest) (bytes : Bytes)
    : createFile run.wal.current (run.wal.content ++ bytes) run.wal.files
      = [(run.wal.current,
          walHeader ++ (stream WALEntry.encode run.returned ++ (rest ++ bytes)))] := by
  rw [h.files, createFile, if_neg (Nat.lt_irrefl _), if_pos rfl, h.content]
  simp

/-- A whole entry behind the returned ones is one of them. -/
theorem push (h : Keeps run []) {entry : WALEntry} (fits : entry.entrySize < 2 ^ 32)
    : Keeps {
        wal :=
          { run.wal with
            files := createFile run.wal.current (run.wal.content ++ entry.encode) run.wal.files }
        returned := run.returned ++ [entry] } [] where
  files := by
    rw [h.files_append]
    simp [stream_append]
  fits := forall_mem_append.mpr ⟨h.fits, forall_mem_singleton.mpr fits⟩
  unread := Or.inl rfl

/-- A part of an entry behind the returned ones is a rest. -/
theorem tear (h : Keeps run rest) {part : Bytes} (unread : Unread (rest ++ part))
    : Keeps { run with
        wal :=
          { run.wal with
            files := createFile run.wal.current (run.wal.content ++ part) run.wal.files } }
        (rest ++ part) where
  files := h.files_append part
  fits := h.fits
  unread := unread

theorem step (h : Keeps run rest) (clean : Clean run call)
    : ∃ rest, Keeps (run.step call) rest := by
  obtain ⟨start, whole⟩ := attempt_spec call.entry.writes call.fault
  rw [WALEntry.whole_writes] at start whole
  have sent : attempt call.entry.writes call.fault = call.sent := rfl
  unfold LogWrites.step WAL.tryWrite
  by_cases full : (run.wal.content.length : Int) ≥ run.wal.maxFileSize
  · rw [if_pos full]
    exact ⟨rest, h⟩
  rw [if_neg full]
  -- a call that writes anything finds no rest
  have untorn : call.sent.1 = [] ∨ rest = [] := by
    rcases clean.behind with nothing | blocked | ends
    · exact Or.inl nothing
    · exact absurd blocked full
    · rw [h.content] at ends
      simp only [length_append] at ends
      exact Or.inr (length_eq_zero_iff.mp (by omega))
  simp only [sent]
  cases failed : call.sent.2 with
  | none =>
      have all : call.sent.1 = call.entry.encode := whole failed
      rw [untorn.resolve_left (by rw [all]; exact call.entry.encode_ne_nil)] at h
      rw [all]
      exact ⟨[], h.push clean.fits⟩
  | some failure =>
      refine ⟨rest ++ call.sent.1, h.tear ?_⟩
      rcases untorn with nothing | none
      · rw [nothing, append_nil]
        exact h.unread
      · rw [none, nil_append]
        by_cases empty : call.sent.1 = []
        · exact Or.inl empty
        · exact Or.inr (nextEntry_torn clean.fits start empty (clean.cut (by simp [failed])))

end Keeps

end LogWrites

/-- In every run of clean calls on a new log, a replay delivers exactly the entries whose write
returned nil, in order.
-/
theorem failedLogWrites_noTrace {directory : GlobDirectory Nat}
    (literal : hasMeta directory.path = false) (maxFileSize : Int) (second : Nat)
    (calls : List LogCall)
    (clean : AllSteps LogWrites.step LogWrites.Clean (.start maxFileSize second) calls)
    : ∀ run ∈ calls.scanl LogWrites.step (.start maxFileSize second), run.NoTrace directory := by
  intro run visited
  have keep (run : LogWrites) (call : LogCall) (clean : run.Clean call)
      (h : ∃ rest, run.Keeps rest)
      : ∃ rest, (run.step call).Keeps rest := by
    obtain ⟨rest, h⟩ := h
    exact h.step clean
  obtain ⟨rest, kept⟩ : ∃ rest, run.Keeps rest :=
    clean.always keep ⟨[], LogWrites.keeps_start maxFileSize second⟩ run visited
  exact kept.noTrace literal

namespace LogWrites

def diskFull : Fault GoError :=
  { write := 0, bytes := 2, error := lit "no space left on device" }

def failedFirst : List LogCall := [
  { entry := { type := 1, topic := [97], messageID := 1, payload := [7], timestamp := 5 }
    fault := some diskFull },
  { entry := { type := 1, topic := [97], messageID := 2, payload := [], timestamp := 6 }
    fault := none }
]

def dataLog : GlobDirectory Nat := .plain Nat (lit "data/wal")

end LogWrites

theorem failedLogWrites_noTrace_failedLast
    : AllSteps LogWrites.step LogWrites.Clean (.start 1000 3) LogWrites.failedFirst.reverse
      ∧ ∀ run ∈ LogWrites.failedFirst.reverse.scanl LogWrites.step (.start 1000 3),
          run.NoTrace LogWrites.dataLog := by
  have clean
      : AllSteps LogWrites.step LogWrites.Clean (.start 1000 3) LogWrites.failedFirst.reverse := by
    decide +kernel
  exact ⟨clean,
    @failedLogWrites_noTrace LogWrites.dataLog (by decide +kernel) 1000 3 _ clean⟩

/-- The second entry's write returned nil, but a replay takes the failed entry's bytes and the
first bytes of its size for an empty entry, and stops.
-/
theorem not_noTrace_log_failedFirst
    : (LogWrites.failedFirst.foldl LogWrites.step (.start 1000 3)).returned
        = [{ type := 1, topic := [97], messageID := 2, payload := [], timestamp := 6 }]
      ∧ ¬∀ run ∈ LogWrites.failedFirst.scanl LogWrites.step (.start 1000 3),
          run.NoTrace LogWrites.dataLog := by
  have returned
      : (LogWrites.failedFirst.foldl LogWrites.step (.start 1000 3)).returned
        = [{ type := 1, topic := [97], messageID := 2, payload := [], timestamp := 6 }] := by
    decide +kernel
  refine ⟨returned, fun all => ?_⟩
  have last := all _ (foldl_mem_scanl _ _ _) _ collect (fun _ _ => rfl) []
  have files
      : (LogWrites.failedFirst.foldl LogWrites.step (.start 1000 3)).wal.files
        = [(3, walHeader ++ (LogWrites.failedFirst.flatMap (fun call => call.sent.1)))] := by
    decide +kernel
  obtain ⟨error, failed⟩
      : ∃ error,
          nextEntry (LogWrites.failedFirst.flatMap (fun call => call.sent.1)) = .failed error :=
    ⟨_, rfl⟩
  rw [WAL.replay, LogWrites.dataLog.literal (by decide +kernel), files, foldl_cons,
    foldl_nil, replayFile_header, replayEntries_failed _ failed, returned] at last
  cases last

end Goulette.Storage
