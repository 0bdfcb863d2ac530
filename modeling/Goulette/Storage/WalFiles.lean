import Goulette.Library.Runs
import Goulette.Library.SortedRecords
import Goulette.Storage.Wal

/-! The files of the write-ahead log over starts, rotations and restarts. Names, which have whole
seconds, decide which file is truncated and in which order the files are replayed.
-/

namespace Goulette.Storage

open Goulette.Go ByteFrames Runs List

/-- The name of a file; the text is what `time.Now().Format("20060102_150405")` gives. -/
def walName (timestamp : GoString) : GoString := lit "wal_" ++ timestamp ++ lit ".log"

structure LogDirectory where
  files : List (GoString × Bytes)
  currentPath : GoString
  isOpen : Bool
  maxFileSize : Int

namespace LogDirectory

def empty : LogDirectory := { files := [], currentPath := [], isOpen := false, maxFileSize := 0 }

def createNewFile (log : LogDirectory) (timestamp : GoString) : LogDirectory :=
  { log with
    -- `os.Create` truncates a file of the same name
    files := SortedRecords.put (walName timestamp) walHeader log.files
    currentPath := walName timestamp
    isOpen := true }

/-- A start on the files of an earlier log, which may or may not have been closed. -/
def newWAL (log : LogDirectory) (maxFileSize : Int) (timestamp : GoString) : LogDirectory :=
  createNewFile { log with maxFileSize } timestamp

def content (log : LogDirectory) : Bytes :=
  (SortedRecords.get log.currentPath log.files).getD []

def isFull (log : LogDirectory) : Bool := decide ((log.content.length : Int) ≥ log.maxFileSize)

def append (log : LogDirectory) (bytes : Bytes) : LogDirectory :=
  { log with files := SortedRecords.put log.currentPath (log.content ++ bytes) log.files }

/-- `Write` with a rotation that completes; an error if the log has been closed. -/
def write (log : LogDirectory) (timestamp : GoString) (entry : WALEntry) : Option LogDirectory :=
  if !log.isOpen then none
  else if log.isFull then some ((log.createNewFile timestamp).append entry.encode)
  else some (log.append entry.encode)

def close (log : LogDirectory) : LogDirectory := { log with isOpen := false }

def replay {S : Type} (handler : S → WALEntry → S × Option GoError)
    (directory : GlobDirectory GoString) (log : LogDirectory) (state : S)
    : S :=
  -- a file that cannot be replayed to its end is skipped from there
  (directory.glob log.files).foldl (fun state file => (replayFile handler state file.2).1) state

end LogDirectory

def WAL.named (text : Nat → GoString) (wal : WAL) : LogDirectory where
  files := wal.files.map (fun file => (walName (text file.1), file.2))
  currentPath := walName (text wal.current)
  isOpen := true
  maxFileSize := wal.maxFileSize

section Named

variable {text : Nat → GoString}
  (ascending : ∀ early late, early < late → walName (text early) < walName (text late))
include ascending

/-- Where later seconds have later names, files are created in the same places. -/
theorem createFile_named (second : Nat) (content : Bytes) (files : List (Nat × Bytes))
    : (createFile second content files).map (fun file => (walName (text file.1), file.2))
      = SortedRecords.put (walName (text second)) content
          (files.map (fun file => (walName (text file.1), file.2))) := by
  induction files with
  | nil => rfl
  | cons file rest ih =>
      obtain ⟨name, old⟩ := file
      simp only [createFile, map_cons, SortedRecords.put]
      rcases Nat.lt_trichotomy second name with less | same | greater
      · simp [less, ascending second name less]
      · subst same
        have irrefl : ¬walName (text second) < walName (text second) := Std.lt_irrefl
        simp [irrefl]
      · have above := ascending name second greater
        have below : ¬walName (text second) < walName (text name) :=
          fun other => Std.lt_irrefl (Std.lt_trans above other)
        rw [if_neg (by omega), if_neg (by omega), if_neg below, if_pos above, map_cons, ih]

theorem fileContent_named (second : Nat) (files : List (Nat × Bytes))
    : (SortedRecords.get (walName (text second))
        (files.map (fun file => (walName (text file.1), file.2)))).getD []
      = fileContent second files := by
  have injective {first second : Nat} (same : walName (text first) = walName (text second))
      : first = second := by
    rcases Nat.lt_trichotomy first second with less | equal | greater
    · exact absurd (same ▸ ascending first second less) Std.lt_irrefl
    · exact equal
    · exact absurd (same ▸ ascending second first greater) Std.lt_irrefl
  induction files with
  | nil => rfl
  | cons file rest ih =>
      obtain ⟨name, old⟩ := file
      by_cases same : second = name
      · subst same
        simp [SortedRecords.get, fileContent]
      · have different : ¬walName (text name) = walName (text second) :=
          fun equal => same (injective equal).symm
        have apart : (second == name) = false := by simpa using same
        simpa [SortedRecords.get, fileContent, lookup_cons, apart, different] using ih

theorem createNewFile_named (wal : WAL) (second : Nat)
    : (wal.createNewFile second).named text = (wal.named text).createNewFile (text second) := by
  simp only [WAL.named, WAL.createNewFile, LogDirectory.createNewFile,
    createFile_named ascending]

/-- Both logs are full at once, and an append keeps them the same. -/
theorem append_named (wal : WAL) (bytes : Bytes)
    : (wal.named text).isFull = decide ((wal.content.length : Int) ≥ wal.maxFileSize)
      ∧ (wal.named text).append bytes
        = WAL.named text
            { wal with files := createFile wal.current (wal.content ++ bytes) wal.files } := by
  have content : (wal.named text).content = wal.content := fileContent_named ascending _ _
  refine ⟨by rw [LogDirectory.isFull, content]; rfl, ?_⟩
  rw [LogDirectory.append, content]
  simp only [WAL.named, createFile_named ascending]

/-- A write that the log named by seconds completes is the same write. -/
theorem write_named {wal next : WAL} {entry : WALEntry} (written : wal.write entry = some next)
    (timestamp : GoString)
    : (wal.named text).write timestamp entry = some (next.named text) := by
  obtain ⟨full, appended⟩ := append_named ascending wal entry.encode
  unfold WAL.write at written
  split at written
  · cases written
  · next room =>
      cases written
      rw [LogDirectory.write, full, appended, decide_eq_false room]
      rfl

end Named

inductive LogAction
  | newWAL (maxFileSize : Int)
  | write (entry : WALEntry)
  | close
deriving DecidableEq, Repr

structure LogRun where
  log : LogDirectory
  written : List WALEntry

def HoldsEntries (content : Bytes) : Prop := walHeader.length < content.length

instance (content : Bytes) : Decidable (HoldsEntries content) :=
  inferInstanceAs (Decidable (_ < _))

def LogAction.Fits : LogAction → Prop
  | .write entry => entry.entrySize < 2 ^ 32
  | _ => True

instance : DecidablePred LogAction.Fits
  | .newWAL _ => .isTrue trivial
  | .write entry => inferInstanceAs (Decidable (entry.entrySize < 2 ^ 32))
  | .close => .isTrue trivial

def LogDirectory.creates (log : LogDirectory) : LogAction → Bool
  | .newWAL _ => true
  | .write _ => log.isOpen && log.isFull
  | .close => false

namespace LogRun

def start : LogRun := { log := .empty, written := [] }

section Steps

variable (stamp : Int → GoString)

def step (run : LogRun) (action : Int × LogAction) : LogRun :=
  match action.2 with
  | .newWAL maxFileSize => { run with log := run.log.newWAL maxFileSize (stamp action.1) }
  | .write entry =>
      match run.log.write (stamp action.1) entry with
      | none => run
      | some log => { log, written := run.written ++ [entry] }
  | .close => { run with log := run.log.close }

/-- No file that holds entries is truncated. -/
def Spares (run : LogRun) (action : Int × LogAction) : Prop :=
  run.log.creates action.2
  → ∀ file ∈ run.log.files, file.1 = walName (stamp action.1) → ¬HoldsEntries file.2

/-- A new file is named behind all files that hold entries. -/
def NamesAscend (run : LogRun) (action : Int × LogAction) : Prop :=
  (run.log.creates action.2
    → ∀ file ∈ run.log.files, HoldsEntries file.2 → file.1 < walName (stamp action.1))
  ∧ action.2.Fits

theorem NamesAscend.spares {run : LogRun} {action : Int × LogAction}
    (h : run.NamesAscend stamp action)
    : run.Spares stamp action := by
  intro creates file member same holds
  have less := h.1 creates file member holds
  rw [same] at less
  exact Std.lt_irrefl less

instance (run : LogRun) : DecidablePred (run.NamesAscend stamp) := fun _ =>
  inferInstanceAs (Decidable ((_ → ∀ file ∈ _, _) ∧ _))

end Steps

def Replayed (directory : GlobDirectory GoString) (run : LogRun) : Prop :=
  run.log.replay collect directory [] = run.written

end LogRun

/-! What ascending names keep. -/

def logContent (entries : List WALEntry) : Bytes := walHeader ++ stream WALEntry.encode entries

theorem holdsEntries_logContent {entries : List WALEntry} (nonempty : entries ≠ [])
    : HoldsEntries (logContent entries) := by
  obtain ⟨entry, rest, rfl⟩ := exists_cons_of_ne_nil nonempty
  have length := length_pos_of_ne_nil entry.encode_ne_nil
  rw [HoldsEntries, logContent, stream_cons]
  simp only [length_append]
  omega

theorem collect_foldl (seen entries : List WALEntry)
    : entries.foldl (fun seen entry => (collect seen entry).1) seen = seen ++ entries := by
  induction entries generalizing seen with
  | nil => rw [foldl_nil, append_nil]
  | cons entry rest ih => rw [foldl_cons, ih, collect, append_assoc, singleton_append]

/-- The files hold groups of entries that are what was written, and the open file is followed
by empty files only.
-/
structure LogRun.Recorded (run : LogRun) (groups : List (GoString × List WALEntry)) : Prop where
  files : run.log.files = groups.map (fun group => (group.1, logContent group.2))
  sorted : SortedRecords.Sorted groups
  written : groups.flatMap Prod.snd = run.written
  current
    : run.log.isOpen
      → ∃ below entries above,
          SortedRecords.Cut run.log.currentPath groups below (some entries) above
          ∧ above.flatMap Prod.snd = []
  fits : ∀ entry ∈ run.written, entry.entrySize < 2 ^ 32

namespace LogRun.Recorded

variable {run : LogRun} {groups : List (GoString × List WALEntry)}

theorem start : Recorded .start [] where
  files := rfl
  sorted := .nil
  written := rfl
  current := by intro opened; cases opened
  fits := by intro entry member; cases member

variable (h : Recorded run groups)
include h

/-- A new file behind all files that hold entries, by a cut of the groups at its name. -/
theorem create {timestamp : GoString}
    (ascends : ∀ file ∈ run.log.files, HoldsEntries file.2 → file.1 < walName timestamp)
    (maxFileSize : Int)
    : Recorded { run with log := run.log.newWAL maxFileSize timestamp }
        (SortedRecords.put (walName timestamp) [] groups) := by
  obtain ⟨below, own, above, cut⟩ := h.sorted.cut (walName timestamp)
  have empty (group : GoString × List WALEntry) (member : group ∈ groups)
      (behind : ¬group.1 < walName timestamp) : group.2 = [] := by
    by_contra nonempty
    refine behind (ascends (group.1, logContent group.2) ?_ (holdsEntries_logContent nonempty))
    rw [h.files]
    exact mem_map.mpr ⟨group, member, rfl⟩
  have later : above.flatMap Prod.snd = [] := by
    rw [flatMap_eq_nil_iff]
    intro group member
    refine empty group (cut.split ▸ by simp [member]) (fun less => ?_)
    exact Std.lt_irrefl (Std.lt_trans less (cut.above group member))
  have same : ((own.map (Prod.mk (walName timestamp))).toList).flatMap Prod.snd = [] := by
    cases own with
    | none => rfl
    | some entries =>
        have none : entries = [] :=
          empty (walName timestamp, entries) (cut.split ▸ by simp) Std.lt_irrefl
        rw [none]
        rfl
  refine {
    files := ?_
    sorted := h.sorted.put _ _
    written := ?_
    current := fun _ => ⟨below, [], above, cut.stored [], later⟩
    fits := h.fits
  }
  · have header : logContent [] = walHeader := append_nil _
    rw [← SortedRecords.put_map logContent, ← h.files, header]
    rfl
  · rw [cut.put, ← h.written, cut.split, flatMap_append, flatMap_append,
      flatMap_append, flatMap_cons, same]

/-- An entry appended to the open file comes behind all others. -/
theorem append (opened : run.log.isOpen) {entry : WALEntry} (fits : entry.entrySize < 2 ^ 32)
    : ∃ next,
        Recorded { log := run.log.append entry.encode, written := run.written ++ [entry] }
          next := by
  obtain ⟨below, entries, above, cut, later⟩ := h.current opened
  have content : run.log.content = logContent entries := by
    have found := (cut.map logContent).get
    rw [← h.files] at found
    rw [LogDirectory.content, found]
    rfl
  have longer : logContent entries ++ entry.encode = logContent (entries ++ [entry]) := by
    simp [logContent, stream_append]
  refine ⟨SortedRecords.put run.log.currentPath (entries ++ [entry]) groups, {
    files := ?_
    sorted := h.sorted.put _ _
    written := ?_
    current := fun _ => ⟨below, entries ++ [entry], above, cut.stored _, later⟩
    fits := forall_mem_append.mpr ⟨h.fits, forall_mem_singleton.mpr fits⟩
  }⟩
  · rw [← SortedRecords.put_map logContent, ← h.files, ← longer, ← content]
    rfl
  · rw [cut.put, ← h.written, cut.split]
    simp [later]

theorem replayed {directory : GlobDirectory GoString} (literal : hasMeta directory.path = false)
    : run.Replayed directory := by
  have entries : (groups.map Prod.snd).flatten = run.written := by
    rw [← flatMap_def, h.written]
  have whole := @replayFiles_whole _ collect (groups.map Prod.snd) (fun _ _ _ => rfl)
    (entries ▸ h.fits) []
  rw [foldl_map, entries] at whole
  rw [Replayed, LogDirectory.replay, directory.literal literal, h.files, foldl_map]
  exact whole.trans (collect_foldl [] run.written)

/-- A step whose new name comes behind all files with entries truncates none of these, and
keeps the record.
-/
theorem step {stamp : Int → GoString} {action : Int × LogAction}
    (ascends : run.NamesAscend stamp action)
    : ∃ next, Recorded (run.step stamp action) next := by
  obtain ⟨now, action⟩ := action
  obtain ⟨names, fits⟩ := ascends
  cases action with
  | newWAL maxFileSize => exact ⟨_, h.create (names rfl) maxFileSize⟩
  | close =>
      refine ⟨groups, h.files, h.sorted, h.written, ?_, h.fits⟩
      intro opened
      cases opened
  | write entry =>
      simp only [LogRun.step, LogDirectory.write]
      cases opened : run.log.isOpen with
      | false => exact ⟨groups, h⟩
      | true =>
          cases full : run.log.isFull with
          | false => exact h.append opened fits
          | true =>
              have created := h.create
                (names (by simp [LogDirectory.creates, opened, full])) run.log.maxFileSize
              exact created.append rfl fits

end LogRun.Recorded

/-- In every run whose new files are named behind all files that hold entries, no such file is
truncated, and the replay delivers every written entry in order.
-/
theorem replayed_of_namesAscend {directory : GlobDirectory GoString}
    (literal : hasMeta directory.path = false) (stamp : Int → GoString)
    {actions : List (Int × LogAction)}
    (ascends : AllSteps (LogRun.step stamp) (LogRun.NamesAscend stamp) .start actions)
    : AllSteps (LogRun.step stamp) (LogRun.Spares stamp) .start actions
      ∧ ∀ visited ∈ actions.scanl (LogRun.step stamp) .start, visited.Replayed directory := by
  have keep (run : LogRun) (action : Int × LogAction) (allowed : run.NamesAscend stamp action)
      (before : ∃ groups, run.Recorded groups)
      : ∃ groups, (run.step stamp action).Recorded groups := by
    obtain ⟨groups, recorded⟩ := before
    exact recorded.step allowed
  refine ⟨ascends.mono (fun run action allowed => allowed.spares), fun visited member => ?_⟩
  obtain ⟨groups, recorded⟩ := ascends.always keep ⟨[], .start⟩ visited member
  exact recorded.replayed literal

/-- The text of a reading in the first minute of a year. -/
def inFirstMinute (now : Int) : GoString :=
  lit "20240101_0000" ++ [UInt8.ofNat (48 + now.toNat / 10), UInt8.ofNat (48 + now.toNat % 10)]

def dataDirectory : GlobDirectory GoString := .plain GoString (lit "data/wal")

def firstMessage : WALEntry :=
  { type := 1, topic := [97], messageID := 1, payload := [7], timestamp := 0 }

def rotateAndRestart (first second : Int) : List (Int × LogAction) :=
  [
    (0, .newWAL 20),
    (0, .write firstMessage),
    (first, .write { firstMessage with messageID := 2 }),
    (first, .close),
    (second, .newWAL 20)
  ]

theorem replayed_rotateAndRestart
    : AllSteps (LogRun.step inFirstMinute) (LogRun.NamesAscend inFirstMinute) .start
          (rotateAndRestart 9 10)
      ∧ ((rotateAndRestart 9 10).foldl (LogRun.step inFirstMinute) .start).log.files.map Prod.fst
        = [lit "wal_20240101_000000.log", lit "wal_20240101_000009.log",
            lit "wal_20240101_000010.log"]
      ∧ ((rotateAndRestart 9 10).foldl (LogRun.step inFirstMinute) .start).written.map
          WALEntry.messageID
        = [1, 2]
      ∧ ∀ visited ∈ (rotateAndRestart 9 10).scanl (LogRun.step inFirstMinute) .start,
          visited.Replayed dataDirectory := by
  have ascends
      : AllSteps (LogRun.step inFirstMinute) (LogRun.NamesAscend inFirstMinute) .start
          (rotateAndRestart 9 10) := by
    decide +kernel
  exact ⟨ascends, by decide +kernel, by decide +kernel,
    (@replayed_of_namesAscend dataDirectory (by decide +kernel) inFirstMinute _ ascends).2⟩

/-- A log that is closed and opened again while the clock shows the same second. -/
def restartAtOnce : List (Int × LogAction) :=
  [(0, .newWAL 1000), (0, .write firstMessage), (0, .close), (0, .newWAL 1000)]

theorem restartAtOnce_files (stamp : Int → GoString)
    : ((restartAtOnce.take 3).foldl (LogRun.step stamp) .start).log.files
        = [(walName (stamp 0), logContent [firstMessage])]
      ∧ (restartAtOnce.foldl (LogRun.step stamp) .start).log.files
        = [(walName (stamp 0), logContent [])]
      ∧ (restartAtOnce.foldl (LogRun.step stamp) .start).written = [firstMessage] := by
  have irrefl : ¬walName (stamp 0) < walName (stamp 0) := Std.lt_irrefl
  refine ⟨?_, ?_, ?_⟩ <;>
    simp [restartAtOnce, LogRun.step, LogRun.start, LogDirectory.newWAL,
      LogDirectory.createNewFile, LogDirectory.write, LogDirectory.isFull, LogDirectory.content,
      LogDirectory.append, LogDirectory.close, LogDirectory.empty, SortedRecords.put,
      SortedRecords.get, irrefl, logContent, stream_cons, walHeader]

/-- Whatever the stamp of that second, the file with the first message is truncated, and the
replay delivers nothing.
-/
theorem not_replayed_restartAtOnce
    : restartAtOnce.map Prod.fst = [0, 0, 0, 0]
      ∧ ∀ stamp : Int → GoString,
          ¬AllSteps (LogRun.step stamp) (LogRun.Spares stamp) .start restartAtOnce
          ∧ ¬(restartAtOnce.foldl (LogRun.step stamp) .start).Replayed dataDirectory := by
  refine ⟨rfl, fun stamp => ?_⟩
  obtain ⟨before, after, written⟩ := restartAtOnce_files stamp
  refine ⟨?_, ?_⟩
  · rintro ⟨_, _, _, spares, _⟩
    refine spares rfl (walName (stamp 0), logContent [firstMessage]) ?_ rfl
      (holdsEntries_logContent (by simp))
    exact before ▸ mem_cons_self
  · intro replayed
    rw [LogRun.Replayed, LogDirectory.replay, dataDirectory.literal (by decide +kernel), after,
      written] at replayed
    have nothing : (replayFile collect [] (logContent [])).1 ≠ [firstMessage] := by
      decide +kernel
    exact nothing replayed

end Goulette.Storage
