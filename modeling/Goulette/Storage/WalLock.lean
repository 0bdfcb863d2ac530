import Goulette.Storage.WalFiles

/-! The mutex of the write-ahead log. `Write` holds it when it calls `createNewFile`, which takes it
again: the call waits for itself.
-/

namespace Goulette.Storage

open Goulette.Go ByteFrames List

structure LockedLog where
  log : LogDirectory
  mu : Bool

namespace LockedLog

/-- A held mutex is waited for; if the same call holds it, for ever. -/
def lock (wal : LockedLog) : Option LockedLog :=
  if wal.mu then none else some { wal with mu := true }

def unlock (wal : LockedLog) : LockedLog := { wal with mu := false }

def createNewFile (wal : LockedLog) (timestamp : GoString) : Option LockedLog := do
  let wal ← wal.lock
  return unlock { wal with log := wal.log.createNewFile timestamp }

def newWAL (files : List (GoString × Bytes)) (maxFileSize : Int) (timestamp : GoString)
    : Option LockedLog :=
  createNewFile
    { log := { files, currentPath := [], isOpen := false, maxFileSize }, mu := false } timestamp

def write (wal : LockedLog) (timestamp : GoString) (entry : WALEntry) : Option LockedLog := do
  let wal ← wal.lock
  let wal ← if wal.log.isFull then wal.createNewFile timestamp else some wal
  return unlock { wal with log := wal.log.append entry.encode }

/-- Calls of `Write` with the times they are made at; it has a result only if all return. -/
def writeAll (wal : LockedLog) (calls : List (GoString × WALEntry)) : Option LockedLog :=
  calls.foldlM (fun wal call => wal.write call.1 call.2) wal

/-- A call returns if the file has room, and otherwise waits for the mutex it holds. -/
theorem write_eq (log : LogDirectory) (timestamp : GoString) (entry : WALEntry)
    : write { log, mu := false } timestamp entry
      = if log.isFull then none else some { log := log.append entry.encode, mu := false } := by
  simp only [write, lock, Bool.false_eq_true, if_false, Option.bind_eq_bind, Option.bind_some]
  cases full : log.isFull with
  | true => rfl
  | false => rfl

/-- The log named by seconds writes as the mutex lets it. -/
theorem write_named_locked {text : Nat → GoString}
    (ascending : ∀ early late, early < late → walName (text early) < walName (text late))
    (wal : WAL) (timestamp : GoString) (entry : WALEntry)
    : write { log := wal.named text, mu := false } timestamp entry
      = (wal.write entry).map (fun next => { log := next.named text, mu := false }) := by
  obtain ⟨full, appended⟩ := append_named ascending wal entry.encode
  rw [write_eq, full, appended, WAL.write]
  by_cases room : (wal.content.length : Int) ≥ wal.maxFileSize
  · rw [decide_eq_true room, if_pos room]
    rfl
  · rw [decide_eq_false room, if_neg room]
    rfl

theorem logContent_length (entries : List WALEntry)
    : (logContent entries).length = 8 + (entries.map (fun entry => 4 + entry.entrySize)).sum := by
  have encoded (entry : WALEntry) : entry.encode.length = 4 + entry.entrySize := by
    rw [WALEntry.encode, length_append, bigEndian_length, entry.body_length]
  induction entries with
  | nil => rfl
  | cons entry rest ih =>
      rw [logContent, length_append] at ih ⊢
      rw [stream_cons, length_append, encoded, map_cons, sum_cons]
      omega

section Writes

variable {files : List (GoString × Bytes)} (maxFileSize : Int) (timestamp : GoString)

def filled (files : List (GoString × Bytes)) (maxFileSize : Int) (timestamp : GoString)
    (entries : List WALEntry)
    : LockedLog where
  log :=
    { files := SortedRecords.put (walName timestamp) (logContent entries) files
      currentPath := walName timestamp
      isOpen := true
      maxFileSize }
  mu := false

theorem newWAL_eq (files : List (GoString × Bytes))
    : newWAL files maxFileSize timestamp = some (filled files maxFileSize timestamp []) := by
  have header : logContent [] = walHeader := append_nil _
  rw [filled, header]
  rfl

theorem write_filled (sorted : SortedRecords.Sorted files) (entries : List WALEntry)
    (call : GoString × WALEntry)
    : (filled files maxFileSize timestamp entries).write call.1 call.2
      = if ((logContent entries).length : Int) ≥ maxFileSize then none
        else some (filled files maxFileSize timestamp (entries ++ [call.2])) := by
  have content : (filled files maxFileSize timestamp entries).log.content = logContent entries := by
    rw [LogDirectory.content, filled, sorted.get_put, Option.getD_some]
  have longer : logContent entries ++ call.2.encode = logContent (entries ++ [call.2]) := by
    simp [logContent, stream_append]
  have full
      : (filled files maxFileSize timestamp entries).log.isFull
        = decide (((logContent entries).length : Int) ≥ maxFileSize) := by
    rw [LogDirectory.isFull, content]
    rfl
  have appended
      : (filled files maxFileSize timestamp entries).log.append call.2.encode
        = (filled files maxFileSize timestamp (entries ++ [call.2])).log := by
    rw [LogDirectory.append, content, longer]
    simp only [filled, sorted.put_put]
  refine (write_eq (filled files maxFileSize timestamp entries).log call.1 call.2).trans ?_
  rw [full, appended]
  by_cases room : ((logContent entries).length : Int) ≥ maxFileSize
  · rw [decide_eq_true room, if_pos room]
    rfl
  · rw [decide_eq_false room, if_neg room]
    rfl

/-- A sequence of calls returns if the file has room before the last one, by induction on the
calls.
-/
theorem writeAll_filled (sorted : SortedRecords.Sorted files) (entries : List WALEntry)
    {calls : List (GoString × WALEntry)} (some : calls ≠ [])
    : (filled files maxFileSize timestamp entries).writeAll calls
      = if ((logContent (entries ++ (calls.map Prod.snd).dropLast)).length : Int) ≥ maxFileSize
        then none
        else .some (filled files maxFileSize timestamp (entries ++ calls.map Prod.snd)) := by
  induction calls generalizing entries with
  | nil => exact absurd rfl some
  | cons call rest ih =>
      rw [writeAll, foldlM_cons, write_filled maxFileSize timestamp sorted]
      cases rest with
      | nil =>
          simp only [map_cons, map_nil, dropLast_singleton, append_nil]
          split <;> rfl
      | cons next more =>
          have split
              : entries ++ ((call :: next :: more).map Prod.snd).dropLast
                = (entries ++ [call.2]) ++ ((next :: more).map Prod.snd).dropLast := by
            simp
          have longer
              : (logContent entries).length
                ≤ (logContent
                    (entries ++ ((call :: next :: more).map Prod.snd).dropLast)).length := by
            rw [logContent_length, logContent_length, map_append, sum_append]
            omega
          by_cases full : ((logContent entries).length : Int) ≥ maxFileSize
          · rw [if_pos full, if_pos (le_trans full (Int.ofNat_le.mpr longer))]
            rfl
          · have tail := ih (entries ++ [call.2]) (cons_ne_nil _ _)
            rw [if_neg full, split]
            refine Eq.trans ?_ (tail.trans ?_)
            · rfl
            · simp

end Writes

/-- The files changed between two states of a directory hold some entries, each in one file. -/
def Distributed (before after : List (GoString × Bytes)) (entries : List WALEntry) : Prop :=
  ∃ groups : List (GoString × List WALEntry),
    (groups.map Prod.fst).Nodup
    ∧ groups.flatMap Prod.snd = entries
    ∧ after
      = groups.foldl (fun files group => SortedRecords.put group.1 (logContent group.2) files)
          before

/-- Every call returns and leaves the mutex free, and the entries are in the files. -/
def Completes (files : List (GoString × Bytes)) (maxFileSize : Int) (timestamp : GoString)
    (calls : List (GoString × WALEntry))
    : Prop :=
  ∃ first last,
    newWAL files maxFileSize timestamp = some first
    ∧ first.writeAll calls = some last
    ∧ first.mu = false
    ∧ last.mu = false
    ∧ Distributed files last.log.files (calls.map Prod.snd)

theorem completes_of_writeAll {files : List (GoString × Bytes)} {maxFileSize : Int}
    {timestamp : GoString} {calls : List (GoString × WALEntry)}
    (returned
      : (filled files maxFileSize timestamp []).writeAll calls
        = some (filled files maxFileSize timestamp (calls.map Prod.snd)))
    : Completes files maxFileSize timestamp calls := by
  refine ⟨_, _, newWAL_eq maxFileSize timestamp files, returned, rfl, rfl, ?_⟩
  refine ⟨[(walName timestamp, calls.map Prod.snd)], by simp, by simp, rfl⟩

/-- The calls complete exactly if there are none or the file has room before the last one. -/
theorem completes_iff_room {files : List (GoString × Bytes)}
    (sorted : SortedRecords.Sorted files) (maxFileSize : Int) (timestamp : GoString)
    (calls : List (GoString × WALEntry))
    : Completes files maxFileSize timestamp calls
      ↔ calls = []
        ∨ ((8 + (calls.dropLast.map (fun call => 4 + call.2.entrySize)).sum : Nat) : Int)
          < maxFileSize := by
  by_cases none : calls = []
  · subst none
    exact ⟨fun _ => Or.inl rfl, fun _ => completes_of_writeAll rfl⟩
  · have run := writeAll_filled maxFileSize timestamp sorted [] none
    have length
        : (logContent ([] ++ (calls.map Prod.snd).dropLast)).length
          = 8 + (calls.dropLast.map (fun call => 4 + call.2.entrySize)).sum := by
      rw [nil_append, logContent_length, ← map_dropLast, map_map]
      rfl
    rw [length] at run
    constructor
    · rintro ⟨first, last, started, returned, _⟩
      rw [newWAL_eq, Option.some.injEq] at started
      rw [← started, run] at returned
      split at returned
      · cases returned
      · next room => exact Or.inr (not_le.mp room)
    · rintro (nothing | room)
      · exact absurd nothing none
      · rw [if_neg (not_le.mpr room)] at run
        exact completes_of_writeAll run

def twoCalls : List (GoString × WALEntry) := twoMessages.map (Prod.mk (lit "20240101_000000"))

theorem completes_twoCalls : Completes [] 1000 (lit "20240101_000000") twoCalls :=
  (completes_iff_room .nil 1000 (lit "20240101_000000") twoCalls).mpr (Or.inr (by decide))

/-- The second message finds the file full and waits for the mutex that its own call holds. -/
theorem not_completes_twoCalls : ¬Completes [] 30 (lit "20240101_000000") twoCalls := by
  rintro ⟨first, last, started, returned, _⟩
  have waits
      : ((newWAL [] 30 (lit "20240101_000000")).bind
          (fun wal => wal.writeAll twoCalls)).isNone := by
    decide +kernel
  rw [started, Option.bind_some, returned] at waits
  cases waits

end LockedLog

end Goulette.Storage
