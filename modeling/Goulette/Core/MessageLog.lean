import Goulette.Go.Path
import Goulette.Library.BufferedWriter
import Goulette.Library.FileStore

/-! The message log of the old core, in `broker/core/persistence.go`: a buffer in front of the
current message file, and a new file when that has grown beyond the limit.
-/

namespace Goulette.Core

open Goulette.Go ByteFrames FileStore BufferedWriter List

/-- An `*os.File`: its name, where the next write goes and whether it was closed. -/
structure OsFile where
  name : GoString
  handle : Handle
  closed : Bool
deriving DecidableEq

/-- The disk and the message files opened so far, in the order of their creation. Index files
are put into the directory `log/log`, which nothing creates.
-/
structure Files where
  disk : Disk GoString
  opened : List OsFile
  indexDir : Bool

/-- `Write` of the file at a position in the list of opened files. -/
def Files.put (target : Nat) (files : Files) (bytes : Bytes) : Files × Option GoError :=
  match files.opened[target]? with
  | none => (files, some (lit "invalid argument"))
  | some file =>
      if file.closed then
        (files, some (lit "write " ++ file.name ++ lit ": file already closed"))
      else
        ({ files with
            disk := (files.disk.write file.handle bytes).1
            opened := files.opened.set target
              { file with handle := (files.disk.write file.handle bytes).2 } },
          none)

def Files.msgFiles (files : Files) : List GoString := (files.opened.map OsFile.name).eraseDups

/-- What a reader finds in the message files, each name once. -/
def Files.stored (files : Files) : List (Option Bytes) := files.msgFiles.map files.disk.read

/-- `strconv.FormatInt` to the base 16. -/
def hexadecimal (n : Int64) : GoString :=
  (if n < 0 then lit "-" else [])
    ++ if n = 0 then lit "0"
      else (Nat.digits 16 n.toInt.natAbs).reverse.map
        (fun digit => UInt8.ofNat (if digit < 10 then 48 + digit else 87 + digit))

def msgFileName (now : Int64) : GoString := lit "log/" ++ hexadecimal now ++ lit ".msg"

/-- The size of a buffer that `bufio.NewWriter` makes. -/
def bufferSize : Nat := 4096

/-- `fd` and the file that `buf` writes to are positions in the list of opened files. -/
structure Writer where
  flushWhenWrite : Bool
  size : Int64
  fd : Nat
  target : Nat
  buf : Buffer GoError
  latestIDs : GoMap GoString UInt64
  files : Files

/-- A call of `write`, with the time at which it may open a file. -/
structure Call where
  now : Int64
  topic : GoString
  data : Bytes

/-- A line of a message file: the topic, the number and the data. -/
def formatLine (topic : GoString) (id : Nat) (data : Bytes) : Bytes :=
  topic ++ lit " " ++ decimal id ++ lit " " ++ data ++ lit "\n"

/-- `if err != nil { return 0, err }` between two steps. -/
def andThen (result : Writer × Option GoError)
    (next : Writer → Writer × Except GoError UInt64)
    : Writer × Except GoError UInt64 :=
  match result.2 with
  | some failure => (result.1, .error failure)
  | none => next result.1

namespace Writer

/-- The buffer keeps its first failure. -/
def bufWrite (w : Writer) (bytes : Bytes) : Writer × Option GoError :=
  let after := BufferedWriter.write (Files.put w.target) bufferSize (w.files, w.buf) bytes
  ({ w with files := after.1, buf := after.2 }, after.2.failure)

def bufFlush (w : Writer) : Writer × Option GoError :=
  let after := BufferedWriter.flush (Files.put w.target) (w.files, w.buf)
  ({ w with files := after.1, buf := after.2 }, after.2.failure)

def fdName (w : Writer) : GoString :=
  match w.files.opened[w.fd]? with
  | none => []
  | some file => file.name

/-- A file is closed once. -/
def fdClose (w : Writer) : Writer × Option GoError :=
  match w.files.opened[w.fd]? with
  | none => (w, some (lit "invalid argument"))
  | some file =>
      if file.closed then (w, some (lit "close " ++ file.name ++ lit ": file already closed"))
      else
        ({ w with
            files := { w.files with
              opened := w.files.opened.set w.fd { file with closed := true } } },
          none)

/-- The file becomes `fd`, but `buf` still writes to the one before. -/
def newMsgFile (w : Writer) (now : Int64) : Writer :=
  let created := w.files.disk.create (msgFileName now)
  { w with
    fd := w.files.opened.length
    files := { w.files with
      disk := created.1
      opened := w.files.opened
        ++ [{ name := msgFileName now, handle := created.2, closed := false }] } }

/-- The name of `fd` has the directory in front already, so it is there twice. -/
def indexFileName (w : Writer) : GoString := lit "log/" ++ w.fdName ++ lit ".idx"

def indexLines (w : Writer) : Bytes :=
  w.latestIDs.entries.flatMap
    (fun entry => entry.1 ++ lit " " ++ decimal entry.2.toNat ++ lit "\n")

/-- Without the inner directory the file cannot be opened. -/
def newIndexFile (w : Writer) : Writer × Option GoError :=
  if w.files.indexDir then
    let created := w.files.disk.create w.indexFileName
    ({ w with
        files := { w.files with disk := (created.1.write created.2 w.indexLines).1 } },
      none)
  else (w, some (lit "open " ++ w.indexFileName ++ lit ": no such file or directory"))

/-- What follows a line that takes the file beyond the limit: the new file is opened before the
buffer is flushed to the old one.
-/
def rotate (w : Writer) (now : Int64) : Writer × Except GoError UInt64 :=
  andThen w.newIndexFile fun w =>
  andThen (w.newMsgFile now).bufFlush fun w =>
  -- what is closed then is the new file
  andThen w.fdClose fun w =>
  ({ w with target := w.fd, buf := .empty, size := 0 }, .ok 0)

/-- A topic without messages is at 0. -/
def latestID (w : Writer) (topic : GoString) : UInt64 := (w.latestIDs.lookup topic).getD 0

/-- The ID wraps around. -/
def count (w : Writer) (topic : GoString) (length : Nat) : Writer :=
  { w with
    latestIDs := w.latestIDs.insert topic (w.latestID topic + 1)
    size := w.size + Int64.ofNat length }

/-- A line that takes the file beyond the limit returns 0, not its number. -/
def write (limit : Int64) (w : Writer) (call : Call) : Writer × Except GoError UInt64 :=
  let id := w.latestID call.topic
  let data := formatLine call.topic id.toNat call.data
  andThen (w.bufWrite data) fun w =>
    let w := w.count call.topic data.length
    if w.size > limit then w.rotate call.now
    else if w.flushWhenWrite then andThen w.bufFlush fun w => (w, .ok id)
    else (w, .ok id)

def run (limit : Int64) (w : Writer) : List Call → Writer × List (Except GoError UInt64)
  | [] => (w, [])
  | call :: rest =>
      let next := w.write limit call
      let final := next.1.run limit rest
      (final.1, next.2 :: final.2)

end Writer

def newWriter (disk : Disk GoString) (indexDir flushWhenWrite : Bool) (now : Int64) : Writer :=
  Writer.newMsgFile {
    flushWhenWrite
    size := 0
    fd := 0
    target := 0
    buf := .empty
    latestIDs := ∅
    files := { disk, opened := [], indexDir } } now

/-- How often a topic was written to. -/
def callsTo (topic : GoString) (calls : List Call) : Nat :=
  calls.countP (fun call => call.topic = topic)

/-- The calls with their numbers, counted for each topic from 0. -/
def numbered (earlier : List Call) : List Call → List (Call × Nat)
  | [] => []
  | call :: rest => (call, callsTo call.topic earlier) :: numbered (earlier ++ [call]) rest

/-- The lines of the calls, in their order. -/
def lines (calls : List Call) : List Bytes :=
  (numbered [] calls).map (fun call => formatLine call.1.topic call.2 call.1.data)

/-- The files hold the lines in order, and no line is split over two files. -/
def Holding (stored : List (Option Bytes)) (lines : List Bytes) : Prop :=
  ∃ groups : List (List Bytes),
    groups.flatten = lines ∧ stored = groups.map (fun group => some group.flatten)

/-- Every call returns its number among the calls of its topic, and after a flush the message
files hold the lines, each file a part of them.
-/
structure Intact (limit : Int64) (w : Writer) (calls : List Call) : Prop where
  results
    : (w.run limit calls).2.map (Except.map UInt64.toNat)
      = (numbered [] calls).map (fun call => .ok call.2)
  files : Holding (w.run limit calls).1.bufFlush.1.files.stored (lines calls)

section Lines

variable {calls more : List Call} {call : Call}

theorem callsTo_concat (topic : GoString) (calls : List Call) (call : Call)
    : callsTo topic (calls ++ [call])
      = callsTo topic calls + if call.topic = topic then 1 else 0 := by
  simp [callsTo, countP_append, countP_singleton]

/-- Numbering goes on behind the earlier calls, by induction on the calls. -/
theorem numbered_append (earlier calls more : List Call)
    : numbered earlier (calls ++ more)
      = numbered earlier calls ++ numbered (earlier ++ calls) more := by
  induction calls generalizing earlier with
  | nil => simp [numbered]
  | cons call rest ih => simp [numbered, ih]

theorem numbered_concat (calls : List Call) (call : Call)
    : numbered [] (calls ++ [call]) = numbered [] calls ++ [(call, callsTo call.topic calls)] := by
  rw [numbered_append]
  rfl

theorem lines_concat (calls : List Call) (call : Call)
    : lines (calls ++ [call])
      = lines calls ++ [formatLine call.topic (callsTo call.topic calls) call.data] := by
  rw [lines, numbered_concat, map_append]
  rfl

theorem space_mem_formatLine (topic : GoString) (id : Nat) (data : Bytes)
    : 32 ∈ formatLine topic id data := by
  have space : 32 ∈ lit " " := by decide
  simp [formatLine, space]

/-- The bytes of a line that is added are behind those of the earlier lines. -/
theorem flatten_lines_concat (calls : List Call) (call : Call)
    : (lines (calls ++ [call])).flatten
      = (lines calls).flatten ++ formatLine call.topic (callsTo call.topic calls) call.data := by
  rw [lines_concat, flatten_concat]

/-- Where something was written, the files are not empty. -/
theorem space_mem_lines (some : calls ≠ []) : 32 ∈ (lines calls).flatten := by
  obtain ⟨front, last, rfl⟩ := (eq_nil_or_concat' calls).resolve_left some
  rw [flatten_lines_concat]
  exact mem_append_right _ (space_mem_formatLine _ _ _)

end Lines

theorem Holding.flatten {contents lines : List Bytes} (h : Holding (contents.map some) lines)
    : contents.flatten = lines.flatten := by
  obtain ⟨groups, rfl, same⟩ := h
  have parts : contents = groups.map List.flatten := by
    have mapped : contents.map some = (groups.map List.flatten).map some := by
      rw [same, map_map]
      rfl
    exact map_injective_iff.mpr (Option.some_injective _) mapped
  rw [parts, flatten_flatten]

theorem Writer.latestID_count (w : Writer) (counted topic : GoString) (length : Nat)
    : (w.count counted length).latestID topic
      = w.latestID topic + UInt64.ofNat (if counted = topic then 1 else 0) := by
  by_cases same : counted = topic
  · subst same
    simp [latestID, count]
  · simp [latestID, count, same, AList.lookup_insert_ne (Ne.symm same)]

theorem Writer.run_append (limit : Int64) (w : Writer) (calls more : List Call)
    : w.run limit (calls ++ more)
      = (((w.run limit calls).1.run limit more).1,
          (w.run limit calls).2 ++ ((w.run limit calls).1.run limit more).2) := by
  induction calls generalizing w with
  | nil => rfl
  | cons call rest ih =>
      rw [cons_append, Writer.run, Writer.run, ih]
      rfl

theorem Writer.run_concat (limit : Int64) (w : Writer) (calls : List Call) (call : Call)
    : w.run limit (calls ++ [call])
      = (((w.run limit calls).1.write limit call).1,
          (w.run limit calls).2 ++ [((w.run limit calls).1.write limit call).2]) := by
  rw [run_append]
  rfl

end Goulette.Core
