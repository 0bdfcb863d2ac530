import Goulette.Core.MessageLog
import Goulette.Library.Runs

/-! Rotation of the message log. The variable for the current file is replaced before the file is
closed, so the new file is closed and the buffer bound to it.
-/

namespace Goulette.Core

open Goulette.Go ByteFrames FileStore BufferedWriter Runs List

/-- The first message file is the only one, is open, and holds the content. -/
def FirstHolds (name : GoString) (indexDir : Bool) (files : Files) (content : Bytes) : Prop :=
  files.indexDir = indexDir
  ∧ ∃ handle,
      files.opened = [{ name, handle, closed := false }] ∧ Holds files.disk name handle content

theorem FirstHolds.accepts (name : GoString) (indexDir : Bool)
    : Accepts (Files.put 0) (FirstHolds name indexDir) := by
  rintro files content ⟨sameDir, handle, opened, holds⟩ bytes
  simp only [Files.put, opened, List.getElem?_cons_zero, Bool.false_eq_true, if_false,
    set_cons_zero]
  exact ⟨trivial, sameDir, _, rfl, holds.write bytes⟩

def Exceeds (limit : Int64) (before : List Call) (call : Call) : Prop :=
  Int64.ofNat (lines (before ++ [call])).flatten.length > limit

instance (limit : Int64) (before : List Call) (call : Call)
    : Decidable (Exceeds limit before call) :=
  inferInstanceAs (Decidable (_ > _))

/-- Nothing has left the buffer yet when a line is written behind the earlier calls. -/
def Unput (flushWhenWrite : Bool) (earlier calls : List Call) : Prop :=
  (lines calls).flatten.length ≤ bufferSize ∧ (flushWhenWrite = true → earlier = [])

structure Unrotated (w : Writer) (start : Int64) (indexDir flushWhenWrite : Bool)
    (earlier calls : List Call) (content : Bytes)
    : Prop where
  carries
    : Carries bufferSize (FirstHolds (msgFileName start) indexDir) (w.files, w.buf) content
        (lines calls).flatten
  target : w.target = 0
  flushes : w.flushWhenWrite = flushWhenWrite
  size : w.size = Int64.ofNat (lines calls).flatten.length
  ids : ∀ topic, w.latestID topic = UInt64.ofNat (callsTo topic calls)
  unput : content = [] ↔ Unput flushWhenWrite earlier calls
  spaced : content ≠ [] → 32 ∈ content

namespace Unrotated

variable {w : Writer} {start limit : Int64} {indexDir flushWhenWrite : Bool}
  {earlier calls : List Call} {call : Call} {content : Bytes}

theorem new (disk : Disk GoString) (indexDir flushWhenWrite : Bool) (start : Int64)
    : Unrotated (newWriter disk indexDir flushWhenWrite start) start indexDir flushWhenWrite [] []
        [] where
  carries := ⟨⟨rfl, _, rfl, Holds.create⟩, rfl, Nat.zero_le _, rfl⟩
  target := rfl
  flushes := rfl
  size := rfl
  ids := fun _ => rfl
  unput := ⟨fun _ => ⟨Nat.zero_le _, fun _ => rfl⟩, fun _ => rfl⟩
  spaced := fun some => absurd rfl some

/-- Bytes leave the buffer with a line exactly if some had left it before or the line does not
fit.
-/
theorem unput_advance (h : Unrotated w start indexDir flushWhenWrite calls calls content)
    {more : Bytes}
    (advance
      : Advance bufferSize content (lines calls).flatten
          (formatLine call.topic (callsTo call.topic calls) call.data) w.buf.pending.length more)
    : more = [] ↔ Unput flushWhenWrite calls (calls ++ [call]) := by
  have whole : content.length + w.buf.pending.length = (lines calls).flatten.length :=
    h.carries.length
  rw [Unput, flatten_lines_concat, length_append]
  cases advance with
  | waits room =>
      rw [h.unput, Unput]
      refine and_congr_left (fun quiet => ⟨fun fits => ?_, fun fits => by omega⟩)
      have nothing := h.unput.mpr ⟨fits, quiet⟩
      rw [nothing, length_nil] at whole
      omega
  | puts full drained long first alone =>
      refine ⟨fun nothing => ?_, fun ⟨fits, quiet⟩ => ?_⟩
      · rw [nothing] at long
        exact absurd long (by decide)
      · have nothing := h.unput.mpr ⟨by omega, quiet⟩
        rw [nothing, length_nil] at whole
        omega

theorem buffered (h : Unrotated w start indexDir flushWhenWrite calls calls content)
    {data : Bytes} (isLine : data = formatLine call.topic (callsTo call.topic calls) call.data)
    : (w.bufWrite data).2 = none
      ∧ ∃ more,
          Unrotated ((w.bufWrite data).1.count call.topic data.length) start indexDir
            flushWhenWrite calls (calls ++ [call]) more := by
  obtain ⟨more, carries, advance⟩ := h.carries.write (FirstHolds.accepts _ _) data
  rw [isLine, ← flatten_lines_concat, ← isLine, ← h.target] at carries
  refine ⟨carries.running, more, carries, h.target, h.flushes, ?_, ?_, ?_, ?_⟩
  · rw [flatten_lines_concat, ← isLine, length_append, Int64.ofNat_add, ← h.size]
    rfl
  · intro topic
    rw [callsTo_concat, UInt64.ofNat_add, ← h.ids]
    exact (w.bufWrite data).1.latestID_count call.topic topic data.length
  · rw [isLine] at advance
    exact h.unput_advance advance
  · intro some
    rw [isLine] at advance
    cases advance with
    | waits room => exact h.spaced some
    | puts full drained long first alone =>
        by_cases none : calls = []
        · subst none
          rw [first rfl]
          exact space_mem_formatLine _ _ _
        · exact drained.subset (space_mem_lines none)

/-- A flush hands everything over. -/
theorem flushed (h : Unrotated w start indexDir flushWhenWrite earlier calls content)
    : w.bufFlush.2 = none
      ∧ Carries bufferSize (FirstHolds (msgFileName start) indexDir)
          (w.bufFlush.1.files, w.bufFlush.1.buf) (lines calls).flatten (lines calls).flatten := by
  have carries := h.carries.flush (FirstHolds.accepts _ _)
  rw [← h.target] at carries
  exact ⟨carries.running, carries⟩

theorem stored (h : Unrotated w start indexDir flushWhenWrite earlier calls content)
    : w.bufFlush.1.files.stored = [some (lines calls).flatten] := by
  obtain ⟨-, handle, opened, holds⟩ := h.flushed.2.kept
  simp only [Files.stored, Files.msgFiles]
  rw [opened]
  exact congrArg (fun content => [content]) holds.read

variable (h : Unrotated w start indexDir flushWhenWrite calls calls content)
  (small : callsTo call.topic calls < 2 ^ 64)

include h small

theorem latestID_toNat : (w.latestID call.topic).toNat = callsTo call.topic calls := by
  rw [h.ids, UInt64.toNat_ofNat', Nat.mod_eq_of_lt small]

/-- What a call does behind its line. -/
theorem write_eq (limit : Int64)
    : ∃ counted more,
        Unrotated counted start indexDir flushWhenWrite calls (calls ++ [call]) more
        ∧ w.write limit call
          = if Exceeds limit calls call then counted.rotate call.now
            else if flushWhenWrite then
              andThen counted.bufFlush fun w => (w, .ok (UInt64.ofNat (callsTo call.topic calls)))
            else (counted, .ok (UInt64.ofNat (callsTo call.topic calls))) := by
  have number := h.latestID_toNat small
  obtain ⟨taken, more, counted⟩ :=
    @buffered _ _ _ _ _ call _ h
      (formatLine call.topic (w.latestID call.topic).toNat call.data) (by rw [number])
  refine ⟨_, more, counted, ?_⟩
  unfold Writer.write
  dsimp only
  rw [andThen, taken, ← h.ids]
  dsimp only
  rw [counted.flushes, counted.size]
  rfl

/-- A call within the limit adds its line and returns its number. -/
theorem write_within (within : ¬Exceeds limit calls call)
    : (w.write limit call).2.map UInt64.toNat = .ok (callsTo call.topic calls)
      ∧ ∃ more,
          Unrotated (w.write limit call).1 start indexDir flushWhenWrite (calls ++ [call])
            (calls ++ [call]) more := by
  have number : (UInt64.ofNat (callsTo call.topic calls)).toNat = callsTo call.topic calls := by
    rw [UInt64.toNat_ofNat', Nat.mod_eq_of_lt small]
  obtain ⟨counted, more, state, result⟩ := h.write_eq small limit
  rw [result, if_neg within]
  cases flushWhenWrite with
  | false =>
      refine ⟨congrArg Except.ok number, more, ?_⟩
      exact { state with unput := by simpa [Unput] using state.unput }
  | true =>
      obtain ⟨taken, carries⟩ := state.flushed
      have some : calls ++ [call] ≠ [] := append_ne_nil_of_right_ne_nil _ (by simp)
      have space := space_mem_lines some
      rw [if_pos rfl, andThen, taken]
      refine ⟨congrArg Except.ok number, (lines (calls ++ [call])).flatten, ?_⟩
      exact {
        state with
        carries
        unput := by
          refine ⟨fun nothing => ?_, fun nothing => absurd (nothing.2 rfl) some⟩
          rw [nothing] at space
          cases space
        spaced := fun _ => space }

end Unrotated

/-- A run within the limit returns the numbers and keeps the lines, by induction on the calls
from the last one.
-/
theorem Unrotated.run (disk : Disk GoString) (indexDir flushWhenWrite : Bool)
    (start limit : Int64) {calls : List Call}
    (small
      : ∀ before call after, calls = before ++ call :: after → callsTo call.topic before < 2 ^ 64)
    (within : ∀ before call after, calls = before ++ call :: after → ¬Exceeds limit before call)
    : ((newWriter disk indexDir flushWhenWrite start).run limit calls).2.map
          (Except.map UInt64.toNat)
        = (numbered [] calls).map (fun call => .ok call.2)
      ∧ ∃ content,
          Unrotated ((newWriter disk indexDir flushWhenWrite start).run limit calls).1 start
            indexDir flushWhenWrite calls calls content := by
  induction calls using List.reverseRecOn with
  | nil => exact ⟨rfl, [], .new disk indexDir flushWhenWrite start⟩
  | append_singleton calls call ih =>
      obtain ⟨results, content, state⟩ := ih
        (fun before item after split => small before item (after ++ [call]) (by simp [split]))
        (fun before item after split => within before item (after ++ [call]) (by simp [split]))
      obtain ⟨result, next⟩ :=
        state.write_within (small calls call [] rfl) (within calls call [] rfl)
      rw [Writer.run_concat, numbered_concat, map_append, map_append, results]
      exact ⟨congrArg (_ ++ [·]) result, next⟩

def Files.putPending (target : Nat) (files : Files) (pending : Bytes) : Files :=
  if pending = [] then files else (files.put target pending).1

theorem Writer.bufFlush_open {w : Writer} {file : OsFile}
    (found : w.files.opened[w.target]? = some file) (isOpen : file.closed = false)
    (running : w.buf.failure = none)
    : w.bufFlush
      = ({ w with files := w.files.putPending w.target w.buf.pending, buf := .empty }, none) := by
  have taken : (w.files.put w.target w.buf.pending).2 = none := by
    simp [Files.put, found, isOpen]
  obtain ⟨flushWhenWrite, size, fd, target, ⟨pending, failure⟩, latestIDs, files⟩ := w
  dsimp only at found running taken ⊢
  subst running
  unfold Writer.bufFlush BufferedWriter.flush Files.putPending
  by_cases nothing : pending = []
  · subst nothing
    rfl
  · have result : files.put target pending = ((files.put target pending).1, none) :=
      Prod.ext rfl taken
    simp only [Option.isSome_none, Bool.false_eq_true, nothing, or_self, if_false]
    rw [result]
    rfl

theorem Files.putPending_first {files : Files} {old : OsFile} {rest : List OsFile}
    (opened : files.opened = old :: rest) (isOpen : old.closed = false) (pending : Bytes)
    : ∃ handle,
        files.putPending 0 pending
        = { files with
            disk := if pending = [] then files.disk
              else (files.disk.write old.handle pending).1
            opened := { old with handle } :: rest } := by
  unfold putPending put
  by_cases nothing : pending = []
  · refine ⟨old.handle, ?_⟩
    rw [if_pos nothing, if_pos nothing, ← opened]
  · refine ⟨(files.disk.write old.handle pending).2, ?_⟩
    rw [if_neg nothing, if_neg nothing, opened]
    simp [isOpen]

def Writer.Stranded (w : Writer) : Prop :=
  ∃ file, w.files.opened[w.target]? = some file ∧ file.closed = true

def Writer.rotatedDisk (w : Writer) (old : Handle) (now : Int64) : Disk GoString :=
  let created := (w.files.disk.create (msgFileName now)).1
  if w.buf.pending = [] then created else (created.write old w.buf.pending).1

/-- A rotation from the first file, behind the index file, leaves the old file open and the new
one closed.
-/
theorem Writer.rotate_eq {w indexed : Writer} {old : OsFile}
    (made : w.newIndexFile = (indexed, none)) (opened : indexed.files.opened = [old])
    (isOpen : old.closed = false) (target : indexed.target = 0)
    (running : indexed.buf.failure = none) (now : Int64)
    : ∃ handle created,
        w.rotate now
        = ({ indexed with
              fd := 1
              target := 1
              buf := .empty
              size := 0
              files := { indexed.files with
                disk := indexed.rotatedDisk old.handle now
                opened := [
                  { old with handle },
                  { name := msgFileName now, handle := created, closed := true }] } },
            .ok 0) := by
  unfold rotate
  rw [made]
  dsimp only [andThen]
  generalize newest : indexed.newMsgFile now = next
  have listed
      : next.files.opened
        = [old, {
            name := msgFileName now
            handle := (indexed.files.disk.create (msgFileName now)).2
            closed := false }] := by
    rw [← newest, newMsgFile, opened]
    rfl
  have bound : next.target = 0 := by rw [← newest, newMsgFile, target]
  have first : next.files.opened[next.target]? = some old := by rw [listed, bound]; rfl
  obtain ⟨handle, result⟩ := Files.putPending_first listed isOpen next.buf.pending
  refine ⟨handle, (indexed.files.disk.create (msgFileName now)).2, ?_⟩
  rw [bufFlush_open first isOpen (by rw [← newest]; exact running), bound, result]
  subst newest
  simp only [newMsgFile, fdClose, opened]
  rfl

namespace Unrotated

variable {w : Writer} {start limit : Int64} {indexDir flushWhenWrite : Bool}
  {earlier calls : List Call} {call : Call} {content : Bytes}

theorem indexFileName_ne (w : Writer) (now : Int64) : msgFileName now ≠ w.indexFileName := by
  intro same
  have last := congrArg List.getLast? same
  have msg : (lit ".msg").getLast? = some 103 := by decide
  have idx : (lit ".idx").getLast? = some 120 := by decide
  simp only [msgFileName, Writer.indexFileName, List.getLast?_append, msg, idx, Option.some_or]
    at last
  cases last

theorem newIndexFile (h : Unrotated w start true flushWhenWrite earlier calls content)
    : ∃ indexed,
        w.newIndexFile = (indexed, none)
        ∧ Unrotated indexed start true flushWhenWrite earlier calls content := by
  obtain ⟨dir, handle, opened, holds⟩ := h.carries.kept
  refine ⟨_, if_pos dir, ?_⟩
  exact { h with
    carries := { h.carries with
      kept := ⟨dir, handle, opened,
        (holds.create_other (indexFileName_ne w start)).write_other Holds.create
          (indexFileName_ne w start) _⟩ } }

theorem rotate_without_dir
    (h : Unrotated w start false flushWhenWrite earlier calls content) (now : Int64)
    : ∃ failure, (w.rotate now).2 = .error failure := by
  have dir : w.files.indexDir = false := h.carries.kept.1
  unfold Writer.rotate Writer.newIndexFile
  rw [if_neg (by simp [dir])]
  exact ⟨_, rfl⟩

section Disk

variable {name : GoString} {handle : Handle} {now : Int64}

/-- What waited goes behind what the old file has, and the new file stays empty. -/
theorem rotatedDisk_apart (holds : Holds w.files.disk name handle content)
    (apart : msgFileName now ≠ name)
    : (w.rotatedDisk handle now).read name = some (content ++ w.buf.pending)
      ∧ (w.rotatedDisk handle now).read (msgFileName now) = some [] := by
  have old := holds.create_other apart.symm
  have new : Holds (w.files.disk.create (msgFileName now)).1 (msgFileName now) _ [] := Holds.create
  unfold Writer.rotatedDisk
  by_cases nothing : w.buf.pending = []
  · rw [if_pos nothing, nothing, append_nil]
    exact ⟨old.read, new.read⟩
  · rw [if_neg nothing]
    exact ⟨(old.write _).read, (new.write_other old apart _).read⟩

/-- A new file of the same name empties the old one, and what waited stands behind a gap. -/
theorem rotatedDisk_same (holds : Holds w.files.disk (msgFileName now) handle content)
    : (w.rotatedDisk handle now).read (msgFileName now)
      = some (if w.buf.pending = [] then []
          else List.replicate content.length 0 ++ w.buf.pending) := by
  unfold Writer.rotatedDisk
  by_cases nothing : w.buf.pending = []
  · rw [if_pos nothing, if_pos nothing]
    exact Holds.create.read
  · rw [if_neg nothing, if_neg nothing]
    exact holds.create_write _

/-- What is left of the old file is all of it only if it had got nothing. -/
theorem overwritten_eq_iff {pending : Bytes} (spaced : content ≠ [] → 32 ∈ content)
    : (if pending = [] then [] else List.replicate content.length 0 ++ pending)
        = content ++ pending
      ↔ content = [] := by
  constructor
  · intro same
    by_contra some
    split at same
    · exact some (append_eq_nil_iff.mp same.symm).1
    · have zeros := append_cancel_right same
      have zero := eq_of_mem_replicate (zeros ▸ spaced some)
      exact absurd zero (by decide)
  · rintro rfl
    split
    · next nothing => rw [nothing, append_nil]
    · rfl

end Disk

/-- After a rotation the buffer is bound to a closed file. The files hold no more than the lines,
and exactly these unless the new file took the name of the old one when that had got some bytes.
-/
theorem rotate (h : Unrotated w start true flushWhenWrite earlier calls content) (now : Int64)
    : (w.rotate now).2 = .ok 0
      ∧ (w.rotate now).1.Stranded
      ∧ ∃ contents : List Bytes,
          (w.rotate now).1.files.stored = contents.map some
          ∧ contents.flatten.length ≤ (lines calls).flatten.length
          ∧ (Holding (contents.map some) (lines calls)
            ↔ msgFileName now ≠ msgFileName start ∨ Unput flushWhenWrite earlier calls) := by
  obtain ⟨indexed, made, state⟩ := h.newIndexFile
  obtain ⟨dir, handle, opened, holds⟩ := state.carries.kept
  have whole : content ++ indexed.buf.pending = (lines calls).flatten := state.carries.whole
  obtain ⟨final, created, result⟩ := Writer.rotate_eq made opened rfl state.target
    state.carries.running now
  rw [result]
  refine ⟨rfl, ⟨_, rfl, rfl⟩, ?_⟩
  by_cases same : msgFileName now = msgFileName start
  · rw [← same] at holds
    have read := rotatedDisk_same holds
    refine ⟨[if indexed.buf.pending = [] then []
      else List.replicate content.length 0 ++ indexed.buf.pending], ?_, ?_, ?_⟩
    · simp [Files.stored, Files.msgFiles, eraseDups_cons, same, ← read]
    · rw [← whole]
      split <;> simp
    · rw [← state.unput, ← overwritten_eq_iff state.spaced, whole]
      constructor
      · intro holding
        exact Or.inr (by simpa using holding.flatten)
      · rintro (apart | kept)
        · exact absurd same apart
        · exact ⟨[lines calls], flatten_singleton, by rw [kept]; rfl⟩
  · obtain ⟨old, new⟩ := rotatedDisk_apart holds same
    rw [whole] at old
    refine ⟨[(lines calls).flatten, []], ?_, by simp, ?_⟩
    · simp [Files.stored, Files.msgFiles, eraseDups_cons, same, old, new]
    · exact ⟨fun _ => Or.inl same, fun _ => ⟨[lines calls, []], by simp, rfl⟩⟩

end Unrotated

theorem andThen_done (w : Writer) (next : Writer → Writer × Except GoError UInt64)
    : andThen (w, none) next = next w :=
  rfl

/-- An error ends a call. -/
theorem andThen_failed {result : Writer × Option GoError} (failed : result.2 ≠ none)
    (next : Writer → Writer × Except GoError UInt64) (id : UInt64)
    : (andThen result next).2 ≠ .ok id := by
  unfold andThen
  split
  · exact fun same => by cases same
  · next fine => exact absurd fine failed

namespace Writer.Stranded

variable {w : Writer} {limit : Int64} {call : Call} (h : w.Stranded)
include h

theorem refuses
    : ∃ failure, ∀ bytes, w.files.put w.target bytes = (w.files, some failure) := by
  obtain ⟨file, found, closed⟩ := h
  exact ⟨_, fun bytes => by rw [Files.put, found]; simp only [closed, if_true]; rfl⟩

theorem bufFlush_files : w.bufFlush.1.files = w.files := by
  obtain ⟨failure, refuses⟩ := h.refuses
  exact (flush_refused refuses).1

theorem bufFlush_failed (waiting : w.buf.pending ≠ [])
    : w.bufFlush.2 ≠ none := by
  obtain ⟨failure, refuses⟩ := h.refuses
  exact (flush_refused refuses).2 waiting

theorem newMsgFile (now : Int64) : (w.newMsgFile now).Stranded := by
  obtain ⟨file, found, closed⟩ := h
  refine ⟨file, ?_, closed⟩
  rw [← found]
  exact List.getElem?_append_left (List.getElem?_eq_some_iff.mp found).1

/-- Another rotation fails when it comes to flushing the buffer. -/
theorem rotate_failed (waiting : w.buf.pending ≠ []) (now : Int64) (id : UInt64)
    : (w.rotate now).2 ≠ .ok id := by
  unfold Writer.rotate Writer.newIndexFile
  split
  · dsimp only
    rw [andThen_done]
    refine andThen_failed (bufFlush_failed (newMsgFile ?_ now) ?_) _ id
    · exact h
    · exact waiting
  · exact andThen_failed (Option.some_ne_none _) _ id

/-- A line is taken only into the buffer. -/
theorem bufWrite {bytes : Bytes} (taken : (w.bufWrite bytes).2 = none)
    : w.bufWrite bytes
      = ({ w with buf := { w.buf with pending := w.buf.pending ++ bytes } }, none) := by
  obtain ⟨failure, refuses⟩ := h.refuses
  have only := write_refused refuses taken
  refine Prod.ext ?_ taken
  unfold Writer.bufWrite
  rw [only]

/-- A call that succeeds has only put its line into the buffer. -/
theorem write {id : UInt64} (succeeds : (w.write limit call).2 = .ok id)
    : (w.write limit call).1.files = w.files ∧ (w.write limit call).1.Stranded := by
  unfold Writer.write at succeeds ⊢
  dsimp only at succeeds ⊢
  generalize line : formatLine call.topic (w.latestID call.topic).toNat call.data = data at *
  have some : data ≠ [] := by
    rw [← line]
    exact ne_nil_of_mem (space_mem_formatLine _ _ _)
  by_cases taken : (w.bufWrite data).2 = none
  · rw [h.bufWrite taken, andThen_done] at succeeds ⊢
    have stranded
        : (Writer.count { w with buf := { w.buf with pending := w.buf.pending ++ data } } call.topic
            data.length).Stranded := h
    have waiting : w.buf.pending ++ data ≠ [] := append_ne_nil_of_right_ne_nil _ some
    split at succeeds
    · exact absurd succeeds (stranded.rotate_failed waiting call.now id)
    next within =>
    split at succeeds
    · exact absurd succeeds (andThen_failed (stranded.bufFlush_failed waiting) _ id)
    next unflushed =>
    rw [if_neg within, if_neg unflushed]
    exact ⟨rfl, stranded⟩
  · exact absurd succeeds (andThen_failed taken _ id)

/-- Nothing reaches a file any more in a run without errors, by induction on the calls. -/
theorem run {calls : List Call} (succeed : ∀ result ∈ (w.run limit calls).2, ∃ id, result = .ok id)
    : (w.run limit calls).1.bufFlush.1.files = w.files := by
  induction calls generalizing w with
  | nil => exact h.bufFlush_files
  | cons call rest ih =>
      obtain ⟨id, succeeds⟩ := succeed (w.write limit call).2 mem_cons_self
      obtain ⟨same, stranded⟩ := h.write succeeds
      have later := ih stranded
        (fun result member => succeed result (mem_cons_of_mem _ member))
      exact later.trans same

end Writer.Stranded

namespace Intact

variable {limit : Int64} {w : Writer} {calls : List Call}

theorem succeed (h : Intact limit w calls) {result : Except GoError UInt64}
    (member : result ∈ (w.run limit calls).2)
    : ∃ id, result = .ok id := by
  have mapped := mem_map_of_mem (f := Except.map UInt64.toNat) member
  rw [h.results] at mapped
  obtain ⟨call, -, same⟩ := mem_map.mp mapped
  obtain ⟨id, found, -⟩ := exists_of_map_ok same.symm
  exact ⟨id, found⟩

/-- Numbers beyond the words cannot be returned. -/
theorem small (h : Intact limit w calls) {before : List Call} {call : Call} {after : List Call}
    (split : calls = before ++ call :: after)
    : callsTo call.topic before < 2 ^ 64 := by
  have member : (call, callsTo call.topic before) ∈ numbered [] calls := by
    rw [split, numbered_append]
    exact mem_append_right _ mem_cons_self
  have mapped := mem_map_of_mem (f := fun call => Except.ok (ε := GoError) call.2) member
  rw [← h.results] at mapped
  obtain ⟨result, -, same⟩ := mem_map.mp mapped
  obtain ⟨id, -, number⟩ := exists_of_map_ok same
  have word := id.toNat_lt
  rwa [number] at word

end Intact

/-- A call does no harm: its number is a word, and if its line takes the file beyond the limit
then it is the last call and the first one of its topic, there is a place for the index file, and
the new file has a name of its own or the old one has got nothing yet.
-/
def Harmless (limit start : Int64) (indexDir flushWhenWrite : Bool) (before : List Call)
    (call : Call) (after : List Call)
    : Prop :=
  callsTo call.topic before < 2 ^ 64
  ∧ (Exceeds limit before call
      → after = []
        ∧ callsTo call.topic before = 0
        ∧ indexDir = true
        ∧ (msgFileName call.now ≠ msgFileName start
          ∨ Unput flushWhenWrite before (before ++ [call])))

section Runs

variable {start limit : Int64} {indexDir flushWhenWrite : Bool} {before after : List Call}
  {call : Call}

/-- The lines of later calls take room. -/
theorem flatten_lines_lt (some : after ≠ [])
    : (lines before).flatten.length < (lines (before ++ after)).flatten.length := by
  obtain ⟨next, rest, rfl⟩ := exists_cons_of_ne_nil some
  have line := length_pos_of_mem
    (space_mem_formatLine next.topic (callsTo next.topic before) next.data)
  have split : lines (before ++ next :: rest)
      = lines before
        ++ formatLine next.topic (callsTo next.topic before) next.data
          :: (numbered (before ++ [next]) rest).map
            (fun call => formatLine call.1.topic call.2 call.1.data) := by
    rw [lines, numbered_append, map_append]
    rfl
  rw [split, flatten_append, length_append, flatten_cons, length_append]
  omega

theorem results_split (limit : Int64) (w : Writer) (before after : List Call) (call : Call)
    (early
      : (w.run limit before).2.map (Except.map UInt64.toNat)
        = (numbered [] before).map (fun call => .ok call.2))
    : (w.run limit (before ++ call :: after)).2.map (Except.map UInt64.toNat)
        = (numbered [] (before ++ call :: after)).map (fun call => .ok call.2)
      ↔ ((w.run limit before).1.write limit call).2.map UInt64.toNat
          = .ok (callsTo call.topic before)
        ∧ (((w.run limit before).1.write limit call).1.run limit after).2.map
            (Except.map UInt64.toNat)
          = (numbered (before ++ [call]) after).map (fun call => .ok call.2) := by
  rw [Writer.run_append, numbered_append, map_append, map_append, early,
    append_cancel_left_eq, nil_append, Writer.run, numbered, map_cons,
    map_cons, List.cons.injEq]

/-- A run up to the first call beyond the limit is intact exactly if that call does no harm. -/
theorem intact_iff_of_first {w : Writer} {content : Bytes}
    (early
      : (w.run limit before).2.map (Except.map UInt64.toNat)
        = (numbered [] before).map (fun call => .ok call.2))
    (state : Unrotated (w.run limit before).1 start indexDir flushWhenWrite before before content)
    (small : callsTo call.topic before < 2 ^ 64) (beyond : Exceeds limit before call)
    : Intact limit w (before ++ call :: after)
      ↔ Harmless limit start indexDir flushWhenWrite before call after := by
  obtain ⟨counted, more, mid, result⟩ := state.write_eq small limit
  rw [if_pos beyond] at result
  have results := results_split limit w before after call early
  have whole := w.run_append limit before (call :: after)
  rw [Writer.run, result] at whole
  rw [result] at results
  cases indexDir with
  | false =>
      obtain ⟨failure, failed⟩ := mid.rotate_without_dir call.now
      constructor
      · intro intact
        have own := (results.mp intact.results).1
        rw [failed] at own
        cases own
      · intro harmless
        cases (harmless.2 beyond).2.2.1
  | true =>
      obtain ⟨returned, stranded, contents, stored, short, holding⟩ := mid.rotate call.now
      constructor
      · intro intact
        have own := (results.mp intact.results).1
        rw [returned] at own
        have kept := @Writer.Stranded.run _ limit stranded after (fun later member => by
          refine intact.succeed ?_
          rw [whole]
          exact mem_append_right _ (mem_cons_of_mem _ member))
        have files := intact.files
        rw [whole, kept, stored] at files
        have last : after = [] := by
          by_contra some
          have longer := @flatten_lines_lt (before ++ [call]) after some
          rw [append_assoc, singleton_append, ← files.flatten] at longer
          omega
        subst last
        exact ⟨small, fun _ => ⟨rfl, (Except.ok.inj own).symm, rfl, holding.mp files⟩⟩
      · intro harmless
        obtain ⟨rfl, first, -, kept⟩ := harmless.2 beyond
        refine ⟨results.mpr ⟨by rw [returned, first]; rfl, rfl⟩, ?_⟩
        rw [whole]
        dsimp only [Writer.run]
        rw [stranded.bufFlush_files, stored]
        exact holding.mpr kept

end Runs

/-- The log is intact exactly if no call does harm: a call beyond the limit has to be the last
one. Behind it the buffer is bound to a closed file, and it returns zero whatever its number.
-/
theorem intact_iff (disk : Disk GoString) (indexDir flushWhenWrite : Bool) (start limit : Int64)
    (calls : List Call)
    : Intact limit (newWriter disk indexDir flushWhenWrite start) calls
      ↔ ∀ before call after,
          calls = before ++ call :: after
          → Harmless limit start indexDir flushWhenWrite before call after := by
  rcases none_or_first (Exceeds limit) calls with
    within | ⟨front, first, rest, rfl, beyond, within⟩
  · constructor
    · intro intact before call after split
      exact ⟨intact.small split, fun beyond => absurd beyond (within before call after split)⟩
    · intro harmless
      obtain ⟨results, content, state⟩ := Unrotated.run disk indexDir flushWhenWrite start limit
        (fun before call after split => (harmless before call after split).1) within
      refine ⟨results, ?_⟩
      rw [state.stored]
      exact ⟨[lines calls], flatten_singleton, rfl⟩
  · -- Up to the first call beyond the limit nothing is lost, and that call decides.
    have decides
        (small
          : ∀ before call after, front ++ first :: rest = before ++ call :: after
              → callsTo call.topic before < 2 ^ 64)
        : Intact limit (newWriter disk indexDir flushWhenWrite start) (front ++ first :: rest)
          ↔ Harmless limit start indexDir flushWhenWrite front first rest := by
      obtain ⟨results, content, state⟩ := Unrotated.run disk indexDir flushWhenWrite start limit
        (fun before call after split =>
          small before call (after ++ first :: rest) (by simp [split])) within
      exact intact_iff_of_first results state (small front first rest rfl) beyond
    constructor
    · intro intact before call after split
      refine ⟨intact.small split, fun exceeds => ?_⟩
      have harmless := (decides (fun before call after split => intact.small split)).mp intact
      obtain ⟨rfl, only⟩ := harmless.2 beyond
      rcases eq_nil_or_concat' after with rfl | ⟨early, final, rfl⟩
      · obtain ⟨rfl, same⟩ := append_inj' split rfl
        rw [← singleton_inj.mp same]
        exact ⟨rfl, only⟩
      · rw [← cons_append, ← append_assoc] at split
        exact absurd exceeds (within before call early (append_inj' split rfl).1)
    · intro harmless
      exact (decides (fun before call after split => (harmless before call after split).1)).mpr
        (harmless front first rest rfl)

def threeCalls : List Call :=
  [
    { now := 1, topic := lit "a", data := lit "x" },
    { now := 2, topic := lit "a", data := lit "y" },
    { now := 3, topic := lit "a", data := lit "z" }
  ]

/-- The second call returns the number of the first one, and the third line is lost. -/
theorem threeCalls_lost
    : ((newWriter .empty true false 0).run 10 threeCalls).2 = [.ok 0, .ok 0, .ok 2]
      ∧ ((newWriter .empty true false 0).run 10 threeCalls).1.bufFlush.1.files.stored
        = [some (lit "a 0 x\na 1 y\n"), some []]
      ∧ ¬Intact 10 (newWriter .empty true false 0) threeCalls := by
  have results
      : ((newWriter .empty true false 0).run 10 threeCalls).2 = [.ok 0, .ok 0, .ok 2] := by
    decide +kernel
  refine ⟨results, by decide +kernel, fun intact => ?_⟩
  have numbers := intact.results
  rw [results] at numbers
  revert numbers
  decide

end Goulette.Core
