import Goulette.Core.MessageLog

/-! The checkpoint of the consumed messages, in `broker/core/core.go`. The file is renamed and
closed while its last bytes are in the buffer, and nothing separates a topic from its number.
-/

namespace Goulette.Core

open Goulette.Go ByteFrames FileStore BufferedWriter

/-- A value in the map of consumed messages, with its dynamic type. -/
inductive Consumed
  | int (value : Int64)
  | uint64 (value : UInt64)
deriving DecidableEq

abbrev Entry := (_ : GoString) × Consumed

end Goulette.Core

structure Goulette.Core where
  topic2ch : List Goulette.Go.GoString
  consumed : Goulette.Go.GoMap Goulette.Go.GoString Goulette.Core.Consumed

namespace Goulette.Core

open Goulette.Go ByteFrames FileStore BufferedWriter

variable {content : Bytes}

inductive CoreCall
  | registerTopic (topic : GoString)
  | updateConsumed (topic : GoString) (consumed : UInt64)

def step (core : Core) : CoreCall → Core
  | .registerTopic topic =>
      if topic ∈ core.topic2ch then core
      else
        { topic2ch := core.topic2ch ++ [topic]
          -- the constant that is stored for a new topic is an `int`
          consumed := core.consumed.insert topic (.int 0) }
  | .updateConsumed topic consumed =>
      { core with consumed := core.consumed.insert topic (.uint64 consumed) }

def afterCalls (calls : List CoreCall) : Core :=
  calls.foldl step { topic2ch := [], consumed := ∅ }

def progress (core : Core) (topic : GoString) : Option Consumed :=
  if topic ∈ core.topic2ch then core.consumed.lookup topic else none

def consumedFilePath : GoString := lit "log/consumed.cor"

def tempConsumedFilePath : GoString := lit "log/consumedTemp.cor"

def putFile (sink : Disk GoString × Handle) (bytes : Bytes)
    : (Disk GoString × Handle) × Option GoError :=
  (sink.1.write sink.2 bytes, none)

abbrev TempFile := (Disk GoString × Handle) × Buffer GoError

def newTempFile (disk : Disk GoString) : TempFile := (disk.create tempConsumedFilePath, .empty)

/-- Write one entry. -/
def record (file : TempFile) (entry : Entry) : Except GoError TempFile :=
  match entry.2 with
  -- a value of the other type is a panic
  | .int _ => .error (lit "interface conversion: interface \x7b\x7d is int, not uint64")
  | .uint64 value =>
      .ok ([entry.1, [], decimal value.toNat, lit "\n"].foldl
        (BufferedWriter.write putFile bufferSize) file)

def recordAll (file : TempFile) : List Entry → Except GoError TempFile
  | [] => .ok file
  | entry :: rest =>
      match record file entry with
      | .error panic => .error panic
      | .ok file => recordAll file rest

/-- One round of `flush`, with the entries in the order in which the map is ranged over. -/
def flushTick (disk : Disk GoString) (entries : List Entry) : Except GoError (Disk GoString) :=
  match recordAll (newTempFile disk) entries with
  | .error panic => .error panic
  -- the buffer is left as it is
  | .ok file => .ok (file.1.1.rename tempConsumedFilePath consumedFilePath)

def Publishes (disk : Disk GoString) (entries : List Entry) (content : Bytes) : Prop :=
  ∃ next, flushTick disk entries = .ok next ∧ next.read consumedFilePath = some content

def SameLines (content other : Bytes) : Prop :=
  ∀ line, line ∈ content.splitOn 10 ↔ line ∈ other.splitOn 10

/-- The tick runs to its end, and no core with other values publishes the same lines, in whatever
order its map is ranged over.
-/
def Faithful (disk : Disk GoString) (calls : List CoreCall) (entries : List Entry) : Prop :=
  ∃ content,
    Publishes disk entries content
    ∧ ∀ otherDisk otherCalls otherEntries other,
        otherEntries.Perm (afterCalls otherCalls).consumed.entries
        → Publishes otherDisk otherEntries other
        → SameLines content other
        → (afterCalls otherCalls).progress = (afterCalls calls).progress

def TempHolds (sink : Disk GoString × Handle) (content : Bytes) : Prop :=
  Holds sink.1 tempConsumedFilePath sink.2 content

theorem TempHolds.accepts : Accepts putFile TempHolds :=
  fun holds bytes => ⟨rfl, holds.write bytes⟩

def Chunked (file : TempFile) : Prop :=
  ∃ content written,
    Carries bufferSize TempHolds file content written
    ∧ (content = [] ∨ bufferSize ≤ content.length)

variable {file : TempFile}

theorem Chunked.write (h : Chunked file) (bytes : Bytes)
    : Chunked (BufferedWriter.write putFile bufferSize file bytes) := by
  obtain ⟨content, written, carries, size⟩ := h
  obtain ⟨more, next, advance⟩ := carries.write TempHolds.accepts bytes
  refine ⟨more, _, next, ?_⟩
  cases advance with
  | waits room => exact size
  | puts full drained long first alone => exact Or.inr long

theorem Chunked.record {next : TempFile} (h : Chunked file) {entry : Entry}
    (done : record file entry = .ok next)
    : Chunked next := by
  unfold Core.record at done
  split at done
  · cases done
  · cases done
    exact (((h.write _).write _).write _).write _

variable {entries : List Entry}

theorem Chunked.recordAll {next : TempFile} (h : Chunked file)
    (done : recordAll file entries = .ok next)
    : Chunked next := by
  induction entries generalizing file with
  | nil =>
      cases done
      exact h
  | cons entry rest ih =>
      rw [Core.recordAll] at done
      split at done
      · cases done
      · next step => exact ih (h.record step) done

theorem newTempFile_carries (disk : Disk GoString)
    : Carries bufferSize TempHolds (newTempFile disk) [] [] :=
  ⟨Holds.create, rfl, Nat.zero_le _, rfl⟩

theorem publishes_of_recordAll {disk : Disk GoString} {written : Bytes}
    (done : recordAll (newTempFile disk) entries = .ok file)
    (carries : Carries bufferSize TempHolds file content written)
    : Publishes disk entries content := by
  refine ⟨file.1.1.rename tempConsumedFilePath consumedFilePath, ?_, ?_⟩
  · rw [flushTick, done]
  · rw [Disk.read_rename]
    exact carries.kept.read

theorem Publishes.chunked {disk : Disk GoString} (h : Publishes disk entries content)
    : content = [] ∨ bufferSize ≤ content.length := by
  obtain ⟨next, done, read⟩ := h
  unfold flushTick at done
  split at done
  · cases done
  · next file recorded =>
      cases done
      obtain ⟨own, written, carries, size⟩ :=
        Chunked.recordAll ⟨[], [], newTempFile_carries disk, Or.inl rfl⟩ recorded
      rw [Disk.read_rename, carries.kept.read, Option.some.injEq] at read
      rwa [← read]

section Single

variable {file : TempFile} {topic number : Bytes} (h : Carries bufferSize TempHolds file [] [])
  (digit : number.length = 1)
include h digit

/-- A short entry stays in the buffer. -/
theorem single_short (short : topic.length + 2 ≤ bufferSize)
    : ∃ written,
        Carries bufferSize TempHolds
          ([topic, [], number, lit "\n"].foldl (BufferedWriter.write putFile bufferSize) file) []
          written := by
  have newline : (lit "\n").length = 1 := by decide
  have nothing := h.nothing_pending
  refine ⟨_, h.writes_wait TempHolds.accepts ?_⟩
  simp only [nothing, List.flatten_cons, List.flatten_nil, List.length_append, List.length_nil,
    digit, newline]
  omega

/-- A topic that fills the buffer reaches the file, and its number does not. -/
theorem single_long (long : bufferSize ≤ topic.length)
    : ∃ written,
        Carries bufferSize TempHolds
          ([topic, [], number, lit "\n"].foldl (BufferedWriter.write putFile bufferSize) file) topic
          written := by
  have newline : (lit "\n").length = 1 := by decide
  have room : 2 ≤ bufferSize := by decide
  have nothing : file.2.pending.length = 0 := by rw [h.nothing_pending, List.length_nil]
  obtain ⟨more, first, advance⟩ := h.write TempHolds.accepts topic
  have pending := first.length
  rw [List.nil_append] at first pending
  cases advance with
  | puts full drained big whole alone =>
      obtain rfl := whole rfl
      refine ⟨_, @Carries.writes_wait _ _ _ _ _ _ _ _ TempHolds.accepts first
        [[], number, lit "\n"] ?_⟩
      simp only [List.flatten_cons, List.flatten_nil, List.length_append, List.length_nil, digit,
        newline]
      omega
  | waits room =>
      -- The topic fills the buffer exactly, and the number pushes it out.
      have second := @Carries.writes_wait _ _ _ _ _ _ _ _ TempHolds.accepts first [[]] (by
        simp only [List.flatten_cons, List.flatten_nil, List.append_nil, List.length_nil]
        omega)
      obtain ⟨more, third, advance⟩ := second.write TempHolds.accepts number
      have waiting := second.length
      have rest := third.length
      simp only [List.flatten_cons, List.flatten_nil, List.append_nil, List.length_nil,
        List.length_append] at waiting third rest advance
      cases advance with
      | waits room => omega
      | puts full drained big whole alone =>
          obtain rfl := alone (by omega) (by rw [digit]; decide)
          refine ⟨_, @Carries.writes_wait _ _ _ _ _ _ _ _ TempHolds.accepts third [lit "\n"] ?_⟩
          simp only [List.flatten_cons, List.flatten_nil, List.append_nil, newline]
          omega

end Single

/-- A topic alone in the map is published as it is if it fills the buffer, and a short one is not
published at all.
-/
theorem publishes_single (disk : Disk GoString) {topic : Bytes}
    (size
      : topic.length + 2 ≤ bufferSize ∧ content = []
        ∨ bufferSize ≤ topic.length ∧ content = topic)
    {value : UInt64} (digit : (decimal value.toNat).length = 1)
    : Publishes disk [⟨topic, .uint64 value⟩] content := by
  rcases size with ⟨short, rfl⟩ | ⟨long, rfl⟩
  · obtain ⟨written, carries⟩ := single_short (newTempFile_carries disk) digit short
    exact publishes_of_recordAll rfl carries
  · obtain ⟨written, carries⟩ := single_long (newTempFile_carries disk) digit long
    exact publishes_of_recordAll rfl carries

def setTo (topic : GoString) (value : UInt64) : List CoreCall :=
  [.registerTopic topic, .updateConsumed topic value]

theorem afterCalls_setTo (topic : GoString) (value : UInt64)
    : (afterCalls (setTo topic value)).consumed.entries = [⟨topic, .uint64 value⟩]
      ∧ (afterCalls (setTo topic value)).progress topic = some (.uint64 value) := by
  constructor
  · simp [afterCalls, setTo, step]
  · simp [afterCalls, setTo, step, progress]
    exact List.dlookup_cons_eq _ _ _

/-- No checkpoint is faithful: either the tick panics, or what it publishes is also published for
a single topic that is chosen to be just that content, whatever its progress.
-/
theorem never_faithful (disk : Disk GoString) (calls : List CoreCall) (entries : List Entry)
    : ¬Faithful disk calls entries := by
  rintro ⟨content, published, unique⟩
  obtain ⟨topic, size⟩
      : ∃ topic : GoString,
          topic.length + 2 ≤ bufferSize ∧ content = []
          ∨ bufferSize ≤ topic.length ∧ content = topic := by
    rcases published.chunked with nothing | long
    · exact ⟨[], Or.inl ⟨by decide, nothing⟩⟩
    · exact ⟨content, Or.inr ⟨long, rfl⟩⟩
  have agrees {value : UInt64} (digit : (decimal value.toNat).length = 1)
      : (afterCalls calls).progress topic = some (.uint64 value) := by
    obtain ⟨single, own⟩ := afterCalls_setTo topic value
    have same := unique disk (setTo topic value) [⟨topic, .uint64 value⟩] content (by rw [single])
      (publishes_single disk size digit) (fun line => Iff.rfl)
    rw [← same, own]
  have zero := @agrees 0 (by decide)
  rw [@agrees 1 (by decide)] at zero
  cases zero

/-- A topic that was only registered makes the tick panic; and the progress of a short topic is
not published.
-/
theorem registered_panics
    : (afterCalls [.registerTopic (lit "orders")]).consumed.entries = [⟨lit "orders", .int 0⟩]
      ∧ flushTick .empty [⟨lit "orders", .int 0⟩]
        = .error (lit "interface conversion: interface \x7b\x7d is int, not uint64")
      ∧ ¬Faithful .empty [.registerTopic (lit "orders")] [⟨lit "orders", .int 0⟩]
      ∧ Publishes .empty [⟨lit "orders", .uint64 1⟩] []
      ∧ Publishes .empty [⟨lit "orders", .uint64 2⟩] [] := by
  refine ⟨rfl, rfl, ?_, publishes_single .empty (Or.inl ⟨by decide, rfl⟩) (by decide),
    publishes_single .empty (Or.inl ⟨by decide, rfl⟩) (by decide)⟩
  rintro ⟨content, ⟨next, done, -⟩, -⟩
  cases done

end Goulette.Core
