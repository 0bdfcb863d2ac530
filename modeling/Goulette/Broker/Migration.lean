import Goulette.Go.Md5
import Goulette.Storage.Replication

/-! The transfer of a topic's fragments to another broker, in `broker/server.go`. The stream
delivers what was sent, in order; the receiver's fragment manager does not learn of it.
-/

namespace Goulette.Broker

open Goulette.Go Goulette.Storage ByteFrames FileStore List

variable {source target next : FragmentManager} {topic : GoString}

structure FragmentChunk where
  topic : GoString
  fragmentID : Nat
  chunkIndex : UInt32
  data : Bytes
  isLast : Bool
  checksum : Bytes
deriving DecidableEq, Repr

def chunkSize : Nat := 1 * 1024 * 1024

def chunksOf (topic : GoString) (fragmentID : Nat) (chunkIndex : UInt32) (data : Bytes)
    : List FragmentChunk :=
  if data = [] then []
  else
    { topic, fragmentID, chunkIndex, data := data.take chunkSize,
      isLast := decide (data.length ≤ chunkSize), checksum := md5Sum (data.take chunkSize) }
      :: chunksOf topic fragmentID (chunkIndex + 1) (data.drop chunkSize)
termination_by data.length
decreasing_by
  next some =>
    have positive := length_pos_iff.mpr some
    rw [length_drop, chunkSize]
    omega

/-- The loop behind the first chunk: it ends with the stream or at a last chunk. -/
def receive (buffer : Bytes) : List FragmentChunk → Bytes
  | [] => buffer
  | chunk :: rest =>
      if chunk.isLast then buffer ++ chunk.data else receive (buffer ++ chunk.data) rest

def replicateFragment (fm : FragmentManager) (chunks : List FragmentChunk) (random : Nat)
    : Option FragmentManager :=
  match chunks with
  | [] => none
  -- topic and number are those of the first chunk
  | first :: rest =>
      fm.replicateFragmentToFile (receive first.data rest)
        (fm.joinedPath first.topic first.fragmentID) random

def sendFragmentToTarget (source : FragmentManager) (topic : GoString) (fragmentID random : Nat)
    (target : FragmentManager)
    : Option FragmentManager :=
  match source.readFragmentFile topic fragmentID with
  | none => none
  | some data => replicateFragment target (chunksOf topic fragmentID 0 data) random

/-- Send some fragments one after the other, up to the first failure. Every transfer has a random
number of its own.
-/
def sendFragments (source : FragmentManager) (topic : GoString)
    : (Nat → Nat) → List Fragment → FragmentManager → Option FragmentManager
  | _, [], target => some target
  | random, fragment :: rest, target =>
      if source.isFragmentFullyConsumed topic fragment.id then
        sendFragments source topic random rest target
      else
        match sendFragmentToTarget source topic fragment.id (random 0) target with
        | none => none
        | some target => sendFragments source topic (fun k => random (k + 1)) rest target

def replicateFragments (source : FragmentManager) (topic : GoString) (idx n : UInt64)
    (random : Nat → Nat) (target : FragmentManager)
    : Option FragmentManager :=
  match source.selectFragmentsForReplication topic idx n with
  | none => none
  | some fragments => sendFragments source topic random fragments target

/-- Chunks are put together again, by induction on the chunks. -/
theorem receive_chunksOf (topic : GoString) (fragmentID : Nat) (chunkIndex : UInt32)
    (buffer data : Bytes)
    : receive buffer (chunksOf topic fragmentID chunkIndex data) = buffer ++ data := by
  fun_induction chunksOf topic fragmentID chunkIndex data generalizing buffer with
  | case1 => rw [receive, append_nil]
  | case2 chunkIndex data some ih =>
      rw [receive]
      by_cases last : data.length ≤ chunkSize
      · rw [if_pos (decide_eq_true last), take_of_length_le last]
      · rw [if_neg (by simpa using last), ih, append_assoc, take_append_drop]

/-- A transfer that succeeds puts the sender's file under the receiver's path of the fragment, and
the receiver lists no other fragments than before.
-/
theorem sendFragmentToTarget_some {fragmentID random : Nat}
    (sent : sendFragmentToTarget source topic fragmentID random target = some next)
    : next.readFragmentFile topic fragmentID = source.readFragmentFile topic fragmentID
      ∧ next.fragments = target.fragments := by
  unfold sendFragmentToTarget at sent
  cases file : source.readFragmentFile topic fragmentID with
  | none =>
      rw [file] at sent
      cases sent
  | some data =>
      rw [file] at sent
      simp only at sent
      rw [chunksOf] at sent
      split at sent
      · cases sent
      · have whole := receive_chunksOf topic fragmentID (0 + 1) (data.take chunkSize)
          (data.drop chunkSize)
        rw [take_append_drop] at whole
        simp only [replicateFragment, whole] at sent
        obtain ⟨_, rfl⟩ := FragmentManager.replicateFragmentToFile_cases sent
        exact ⟨Disk.read_replace _ _ _ _, rfl⟩

/-- The receiver's lists stay as they are, by induction on the fragments sent. -/
theorem sendFragments_fragments {random : Nat → Nat} {fragments : List Fragment}
    (sent : sendFragments source topic random fragments target = some next)
    : next.fragments = target.fragments := by
  induction fragments generalizing random target with
  | nil => rw [← Option.some.inj sent]
  | cons fragment rest ih =>
      simp only [sendFragments, FragmentManager.isFragmentFullyConsumed, Bool.false_eq_true,
        if_false] at sent
      cases first : sendFragmentToTarget source topic fragment.id (random 0) target with
      | none =>
          rw [first] at sent
          cases sent
      | some middle =>
          rw [first] at sent
          exact (ih sent).trans (sendFragmentToTarget_some first).2

/-- Every fragment of the topic was sent, and all transfers succeeded. -/
def Transferred (source target : FragmentManager) (topic : GoString) (moved : FragmentManager)
    : Prop :=
  ∃ idx n random,
    source.selectFragmentsForReplication topic idx n = some (source.listed topic)
    ∧ replicateFragments source topic idx n random target = some moved

theorem Transferred.listed {moved : FragmentManager}
    (transferred : Transferred source target topic moved)
    : moved.listed = target.listed := by
  obtain ⟨idx, n, random, all, sent⟩ := transferred
  simp only [replicateFragments, all] at sent
  funext other
  rw [FragmentManager.listed, FragmentManager.listed, sendFragments_fragments sent]

/-- The receiver reads what the sender reads, also after further writes. -/
def Migrated (source moved : FragmentManager) (topic : GoString) (total : Int64) : Prop :=
  ∀ writes : List (Int × UInt64 × Bytes),
    (writes.foldl (fun fm write => fm.writeMessage write.1 topic write.2.1 write.2.2)
      moved).readMessages topic 0 total
    = source.readMessages topic 0 total

/-- A read without room returns nothing. -/
theorem readMessages_zero (fm : FragmentManager) (topic : GoString)
    : fm.readMessages topic 0 0 = [] := by
  have none : ¬(0 : UInt64) < 0 + (0 : Int64).toUInt64 := by decide
  rw [FragmentManager.readMessages]
  cases fm.listed topic with
  | nil => rfl
  | cons fragment rest =>
      rw [FragmentManager.readFragments, if_pos (UInt64.not_lt.mp none)]

/-- The messages of a topic arrive exactly if there are none. -/
theorem migrated_iff {source target moved : FragmentManager} {topic : GoString} {total : Int64}
    (absent : target.listed topic = []) (transferred : Transferred source target topic moved)
    (count : total.toInt = (source.readMessages topic 0 Int64.maxValue).length)
    : Migrated source moved topic total
      ↔ ∀ fragment ∈ source.listed topic, source.holdsNoMessage fragment = true := by
  have all : source.readMessages topic 0 Int64.maxValue = []
      ↔ ∀ fragment ∈ source.listed topic, source.holdsNoMessage fragment = true :=
    readMessages_eq_nil_iff source topic (by decide)
  rw [← all]
  have nothing : moved.readMessages topic 0 total = [] := by
    rw [FragmentManager.readMessages, transferred.listed, absent]
    rfl
  constructor
  · intro migrated
    have same : [] = source.readMessages topic 0 total := nothing.symm.trans (migrated [])
    by_contra some
    have positive : 0 < total := by
      rw [Int64.lt_iff_toInt_lt, count]
      have length := length_pos_iff.mpr some
      simpa using length
    refine some (all.mpr ?_)
    exact (readMessages_eq_nil_iff source topic positive).mp same.symm
  · intro empty writes
    have zero : total = 0 := by
      apply Int64.toInt_inj.mp
      rw [count, empty]
      rfl
    rw [zero, readMessages_zero, readMessages_zero]

def emptyManager : FragmentManager := .newFragmentManager .empty (lit "data") 1000 10 0

/-- A fragment without a message can be moved. -/
theorem migrated_iff_noMessage
    : ∃ moved,
        Transferred (emptyManager.createFragment 0 (lit "t")).1 emptyManager (lit "t") moved
        ∧ Migrated (emptyManager.createFragment 0 (lit "t")).1 moved (lit "t") 0 := by
  have sent
      : (replicateFragments (emptyManager.createFragment 0 (lit "t")).1 (lit "t") 0 1 (fun k => k)
          emptyManager).isSome := by decide +kernel
  obtain ⟨moved, done⟩ := Option.isSome_iff_exists.mp sent
  have transferred
      : Transferred (emptyManager.createFragment 0 (lit "t")).1 emptyManager (lit "t") moved :=
    ⟨0, 1, fun k => k, by decide +kernel, done⟩
  refine ⟨moved, transferred, (migrated_iff rfl transferred ?_).mpr ?_⟩
  · decide +kernel
  · decide +kernel

/-- A topic with one message: its file arrives, and the receiver reads nothing. -/
theorem not_migrated_oneMessage
    : ∃ moved,
        Transferred (emptyManager.writeMessage 0 (lit "t") 1 [120]) emptyManager (lit "t") moved
        ∧ (emptyManager.writeMessage 0 (lit "t") 1 [120]).readMessages (lit "t") 0 1
          = [newEntry 0 1 [120]]
        ∧ moved.readMessages (lit "t") 0 1 = []
        ∧ ¬Migrated (emptyManager.writeMessage 0 (lit "t") 1 [120]) moved (lit "t") 1 := by
  have sent
      : (replicateFragments (emptyManager.writeMessage 0 (lit "t") 1 [120]) (lit "t") 0 1
          (fun k => k) emptyManager).isSome := by decide +kernel
  obtain ⟨moved, done⟩ := Option.isSome_iff_exists.mp sent
  have transferred
      : Transferred (emptyManager.writeMessage 0 (lit "t") 1 [120]) emptyManager (lit "t") moved :=
    ⟨0, 1, fun k => k, by decide +kernel, done⟩
  have kept
      : (emptyManager.writeMessage 0 (lit "t") 1 [120]).readMessages (lit "t") 0 1
        = [newEntry 0 1 [120]] := by decide +kernel
  have nothing : moved.readMessages (lit "t") 0 1 = [] := by
    rw [FragmentManager.readMessages, transferred.listed]
    rfl
  refine ⟨moved, transferred, kept, nothing, fun migrated => ?_⟩
  have same := migrated []
  rw [foldl_nil, nothing, kept] at same
  cases same

end Goulette.Broker
