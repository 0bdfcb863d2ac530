import Goulette.Broker.Migration

/-! Streams of fragment chunks that may end or break off anywhere. The receiver takes topic and
number from the first chunk, the end from a later one, and looks at nothing else.
-/

namespace Goulette.Broker

open Goulette.Go Goulette.Storage ByteFrames FileStore List

/-- What `Recv` says behind the last chunk of a stream. -/
inductive StreamEnd
  | eof
  | failed (err : GoError)
deriving DecidableEq

def StreamEnd.error : StreamEnd → GoError
  | .eof => lit "EOF"
  | .failed err => err

def receiveStream (buffer : Bytes) (ending : StreamEnd)
    : List FragmentChunk → Except GoError Bytes
  | [] =>
      match ending with
      | .eof => .ok buffer
      | .failed err => .error (lit "接收Fragment分片失败: " ++ err)
  | chunk :: rest =>
      if chunk.isLast then .ok (buffer ++ chunk.data)
      else receiveStream (buffer ++ chunk.data) ending rest

def replicateStream (fm : FragmentManager) (chunks : List FragmentChunk) (ending : StreamEnd)
    (random : Nat)
    : Except GoError FragmentManager :=
  match chunks with
  | [] => .error (lit "接收首个Fragment分片失败: " ++ ending.error)
  | first :: rest =>
      match receiveStream first.data ending rest with
      | .error err => .error err
      | .ok data =>
          match fm.replicateFragmentToFile data (fm.joinedPath first.topic first.fragmentID)
              random with
          | none => .error (lit "保存Fragment文件失败")
          | some saved => .ok saved

def afterStream (fm : FragmentManager) (chunks : List FragmentChunk) (ending : StreamEnd)
    (random : Nat)
    : FragmentManager :=
  match replicateStream fm chunks ending random with
  | .error _ => fm
  | .ok saved => saved

def throughLast : List FragmentChunk → List FragmentChunk
  | [] => []
  | chunk :: rest => if chunk.isLast then [chunk] else chunk :: throughLast rest

/-- The chunks that the receiver takes from a stream; the first one does not end it. -/
def received : List FragmentChunk → List FragmentChunk
  | [] => []
  | first :: rest => first :: throughLast rest

def BreaksOff (chunks : List FragmentChunk) : StreamEnd → Prop
  | .eof => False
  | .failed _ => ∀ chunk ∈ chunks.tail, chunk.isLast = false

section

variable {ending : StreamEnd} {first : FragmentChunk} {rest chunks : List FragmentChunk}
  {fm : FragmentManager} {random : Nat}

theorem receiveStream_of_whole (whole : ¬BreaksOff (first :: rest) ending) (buffer : Bytes)
    : receiveStream buffer ending rest
      = .ok (buffer ++ (throughLast rest).flatMap FragmentChunk.data) := by
  induction rest generalizing first buffer with
  | nil =>
      cases ending with
      | eof => simp [receiveStream, throughLast]
      | failed err => exact absurd (fun chunk member => by cases member) whole
  | cons chunk rest ih =>
      rw [receiveStream, throughLast]
      cases last : chunk.isLast with
      | true => simp
      | false =>
          have later : ¬BreaksOff (chunk :: rest) ending := by
            intro breaks
            apply whole
            cases ending with
            | eof => exact breaks
            | failed err => exact forall_mem_cons.mpr ⟨last, breaks⟩
          simp only [Bool.false_eq_true, if_false]
          rw [ih later, flatMap_cons, append_assoc]

theorem receiveStream_of_breaksOff (breaks : BreaksOff (first :: rest) ending) (buffer : Bytes)
    : ∃ err, receiveStream buffer ending rest = .error err := by
  cases ending with
  | eof => exact breaks.elim
  | failed err =>
      induction rest generalizing buffer with
      | nil => exact ⟨_, rfl⟩
      | cons chunk rest ih =>
          obtain ⟨open_, later⟩ := forall_mem_cons.mp breaks
          rw [receiveStream, open_]
          exact ih (buffer ++ chunk.data) later

def temporaryOf (fm : FragmentManager) (chunk : FragmentChunk) (random : Nat) : GoString :=
  FragmentManager.temporaryPath (fm.joinedPath chunk.topic chunk.fragmentID) random

theorem afterStream_of_breaksOff (breaks : BreaksOff chunks ending)
    : afterStream fm chunks ending random = fm := by
  cases chunks with
  | nil => rfl
  | cons first rest =>
      obtain ⟨err, failed⟩ := receiveStream_of_breaksOff breaks first.data
      simp only [afterStream, replicateStream, failed]

theorem afterStream_of_taken
    (taken : (fm.disk.link (temporaryOf fm first random)).isSome)
    : afterStream fm (first :: rest) ending random = fm := by
  obtain ⟨file, linked⟩ := Option.isSome_iff_exists.mp taken
  simp only [afterStream, replicateStream]
  cases receiveStream first.data ending rest with
  | error err => rfl
  | ok data =>
      have refused
          : fm.replicateFragmentToFile data (fm.joinedPath first.topic first.fragmentID) random
            = none := by
        rw [temporaryOf] at linked
        simp only [FragmentManager.replicateFragmentToFile, linked]
      simp only [refused]

theorem readFragmentFile_afterStream (whole : ¬BreaksOff (first :: rest) ending)
    (free : fm.disk.link (temporaryOf fm first random) = none)
    : (afterStream fm (first :: rest) ending random).readFragmentFile first.topic first.fragmentID
      = some ((received (first :: rest)).flatMap FragmentChunk.data) := by
  have data := receiveStream_of_whole whole first.data
  simp only [afterStream, replicateStream, data]
  cases saved : fm.replicateFragmentToFile _ _ random with
  | none =>
      rw [temporaryOf] at free
      simp only [FragmentManager.replicateFragmentToFile, free] at saved
      cases saved
  | some next =>
      obtain ⟨_, rfl⟩ := FragmentManager.replicateFragmentToFile_cases saved
      exact Disk.read_replace _ _ _ _

end

theorem receiveStream_eof (buffer : Bytes) (chunks : List FragmentChunk)
    : receiveStream buffer .eof chunks = .ok (receive buffer chunks) := by
  induction chunks generalizing buffer with
  | nil => rfl
  | cons chunk rest ih =>
      rw [receiveStream, receive]
      split
      · rfl
      · exact ih (buffer ++ chunk.data)

/-- A stream that ends is received as `replicateFragment` receives it. -/
theorem replicateStream_eof (fm : FragmentManager) (chunks : List FragmentChunk) (random : Nat)
    : (replicateStream fm chunks .eof random).toOption = replicateFragment fm chunks random := by
  cases chunks with
  | nil => rfl
  | cons first rest =>
      simp only [replicateStream, replicateFragment, receiveStream_eof]
      cases fm.replicateFragmentToFile _ _ random <;> rfl

/-- The chunks belong to one fragment, come in order from zero, carry the digests of their data,
and the last of them says so.
-/
structure WellFormed (chunks : List FragmentChunk) : Prop where
  fragment
    : ∀ first ∈ chunks.head?, ∀ chunk ∈ chunks,
        chunk.topic = first.topic ∧ chunk.fragmentID = first.fragmentID
  indices
    : ∀ (i : Nat) (chunk : FragmentChunk),
        chunks[i]? = some chunk → chunk.chunkIndex.toNat = i
  checksums : ∀ chunk ∈ chunks, chunk.checksum = md5Sum chunk.data
  last : ∃ chunk ∈ chunks.getLast?, chunk.isLast = true

theorem chunksOf_eq_nil_iff (topic : GoString) (fragmentID : Nat) (chunkIndex : UInt32)
    (data : Bytes)
    : chunksOf topic fragmentID chunkIndex data = [] ↔ data = [] := by
  rw [chunksOf]
  split <;> simp_all

/-- What the sender puts into chunk number `i`. The loop counts in 32 bits. -/
theorem chunksOf_getElem {topic : GoString} {fragmentID : Nat} {chunkIndex : UInt32} {data : Bytes}
    {i : Nat} {chunk : FragmentChunk}
    (found : (chunksOf topic fragmentID chunkIndex data)[i]? = some chunk)
    : chunk.topic = topic
      ∧ chunk.fragmentID = fragmentID
      ∧ chunk.chunkIndex = chunkIndex + UInt32.ofNat i
      ∧ chunk.checksum = md5Sum chunk.data
      ∧ (chunk.isLast = true ↔ i + 1 = (chunksOf topic fragmentID chunkIndex data).length) := by
  fun_induction chunksOf topic fragmentID chunkIndex data generalizing i with
  | case1 => simp at found
  | case2 chunkIndex data some ih =>
      cases i with
      | zero =>
          obtain rfl := Option.some.inj found
          refine ⟨rfl, rfl, (UInt32.add_zero _).symm, rfl, ?_⟩
          rw [decide_eq_true_iff, length_cons, Nat.add_right_cancel_iff, eq_comm,
            length_eq_zero_iff, chunksOf_eq_nil_iff, drop_eq_nil_iff]
      | succ i =>
          obtain ⟨topicSame, fragmentSame, index, checksum, last⟩ := ih found
          refine ⟨topicSame, fragmentSame, ?_, checksum, ?_⟩
          · rw [index, UInt32.ofNat_add, UInt32.add_assoc, UInt32.add_comm 1]
            rfl
          · rw [last, length_cons]
            omega

/-- A fragment that is not empty arrives as it is, whatever its length; the name of the temporary
file is a free one. The chunks count up from zero in 32 bits, and exactly the last one is marked.
-/
theorem sendFragmentToTarget_whole {source target : FragmentManager} {topic : GoString}
    {fragmentID random : Nat} {data : Bytes}
    (content : source.readFragmentFile topic fragmentID = some data) (nonempty : data ≠ [])
    (free
      : target.disk.link
          (FragmentManager.temporaryPath (target.joinedPath topic fragmentID) random) = none)
    : (∃ next,
        sendFragmentToTarget source topic fragmentID random target = some next
        ∧ replicateStream target (chunksOf topic fragmentID 0 data) .eof random = .ok next
        ∧ next.readFragmentFile topic fragmentID = some data)
      ∧ ∀ (i : Nat) (chunk : FragmentChunk),
          (chunksOf topic fragmentID 0 data)[i]? = some chunk
          → chunk.chunkIndex = UInt32.ofNat i
            ∧ (chunk.isLast = true ↔ i + 1 = (chunksOf topic fragmentID 0 data).length) := by
  constructor
  · have sent
        : sendFragmentToTarget source topic fragmentID random target
          = (replicateStream target (chunksOf topic fragmentID 0 data) .eof random).toOption := by
      rw [replicateStream_eof, sendFragmentToTarget, content]
    cases stream : replicateStream target (chunksOf topic fragmentID 0 data) .eof random with
    | error err =>
        -- there is a first chunk, and nothing else can fail
        rw [chunksOf, if_neg nonempty, replicateStream] at stream
        simp only [receiveStream_eof, FragmentManager.replicateFragmentToFile, free] at stream
        cases stream
    | ok next =>
        rw [stream] at sent
        exact ⟨next, sent, rfl, (sendFragmentToTarget_some sent).1.trans content⟩
  · intro i chunk found
    obtain ⟨_, _, index, _, last⟩ := chunksOf_getElem found
    exact ⟨by rw [index, UInt32.zero_add], last⟩

def bareManager : FragmentManager := .newFragmentManager .empty (lit "/data") 100 10 0

def storedManager : FragmentManager :=
  { bareManager with
    disk := bareManager.disk.replace (lit "/data/t/new") (bareManager.joinedPath (lit "t") 0)
      [1, 2, 3] }

theorem storedManager_read : storedManager.readFragmentFile (lit "t") 0 = some [1, 2, 3] :=
  Disk.read_replace _ _ _ _

/-- A file of three bytes. -/
theorem sendFragmentToTarget_stored
    : ∃ next,
        sendFragmentToTarget storedManager (lit "t") 0 0 bareManager = some next
        ∧ next.readFragmentFile (lit "t") 0 = some [1, 2, 3] := by
  obtain ⟨next, sent, _, read⟩ :=
    (sendFragmentToTarget_whole storedManager_read (cons_ne_nil 1 [2, 3])
      (rfl : bareManager.disk.link
        (FragmentManager.temporaryPath (bareManager.joinedPath (lit "t") 0) 0) = none)).1
  exact ⟨next, sent, read⟩

/-- Unless the chunks taken from the stream are well formed, the file of the fragment keeps its
content.
-/
def RefusesBroken (fm : FragmentManager) (chunks : List FragmentChunk) (ending : StreamEnd)
    (random : Nat)
    : Prop :=
  WellFormed (received chunks)
  ∨ ∀ first ∈ chunks.head?,
      (afterStream fm chunks ending random).readFragmentFile first.topic first.fragmentID
      = fm.readFragmentFile first.topic first.fragmentID

/-- The chunks are well formed, or the stream breaks off before a last chunk, or it brings
nothing that can be saved: there is no chunk, no name for a temporary file, or the file has this
content already.
-/
def Harmless (fm : FragmentManager) (chunks : List FragmentChunk) (ending : StreamEnd)
    (random : Nat)
    : Prop :=
  WellFormed (received chunks)
  ∨ BreaksOff chunks ending
  ∨ ∀ first ∈ chunks.head?,
      (fm.disk.link (temporaryOf fm first random)).isSome
      ∨ fm.readFragmentFile first.topic first.fragmentID
        = some ((received chunks).flatMap FragmentChunk.data)

/-- A broken transfer leaves the file alone exactly if the stream breaks off or brings nothing
new: no chunk is looked at but for its data and the mark of a last one.
-/
theorem refusesBroken_iff (fm : FragmentManager) (chunks : List FragmentChunk) (ending : StreamEnd)
    (random : Nat)
    : RefusesBroken fm chunks ending random ↔ Harmless fm chunks ending random := by
  refine or_congr_right ?_
  cases chunks with
  | nil =>
      exact iff_of_true (fun first none => by cases none)
        (Or.inr (fun first none => by cases none))
  | cons first rest =>
      simp only [List.head?_cons, Option.mem_some_iff, forall_eq']
      by_cases breaks : BreaksOff (first :: rest) ending
      · rw [afterStream_of_breaksOff breaks]
        exact iff_of_true rfl (Or.inl breaks)
      cases taken : fm.disk.link (temporaryOf fm first random) with
      | some file =>
          rw [afterStream_of_taken (by rw [taken]; rfl)]
          exact iff_of_true rfl (Or.inr (Or.inl rfl))
      | none =>
          rw [readFragmentFile_afterStream breaks taken]
          simp [breaks, eq_comm]

/-- A chunk without a digest that claims to be the sixth and not the last one. -/
def strayChunk : FragmentChunk where
  topic := lit "t"
  fragmentID := 0
  chunkIndex := 5
  data := [9]
  isLast := false
  checksum := []

/-- The stray chunk alone takes the place of the file. -/
theorem not_refusesBroken_stray : ¬RefusesBroken storedManager [strayChunk] .eof 0 := by
  rintro (formed | kept)
  · have index := formed.indices 0 strayChunk rfl
    cases index
  · have free
        : storedManager.disk.link (temporaryOf storedManager strayChunk 0) = none := by
      decide +kernel
    have whole : ¬BreaksOff [strayChunk] .eof := id
    have replaced := readFragmentFile_afterStream whole free
    have same := kept strayChunk rfl
    rw [replaced] at same
    cases same.trans storedManager_read

end Goulette.Broker
