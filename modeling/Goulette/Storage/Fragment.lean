import Goulette.Go.Path
import Goulette.Go.Reader
import Goulette.Library.FileStore

/-! The fragment manager of `internal/storage/fragment.go`. File operations succeed, except that
`storeMessage` asks whether the topic can name a directory; a read of a file that is gone skips the
fragment. One reading of the clock serves a whole call.
-/

namespace Goulette.Storage

open Goulette.Go ByteFrames FileStore

structure Fragment where
  id : Nat
  topic : GoString
  path : GoString
  size : Int
  messageCount : Int
  createdAt : Int
  file : Handle
deriving DecidableEq, Repr

structure MessageEntry where
  messageID : UInt64
  timestamp : Int64
  payloadSize : UInt32
  payload : Bytes
deriving DecidableEq, Repr

/-- The manager with the disk it works on. Times and the TTL are in nanoseconds. -/
structure FragmentManager where
  baseDir : GoString
  fragments : GoMap GoString (List Fragment)
  maxSize : Int
  maxMessages : Int
  ttl : Int
  disk : Disk GoString

/-- `Time.Unix`: whole seconds. -/
def unix (now : Int) : Int64 := Int64.ofInt (now / 1000000000)

/-- `Time.Sub`: the difference, limited to what a duration can hold. -/
def timeSub (now before : Int) : Int :=
  max (-(2 ^ 63)) (min (2 ^ 63 - 1) (now - before))

def fragmentName (id : Nat) : GoString := lit "fragment_" ++ decimal id ++ lit ".frag"

/-- The file header: magic number, version, topic with its length, and creation time. -/
def fragmentHeader (topic : GoString) (createdAt : Int64) : Bytes :=
  [0x46, 0x52, 0x41, 0x47] ++ bigEndian 4 1 ++ bigEndian 4 topic.length ++ topic
    ++ bigEndian 8 createdAt.toUInt64.toNat

def MessageEntry.encode (entry : MessageEntry) : Bytes :=
  bigEndian 8 entry.messageID.toNat
    ++ (bigEndian 8 entry.timestamp.toUInt64.toNat
    ++ (bigEndian 4 entry.payloadSize.toNat
    ++ entry.payload))

def unnameable (part : GoString) : Bool := decide (255 < part.length) || part.contains 0

namespace FragmentManager

def newFragmentManager (disk : Disk GoString) (baseDir : GoString)
    (maxSize maxMessages ttl : Int)
    : FragmentManager :=
  { baseDir, fragments := ∅, maxSize, maxMessages, ttl, disk }

def listed (fm : FragmentManager) (topic : GoString) : List Fragment :=
  (fm.fragments.lookup topic).getD []

def getFragmentPath (fm : FragmentManager) (topic : GoString) (id : Nat) : GoString :=
  join [join [fm.baseDir, topic], fragmentName id]

def createFragment (fm : FragmentManager) (now : Int) (topic : GoString)
    : FragmentManager × Fragment :=
  -- the new fragment is numbered by the length of the topic's list
  let id := (fm.listed topic).length
  let path := fm.getFragmentPath topic id
  let created := fm.disk.create path
  let written := created.1.write created.2 (fragmentHeader topic (unix now))
  let fragment : Fragment :=
    { id, topic, path, size := 0, messageCount := 0, createdAt := now, file := written.2 }
  ({ fm with
      fragments := fm.fragments.insert topic (fm.listed topic ++ [fragment])
      disk := written.1 },
    fragment)

def needsFragment (fm : FragmentManager) (topic : GoString) : Bool :=
  match (fm.listed topic).getLast? with
  | none => true
  | some current =>
      decide (current.size ≥ fm.maxSize) || decide (current.messageCount ≥ fm.maxMessages)

def getCurrentFragment (fm : FragmentManager) (now : Int) (topic : GoString)
    : FragmentManager × Fragment :=
  match (fm.listed topic).getLast? with
  | none => fm.createFragment now topic
  | some current =>
      if current.size ≥ fm.maxSize ∨ current.messageCount ≥ fm.maxMessages then
        fm.createFragment now topic
      else (fm, current)

def writeMessage (fm : FragmentManager) (now : Int) (topic : GoString) (messageID : UInt64)
    (payload : Bytes)
    : FragmentManager :=
  let current := fm.getCurrentFragment now topic
  let entry : MessageEntry :=
    { messageID, timestamp := unix now, payloadSize := UInt32.ofNat payload.length, payload }
  let written := current.1.disk.write current.2.file entry.encode
  let fragment :=
    { current.2 with
      size := current.2.size + (8 + 8 + 4 + payload.length)
      messageCount := current.2.messageCount + 1
      file := written.2 }
  -- the current fragment is the last of its topic, and is updated in place
  { current.1 with
    fragments :=
      current.1.fragments.insert topic ((current.1.listed topic).dropLast ++ [fragment])
    disk := written.1 }

/-- The error of `MkdirAll` for a topic, at the first part that no file can be named: it is too long
or has a NUL.
-/
def directoryError (fm : FragmentManager) (topic : GoString) : Option GoError :=
  if (pathParts topic).any unnameable then
    let path := join [fm.baseDir, topic]
    let parts := (pathParts path).take ((pathParts path).findIdx unnameable + 1)
    some
      (lit "创建目录失败: mkdir " ++ renderPath (isRooted path) parts
        ++ if (parts.getLastD []).contains 0 then lit ": invalid argument"
          else lit ": file name too long")
  else none

/-- `WriteMessage` as its callers see it: a topic without a directory never gets a fragment. -/
def storeMessage (fm : FragmentManager) (now : Int) (topic : GoString) (messageID : UInt64)
    (payload : Bytes)
    : FragmentManager × Option GoError :=
  match fm.directoryError topic with
  | some failure => (fm, some failure)
  | none => (fm.writeMessage now topic messageID payload, none)

def closeTopic (fm : FragmentManager) (topic : GoString) : FragmentManager :=
  { fm with fragments := fm.fragments.erase topic }

def expired (fm : FragmentManager) (now : Int) (fragment : Fragment) : Bool :=
  decide (timeSub now fragment.createdAt > fm.ttl)

def cleanupTopic (now : Int) (fm : FragmentManager) (topic : GoString)
    (fragments : List Fragment)
    : FragmentManager :=
  let gone := fragments.filter (fm.expired now)
  let validFragments := fragments.filter (fun fragment => !fm.expired now fragment)
  { fm with
    disk := gone.foldl (fun disk fragment => disk.remove fragment.path) fm.disk
    fragments :=
      if validFragments = [] then fm.fragments.erase topic
      else fm.fragments.insert topic validFragments }

def cleanupExpiredFragments (fm : FragmentManager) (now : Int) : FragmentManager :=
  if fm.ttl ≤ 0 then fm
  else fm.fragments.entries.foldl (fun fm entry => cleanupTopic now fm entry.1 entry.2) fm

end FragmentManager

def readMessage (bytes : Bytes) : Option (MessageEntry × Bytes) :=
  match readFull 8 bytes with
  | .error _ => none
  | .ok (messageID, bytes) =>
      match readFull 8 bytes with
      | .error _ => none
      | .ok (timestamp, bytes) =>
          match readFull 4 bytes with
          | .error _ => none
          | .ok (payloadSize, bytes) =>
              match readFull (fromBigEndian payloadSize) bytes with
              | .error _ => none
              | .ok (payload, rest) =>
                  some ({
                    messageID := UInt64.ofNat (fromBigEndian messageID)
                    timestamp := (UInt64.ofNat (fromBigEndian timestamp)).toInt64
                    payloadSize := UInt32.ofNat (fromBigEndian payloadSize)
                    payload }, rest)

/-- A message that is found has its four fields in front of the rest. -/
theorem readMessage_cases {bytes rest : Bytes} {entry : MessageEntry}
    (found : readMessage bytes = some (entry, rest))
    : ∃ messageID timestamp payloadSize payload : Bytes,
        bytes = messageID ++ (timestamp ++ (payloadSize ++ (payload ++ rest)))
        ∧ messageID.length = 8
        ∧ timestamp.length = 8
        ∧ payloadSize.length = 4
        ∧ payload.length = fromBigEndian payloadSize
        ∧ entry = {
            messageID := UInt64.ofNat (fromBigEndian messageID)
            timestamp := (UInt64.ofNat (fromBigEndian timestamp)).toInt64
            payloadSize := UInt32.ofNat (fromBigEndian payloadSize)
            payload } := by
  unfold readMessage at found
  split at found
  · cases found
  next messageID afterID first =>
    split at found
    · cases found
    next timestamp afterTime second =>
      split at found
      · cases found
      next payloadSize afterSize third =>
        split at found
        · cases found
        next payload left fourth =>
          cases found
          obtain ⟨rfl, idSize⟩ := readFull_ok first
          obtain ⟨rfl, timeSize⟩ := readFull_ok second
          obtain ⟨rfl, sizeSize⟩ := readFull_ok third
          obtain ⟨rfl, size⟩ := readFull_ok fourth
          exact ⟨messageID, timestamp, payloadSize, payload, rfl, idSize, timeSize, sizeSize, size,
            rfl⟩

theorem readMessage_fields {messageID timestamp payloadSize payload : Bytes}
    (idSize : messageID.length = 8) (timeSize : timestamp.length = 8)
    (sizeSize : payloadSize.length = 4) (size : payload.length = fromBigEndian payloadSize)
    (rest : Bytes)
    : readMessage (messageID ++ (timestamp ++ (payloadSize ++ (payload ++ rest))))
      = some ({
          messageID := UInt64.ofNat (fromBigEndian messageID)
          timestamp := (UInt64.ofNat (fromBigEndian timestamp)).toInt64
          payloadSize := UInt32.ofNat (fromBigEndian payloadSize)
          payload }, rest) := by
  simp only [readMessage, readFull_append idSize, readFull_append timeSize,
    readFull_append sizeSize, readFull_append size]

theorem readMessage_shorter {bytes rest : Bytes} {entry : MessageEntry}
    (found : readMessage bytes = some (entry, rest))
    : rest.length < bytes.length := by
  obtain ⟨messageID, timestamp, payloadSize, payload, rfl, idSize, _⟩ := readMessage_cases found
  simp only [List.length_append]
  omega

/-- The message loop over one file: the current offset and the messages collected. -/
def readFragment (offset stop : UInt64) (currentOffset : UInt64) (messages : List MessageEntry)
    (bytes : Bytes)
    : UInt64 × List MessageEntry :=
  if currentOffset ≥ stop then (currentOffset, messages)
  else
    match _found : readMessage bytes with
    | none => (currentOffset, messages)
    | some (entry, rest) =>
        readFragment offset stop (currentOffset + 1)
          (if currentOffset ≥ offset then messages ++ [entry] else messages) rest
termination_by bytes.length
decreasing_by exact readMessage_shorter _found

namespace FragmentManager

def readFragments (fm : FragmentManager) (offset stop : UInt64)
    : UInt64 → List MessageEntry → List Fragment → List MessageEntry
  | _, messages, [] => messages
  | currentOffset, messages, fragment :: rest =>
      if currentOffset ≥ stop then messages
      else
        match fm.disk.read fragment.path with
        | none => fm.readFragments offset stop currentOffset messages rest
        | some content =>
            let headerSize := 4 + 4 + 4 + fragment.topic.length + 8
            let result := readFragment offset stop currentOffset messages (content.drop headerSize)
            fm.readFragments offset stop result.1 result.2 rest

def readMessages (fm : FragmentManager) (topic : GoString) (offset : UInt64) (limit : Int64)
    : List MessageEntry :=
  -- the sum of offset and limit wraps around
  fm.readFragments offset (offset + limit.toUInt64) 0 [] (fm.listed topic)

end FragmentManager

end Goulette.Storage
