import Goulette.Go.Json
import Goulette.Raft.Node
import Goulette.Storage.Fragment

/-! The wire format of `internal/raft/manager.go`. A command travels in a field of interface type,
so a receiver gets a map where the sender had a pointer to a `MessageCommand`.
-/

namespace Goulette.Raft

open Goulette.Go Goulette.Storage ByteFrames List

/-- What a leader proposes for a message. -/
structure MessageCommand where
  topic : GoString
  messageID : UInt64
  payload : Bytes
  timestamp : Int64
deriving DecidableEq, Repr

/-- The dynamic value of a log entry's command, when it is not nil. -/
inductive Command
  | message (command : MessageCommand)
  | decoded (value : Any)

/-- The types that the two functions of the wire format switch over. -/
inductive RaftMessage
  | requestVote (request : RequestVoteRequest)
  | requestVoteResponse (response : RequestVoteResponse)
  | appendEntries (request : AppendEntriesRequest Command)
  | appendEntriesResponse (response : AppendEntriesResponse)
  | command (command : MessageCommand)

/-- `pb.RaftMessageType`; nothing is ever sent with the first or the last value. -/
inductive RaftMessageType
  | unspecified
  | requestVote
  | requestVoteResponse
  | appendEntries
  | appendEntriesResponse
  | command
  | commandResponse
deriving DecidableEq, Repr

/-- What `%v` prints; only a value that the switch does not know is printed. -/
def RaftMessageType.name : RaftMessageType → GoString
  | .unspecified => lit "RAFT_MESSAGE_TYPE_UNSPECIFIED"
  | .requestVote => lit "RAFT_MESSAGE_TYPE_REQUEST_VOTE"
  | .requestVoteResponse => lit "RAFT_MESSAGE_TYPE_REQUEST_VOTE_RESPONSE"
  | .appendEntries => lit "RAFT_MESSAGE_TYPE_APPEND_ENTRIES"
  | .appendEntriesResponse => lit "RAFT_MESSAGE_TYPE_APPEND_ENTRIES_RESPONSE"
  | .command => lit "RAFT_MESSAGE_TYPE_COMMAND"
  | .commandResponse => lit "RAFT_MESSAGE_TYPE_COMMAND_RESPONSE"

/-- `json.Unmarshal` failed, or the type of the message is not handled. -/
inductive DeserializeError
  | json (error : JsonError)
  | unknownType (error : GoError)
deriving DecidableEq, Repr

def RequestVoteRequest.marshal (request : RequestVoteRequest) : Json :=
  .object [
    (lit "Term", .number request.term),
    (lit "CandidateID", marshalString request.candidateID),
    (lit "LastLogIndex", .number request.lastLogIndex),
    (lit "LastLogTerm", .number request.lastLogTerm)
  ]

def RequestVoteResponse.marshal (response : RequestVoteResponse) : Json :=
  .object [
    (lit "Term", .number response.term),
    (lit "VoteGranted", .bool response.voteGranted)
  ]

def MessageCommand.marshal (command : MessageCommand) : Json :=
  .object [
    (lit "Topic", marshalString command.topic),
    (lit "MessageID", .number command.messageID.toNat),
    (lit "Payload", marshalBytes command.payload),
    (lit "Timestamp", .number command.timestamp.toInt)
  ]

/-- A decoded command is encoded as the map it is. -/
def Command.marshal : Command → Json
  | .message command => command.marshal
  | .decoded value => value.toJson

def LogEntry.marshal (entry : LogEntry Command) : Json :=
  .object [
    (lit "Term", .number entry.term),
    (lit "Index", .number entry.index),
    (lit "Command", (entry.command.map Command.marshal).getD .null)
  ]

def AppendEntriesRequest.marshal (request : AppendEntriesRequest Command) : Json :=
  .object [
    (lit "Term", .number request.term),
    (lit "LeaderID", marshalString request.leaderID),
    (lit "PrevLogIndex", .number request.prevLogIndex),
    (lit "PrevLogTerm", .number request.prevLogTerm),
    (lit "Entries", .array (request.entries.map LogEntry.marshal)),
    (lit "LeaderCommit", .number request.leaderCommit)
  ]

def AppendEntriesResponse.marshal (response : AppendEntriesResponse) : Json :=
  .object [
    (lit "Term", .number response.term),
    (lit "Success", .bool response.success)
  ]

/-- The JSON text of a message with the type that goes beside it. -/
def serializeRaftMessage : RaftMessage → Json × RaftMessageType
  | .requestVote request => (request.marshal, .requestVote)
  | .requestVoteResponse response => (response.marshal, .requestVoteResponse)
  | .appendEntries request => (request.marshal, .appendEntries)
  | .appendEntriesResponse response => (response.marshal, .appendEntriesResponse)
  | .command command => (command.marshal, .command)

def requestVoteRequestFields : List (StructField RequestVoteRequest) :=
  [
    uint64Field (lit "Term") (·.term) (fun request term => { request with term }),
    stringField (lit "CandidateID") (·.candidateID)
      (fun request candidateID => { request with candidateID }),
    uint64Field (lit "LastLogIndex") (·.lastLogIndex)
      (fun request lastLogIndex => { request with lastLogIndex }),
    uint64Field (lit "LastLogTerm") (·.lastLogTerm)
      (fun request lastLogTerm => { request with lastLogTerm })
  ]

def requestVoteResponseFields : List (StructField RequestVoteResponse) :=
  [
    uint64Field (lit "Term") (·.term) (fun response term => { response with term }),
    boolField (lit "VoteGranted") (·.voteGranted)
      (fun response voteGranted => { response with voteGranted })
  ]

/-- The fields of a command, which is decoded with the bytes behind its payload. -/
def messageCommandFields : List (StructField (MessageCommand × Bytes)) :=
  [
    (stringField (lit "Topic") (·.topic) (fun command topic => { command with topic })).fst,
    (uint64Field (lit "MessageID") (·.messageID.toNat)
      (fun command messageID => { command with messageID := UInt64.ofNat messageID })).fst,
    {
      name := lit "Payload"
      set := fun json (command, spare) =>
        (unmarshalBytes (command.payload ++ spare) json).map
          (fun (payload, spare) => ({ command with payload }, spare))
    },
    {
      name := lit "Timestamp"
      set := fun json (command, spare) =>
        (unmarshalInt64 command.timestamp json).map
          (fun timestamp => ({ command with timestamp }, spare))
    }
  ]

/-- The field has the type `interface{}`, so the Go type of a command is lost. -/
def unmarshalCommand : Json → Option Command
  -- a null stays the nil interface
  | .null => none
  | json => some (.decoded json.toAny)

def logEntryFields : List (StructField (LogEntry Command)) :=
  [
    uint64Field (lit "Term") (·.term) (fun entry term => { entry with term }),
    uint64Field (lit "Index") (·.index) (fun entry index => { entry with index }),
    {
      name := lit "Command"
      set := fun json entry => .ok { entry with command := unmarshalCommand json }
    }
  ]

/-- An entry is decoded over the one in its slot. -/
def unmarshalLogEntry : LogEntry Command → Json → Except JsonError (LogEntry Command) :=
  unmarshalStruct logEntryFields

/-- The fields of a request, which is decoded with the slots behind its entries: a repeated key is
decoded over what the one before it left there.
-/
def appendEntriesRequestFields
    : List (StructField (AppendEntriesRequest Command × List (LogEntry Command))) :=
  [
    (uint64Field (lit "Term") (·.term) (fun request term => { request with term })).fst,
    (stringField (lit "LeaderID") (·.leaderID)
      (fun request leaderID => { request with leaderID })).fst,
    (uint64Field (lit "PrevLogIndex") (·.prevLogIndex)
      (fun request prevLogIndex => { request with prevLogIndex })).fst,
    (uint64Field (lit "PrevLogTerm") (·.prevLogTerm)
      (fun request prevLogTerm => { request with prevLogTerm })).fst,
    {
      name := lit "Entries"
      set := fun json (request, spare) =>
        (unmarshalSlice unmarshalLogEntry initialEntry (request.entries ++ spare) json).map
          (fun (entries, spare) => ({ request with entries }, spare))
    },
    (uint64Field (lit "LeaderCommit") (·.leaderCommit)
      (fun request leaderCommit => { request with leaderCommit })).fst
  ]

def appendEntriesResponseFields : List (StructField AppendEntriesResponse) :=
  [
    uint64Field (lit "Term") (·.term) (fun response term => { response with term }),
    boolField (lit "Success") (·.success) (fun response success => { response with success })
  ]

/-- The type that came with the text decides what is decoded. -/
def deserializeRaftMessage (messageType : RaftMessageType) (payload : Json)
    : Except DeserializeError RaftMessage :=
  match messageType with
  | .requestVote =>
      ((unmarshalStruct requestVoteRequestFields
          { term := 0, candidateID := [], lastLogIndex := 0, lastLogTerm := 0 } payload).map
        RaftMessage.requestVote).mapError .json
  | .requestVoteResponse =>
      ((unmarshalStruct requestVoteResponseFields { term := 0, voteGranted := false }
          payload).map
        RaftMessage.requestVoteResponse).mapError .json
  | .appendEntries =>
      ((unmarshalStruct appendEntriesRequestFields
          ({ term := 0, leaderID := [], prevLogIndex := 0, prevLogTerm := 0, entries := [],
             leaderCommit := 0 }, []) payload).map
        (fun decoded => RaftMessage.appendEntries decoded.1)).mapError .json
  | .appendEntriesResponse =>
      ((unmarshalStruct appendEntriesResponseFields { term := 0, success := false }
          payload).map
        RaftMessage.appendEntriesResponse).mapError .json
  | .command =>
      ((unmarshalStruct messageCommandFields
          ({ topic := [], messageID := 0, payload := [], timestamp := 0 }, []) payload).map
        (fun decoded => RaftMessage.command decoded.1)).mapError .json
  | other => .error (.unknownType (lit "未知的Raft消息类型: " ++ other.name))

/-- The write that the function made by `createApplyFunc` asks for. -/
def commandWrite : Option Command → Option (GoString × UInt64 × Bytes)
  -- only a pointer to a `MessageCommand` passes its type assertion
  | some (.message command) => some (command.topic, command.messageID, command.payload)
  | _ => none

/-- The callback that applies a command; an error of the store is only logged. -/
def createApplyFunc (now : Int) (fm : FragmentManager) (command : Option Command)
    : FragmentManager :=
  match commandWrite command with
  | some (topic, messageID, payload) => (fm.storeMessage now topic messageID payload).1
  | none => fm

variable {entry : LogEntry Command}

/-- A decoded entry asks for no write, whatever the payload holds. -/
theorem unmarshalLogEntry_write {old : LogEntry Command} (before : commandWrite old.command = none)
    {json : Json} (decoded : unmarshalLogEntry old json = .ok entry)
    : commandWrite entry.command = none := by
  refine unmarshalStruct_invariant (fun entry => commandWrite entry.command = none) before ?_
    decoded
  simp only [logEntryFields, forall_mem_cons, not_mem_nil, false_implies,
    implies_true, and_true]
  refine ⟨?_, ?_, ?_⟩
  · intro json state next holds set
    obtain ⟨term, _, rfl⟩ := exists_of_map_ok set
    exact holds
  · intro json state next holds set
    obtain ⟨index, _, rfl⟩ := exists_of_map_ok set
    exact holds
  · intro json state next _ set
    cases set
    cases json <;> rfl

/-- No decoded entry holds a command that writes. -/
theorem deserialize_writes {messageType : RaftMessageType} {payload : Json}
    {request : AppendEntriesRequest Command}
    (decoded : deserializeRaftMessage messageType payload = .ok (.appendEntries request))
    : ∀ entry ∈ request.entries, commandWrite entry.command = none := by
  unfold deserializeRaftMessage at decoded
  cases messageType with
  | appendEntries =>
      obtain ⟨found, read, same⟩ := exists_of_mapError_ok decoded
      cases same
      have slots
          : ∀ entry ∈ found.1.entries ++ found.2, commandWrite entry.command = none := by
        refine unmarshalStruct_invariant
          (fun decoded =>
            ∀ entry ∈ decoded.1.entries ++ decoded.2, commandWrite entry.command = none)
          (fun _ member => absurd member not_mem_nil) ?_ read
        simp only [appendEntriesRequestFields, forall_mem_cons, not_mem_nil,
          false_implies, implies_true, and_true]
        refine ⟨?_, ?_, ?_, ?_, ?entries, ?_⟩
        case entries =>
          intro json state next holds set
          obtain ⟨decoded, source, rfl⟩ := exists_of_map_ok set
          exact @unmarshalSlice_forall _ _ (fun entry => commandWrite entry.command = none) _ rfl
            (fun _ _ _ before => unmarshalLogEntry_write before) _ holds _ _ source
        -- the other fields leave the entries alone
        all_goals
          intro json state next holds set
          obtain ⟨request, source, rfl⟩ := exists_of_map_ok set
          obtain ⟨_, _, rfl⟩ := exists_of_map_ok source
          exact holds
      exact fun entry member => slots entry (mem_append_left _ member)
  | requestVote | requestVoteResponse | appendEntriesResponse | command =>
      obtain ⟨_, _, other⟩ := exists_of_mapError_ok decoded
      cases other
  | unspecified => cases decoded
  | commandResponse => cases decoded

def Uint64 (value : Nat) : Prop := value < 2 ^ 64

/-- The values of the message types: numbers of 64 bits, valid UTF-8 strings, and commands as
a broker proposes them.
-/
def Command.WellFormed : Command → Prop
  | .message command => ValidUTF8 command.topic
  | .decoded _ => False

/-- The entry is one that Go's types can hold and JSON can carry unchanged. -/
structure LogEntry.WellFormed (entry : LogEntry Command) : Prop where
  term : Uint64 entry.term
  index : Uint64 entry.index
  command : ∀ command ∈ entry.command, command.WellFormed

/-- Counters are words and texts are UTF-8. -/
def RaftMessage.WellFormed : RaftMessage → Prop
  | .requestVote request =>
      Uint64 request.term ∧ ValidUTF8 request.candidateID ∧ Uint64 request.lastLogIndex
      ∧ Uint64 request.lastLogTerm
  | .requestVoteResponse response => Uint64 response.term
  | .appendEntries request =>
      Uint64 request.term ∧ ValidUTF8 request.leaderID ∧ Uint64 request.prevLogIndex
      ∧ Uint64 request.prevLogTerm ∧ (∀ entry ∈ request.entries, entry.WellFormed)
      ∧ Uint64 request.leaderCommit
  | .appendEntriesResponse response => Uint64 response.term
  | .command proposal => ValidUTF8 proposal.topic

/-- The entry at the other end: its command is whatever JSON makes of the fields. -/
def LogEntry.received (entry : LogEntry Command) : LogEntry Command :=
  { entry with command := entry.command.map (fun command => .decoded command.marshal.toAny) }

def RaftMessage.received : RaftMessage → RaftMessage
  | .appendEntries request =>
      .appendEntries { request with entries := request.entries.map LogEntry.received }
  | other => other

theorem unmarshalLogEntry_marshal (valid : entry.WellFormed)
    : unmarshalLogEntry initialEntry entry.marshal = .ok entry.received := by
  have command
      : unmarshalCommand ((entry.command.map Command.marshal).getD .null)
        = entry.received.command := by
    unfold LogEntry.received
    cases held : entry.command with
    | none => rfl
    | some command =>
        cases command with
        | message sent => rfl
        | decoded value => exact (valid.command _ held).elim
  rw [unmarshalLogEntry, LogEntry.marshal, unmarshalStruct]
  rw [unmarshalMembers_cons rfl (uint64Field_set _ _ _ valid.term _),
    unmarshalMembers_cons rfl (uint64Field_set _ _ _ valid.index _),
    unmarshalMembers_cons rfl rfl, unmarshalMembers, command]
  rfl

variable {message : RaftMessage}

/-- What a receiver decodes: every field as it was sent, and every command as a map. -/
theorem deserialize_serialize (valid : message.WellFormed)
    : deserializeRaftMessage (serializeRaftMessage message).2 (serializeRaftMessage message).1
      = .ok message.received := by
  cases message with
  | requestVote request =>
      obtain ⟨term, candidateID, lastLogIndex, lastLogTerm⟩ := valid
      simp only [serializeRaftMessage, deserializeRaftMessage, RequestVoteRequest.marshal,
        unmarshalStruct]
      rw [unmarshalMembers_cons rfl (uint64Field_set _ _ _ term _),
        unmarshalMembers_cons rfl (stringField_set _ _ _ candidateID _),
        unmarshalMembers_cons rfl (uint64Field_set _ _ _ lastLogIndex _),
        unmarshalMembers_cons rfl (uint64Field_set _ _ _ lastLogTerm _), unmarshalMembers]
      rfl
  | requestVoteResponse response =>
      simp only [serializeRaftMessage, deserializeRaftMessage, RequestVoteResponse.marshal,
        unmarshalStruct]
      rw [unmarshalMembers_cons rfl (uint64Field_set _ _ _ valid _),
        unmarshalMembers_cons rfl (boolField_set ..), unmarshalMembers]
      rfl
  | appendEntries request =>
      obtain ⟨term, leaderID, prevLogIndex, prevLogTerm, entries, leaderCommit⟩ := valid
      have decoded
          : unmarshalSlice unmarshalLogEntry initialEntry []
              (.array (request.entries.map LogEntry.marshal))
            = .ok (request.entries.map LogEntry.received, []) :=
        unmarshalSlice_map (fun entry member => unmarshalLogEntry_marshal (entries entry member))
      simp only [serializeRaftMessage, deserializeRaftMessage, AppendEntriesRequest.marshal,
        unmarshalStruct]
      rw [unmarshalMembers_cons rfl (StructField.fst_set (uint64Field_set _ _ _ term _) _),
        unmarshalMembers_cons rfl (StructField.fst_set (stringField_set _ _ _ leaderID _) _),
        unmarshalMembers_cons rfl (StructField.fst_set (uint64Field_set _ _ _ prevLogIndex _) _),
        unmarshalMembers_cons rfl (StructField.fst_set (uint64Field_set _ _ _ prevLogTerm _) _),
        unmarshalMembers_cons rfl (congrArg (Except.map _) decoded),
        unmarshalMembers_cons rfl (StructField.fst_set (uint64Field_set _ _ _ leaderCommit _) _),
        unmarshalMembers]
      rfl
  | appendEntriesResponse response =>
      simp only [serializeRaftMessage, deserializeRaftMessage, AppendEntriesResponse.marshal,
        unmarshalStruct]
      rw [unmarshalMembers_cons rfl (uint64Field_set _ _ _ valid _),
        unmarshalMembers_cons rfl (boolField_set ..), unmarshalMembers]
      rfl
  | command proposal =>
      simp only [serializeRaftMessage, deserializeRaftMessage, MessageCommand.marshal,
        unmarshalStruct]
      rw [unmarshalMembers_cons rfl (StructField.fst_set (stringField_set _ _ _ valid _) _),
        unmarshalMembers_cons rfl
          (StructField.fst_set (uint64Field_set _ _ _ proposal.messageID.toNat_lt _) _),
        unmarshalMembers_cons rfl
          (congrArg (Except.map _) (unmarshalBytes_marshalBytes _ proposal.payload)),
        unmarshalMembers_cons rfl
          (congrArg (Except.map _) (unmarshalInt64_number proposal.timestamp _)),
        unmarshalMembers, UInt64.ofNat_toNat]
      rfl

/-- What the entries would write at a receiver. -/
def RaftMessage.writes : RaftMessage → List (Option (GoString × UInt64 × Bytes))
  | .appendEntries request => request.entries.map (fun entry => commandWrite entry.command)
  | _ => []

def RaftMessage.CommandsNil : RaftMessage → Prop
  | .appendEntries request => ∀ entry ∈ request.entries, entry.command = none
  | _ => True

def RoundTrips (message : RaftMessage) : Prop :=
  deserializeRaftMessage (serializeRaftMessage message).2 (serializeRaftMessage message).1
  = .ok message

/-- Applying the entries does the same on both ends. -/
def AppliesSame (message : RaftMessage) : Prop :=
  ∃ received,
    deserializeRaftMessage (serializeRaftMessage message).2 (serializeRaftMessage message).1
      = .ok received
    ∧ received.writes = message.writes

/-- A nil command arrives as it was sent. -/
theorem LogEntry.received_of_nil (none : entry.command = none)
    : entry.received = entry := by
  cases entry
  subst none
  rfl

/-- A command that was sent is not applied by a receiver. -/
theorem LogEntry.write_received_iff (valid : entry.WellFormed)
    : commandWrite entry.received.command = commandWrite entry.command
      ↔ entry.command = none := by
  unfold LogEntry.received
  cases held : entry.command with
  | none => simp
  | some command =>
      cases command with
      | message sent => simp [commandWrite]
      | decoded value => exact (valid.command _ held).elim

/-- Without commands nothing is lost. -/
theorem received_of_commandsNil (none : message.CommandsNil)
    : message.received = message := by
  cases message with
  | appendEntries request =>
      have entries : request.entries.map LogEntry.received = request.entries :=
        (map_congr_left
          (fun entry member => LogEntry.received_of_nil (none entry member))).trans (map_id _)
      rw [RaftMessage.received, entries]
  | _ => rfl

/-- Equal writes leave no room for a command. -/
theorem commandsNil_of_writes (valid : message.WellFormed)
    (same : message.received.writes = message.writes)
    : message.CommandsNil := by
  cases message with
  | appendEntries request =>
      intro entry member
      simp only [RaftMessage.received, RaftMessage.writes, map_map, map_inj_left,
        Function.comp_apply] at same
      exact (LogEntry.write_received_iff (valid.2.2.2.2.1 entry member)).mp (same entry member)
  | _ => trivial

/-- A Raft message survives the wire exactly when none of its entries carries a command, and
so do the writes of whoever applies it.
-/
theorem roundTrip_iff {message : RaftMessage} (valid : message.WellFormed)
    : (RoundTrips message ↔ message.CommandsNil)
      ∧ (AppliesSame message ↔ message.CommandsNil) := by
  have arrives := deserialize_serialize valid
  have back (none : message.CommandsNil) : RoundTrips message := by
    rw [RoundTrips, arrives, received_of_commandsNil none]
  have onward (same : AppliesSame message) : message.CommandsNil := by
    obtain ⟨received, decoded, writes⟩ := same
    rw [arrives] at decoded
    cases decoded
    exact commandsNil_of_writes valid writes
  refine ⟨⟨fun equal => ?_, back⟩, ⟨onward, fun none => ?_⟩⟩
  · exact onward ⟨message, equal, rfl⟩
  · exact ⟨message, back none, rfl⟩

def oneEntry (command : Option Command) : RaftMessage :=
  .appendEntries {
    term := 1
    leaderID := lit "b"
    prevLogIndex := 0
    prevLogTerm := 0
    entries := [{ term := 1, index := 0, command }]
    leaderCommit := 0
  }

def proposal : MessageCommand :=
  { topic := lit "t", messageID := 1, payload := [7], timestamp := 0 }

theorem oneEntry_wellFormed {command : Option Command}
    (valid : ∀ held ∈ command, held.WellFormed)
    : (oneEntry command).WellFormed := by
  have small : Uint64 1 ∧ Uint64 0 := ⟨by unfold Uint64; decide, by unfold Uint64; decide⟩
  refine ⟨small.1, validUTF8_lit _, small.2, small.2, ?_, small.2⟩
  intro entry member
  rw [mem_singleton.mp member]
  exact ⟨small.1, small.2, valid⟩

theorem roundTrip_iff_nilEntry
    : (oneEntry none).WellFormed
      ∧ (RoundTrips (oneEntry none) ↔ (oneEntry none).CommandsNil)
      ∧ (AppliesSame (oneEntry none) ↔ (oneEntry none).CommandsNil) :=
  ⟨oneEntry_wellFormed (by simp), roundTrip_iff (oneEntry_wellFormed (by simp))⟩

/-- The receiver of a proposed message decodes a map, which it applies by writing nothing. -/
theorem not_roundTrips_proposal
    : (oneEntry (some (.message proposal))).WellFormed
      ∧ ¬ RoundTrips (oneEntry (some (.message proposal)))
      ∧ ¬ AppliesSame (oneEntry (some (.message proposal))) := by
  have valid : (oneEntry (some (.message proposal))).WellFormed := by
    refine oneEntry_wellFormed (fun held member => ?_)
    cases member
    exact validUTF8_lit _
  have arrives := deserialize_serialize valid
  refine ⟨valid, fun equal => ?_, fun ⟨received, decoded, writes⟩ => ?_⟩
  · rw [RoundTrips, arrives] at equal
    cases equal
  · rw [arrives] at decoded
    cases decoded
    cases writes

end Goulette.Raft
