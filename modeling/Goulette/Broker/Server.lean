import Goulette.Raft.Manager
import Goulette.Storage.FragmentRuns
import Goulette.Storage.Wal

/-! The broker server of `broker/server.go`. File operations succeed; a call that waits for a lock
it holds itself has no result. One reading of the clock serves a whole call.
-/

namespace Goulette.Broker

open Goulette.Go Goulette.Raft Goulette.Storage ByteFrames FileStore

structure BrokerServer where
  brokerID : GoString
  fragmentMgr : FragmentManager
  wal : WAL
  raftManager : RaftManager
  messageCounter : UInt64
  topics : GoMap GoString Bool
  topicRoles : GoMap GoString TopicRole

inductive ResponseStatus
  | unspecified
  | success
  | error
  | retry
deriving DecidableEq, Repr

structure MessageRequest where
  topic : GoString
  payload : Bytes
  messageID : UInt64
deriving DecidableEq, Repr

structure MessageResponse where
  messageID : UInt64
  status : ResponseStatus
  errorMessage : GoString
deriving DecidableEq, Repr

structure RemoveTopicResponse where
  success : Bool
  errorMessage : GoString
deriving DecidableEq, Repr

structure PullRequest where
  topic : GoString
  offset : UInt64
  batchSize : UInt32
deriving DecidableEq, Repr

structure Message where
  messageID : UInt64
  topic : GoString
  payload : Bytes
  offset : UInt64
  timestamp : Int64
deriving DecidableEq, Repr

namespace BrokerServer

/-- A missing topic reads as false. -/
def hasTopic (server : BrokerServer) (topic : GoString) : Bool :=
  (server.topics.lookup topic).getD false

def setTopicRole (server : BrokerServer) (topic : GoString) (role : TopicRole)
    (followers : List GoString) (leaderAddress : GoString)
    : BrokerServer :=
  { server with
    raftManager := server.raftManager.setTopicRole topic role followers leaderAddress
    topics := server.topics.insert topic true
    topicRoles := server.topicRoles.insert topic role }

def retry (request : MessageRequest) (errorMessage : GoString) : MessageResponse :=
  { messageID := request.messageID, status := .retry, errorMessage }

/-- The answer behind the write to the fragment store; `SendMessage` makes it of an error. -/
def storeResponse (request : MessageRequest) (messageID : UInt64) : Option GoError → MessageResponse
  | some failure =>
      { messageID := request.messageID, status := .error,
        errorMessage := lit "写入Fragment失败: " ++ failure }
  | none => { messageID, status := .success, errorMessage := [] }

def logMessage (server : BrokerServer) (topic : GoString) (wal : WAL) : BrokerServer :=
  { server with
    messageCounter := server.messageCounter + 1
    topics := server.topics.insert topic true
    topicRoles := server.topicRoles.insert topic (server.raftManager.getTopicRole topic)
    wal }

def processMessage (server : BrokerServer) (now : Int) (request : MessageRequest)
    : Option (BrokerServer × MessageResponse) :=
  if !server.hasTopic request.topic then
    some (server, retry request (lit "Topic已被移除: " ++ request.topic))
  else if !server.raftManager.isLeader request.topic then
    some (server,
      retry request (lit "当前broker不是Topic " ++ request.topic ++ lit " 的leader"))
  else
    let messageID := server.messageCounter + 1
    -- the log is written before the Raft node is asked, and the fragment store after it
    match server.wal.writeMessage (unix now) request.topic messageID request.payload with
    | none => none
    | some wal =>
        let logged := server.logMessage request.topic wal
        match server.raftManager.proposeMessage now request.topic messageID request.payload with
        | .error failure =>
            some (logged, retry request (lit "Raft消息同步失败: " ++ failure))
        | .ok raftManager =>
            let stored :=
              server.fragmentMgr.storeMessage now request.topic messageID request.payload
            some
              ({ logged with raftManager, fragmentMgr := stored.1 },
                storeResponse request messageID stored.2)

def removeTopic (server : BrokerServer) (now : Int) (topic reason : GoString)
    : Option (BrokerServer × RemoveTopicResponse) :=
  if !server.hasTopic topic then
    some (server, { success := false, errorMessage := lit "Topic不存在: " ++ topic })
  else
    match server.wal.writeRemoveTopic (unix now) topic reason with
    | none => none
    | some wal =>
        some
          ({ server with
              wal
              topics := server.topics.erase topic
              topicRoles := server.topicRoles.erase topic
              fragmentMgr := server.fragmentMgr.closeTopic topic
              raftManager := server.raftManager.removeTopic topic },
            { success := true, errorMessage := [] })

/-- The messages of an answer: each has the offset of the request, which is counted up. -/
def sendMessages (topic : GoString) : UInt64 → List MessageEntry → List Message
  | _, [] => []
  | offset, entry :: rest =>
      { messageID := entry.messageID, topic, payload := entry.payload, offset,
        timestamp := entry.timestamp }
        :: sendMessages topic (offset + 1) rest

/-- What a stream sends unless it breaks off, or the error it ends with at once. -/
def pullMessage (server : BrokerServer) (request : PullRequest) : Except GoError (List Message) :=
  if !server.hasTopic request.topic then .error (lit "Topic已被移除: " ++ request.topic)
  else if server.raftManager.getTopicRole request.topic ≠ .leader
      ∧ server.raftManager.getTopicRole request.topic ≠ .follower then
    .error (lit "当前broker不是Topic " ++ request.topic ++ lit " 的leader或follower")
  else
    .ok (sendMessages request.topic request.offset
      (server.fragmentMgr.readMessages request.topic request.offset
        (Int64.ofNat request.batchSize.toNat)))

def getBrokerTopicRole (server : BrokerServer) (brokerID topic : GoString)
    : Except GoError TopicRole :=
  if brokerID ≠ server.brokerID then
    .error (lit "Broker ID不匹配: 请求=" ++ brokerID ++ lit ", 当前=" ++ server.brokerID)
  else if !server.hasTopic topic then .error (lit "Topic不存在: " ++ topic)
  else .ok (server.raftManager.getTopicRole topic)

def startElection (server : BrokerServer) (topic : GoString) : BrokerServer :=
  { server with raftManager := server.raftManager.startElection topic }

/-- A request that cannot be decoded or handled changes nothing. -/
def handleRaftRequest (server : BrokerServer) (now : Int) (topic : GoString)
    (messageType : RaftMessageType) (payload : Json)
    : BrokerServer :=
  match deserializeRaftMessage messageType payload with
  | .error _ => server
  | .ok message =>
      match server.raftManager.handleRaftMessage topic message with
      | .error _ => server
      | .ok handled =>
          { server with
            raftManager := handled.manager
            -- applied commands are written to the fragment store
            fragmentMgr := handled.applied.foldl (createApplyFunc now) server.fragmentMgr }

/-- The handler of the log's replay. -/
def replayEntry (now : Int) (server : BrokerServer) (entry : WALEntry)
    : BrokerServer × Option GoError :=
  if entry.type = 1 then
    match server.fragmentMgr.storeMessage now entry.topic entry.messageID entry.payload with
    | (_, some failure) => (server, some (lit "重放消息到Fragment失败: " ++ failure))
    | (fragmentMgr, none) =>
        ({ server with
            fragmentMgr
            messageCounter :=
              if entry.messageID > server.messageCounter then entry.messageID
              else server.messageCounter
            topics := server.topics.insert entry.topic true
            topicRoles :=
              server.topicRoles.insert entry.topic
                (server.raftManager.getTopicRole entry.topic) },
          none)
  else if entry.type = 2 then
    ({ server with
        topics := server.topics.erase entry.topic
        topicRoles := server.topicRoles.erase entry.topic
        fragmentMgr := server.fragmentMgr.closeTopic entry.topic },
      none)
  -- entries of other types are skipped
  else (server, none)

def fresh (brokerID dataDir : GoString) (disk : Disk GoString) (files : List (Nat × Bytes))
    (now : Int)
    : BrokerServer where
  brokerID
  fragmentMgr :=
    .newFragmentManager disk (dataDir ++ lit "/fragments") (128 * 1024 * 1024) 10000
      (7 * 24 * 3600 * 1000000000)
  wal := .newWAL files (128 * 1024 * 1024) (now / 1000000000).toNat
  raftManager := .newRaftManager brokerID
  messageCounter := 0
  topics := ∅
  topicRoles := ∅

/-- The start on a data directory: the fragment files and the log files in it. -/
def newBrokerServer (brokerID : GoString) (dataDir : GlobDirectory Nat) (disk : Disk GoString)
    (files : List (Nat × Bytes)) (now : Int)
    : BrokerServer :=
  let server := fresh brokerID dataDir.path disk files now
  server.wal.replay (replayEntry now) dataDir server

/-- A message is turned away, never answered because the log is full, logged but refused by
the Raft node, logged and proposed but without a directory for its topic, or stored.
-/
theorem processMessage_cases (server : BrokerServer) (now : Int) (request : MessageRequest)
    : (∃ response, response.status = .retry
        ∧ server.processMessage now request = some (server, response))
      ∨ (server.wal.writeMessage (unix now) request.topic (server.messageCounter + 1)
            request.payload = none
        ∧ server.processMessage now request = none)
      ∨ (∃ wal, server.wal.writeMessage (unix now) request.topic (server.messageCounter + 1)
            request.payload = some wal
          ∧ server.hasTopic request.topic
          ∧ server.raftManager.isLeader request.topic
          ∧ ((∃ response failure, response.status = .retry
              ∧ server.raftManager.proposeMessage now request.topic (server.messageCounter + 1)
                  request.payload = .error failure
              ∧ server.processMessage now request
                = some (server.logMessage request.topic wal, response))
            ∨ (∃ raftManager,
                server.raftManager.proposeMessage now request.topic (server.messageCounter + 1)
                  request.payload = .ok raftManager
                ∧ ((∃ response failure, response.status = .error
                    ∧ server.fragmentMgr.directoryError request.topic = some failure
                    ∧ server.processMessage now request
                      = some
                          ({ server.logMessage request.topic wal with raftManager }, response))
                  ∨ server.fragmentMgr.directoryError request.topic = none
                    ∧ server.processMessage now request
                      = some
                          ({ server.logMessage request.topic wal with
                              raftManager
                              fragmentMgr :=
                                server.fragmentMgr.writeMessage now request.topic
                                  (server.messageCounter + 1) request.payload },
                            { messageID := server.messageCounter + 1, status := .success,
                              errorMessage := [] }))))) := by
  unfold processMessage
  cases known : server.hasTopic request.topic with
  | false => exact Or.inl ⟨_, rfl, rfl⟩
  | true =>
      cases leads : server.raftManager.isLeader request.topic with
      | false => exact Or.inl ⟨_, rfl, rfl⟩
      | true =>
          simp only [Bool.not_true, Bool.false_eq_true, if_false]
          cases logged : server.wal.writeMessage (unix now) request.topic
              (server.messageCounter + 1) request.payload with
          | none => exact Or.inr (Or.inl ⟨rfl, rfl⟩)
          | some wal =>
              refine Or.inr (Or.inr ⟨wal, rfl, trivial, trivial, ?_⟩)
              cases proposed : server.raftManager.proposeMessage now request.topic
                  (server.messageCounter + 1) request.payload with
              | error failure => exact Or.inl ⟨_, failure, rfl, rfl, rfl⟩
              | ok raftManager =>
                  refine Or.inr ⟨raftManager, rfl, ?_⟩
                  simp only [FragmentManager.storeMessage]
                  cases server.fragmentMgr.directoryError request.topic with
                  | some failure => exact Or.inl ⟨_, failure, rfl, rfl, rfl⟩
                  | none => exact Or.inr ⟨rfl, rfl⟩

end BrokerServer

inductive BrokerAction
  | setTopicRole (topic : GoString) (role : TopicRole) (followers : List GoString)
      (leaderAddress : GoString)
  | processMessage (request : MessageRequest)
  | removeTopic (topic reason : GoString)
  | startElection (topic : GoString)
  | raftRequest (topic : GoString) (messageType : RaftMessageType) (payload : Json)
  | restart

/-- One step at a time of the clock. A call that never returns leaves no later state; here it
changes nothing.
-/
def BrokerServer.step (dataDir : GlobDirectory Nat) (server : BrokerServer)
    : Int × BrokerAction → BrokerServer
  | (_, .setTopicRole topic role followers leaderAddress) =>
      server.setTopicRole topic role followers leaderAddress
  | (now, .processMessage request) =>
      match server.processMessage now request with
      | none => server
      | some result => result.1
  | (now, .removeTopic topic reason) =>
      match server.removeTopic now topic reason with
      | none => server
      | some result => result.1
  | (_, .startElection topic) => server.startElection topic
  | (now, .raftRequest topic messageType payload) =>
      server.handleRaftRequest now topic messageType payload
  -- it begins anew on what the last server left on disk
  | (now, .restart) =>
      .newBrokerServer server.brokerID dataDir server.fragmentMgr.disk server.wal.files now

/-- Per topic the messages that were answered with success, as message ID and payload. -/
abbrev Answered := GoString → List (UInt64 × Bytes)

/-- What a step adds to the answers. -/
def BrokerServer.record (server : BrokerServer) (answered : Answered)
    : Int × BrokerAction → Answered
  | (now, .processMessage request) =>
      match server.processMessage now request with
      | none => answered
      | some result =>
          if result.2.status = .success then
            Function.update answered request.topic
              (answered request.topic ++ [(result.2.messageID, request.payload)])
          else answered
  -- a removal answered with success forgets its topic
  | (now, .removeTopic topic reason) =>
      match server.removeTopic now topic reason with
      | none => answered
      | some result =>
          if result.2.success then Function.update answered topic [] else answered
  | _ => answered

end Goulette.Broker
