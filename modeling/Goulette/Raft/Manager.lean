import Goulette.Go.Checked
import Goulette.Raft.Wire

/-! The Raft manager of `internal/raft/manager.go`: one Raft node per topic, made anew whenever the
topic's role is set.
-/

namespace Goulette.Raft

open Goulette.Go Goulette.Storage ByteFrames List

/-- The term of an election is a word of 64 bits and wraps around. -/
def RaftNode.Checked.startElection {C : Type} (node : RaftNode C) : RaftNode C :=
  { node.startElection with currentTerm := addWord node.currentTerm 1 }

/-- `pb.TopicRole`. -/
inductive TopicRole
  | unspecified
  | leader
  | follower
deriving DecidableEq, Repr

/-- The manager's record of a topic. The peers are those of the node. -/
structure TopicRaftCluster where
  raftNode : RaftNode Command
  role : TopicRole

/-- The manager of a broker, with a record for each topic that has a role. -/
structure RaftManager where
  brokerID : GoString
  clusters : GoMap GoString TopicRaftCluster

namespace RaftManager

def newRaftManager (brokerID : GoString) : RaftManager := { brokerID, clusters := ∅ }

/-- The key of a follower among the peers: its place in the list, not its broker ID. -/
def followerID (i : Nat) : GoString := lit "follower_" ++ decimal i

/-- A leader knows its followers by number, a follower its leader; neither lists itself. -/
def rolePeers (role : TopicRole) (followers : List GoString) (leaderAddr : GoString)
    : GoMap GoString GoString :=
  match role with
  | .leader =>
      followers.zipIdx.foldl (fun peers follower => peers.insert (followerID follower.2) follower.1)
        ∅
  | .follower => AList.insert (lit "leader") leaderAddr ∅
  | .unspecified => ∅

/-- A role starts a new node, whatever was there. -/
def setTopicRole (rm : RaftManager) (topic : GoString) (role : TopicRole)
    (followers : List GoString) (leaderAddr : GoString)
    : RaftManager :=
  { rm with
    -- an existing node is stopped and dropped with its log
    clusters := rm.clusters.insert topic
      { raftNode := newRaftNode rm.brokerID (rolePeers role followers leaderAddr), role } }

/-- The node is stopped and its record forgotten; a topic without one is left as it is. -/
def removeTopic (rm : RaftManager) (topic : GoString) : RaftManager :=
  { rm with clusters := rm.clusters.erase topic }

/-- The record of the topic with another node. -/
def setNode (rm : RaftManager) (topic : GoString) (cluster : TopicRaftCluster)
    (node : RaftNode Command)
    : RaftManager :=
  { rm with clusters := rm.clusters.insert topic { cluster with raftNode := node } }

def noCluster (topic : GoString) : GoError := lit "Topic " ++ topic ++ lit " 的Raft集群不存在"

/-- Both the recorded role and the state of the node have to be leader. -/
def proposeMessage (rm : RaftManager) (now : Int) (topic : GoString) (messageID : UInt64)
    (payload : Bytes)
    : Except GoError RaftManager :=
  match rm.clusters.lookup topic with
  | none => .error (noCluster topic)
  | some cluster =>
      if cluster.role ≠ .leader then .error (lit "只有leader可以提议消息")
      else
        match cluster.raftNode.propose
            (.message { topic, messageID, payload, timestamp := unix now }) with
        | .error failure => .error failure
        | .ok node => .ok (rm.setNode topic cluster node)

def isLeader (rm : RaftManager) (topic : GoString) : Bool :=
  match rm.clusters.lookup topic with
  | none => false
  | some cluster => cluster.role == .leader

/-- A topic without a record has no role, which is not an error. -/
def getTopicRole (rm : RaftManager) (topic : GoString) : TopicRole :=
  match rm.clusters.lookup topic with
  | none => .unspecified
  | some cluster => cluster.role

/-- The peers are searched for the key that the handler passes. -/
def sendRaftResponse (cluster : TopicRaftCluster) (peerID : GoString) (response : RaftMessage)
    : Except GoError (GoString × RaftMessage) :=
  match cluster.raftNode.peers.lookup peerID with
  | none => .error (lit "Peer " ++ peerID ++ lit " 不存在")
  | some peerAddr => .ok (peerAddr, response)

/-- What handling a message did: the new manager, the commands applied in order, and the
response with its delivery, which is only logged when it fails.
-/
structure Handled where
  manager : RaftManager
  applied : List (Option Command)
  response : Option (Except GoError (GoString × RaftMessage))

/-- Dispatch on the dynamic type of the message. -/
def handleRaftMessage (rm : RaftManager) (topic : GoString) (message : RaftMessage)
    : Except GoError Handled :=
  match rm.clusters.lookup topic with
  | none => .error (noCluster topic)
  | some cluster =>
      match message with
      | .requestVote request =>
          let result := cluster.raftNode.handleRequestVote request
          .ok {
            manager := rm.setNode topic cluster result.1
            applied := []
            response := some
              (sendRaftResponse cluster (lit "voter") (.requestVoteResponse result.2))
          }
      -- responses are credited to a peer of the fixed name `peer`
      | .requestVoteResponse response =>
          let result := cluster.raftNode.handleRequestVoteResponse (lit "peer") response
          .ok { manager := rm.setNode topic cluster result.1, applied := [], response := none }
      | .appendEntries request =>
          let result := cluster.raftNode.handleAppendEntries request
          .ok {
            manager := rm.setNode topic cluster result.1
            applied := result.2.1
            response := some
              (sendRaftResponse cluster (lit "appender") (.appendEntriesResponse result.2.2))
          }
      | .appendEntriesResponse response =>
          let result := cluster.raftNode.handleAppendEntriesResponse (lit "peer") response
          .ok {
            manager := rm.setNode topic cluster result.1
            applied := result.2
            response := none
          }
      | .command _ => .error (lit "未知的Raft消息类型: *raft.MessageCommand")

structure RaftRequest where
  topic : GoString
  fromPeerID : GoString
  messageType : RaftMessageType
  payload : Json

/-- Why a request failed; the texts put `反序列化失败` and `处理Raft消息失败` in front. -/
inductive RaftFailure
  | deserialize (error : DeserializeError)
  | handle (error : GoError)

structure RaftResponse where
  topic : GoString
  toPeerID : GoString
  messageType : RaftMessageType
  failure : Option RaftFailure

def createSendFunc (rm : RaftManager) (topic peerID : GoString) (message : RaftMessage)
    : Except GoError (GoString × RaftRequest) :=
  match rm.clusters.lookup topic with
  | none => .error (noCluster topic)
  | some cluster =>
      match cluster.raftNode.peers.lookup peerID with
      | none => .error (lit "Peer " ++ peerID ++ lit " 不存在")
      | some peerAddr =>
          let (payload, messageType) := serializeRaftMessage message
          .ok (peerAddr, { topic, fromPeerID := rm.brokerID, messageType, payload })

/-- A failure is answered, not returned. -/
def handleRaftRequest (rm : RaftManager) (request : RaftRequest)
    : Option Handled × RaftResponse :=
  let answer (failure : Option RaftFailure) : RaftResponse :=
    { topic := request.topic, toPeerID := request.fromPeerID,
      messageType := request.messageType, failure }
  match deserializeRaftMessage request.messageType request.payload with
  | .error error => (none, answer (some (.deserialize error)))
  | .ok message =>
      match rm.handleRaftMessage request.topic message with
      | .error error => (none, answer (some (.handle error)))
      | .ok handled => (some handled, answer none)

/-- The election timer of a topic's node. -/
def startElection (rm : RaftManager) (topic : GoString) : RaftManager :=
  match rm.clusters.lookup topic with
  | none => rm
  | some cluster => rm.setNode topic cluster (RaftNode.Checked.startElection cluster.raftNode)

theorem proposeMessage_ok_iff (rm : RaftManager) (now : Int) (topic : GoString)
    (messageID : UInt64) (payload : Bytes)
    : (∃ next, rm.proposeMessage now topic messageID payload = .ok next)
      ↔ ∃ cluster, rm.clusters.lookup topic = some cluster ∧ cluster.role = .leader
          ∧ cluster.raftNode.state = .leader := by
  unfold proposeMessage
  cases found : rm.clusters.lookup topic with
  | none => simp
  | some cluster =>
      by_cases leads : cluster.role = .leader
      · by_cases elected : cluster.raftNode.state = .leader
        · simp [leads, elected, RaftNode.propose]
        · simp [leads, elected, RaftNode.propose]
      · simp [leads]

end RaftManager

/-! What a node's steps apply. -/

namespace RaftNode

variable {C : Type}

/-- Everything that is committed was applied. -/
def CaughtUp (node : RaftNode C) : Prop := node.commitIndex ≤ node.lastApplied

/-- The loop applies all that is committed. -/
theorem CaughtUp.applyLogs (node : RaftNode C) : node.applyLogs.1.CaughtUp := by
  rw [applyLogs_fst]
  exact le_max_right _ _

theorem CaughtUp.of_kept {node next : RaftNode C} (h : node.CaughtUp) (kept : LogKept node next)
    : next.CaughtUp := by
  rwa [CaughtUp, kept.commitIndex, kept.lastApplied]

/-- A node that accepts entries applies what it commits in the same call. -/
theorem CaughtUp.handleAppendEntries {node : RaftNode C} (h : node.CaughtUp)
    (request : AppendEntriesRequest C)
    : (node.handleAppendEntries request).1.CaughtUp := by
  have observed : (node.observeLeader request).CaughtUp := by
    obtain ⟨commit, applied⟩ := node.observeLeader_commit request
    rwa [CaughtUp, commit, applied]
  rcases node.handleAppendEntries_cases request with
    ⟨_, handled⟩ | ⟨_, handled⟩ | ⟨_, _, handled⟩ <;> rw [handled]
  · exact h
  · exact observed
  · unfold updateCommit
    split
    · exact CaughtUp.applyLogs _
    · exact observed

theorem CaughtUp.handleAppendEntriesResponse {node : RaftNode C} (h : node.CaughtUp)
    (peerID : GoString) (response : AppendEntriesResponse)
    : (node.handleAppendEntriesResponse peerID response).1.CaughtUp := by
  rcases node.handleAppendEntriesResponse_cases peerID response with
    ⟨_, handled⟩ | handled | ⟨_, _, _, handled⟩ | ⟨_, handled⟩ <;> rw [handled]
  · exact h
  · exact h
  · obtain ⟨last, reached, _⟩ := (node.countSuccess peerID).tryCommitLogs_eq
    rw [reached]
    exact CaughtUp.applyLogs _
  · exact h

/-- No position that a message would let the node commit holds an unapplied message. -/
def AppliesNoMessage (node : RaftNode Command) : RaftMessage → Prop
  | .appendEntries request =>
      node.currentTerm ≤ request.term
      → node.matchesPrev request
      → node.commitIndex < request.leaderCommit
      → ∀ entry ∈ (node.log.take request.leaderCommit).drop node.lastApplied,
          commandWrite entry.command = none
  | .appendEntriesResponse response =>
      node.state = .leader
      → response.term = node.currentTerm
      → response.success
      → ∀ index ≤ node.getLastLogIndex,
          node.commitIndex < index
          → (node.countSuccess (lit "peer")).commits index
          → ∀ entry ∈ (node.log.take index).drop node.lastApplied,
              commandWrite entry.command = none
  | _ => True

instance (node : RaftNode Command) : DecidablePred node.AppliesNoMessage := fun value => by
  unfold RaftNode.AppliesNoMessage
  split <;> infer_instance

theorem handleAppendEntries_applied {node : RaftNode Command}
    {request : AppendEntriesRequest Command}
    (decoded : ∀ entry ∈ request.entries, commandWrite entry.command = none)
    (quiet : node.AppliesNoMessage (.appendEntries request))
    : ∀ command ∈ (node.handleAppendEntries request).2.1, commandWrite command = none := by
  obtain ⟨commit, applied⟩ := node.observeLeader_commit request
  intro command member
  rcases node.handleAppendEntries_cases request with
    ⟨_, handled⟩ | ⟨_, handled⟩ | ⟨current, check, handled⟩ <;>
    rw [handled] at member
  · cases member
  · cases member
  · unfold updateCommit at member
    split at member
    · next raised =>
        simp only [appended, commit] at raised
        rw [node.observeLeader_matchesPrev request] at check
        rcases applyLogs_mem member with rfl | ⟨entry, inLog, rfl⟩
        · rfl
        · simp only [appended, applied] at inLog
          rcases appendLoop_mem_between inLog with old | new
          · refine quiet current check raised entry ?_
            exact ((take_prefix_take_left (Nat.min_le_left _ _)).drop _).subset old
          · exact decoded entry new
    · cases member

theorem handleAppendEntriesResponse_applied {node : RaftNode Command} (caughtUp : node.CaughtUp)
    {response : AppendEntriesResponse}
    (quiet : node.AppliesNoMessage (.appendEntriesResponse response))
    : ∀ command ∈ (node.handleAppendEntriesResponse (lit "peer") response).2,
        commandWrite command = none := by
  intro command member
  rcases node.handleAppendEntriesResponse_cases (lit "peer") response with
    ⟨_, handled⟩ | handled | ⟨leads, term, success, handled⟩ | ⟨_, handled⟩ <;>
    rw [handled] at member
  · cases member
  · cases member
  · obtain ⟨last, reached, origin⟩ := (node.countSuccess (lit "peer")).tryCommitLogs_eq
    rw [reached] at member
    rcases applyLogs_mem member with rfl | ⟨entry, inLog, rfl⟩
    · rfl
    · rcases origin with same | ⟨above, inside, passed⟩
      · -- nothing new was committed, and the rest had been applied
        have none : (node.log.take last).drop node.lastApplied = [] := by
          refine drop_eq_nil_of_le ?_
          rw [length_take, same]
          exact (min_le_left _ _).trans caughtUp
        have inLog' : entry ∈ (node.log.take last).drop node.lastApplied := inLog
        rw [none] at inLog'
        cases inLog'
      · exact quiet leads term success last inside above passed entry inLog
  · cases member

end RaftNode

namespace RaftManager

variable {rm : RaftManager} {topic : GoString}

/-- Every node has applied what it committed. -/
def CaughtUp (rm : RaftManager) : Prop :=
  ∀ topic cluster, rm.clusters.lookup topic = some cluster → cluster.raftNode.CaughtUp

theorem CaughtUp.new (brokerID : GoString) : (newRaftManager brokerID).CaughtUp := by
  intro topic cluster found
  simp [newRaftManager] at found

section

variable (h : rm.CaughtUp)
include h

/-- A cluster that is caught up may be put in. -/
theorem CaughtUp.insert {cluster : TopicRaftCluster} (node : cluster.raftNode.CaughtUp)
    : ({ rm with clusters := rm.clusters.insert topic cluster } : RaftManager).CaughtUp := by
  intro other found same
  by_cases here : other = topic
  · subst here
    rw [AList.lookup_insert] at same
    cases same
    exact node
  · rw [AList.lookup_insert_ne here] at same
    exact h other found same

theorem CaughtUp.setTopicRole (topic : GoString) (role : TopicRole) (followers : List GoString)
    (leaderAddr : GoString)
    : (rm.setTopicRole topic role followers leaderAddr).CaughtUp :=
  h.insert (Nat.le_refl 0)

theorem CaughtUp.removeTopic (topic : GoString)
    : (rm.removeTopic topic).CaughtUp := by
  intro other cluster found
  by_cases here : other = topic
  · subst here
    simp [RaftManager.removeTopic] at found
  · refine h other cluster ?_
    rwa [RaftManager.removeTopic, AList.lookup_erase_ne here] at found

theorem CaughtUp.startElection (topic : GoString)
    : (rm.startElection topic).CaughtUp := by
  unfold RaftManager.startElection
  cases found : rm.clusters.lookup topic with
  | none => exact h
  | some cluster => exact h.insert (h topic cluster found)

theorem CaughtUp.proposeMessage {now : Int} {messageID : UInt64} {payload : Bytes}
    {next : RaftManager} (proposed : rm.proposeMessage now topic messageID payload = .ok next)
    : next.CaughtUp := by
  unfold RaftManager.proposeMessage at proposed
  cases found : rm.clusters.lookup topic with
  | none => simp [found] at proposed
  | some cluster =>
      simp only [found] at proposed
      split at proposed
      · cases proposed
      · split at proposed
        · cases proposed
        · next node accepted =>
            cases proposed
            obtain ⟨_, rfl⟩ := RaftNode.propose_ok accepted
            exact h.insert (h topic cluster found)

/-- No message leaves a commit unapplied. -/
theorem CaughtUp.handleRaftMessage {message : RaftMessage} {handled : Handled}
    (done : rm.handleRaftMessage topic message = .ok handled)
    : handled.manager.CaughtUp := by
  unfold RaftManager.handleRaftMessage at done
  cases found : rm.clusters.lookup topic with
  | none => simp [found] at done
  | some cluster =>
      have node := h topic cluster found
      simp only [found] at done
      cases message with
      | requestVote request =>
          cases done
          exact h.insert (node.of_kept (.handleRequestVote _ request))
      | requestVoteResponse response =>
          cases done
          exact h.insert (node.of_kept (.handleRequestVoteResponse _ (lit "peer") response))
      | appendEntries request =>
          cases done
          exact h.insert (node.handleAppendEntries request)
      | appendEntriesResponse response =>
          cases done
          exact h.insert (node.handleAppendEntriesResponse (lit "peer") response)
      | command proposal => cases done

end

/-- A message off the wire applies no message when the node's own log has none to apply. -/
theorem handleRaftMessage_applied (caughtUp : rm.CaughtUp) {messageType : RaftMessageType}
    {payload : Json} {message : RaftMessage}
    (decoded : deserializeRaftMessage messageType payload = .ok message)
    (quiet
      : ∀ cluster, rm.clusters.lookup topic = some cluster
          → cluster.raftNode.AppliesNoMessage message)
    {handled : Handled} (done : rm.handleRaftMessage topic message = .ok handled)
    : ∀ command ∈ handled.applied, commandWrite command = none := by
  unfold RaftManager.handleRaftMessage at done
  cases found : rm.clusters.lookup topic with
  | none => simp [found] at done
  | some cluster =>
      simp only [found] at done
      cases message with
      | requestVote | requestVoteResponse =>
          cases done
          exact fun _ member => absurd member not_mem_nil
      | appendEntries request =>
          cases done
          exact RaftNode.handleAppendEntries_applied (deserialize_writes decoded)
            (quiet cluster found)
      | appendEntriesResponse response =>
          cases done
          exact RaftNode.handleAppendEntriesResponse_applied (caughtUp topic cluster found)
            (quiet cluster found)
      | command proposal => cases done

end RaftManager

/-- Commands that ask for no write leave the fragment store as it is. -/
theorem foldl_createApplyFunc {applied : List (Option Command)}
    (none : ∀ command ∈ applied, commandWrite command = none) (now : Int) (fm : FragmentManager)
    : applied.foldl (createApplyFunc now) fm = fm := by
  induction applied with
  | nil => rfl
  | cons command rest ih =>
      have same : createApplyFunc now fm command = fm := by
        rw [createApplyFunc, none command mem_cons_self]
      rw [foldl_cons, same]
      exact ih (fun later member => none later (mem_cons_of_mem _ member))

end Goulette.Raft
