import Goulette.Raft.Calls

/-! Runs of a Raft manager: role assignments, removals, Raft requests, election timeouts and
proposals in any order. Every topic runs by itself.
-/

namespace Goulette.Raft

open Goulette.Go Goulette.Storage Runs ByteFrames

inductive ManagerCall
  | setTopicRole (topic : GoString) (role : TopicRole) (followers : List GoString)
      (leaderAddr : GoString)
  | removeTopic (topic : GoString)
  | raftRequest (request : RaftManager.RaftRequest)
  | electionTimeout (topic : GoString)
  | proposeMessage (now : Int) (topic : GoString) (messageID : UInt64) (payload : Bytes)

namespace RaftManager

/-- The run loop of a node's election timer: a leader has none. -/
def electionTimeout (rm : RaftManager) (topic : GoString) : RaftManager :=
  match rm.clusters.lookup topic with
  | none => rm
  | some cluster => if cluster.raftNode.state = .leader then rm else rm.startElection topic

/-- A call that fails leaves the manager as it was. -/
def step (rm : RaftManager) : ManagerCall → RaftManager
  | .setTopicRole topic role followers leaderAddr =>
      rm.setTopicRole topic role followers leaderAddr
  | .removeTopic topic => rm.removeTopic topic
  | .raftRequest request =>
      match (rm.handleRaftRequest request).1 with
      | none => rm
      | some handled => handled.manager
  | .electionTimeout topic => rm.electionTimeout topic
  | .proposeMessage now topic messageID payload =>
      match rm.proposeMessage now topic messageID payload with
      | .error _ => rm
      | .ok next => next

end RaftManager

def RaftMessage.nodeCall : RaftMessage → Option (NodeCall Command)
  | .requestVote request => some (.requestVote request)
  | .requestVoteResponse response => some (.requestVoteResponse (lit "peer") response)
  | .appendEntries request => some (.appendEntries request)
  | .appendEntriesResponse response => some (.appendEntriesResponse (lit "peer") response)
  | .command _ => none

def ManagerCall.nodeCall : ManagerCall → Option (GoString × NodeCall Command)
  | .setTopicRole _ _ _ _ => none
  | .removeTopic _ => none
  | .raftRequest request =>
      match deserializeRaftMessage request.messageType request.payload with
      | .error _ => none
      | .ok message => message.nodeCall.map (fun call => (request.topic, call))
  | .electionTimeout topic => some (topic, .startElection)
  | .proposeMessage now topic messageID payload =>
      some (topic, .propose (.message { topic, messageID, payload, timestamp := unix now }))

/-- A call in the words of the source: an election may wrap the term. -/
def RaftNode.wordCall (node : RaftNode Command) : NodeCall Command → RaftNode Command
  | .startElection => Checked.startElection node
  | call => (node.call call).1

namespace TopicRaftCluster

/-- The run loop starts no election on a leader, and only role leader may propose. -/
def admits (cluster : TopicRaftCluster) : NodeCall Command → Bool
  | .startElection => cluster.raftNode.state ≠ .leader
  | .propose _ => cluster.role = .leader
  | _ => true

def call (cluster : TopicRaftCluster) (call : NodeCall Command) : TopicRaftCluster :=
  if cluster.admits call then { cluster with raftNode := cluster.raftNode.wordCall call }
  else cluster

def topicStep (brokerID topic : GoString) (found : Option TopicRaftCluster)
    : ManagerCall → Option TopicRaftCluster
  | .setTopicRole target role followers leaderAddr =>
      if target = topic then
        some {
          raftNode := newRaftNode brokerID (RaftManager.rolePeers role followers leaderAddr)
          role
        }
      else found
  | .removeTopic target => if target = topic then none else found
  | other =>
      match other.nodeCall with
      | none => found
      | some (target, nodeCall) =>
          if target = topic then found.map (fun cluster => cluster.call nodeCall) else found

end TopicRaftCluster

namespace RaftManager

open TopicRaftCluster

variable {rm : RaftManager}

/-- A manager's call on a topic's node: there is no node, the call changes nothing, or the
node is replaced by its next state.
-/
inductive CallsNode (rm : RaftManager) (target : GoString) (call : NodeCall Command)
    : RaftManager → Prop
  | absent (found : rm.clusters.lookup target = none) : CallsNode rm target call rm
  | idle {cluster : TopicRaftCluster} (found : rm.clusters.lookup target = some cluster)
      (same : cluster.call call = cluster)
      : CallsNode rm target call rm
  | made {cluster : TopicRaftCluster} (found : rm.clusters.lookup target = some cluster)
      (admitted : cluster.admits call)
      : CallsNode rm target call (rm.setNode target cluster (cluster.raftNode.wordCall call))

theorem CallsNode.lookup {next : RaftManager} {target : GoString} {call : NodeCall Command}
    (h : CallsNode rm target call next) (topic : GoString)
    : next.clusters.lookup topic
      = if target = topic then (rm.clusters.lookup topic).map (fun cluster => cluster.call call)
        else rm.clusters.lookup topic := by
  by_cases here : target = topic
  · subst here
    rw [if_pos rfl]
    cases h with
    | absent found =>
        rw [found]
        rfl
    | idle found same => rw [found, Option.map_some, same]
    | made found admitted =>
        rw [found, Option.map_some, TopicRaftCluster.call, if_pos admitted]
        exact AList.lookup_insert _
  · rw [if_neg here]
    cases h with
    | absent | idle => rfl
    | made found admitted => exact AList.lookup_insert_ne (Ne.symm here)

/-- Whatever a node does, its cluster keeps the role. -/
theorem CallsNode.role {next : RaftManager} {target : GoString}
    {call : NodeCall Command} (h : CallsNode rm target call next) (topic : GoString)
    : (next.clusters.lookup topic).map TopicRaftCluster.role
      = (rm.clusters.lookup topic).map TopicRaftCluster.role := by
  rw [h.lookup]
  split
  · rw [Option.map_map]
    congr 1
    funext cluster
    rw [Function.comp_apply, TopicRaftCluster.call]
    split <;> rfl
  · rfl

theorem CallsNode.handleRaftMessage (rm : RaftManager) (topic : GoString)
    {message : RaftMessage} {call : NodeCall Command} (calls : message.nodeCall = some call)
    : CallsNode rm topic call
        (match rm.handleRaftMessage topic message with
          | .error _ => rm
          | .ok handled => handled.manager) := by
  cases found : rm.clusters.lookup topic with
  | none =>
      simp only [RaftManager.handleRaftMessage, found]
      exact .absent found
  | some cluster =>
      simp only [RaftManager.handleRaftMessage, found]
      cases message with
      | requestVote | requestVoteResponse | appendEntries | appendEntriesResponse =>
          cases calls
          exact .made found rfl
      | command proposal => cases calls

theorem CallsNode.electionTimeout (topic : GoString)
    : CallsNode rm topic .startElection (rm.electionTimeout topic) := by
  unfold RaftManager.electionTimeout
  cases found : rm.clusters.lookup topic with
  | none => exact .absent found
  | some cluster =>
      by_cases leads : cluster.raftNode.state = .leader
      · simp only [leads, if_true]
        refine .idle found ?_
        simp [TopicRaftCluster.call, admits, leads]
      · simp only [leads, if_false, startElection, found]
        exact .made found (by simpa [admits] using leads)

theorem CallsNode.proposeMessage (now : Int) (topic : GoString) (messageID : UInt64)
    (payload : Bytes)
    : CallsNode rm topic
        (.propose (.message { topic, messageID, payload, timestamp := unix now }))
        (rm.step (.proposeMessage now topic messageID payload)) := by
  cases found : rm.clusters.lookup topic with
  | none =>
      simp only [step, RaftManager.proposeMessage, found]
      exact .absent found
  | some cluster =>
      by_cases leads : cluster.role = .leader
      · have admitted (command : Command) : cluster.admits (.propose command) = true := by
          simp [admits, leads]
        by_cases elected : cluster.raftNode.state = .leader
        · have made := CallsNode.made found
            (admitted (.message { topic, messageID, payload, timestamp := unix now }))
          simp only [RaftNode.wordCall, RaftNode.call, RaftNode.propose, elected, ne_eq,
            not_true_eq_false, if_false] at made
          simpa [step, RaftManager.proposeMessage, found, leads, RaftNode.propose, elected]
            using made
        · simp only [step, RaftManager.proposeMessage, found, leads, RaftNode.propose, elected,
            ne_eq, not_true_eq_false, not_false_eq_true, if_true, if_false]
          refine .idle found ?_
          simp [TopicRaftCluster.call, RaftNode.wordCall, RaftNode.call, RaftNode.propose, elected]
      · simp only [step, RaftManager.proposeMessage, found, leads, ne_eq, not_false_eq_true,
          if_true]
        refine .idle found ?_
        simp [TopicRaftCluster.call, admits, leads]

theorem lookup_step (rm : RaftManager) (call : ManagerCall) (topic : GoString)
    : (rm.step call).clusters.lookup topic
      = topicStep rm.brokerID topic (rm.clusters.lookup topic) call := by
  cases call with
  | setTopicRole target role followers leaderAddr =>
      simp only [step, setTopicRole, topicStep]
      split
      · next same =>
          subst same
          exact AList.lookup_insert _
      · next other => exact AList.lookup_insert_ne (Ne.symm other)
  | removeTopic target =>
      simp only [step, removeTopic, topicStep]
      split
      · next same =>
          subst same
          exact AList.lookup_erase _ _
      · next other => exact AList.lookup_erase_ne (Ne.symm other)
  | raftRequest request =>
      simp only [step, handleRaftRequest, topicStep, ManagerCall.nodeCall]
      cases deserializeRaftMessage request.messageType request.payload with
      | error failure => rfl
      | ok message =>
          cases calls : message.nodeCall with
          | none =>
              cases message <;> cases calls
              simp only [handleRaftMessage]
              cases rm.clusters.lookup request.topic <;> rfl
          | some call =>
              have made := (CallsNode.handleRaftMessage rm request.topic calls).lookup topic
              simp only [calls, Option.map_some]
              rw [← made]
              cases rm.handleRaftMessage request.topic message <;> rfl
  | electionTimeout target => exact (CallsNode.electionTimeout target).lookup topic
  | proposeMessage now target messageID payload =>
      exact (CallsNode.proposeMessage now target messageID payload).lookup topic

end RaftManager

/-! Roles and leadership. -/

namespace RaftNode

variable {C : Type} (node : RaftNode C)

def CompletesMajority (peerID : GoString) (response : RequestVoteResponse) : Prop :=
  node.state = .candidate ∧ response.term = node.currentTerm ∧ response.voteGranted
    ∧ node.peers.keys.length / 2 < (insert peerID node.votes).card

instance (peerID : GoString) (response : RequestVoteResponse)
    : Decidable (node.CompletesMajority peerID response) :=
  inferInstanceAs (Decidable (_ ∧ _))

theorem adoptTerm_state (term : Nat)
    : (node.adoptTerm term).state = if node.currentTerm < term then .follower else node.state := by
  unfold adoptTerm
  split <;> rfl

theorem handleRequestVote_state (request : RequestVoteRequest)
    : (node.handleRequestVote request).1.state
      = if node.currentTerm < request.term then .follower else node.state := by
  rcases node.handleRequestVote_cases request with
    ⟨stale, handled⟩ | ⟨_, handled⟩ | ⟨_, _, _, handled⟩ <;> rw [handled]
  · rw [if_neg (by omega)]
  · exact node.adoptTerm_state request.term
  · exact node.adoptTerm_state request.term

theorem handleAppendEntries_state (request : AppendEntriesRequest C)
    : (node.handleAppendEntries request).1.state
      = if node.currentTerm < request.term then .follower else node.state := by
  have observed
      : (node.observeLeader request).state
        = if node.currentTerm < request.term then .follower else node.state := by
    unfold observeLeader
    split <;> rfl
  rcases node.handleAppendEntries_cases request with
    ⟨stale, handled⟩ | ⟨_, handled⟩ | ⟨_, _, handled⟩ <;> rw [handled]
  · rw [if_neg (by omega)]
  · exact observed
  · obtain ⟨_, _, moved⟩ := (node.appended request).updateCommit_fst request.leaderCommit
    rw [moved]
    exact observed

theorem handleAppendEntriesResponse_state (peerID : GoString) (response : AppendEntriesResponse)
    : (node.handleAppendEntriesResponse peerID response).1.state
      = if node.currentTerm < response.term then .follower else node.state := by
  unfold handleAppendEntriesResponse
  by_cases higher : node.currentTerm < response.term
  · rw [if_pos higher, if_pos higher]
    rfl
  · rw [if_neg higher, if_neg higher]
    split
    · rfl
    · split
      · obtain ⟨last, reached, _⟩ := (node.countSuccess peerID).tryCommitLogs_eq
        rw [reached, applyLogs_fst]
        rfl
      · split <;> rfl

theorem handleRequestVoteResponse_state (peerID : GoString) (response : RequestVoteResponse)
    : (node.handleRequestVoteResponse peerID response).1.state
      = if node.currentTerm < response.term then .follower
        else if node.CompletesMajority peerID response then .leader
        else node.state := by
  unfold handleRequestVoteResponse
  by_cases higher : node.currentTerm < response.term
  · rw [if_pos higher, if_pos higher]
    rfl
  · rw [if_neg higher, if_neg higher]
    by_cases ignored : node.state ≠ .candidate ∨ response.term ≠ node.currentTerm
    · rw [if_pos ignored, if_neg]
      rintro ⟨standing, current, _⟩
      exact ignored.elim (fun other => other standing) (fun other => other current)
    · rw [if_neg ignored]
      simp only [not_or, not_not] at ignored
      cases granted : response.voteGranted with
      | false => simp [CompletesMajority, granted]
      | true =>
          by_cases majority : node.peers.keys.length / 2 < (insert peerID node.votes).card
          · simp [CompletesMajority, ignored.1, ignored.2, granted, majority, becomeLeader]
          · simp [CompletesMajority, granted, majority]

end RaftNode

namespace TopicRaftCluster

def Agrees (cluster : TopicRaftCluster) : Prop :=
  cluster.role = .leader ↔ cluster.raftNode.state = .leader

/-- With role leader, no message of a larger term arrives; without it, no vote that completes
a majority.
-/
def KeepsRole (cluster : TopicRaftCluster) : NodeCall Command → Prop
  | .requestVote request =>
      cluster.role = .leader → request.term ≤ cluster.raftNode.currentTerm
  | .requestVoteResponse peerID response =>
      (cluster.role = .leader → response.term ≤ cluster.raftNode.currentTerm)
      ∧ (cluster.role ≠ .leader → ¬cluster.raftNode.CompletesMajority peerID response)
  | .appendEntries request =>
      cluster.role = .leader → request.term ≤ cluster.raftNode.currentTerm
  | .appendEntriesResponse _ response =>
      cluster.role = .leader → response.term ≤ cluster.raftNode.currentTerm
  | .startElection => True
  | .propose _ => True

instance (cluster : TopicRaftCluster) : DecidablePred cluster.KeepsRole := fun action => by
  unfold TopicRaftCluster.KeepsRole
  split <;> infer_instance

/-- A message that carries a term makes a leader step down exactly when the term is larger. -/
theorem agrees_stepDown {role : TopicRole} {state : RaftState} {own term : Nat}
    (h : role = .leader ↔ state = .leader)
    : (role = .leader ↔ (if own < term then .follower else state) = RaftState.leader)
      ↔ (role = .leader → term ≤ own) := by
  by_cases higher : own < term
  · have above : ¬term ≤ own := by omega
    simp [higher, above]
  · have below : term ≤ own := by omega
    simp [higher, below, h]

/-- A call on the node keeps role and leadership in agreement exactly under the condition. -/
theorem Agrees.call_iff {cluster : TopicRaftCluster} (h : cluster.Agrees)
    (call : NodeCall Command)
    : (cluster.call call).Agrees ↔ cluster.KeepsRole call := by
  cases call with
  | startElection =>
      by_cases leads : cluster.raftNode.state = .leader
      · simpa [TopicRaftCluster.call, admits, leads, KeepsRole] using h
      · have unassigned : cluster.role ≠ .leader := fun assigned => leads (h.mp assigned)
        simp [TopicRaftCluster.call, admits, leads, KeepsRole, Agrees, unassigned,
          RaftNode.wordCall, RaftNode.Checked.startElection, RaftNode.startElection]
  | propose command =>
      by_cases leads : cluster.raftNode.state = .leader
      · have assigned : cluster.role = .leader := h.mpr leads
        simp [TopicRaftCluster.call, admits, leads, KeepsRole, Agrees, assigned,
          RaftNode.wordCall, RaftNode.call, RaftNode.propose]
      · have unassigned : cluster.role ≠ .leader := fun assigned => leads (h.mp assigned)
        simpa [TopicRaftCluster.call, admits, KeepsRole, unassigned] using h
  | requestVote request =>
      simp only [TopicRaftCluster.call, admits, if_true, Agrees, RaftNode.wordCall, RaftNode.call,
        RaftNode.handleRequestVote_state]
      exact agrees_stepDown h
  | requestVoteResponse peerID response =>
      simp only [TopicRaftCluster.call, admits, if_true, Agrees, RaftNode.wordCall, RaftNode.call,
        RaftNode.handleRequestVoteResponse_state]
      by_cases assigned : cluster.role = .leader
      · have leads := h.mp assigned
        have voted : ¬cluster.raftNode.CompletesMajority peerID response := by
          rintro ⟨standing, _⟩
          rw [leads] at standing
          cases standing
        simp only [voted, if_false]
        exact (agrees_stepDown h).trans
          ⟨fun below => ⟨below, fun other => absurd assigned other⟩, And.left⟩
      · have leads : cluster.raftNode.state ≠ .leader := fun leads => assigned (h.mpr leads)
        simp only [KeepsRole, assigned, false_implies, ne_eq, not_false_eq_true, true_implies,
          true_and, false_iff]
        by_cases voted : cluster.raftNode.CompletesMajority peerID response
        · have current : ¬cluster.raftNode.currentTerm < response.term := by
            have := voted.2.1
            omega
          simp [voted, current]
        · by_cases higher : cluster.raftNode.currentTerm < response.term
          · simp [voted, higher]
          · simp [voted, higher, leads]
  | appendEntries request =>
      simp only [TopicRaftCluster.call, admits, if_true, Agrees, RaftNode.wordCall, RaftNode.call,
        RaftNode.handleAppendEntries_state]
      exact agrees_stepDown h
  | appendEntriesResponse peerID response =>
      simp only [TopicRaftCluster.call, admits, if_true, Agrees, RaftNode.wordCall, RaftNode.call,
        RaftNode.handleAppendEntriesResponse_state]
      exact agrees_stepDown h

end TopicRaftCluster

namespace RaftManager

open TopicRaftCluster

def RolesAgree (rm : RaftManager) : Prop :=
  ∀ topic, rm.isLeader topic
    ↔ ∃ cluster, rm.clusters.lookup topic = some cluster ∧ cluster.raftNode.state = .leader

theorem rolesAgree_iff_clusters (rm : RaftManager)
    : rm.RolesAgree
      ↔ ∀ topic cluster, rm.clusters.lookup topic = some cluster → cluster.Agrees := by
  refine forall_congr' (fun topic => ?_)
  unfold isLeader
  cases rm.clusters.lookup topic with
  | none => simp
  | some cluster => simp [Agrees]

theorem RolesAgree.new (brokerID : GoString) : (newRaftManager brokerID).RolesAgree := by
  intro topic
  simp [newRaftManager, isLeader]

/-- No role leader is assigned, and calls on nodes keep to the assigned roles. -/
def KeepsRoles (rm : RaftManager) : ManagerCall → Prop
  | .setTopicRole _ role _ _ => role ≠ .leader
  | .removeTopic _ => True
  | call =>
      ∀ target ∈ call.nodeCall, ∀ cluster ∈ rm.clusters.lookup target.1,
        cluster.KeepsRole target.2

instance (rm : RaftManager) : DecidablePred rm.KeepsRoles := fun action => by
  unfold RaftManager.KeepsRoles
  split <;> infer_instance

theorem RolesAgree.nodeCall_iff {rm : RaftManager} (h : rm.RolesAgree) {call : ManagerCall}
    (calls
      : ∀ topic, topicStep rm.brokerID topic (rm.clusters.lookup topic) call
          = match call.nodeCall with
            | none => rm.clusters.lookup topic
            | some (target, nodeCall) =>
                if target = topic then
                  (rm.clusters.lookup topic).map (fun cluster => cluster.call nodeCall)
                else rm.clusters.lookup topic)
    : (rm.step call).RolesAgree
      ↔ ∀ target ∈ call.nodeCall, ∀ cluster ∈ rm.clusters.lookup target.1,
          cluster.KeepsRole target.2 := by
  rw [rolesAgree_iff_clusters] at h ⊢
  simp only [lookup_step, calls]
  cases made : call.nodeCall with
  | none => simpa using h
  | some target =>
      obtain ⟨target, nodeCall⟩ := target
      simp only [Option.mem_def, Option.some.injEq, forall_eq']
      constructor
      · intro after cluster found
        refine ((h target cluster found).call_iff nodeCall).mp (after target _ ?_)
        rw [if_pos rfl, found, Option.map_some]
      · intro kept topic cluster found
        split at found
        · next same =>
            subst same
            obtain ⟨before, known, rfl⟩ := Option.map_eq_some_iff.mp found
            exact ((h target before known).call_iff nodeCall).mpr (kept before known)
        · exact h topic cluster found

/-- A step keeps roles and leadership in agreement exactly under the condition. -/
theorem RolesAgree.step_iff {rm : RaftManager} (h : rm.RolesAgree) (call : ManagerCall)
    : (rm.step call).RolesAgree ↔ rm.KeepsRoles call := by
  cases call with
  | setTopicRole target role followers leaderAddr =>
      rw [rolesAgree_iff_clusters] at h ⊢
      simp only [lookup_step, topicStep]
      constructor
      · intro after leads
        have agrees := after target _ (if_pos rfl)
        cases agrees.mp leads
      · intro follows topic cluster found
        split at found
        · cases found
          exact ⟨fun leads => absurd leads follows, fun leads => by cases leads⟩
        · exact h topic cluster found
  | removeTopic target =>
      rw [rolesAgree_iff_clusters] at h ⊢
      simp only [lookup_step, topicStep]
      refine ⟨fun _ => trivial, fun _ topic cluster found => ?_⟩
      split at found
      · cases found
      · exact h topic cluster found
  | _ => exact h.nodeCall_iff (fun _ => rfl)

end RaftManager

end Goulette.Raft
