import Goulette.Raft.LogMatching
import Goulette.Raft.Manager

/-! One Raft node and the calls made on it, in any order and with any arguments. -/

namespace Goulette.Raft

open Goulette.Go List

variable {C : Type}

inductive NodeCall (C : Type)
  | startElection
  | propose (command : C)
  | requestVote (request : RequestVoteRequest)
  | requestVoteResponse (peerID : GoString) (response : RequestVoteResponse)
  | appendEntries (request : AppendEntriesRequest C)
  | appendEntriesResponse (peerID : GoString) (response : AppendEntriesResponse)

namespace RaftNode

def call (node : RaftNode C) : NodeCall C → RaftNode C × List (Option C)
  | .startElection => (node.startElection, [])
  | .propose command =>
      match node.propose command with
      | .error _ => (node, [])
      | .ok next => (next, [])
  | .requestVote request => ((node.handleRequestVote request).1, [])
  | .requestVoteResponse peerID response => ((node.handleRequestVoteResponse peerID response).1, [])
  | .appendEntries request =>
      ((node.handleAppendEntries request).1, (node.handleAppendEntries request).2.1)
  | .appendEntriesResponse peerID response => node.handleAppendEntriesResponse peerID response

/-- A later state of a node: the same member of the same group, at no smaller term. -/
structure Successor (old new : RaftNode C) : Prop where
  nodeID : new.nodeID = old.nodeID
  peers : new.peers = old.peers
  term : old.currentTerm ≤ new.currentTerm

namespace Successor

variable (node : RaftNode C)

theorem refl : Successor node node := ⟨rfl, rfl, le_rfl⟩

theorem of_quiet {node next : RaftNode C} (quiet : Quiet node next) : Successor node next :=
  ⟨quiet.nodeID, quiet.peers, quiet.term_le⟩

theorem handleRequestVote (request : RequestVoteRequest)
    : Successor node (node.handleRequestVote request).1 := by
  have adopted := of_quiet (Quiet.adoptTerm node request.term)
  rcases node.handleRequestVote_cases request with
    ⟨_, handled⟩ | ⟨_, handled⟩ | ⟨_, _, _, handled⟩ <;> rw [handled]
  · exact refl node
  · exact adopted
  · exact ⟨adopted.nodeID, adopted.peers, adopted.term⟩

theorem handleRequestVoteResponse (peerID : GoString) (response : RequestVoteResponse)
    : Successor node (node.handleRequestVoteResponse peerID response).1 := by
  rcases node.handleRequestVoteResponse_cases peerID response with
    ⟨higher, handled⟩ | handled | ⟨_, _, _, _, handled⟩ | ⟨_, _, _, _, handled⟩ <;> rw [handled]
  · exact ⟨rfl, rfl, Nat.le_of_lt higher⟩
  · exact refl node
  · exact ⟨rfl, rfl, le_rfl⟩
  · exact ⟨rfl, rfl, le_rfl⟩

theorem handleAppendEntries (request : AppendEntriesRequest C)
    : Successor node (node.handleAppendEntries request).1 :=
  of_quiet (Quiet.handleAppendEntries node request)

theorem handleAppendEntriesResponse (peerID : GoString) (response : AppendEntriesResponse)
    : Successor node (node.handleAppendEntriesResponse peerID response).1 :=
  of_quiet (Quiet.handleAppendEntriesResponse node peerID response)

theorem propose {command : C} {next : RaftNode C} (proposed : node.propose command = .ok next)
    : Successor node next := by
  obtain ⟨_, rfl⟩ := propose_ok proposed
  exact ⟨rfl, rfl, le_rfl⟩

theorem call (call : NodeCall C) : Successor node (node.call call).1 := by
  cases call with
  | startElection => exact ⟨rfl, rfl, Nat.le_succ _⟩
  | propose command =>
      simp only [RaftNode.call]
      cases proposed : node.propose command with
      | error failure => exact refl node
      | ok next => exact propose node proposed
  | requestVote request => exact handleRequestVote node request
  | requestVoteResponse peerID response => exact handleRequestVoteResponse node peerID response
  | appendEntries request => exact handleAppendEntries node request
  | appendEntriesResponse peerID response =>
      exact handleAppendEntriesResponse node peerID response

end Successor

/-- A vote granted to a candidate's request puts the voter among the votes of the candidate,
which may have counted others meanwhile.
-/
def GrantCounts (candidate later voter : RaftNode C) (peerID : GoString) : Prop :=
  (voter.handleRequestVote candidate.requestVote).2.voteGranted
  → peerID
    ∈ (later.handleRequestVoteResponse peerID
        (voter.handleRequestVote candidate.requestVote).2).1.votes

def SuccessCounts (leader later follower : RaftNode C) (peerID : GoString)
    (isHeartbeat : Bool)
    : Prop :=
  (follower.handleAppendEntries (leader.sendAppendEntries peerID isHeartbeat)).2.2.success
  → (later.handleAppendEntriesResponse peerID
      (follower.handleAppendEntries
        (leader.sendAppendEntries peerID isHeartbeat)).2.2).1.nextIndex peerID
    = later.nextIndex peerID + 1

theorem handleRequestVote_response (node : RaftNode C) (request : RequestVoteRequest)
    : (node.handleRequestVote request).2.term = node.currentTerm
      ∧ ((node.handleRequestVote request).2.voteGranted → node.currentTerm ≤ request.term) := by
  rcases node.handleRequestVote_cases request with
    ⟨_, handled⟩ | ⟨_, handled⟩ | ⟨current, _, _, handled⟩ <;> rw [handled]
  · exact ⟨rfl, fun granted => by cases granted⟩
  · exact ⟨rfl, fun granted => by cases granted⟩
  · exact ⟨rfl, fun _ => current⟩

theorem handleAppendEntries_response (node : RaftNode C) (request : AppendEntriesRequest C)
    : (node.handleAppendEntries request).2.2.term = node.currentTerm
      ∧ ((node.handleAppendEntries request).2.2.success
        → node.currentTerm ≤ request.term) := by
  rcases node.handleAppendEntries_cases request with
    ⟨_, handled⟩ | ⟨_, handled⟩ | ⟨current, _, handled⟩ <;> rw [handled]
  · exact ⟨rfl, fun success => by cases success⟩
  · exact ⟨rfl, fun success => by cases success⟩
  · exact ⟨rfl, fun _ => current⟩

/-- A candidate counts a grant of its own term, and ignores one of an earlier term. -/
theorem handleRequestVoteResponse_votes (node : RaftNode C) (peerID : GoString)
    {response : RequestVoteResponse} (standing : node.state = .candidate)
    (granted : response.voteGranted) (reached : response.term ≤ node.currentTerm)
    : peerID ∈ (node.handleRequestVoteResponse peerID response).1.votes
      ↔ response.term = node.currentTerm ∨ peerID ∈ node.votes := by
  have higher : ¬response.term > node.currentTerm := by omega
  by_cases current : response.term = node.currentTerm
  · have counted
        : peerID ∈ (node.handleRequestVoteResponse peerID response).1.votes := by
      simp only [handleRequestVoteResponse, standing, current, granted, ne_eq,
        not_true_eq_false, or_self, if_false, if_true, lt_irrefl, gt_iff_lt]
      split <;> exact Finset.mem_insert_self _ _
    exact ⟨fun _ => Or.inl current, fun _ => counted⟩
  · have ignored : node.handleRequestVoteResponse peerID response = (node, false) := by
      simp [handleRequestVoteResponse, higher, current]
    rw [ignored]
    exact ⟨Or.inr, fun known => known.resolve_left current⟩

/-- A leader counts a success of its own term, and ignores one of an earlier term. -/
theorem handleAppendEntriesResponse_nextIndex (node : RaftNode C) (peerID : GoString)
    {response : AppendEntriesResponse} (leads : node.state = .leader)
    (success : response.success) (reached : response.term ≤ node.currentTerm)
    : (node.handleAppendEntriesResponse peerID response).1.nextIndex peerID
        = node.nextIndex peerID + 1
      ↔ response.term = node.currentTerm := by
  have higher : ¬response.term > node.currentTerm := by omega
  by_cases current : response.term = node.currentTerm
  · have counted
        : node.handleAppendEntriesResponse peerID response
          = (node.countSuccess peerID).tryCommitLogs := by
      simp [handleAppendEntriesResponse, leads, current, success]
    obtain ⟨last, moved, _⟩ := (node.countSuccess peerID).tryCommitLogs_eq
    rw [counted, moved, applyLogs_fst]
    simp [countSuccess, current]
  · have ignored : node.handleAppendEntriesResponse peerID response = (node, []) := by
      simp [handleAppendEntriesResponse, higher, current]
    rw [ignored]
    simp [current]

end RaftNode

open RaftNode

/-- Responses count exactly between nodes of one term: the voter or follower already had the
term of the candidate or leader when the request came, or its vote had been counted before.
-/
theorem responses_count_iff
    : (∀ (candidate later voter : RaftNode C) (peerID : GoString),
        candidate.state = .candidate
        → later.state = .candidate
        → later.currentTerm = candidate.currentTerm
        → (voter.handleRequestVote candidate.requestVote).2.voteGranted
        → (GrantCounts candidate later voter peerID
          ↔ voter.currentTerm = candidate.currentTerm ∨ peerID ∈ later.votes))
      ∧ (∀ (leader later follower : RaftNode C) (peerID : GoString) (isHeartbeat : Bool),
        leader.state = .leader
        → later.state = .leader
        → later.currentTerm = leader.currentTerm
        → (follower.handleAppendEntries
            (leader.sendAppendEntries peerID isHeartbeat)).2.2.success
        → (SuccessCounts leader later follower peerID isHeartbeat
          ↔ follower.currentTerm = leader.currentTerm)) := by
  constructor
  · intro candidate later voter peerID _ standing same granted
    obtain ⟨term, reached⟩ := voter.handleRequestVote_response candidate.requestVote
    have older : voter.currentTerm ≤ candidate.currentTerm := reached granted
    have votes := later.handleRequestVoteResponse_votes peerID standing granted
      (by rw [term, same]; exact older)
    rw [term, same] at votes
    exact ⟨fun counts => votes.mp (counts granted), fun known _ => votes.mpr known⟩
  · intro leader later follower peerID isHeartbeat _ leads same success
    obtain ⟨term, reached⟩ :=
      follower.handleAppendEntries_response (leader.sendAppendEntries peerID isHeartbeat)
    have older : follower.currentTerm ≤ leader.currentTerm := reached success
    have moved := later.handleAppendEntriesResponse_nextIndex peerID leads success
      (by rw [term, same]; exact older)
    rw [term, same] at moved
    exact ⟨fun counts => moved.mp (counts success), fun known _ => moved.mpr known⟩

def pair : GoMap GoString GoString := [⟨[1], []⟩, ⟨[2], []⟩].toAList

/-- Node 1 stands in term 1; node 2 has not heard of the term. -/
theorem not_grantCounts_fresh
    : ¬GrantCounts (newRaftNode [1] pair : RaftNode Nat).startElection
        (newRaftNode [1] pair : RaftNode Nat).startElection (newRaftNode [2] pair) [2] := by
  unfold GrantCounts
  decide

/-- Once node 2 is in term 1 itself, its grant counts. -/
theorem grantCounts_sameTerm
    : ((newRaftNode [2] pair : RaftNode Nat).stepDown 1).currentTerm
        = (newRaftNode [1] pair : RaftNode Nat).startElection.currentTerm
      ∧ GrantCounts (newRaftNode [1] pair : RaftNode Nat).startElection
          (newRaftNode [1] pair : RaftNode Nat).startElection
          ((newRaftNode [2] pair : RaftNode Nat).stepDown 1) [2] :=
  ⟨rfl, (responses_count_iff.1 _ _ _ _ rfl rfl rfl (by decide)).mpr (Or.inl rfl)⟩

/-! What a node has applied. -/

/-- A node with the commands it has passed to `applyFunc`, oldest first. -/
structure Replica (C : Type) where
  node : RaftNode C
  applied : List (Option C)

namespace Replica

variable {node : RaftNode C}

def new (nodeID : GoString) (peers : GoMap GoString GoString) : Replica C :=
  { node := newRaftNode nodeID peers, applied := [] }

def step (replica : Replica C) (call : NodeCall C) : Replica C :=
  { node := (replica.node.call call).1
    applied := replica.applied ++ (replica.node.call call).2 }

def run (nodeID : GoString) (peers : GoMap GoString GoString) (calls : List (NodeCall C))
    : Replica C :=
  calls.foldl step (new nodeID peers)

/-- `lastApplied` counts the applied commands, and everything committed is applied. -/
structure Counted (replica : Replica C) : Prop where
  applied : replica.applied.length = replica.node.lastApplied
  caughtUp : replica.node.CaughtUp

theorem applyLoop_length (node : RaftNode C) (steps : Nat)
    : (node.applyLoop steps).2.length = steps := by
  induction steps generalizing node with
  | zero => rfl
  | succ steps ih => simp [applyLoop, ih]

theorem applyLogs_length (node : RaftNode C)
    : node.lastApplied + node.applyLogs.2.length = max node.lastApplied node.commitIndex := by
  rw [applyLogs, applyLoop_length]
  omega

/-- Applying keeps the count, whatever was committed. -/
theorem Counted.applyLogs {applied : List (Option C)} (count : applied.length = node.lastApplied)
    : Counted { node := node.applyLogs.1, applied := applied ++ node.applyLogs.2 } where
  applied := by
    rw [length_append, count, applyLogs_length, applyLogs_fst]
  caughtUp := CaughtUp.applyLogs node

variable {replica : Replica C}

theorem Counted.idle (h : replica.Counted) {next : RaftNode C}
    (lastApplied : next.lastApplied = replica.node.lastApplied)
    (commitIndex : next.commitIndex = replica.node.commitIndex)
    : Counted { node := next, applied := replica.applied ++ [] } where
  applied := by rw [append_nil, h.applied, lastApplied]
  caughtUp := by
    have before := h.caughtUp
    unfold CaughtUp at before ⊢
    rwa [lastApplied, commitIndex]

theorem Counted.updateCommit {applied : List (Option C)} (count : applied.length = node.lastApplied)
    (caughtUp : node.CaughtUp) (leaderCommit : Nat)
    : Counted {
        node := (node.updateCommit leaderCommit).1
        applied := applied ++ (node.updateCommit leaderCommit).2
      } := by
  unfold RaftNode.updateCommit
  split
  · exact Counted.applyLogs count
  · exact ⟨by rw [append_nil]; exact count, caughtUp⟩

theorem Counted.step (h : replica.Counted) (call : NodeCall C)
    : (replica.step call).Counted := by
  obtain ⟨node, applied⟩ := replica
  cases call with
  | startElection => exact h.idle rfl rfl
  | propose command =>
      simp only [Replica.step, RaftNode.call]
      cases proposed : node.propose command with
      | error failure => exact h.idle rfl rfl
      | ok next =>
          obtain ⟨_, rfl⟩ := RaftNode.propose_ok proposed
          exact h.idle rfl rfl
  | requestVote request =>
      have kept := RaftNode.LogKept.handleRequestVote node request
      exact h.idle kept.lastApplied kept.commitIndex
  | requestVoteResponse peerID response =>
      have kept := RaftNode.LogKept.handleRequestVoteResponse node peerID response
      exact h.idle kept.lastApplied kept.commitIndex
  | appendEntries request =>
      obtain ⟨commitIndex, lastApplied⟩ := node.observeLeader_commit request
      simp only [Replica.step, RaftNode.call]
      rcases node.handleAppendEntries_cases request with
        ⟨_, handled⟩ | ⟨_, handled⟩ | ⟨_, _, handled⟩ <;> rw [handled]
      · exact h.idle rfl rfl
      · exact h.idle lastApplied commitIndex
      · have observed := h.idle lastApplied commitIndex
        have count : applied.length = (node.appended request).lastApplied :=
          h.applied.trans lastApplied.symm
        exact Counted.updateCommit count observed.caughtUp _
  | appendEntriesResponse peerID response =>
      simp only [Replica.step, RaftNode.call]
      rcases node.handleAppendEntriesResponse_cases peerID response with
        ⟨_, handled⟩ | handled | ⟨_, _, _, handled⟩ | ⟨_, handled⟩ <;> rw [handled]
      · exact h.idle rfl rfl
      · exact h.idle rfl rfl
      · obtain ⟨last, moved, _⟩ := (node.countSuccess peerID).tryCommitLogs_eq
        rw [moved]
        exact Counted.applyLogs h.applied
      · exact h.idle rfl rfl

/-- In every reachable state the applied commands are counted. -/
theorem run_counted (nodeID : GoString) (peers : GoMap GoString GoString)
    (calls : List (NodeCall C))
    : (run nodeID peers calls).Counted := by
  have general (replica : Replica C) (h : replica.Counted)
      : (calls.foldl step replica).Counted := by
    induction calls generalizing replica with
    | nil => exact h
    | cons call rest ih => exact ih _ (h.step call)
  exact general _ ⟨rfl, Nat.le_refl 0⟩

def AppliedLog (replica : Replica C) : Prop :=
  replica.applied = replica.node.log.map LogEntry.command

def tryCommit (replica : Replica C) : Replica C :=
  { node := replica.node.tryCommitLogs.1
    applied := replica.applied ++ replica.node.tryCommitLogs.2 }

/-- Committing at most up to the last but one entry applies the whole log only if it has been
applied already. Witness: the last entry is the one that counting never reaches.
-/
theorem Counted.appliedLog_after (h : replica.Counted) (log : node.log = replica.node.log)
    (nonempty : node.log ≠ []) (lastApplied : node.lastApplied = replica.node.lastApplied)
    (bound : node.commitIndex ≤ max replica.node.commitIndex node.getLastLogIndex)
    : AppliedLog { node := node.applyLogs.1, applied := replica.applied ++ node.applyLogs.2 }
      ↔ replica.AppliedLog := by
  have positive := length_pos_of_ne_nil nonempty
  have count := applyLogs_length node
  have caughtUp := h.caughtUp
  have before := h.applied
  unfold CaughtUp at caughtUp
  unfold getLastLogIndex at bound
  have sameLog : node.applyLogs.1.log = replica.node.log := by
    rw [applyLogs_fst]
    exact log
  -- Once the log is applied as a whole, the call adds nothing.
  have nothing (full : replica.node.log.length ≤ node.lastApplied)
      : node.applyLogs.2 = [] := by
    apply eq_nil_of_length_eq_zero
    rw [log] at positive bound
    omega
  unfold AppliedLog
  simp only [sameLog]
  constructor
  · intro applied
    have length := congrArg List.length applied
    rw [length_append, length_map, before, ← lastApplied, count] at length
    rw [log] at positive bound
    have full : replica.node.log.length ≤ node.lastApplied := by omega
    rwa [nothing full, append_nil] at applied
  · intro applied
    have length := congrArg List.length applied
    rw [length_map, before] at length
    rw [nothing (by omega), append_nil]
    exact applied

end Replica

open Replica

/-- A leader whose peers acknowledged its whole log, the last entry being of its own term. -/
structure FullyAcknowledged (node : RaftNode C) : Prop where
  leads : node.state = .leader
  own : node.getLastLogTerm = node.currentTerm
  nonempty : node.log ≠ []
  acknowledged : ∀ peerID ∈ node.peerIDs, node.log.length ≤ node.matchIndex peerID

/-- A request whose entries the follower holds already and whose commit position covers the
follower's whole log.
-/
structure CommitsAll (node : RaftNode C) (request : AppendEntriesRequest C) : Prop where
  held : request.entries <+: node.log.drop request.prevLogIndex
  covers : node.log.length ≤ request.leaderCommit

/-- A fully acknowledged log is applied by `tryCommitLogs` exactly if every command of it had
been applied before, and so is the log of a follower by a request that commits all of it.
-/
theorem appliedLog_iff (nodeID : GoString) (peers : GoMap GoString GoString)
    (calls : List (NodeCall C))
    : (FullyAcknowledged (run nodeID peers calls).node
        → ((run nodeID peers calls).tryCommit.AppliedLog
          ↔ (run nodeID peers calls).AppliedLog))
      ∧ (∀ (leader : RaftNode C) (request : AppendEntriesRequest C),
        FullyAcknowledged leader
        → (run nodeID peers calls).node.log = leader.log
        → CommitsAll (run nodeID peers calls).node request
        → (((run nodeID peers calls).step (.appendEntries request)).AppliedLog
          ↔ (run nodeID peers calls).AppliedLog)) := by
  have counted := run_counted nodeID peers calls
  generalize run nodeID peers calls = replica at counted
  constructor
  · intro full
    obtain ⟨last, moved, origin⟩ := replica.node.tryCommitLogs_eq
    simp only [tryCommit, moved]
    refine counted.appliedLog_after rfl full.nonempty rfl ?_
    rcases origin with same | ⟨_, inside, _⟩
    · simp only [same]
      exact le_max_left _ _
    · exact inside.trans (le_max_right _ _)
  · intro leader request full same all
    obtain ⟨commitIndex, lastApplied⟩ := replica.node.observeLeader_commit request
    have log := replica.node.observeLeader_log request
    have nonempty : replica.node.log ≠ [] := by
      rw [same]
      exact full.nonempty
    have kept
        : appendLoop replica.node.log (request.prevLogIndex + 1) request.entries
          = replica.node.log :=
      appendLoop_held all.held
    -- A refused request applies nothing, and neither does one that raises no commit.
    have idle {node : RaftNode C} (same : node.log = replica.node.log)
        : AppliedLog { node, applied := replica.applied ++ [] } ↔ replica.AppliedLog := by
      unfold AppliedLog
      simp only [same, append_nil]
    simp only [Replica.step, RaftNode.call]
    rcases replica.node.handleAppendEntries_cases request with
      ⟨_, handled⟩ | ⟨_, handled⟩ | ⟨_, _, handled⟩ <;> rw [handled]
    · exact idle rfl
    · exact idle log
    · simp only [appended, kept, updateCommit]
      split
      · refine counted.appliedLog_after rfl nonempty lastApplied ?_
        exact (Nat.min_le_right _ _).trans (le_max_right _ _)
      · exact idle rfl

def acknowledgedLog : List (NodeCall Nat) :=
  [
    .startElection,
    .requestVoteResponse [2] { term := 1, voteGranted := true },
    .propose 7,
    .appendEntriesResponse [2] { term := 1, success := true },
    .appendEntriesResponse [2] { term := 1, success := true }
  ]

theorem fullyAcknowledged_acknowledgedLog
    : FullyAcknowledged (run [1] pair acknowledgedLog).node where
  leads := by decide
  own := by decide
  nonempty := by decide
  acknowledged := by decide

/-- A follower applies the command 7 of term 1; then the leader of term 2 writes the same command in
its place and cuts off what is behind it.
-/
def rewrittenLog : List (NodeCall Nat) :=
  [
    .appendEntries ⟨1, [3], 0, 0, [initialEntry, ⟨1, 2, some 7⟩, ⟨1, 3, some 8⟩], 2⟩,
    .appendEntries ⟨2, [1], 0, 0, [initialEntry, ⟨2, 2, some 7⟩], 0⟩
  ]

def commitsTwo : AppendEntriesRequest Nat := ⟨2, [1], 0, 0, [], 2⟩

theorem appliedLog_iff_acknowledgedLog
    : FullyAcknowledged (run [1] pair acknowledgedLog).node
      ∧ ((run [1] pair acknowledgedLog).tryCommit.AppliedLog
        ↔ (run [1] pair acknowledgedLog).AppliedLog)
      ∧ ((run [2] pair rewrittenLog).step (.appendEntries commitsTwo)).AppliedLog := by
  refine ⟨fullyAcknowledged_acknowledgedLog,
    (appliedLog_iff [1] pair acknowledgedLog).1 fullyAcknowledged_acknowledgedLog, ?_⟩
  have applied : (run [2] pair rewrittenLog).AppliedLog := by
    unfold AppliedLog
    decide
  have leader
      : FullyAcknowledged
          { (run [1] pair acknowledgedLog).node with
            currentTerm := 2, log := (run [2] pair rewrittenLog).node.log } :=
    ⟨by decide, by decide, by decide, by decide⟩
  exact ((appliedLog_iff [2] pair rewrittenLog).2 _ commitsTwo leader rfl
    ⟨List.nil_prefix, by decide⟩).mpr applied

/-- The proposed command is not applied: the only entry the commit loop reaches is the first,
which is of another term.
-/
theorem not_appliedLog_acknowledgedLog
    : ¬(FullyAcknowledged (run [1] pair acknowledgedLog).node
        → (run [1] pair acknowledgedLog).tryCommit.AppliedLog) := by
  intro applied
  have commands := applied fullyAcknowledged_acknowledgedLog
  unfold AppliedLog at commands
  revert commands
  decide

end Goulette.Raft
