import Goulette.Raft.Calls

/-! Candidates and their votes. A node votes for itself when it starts an election, but it tests for
a majority only when it counts a response.
-/

namespace Goulette.Raft

open Goulette.Go Runs

variable {C : Type}

namespace RaftNode

def HasQuorum (node : RaftNode C) : Prop := node.votes.card > node.peers.keys.length / 2

instance (node : RaftNode C) : Decidable node.HasQuorum :=
  inferInstanceAs (Decidable (_ > _))

/-- What a call does to a candidacy; only the start of an election begins one. -/
inductive Candidacy (starts : Prop) (node next : RaftNode C) : Prop
  | ends (state : next.state = .follower) (later : node.currentTerm < next.currentTerm)
  | stays (state : next.state = node.state) (votes : next.votes = node.votes)
  | stands (starting : starts) (state : next.state = .candidate)
      (votes : next.votes = {node.nodeID}) (later : node.currentTerm < next.currentTerm)
  | counts (standing : node.state = .candidate) (state : next.state = .candidate)
      (lacks : ¬next.HasQuorum)
  | wins (standing : node.state = .candidate) (state : next.state = .leader)

namespace Candidacy

variable {starts : Prop} (node : RaftNode C)

theorem of_quiet {node next : RaftNode C} (quiet : Quiet node next)
    : Candidacy starts node next := by
  rcases quiet.ballot with ⟨_, _, state, votes⟩ | ⟨higher, _, follower⟩
  · exact .stays state votes
  · exact .ends follower higher

theorem handleRequestVoteResponse (peerID : GoString) (response : RequestVoteResponse)
    : Candidacy starts node (node.handleRequestVoteResponse peerID response).1 := by
  rcases node.handleRequestVoteResponse_cases peerID response with
    ⟨higher, handled⟩ | handled | ⟨standing, _, _, few, handled⟩ | ⟨standing, _, _, _, handled⟩ <;>
    rw [handled]
  · exact .ends rfl higher
  · exact .stays rfl rfl
  · refine .counts standing standing (fun quorum => ?_)
    simp only [HasQuorum] at quorum
    omega
  · exact .wins standing rfl

theorem call (call : NodeCall C)
    : Candidacy (call = .startElection) node (node.call call).1 := by
  cases call with
  | startElection => exact .stands rfl rfl rfl (Nat.lt_succ_self _)
  | propose command =>
      simp only [RaftNode.call]
      cases proposed : node.propose command with
      | error failure => exact .stays rfl rfl
      | ok next =>
          obtain ⟨_, rfl⟩ := propose_ok proposed
          exact .stays rfl rfl
  | requestVote request =>
      simp only [RaftNode.call]
      rcases node.handleRequestVote_cases request with
        ⟨_, handled⟩ | ⟨_, handled⟩ | ⟨_, _, _, handled⟩ <;> rw [handled]
      · exact .stays rfl rfl
      · exact of_quiet (Quiet.adoptTerm node request.term)
      · simp only [RaftNode.adoptTerm]
        split
        · next higher => exact .ends rfl higher
        · exact .stays rfl rfl
  | requestVoteResponse peerID response => exact handleRequestVoteResponse node peerID response
  | appendEntries request => exact of_quiet (Quiet.handleAppendEntries node request)
  | appendEntriesResponse peerID response =>
      exact of_quiet (Quiet.handleAppendEntriesResponse node peerID response)

end Candidacy

def after (node : RaftNode C) (call : NodeCall C) : RaftNode C := (node.call call).1

end RaftNode

open RaftNode

/-- No candidate of a run has a majority, and a candidate whose votes of the term become one
is leader after that call.
-/
structure QuorumLeads (nodeID : GoString) (peers : GoMap GoString GoString)
    (calls : List (NodeCall C))
    : Prop where
  candidate
    : ∀ node ∈ calls.scanl RaftNode.after (newRaftNode nodeID peers),
        node.state = .candidate → ¬node.HasQuorum
  turns
    : AllSteps RaftNode.after
        (fun node call =>
          node.state = .candidate
          → (node.after call).currentTerm = node.currentTerm
          → (node.after call).HasQuorum
          → (node.after call).state = .leader)
        (newRaftNode nodeID peers) calls

/-- A member of a group whose candidates have no majority. -/
structure Contends (peers : GoMap GoString GoString) (node : RaftNode C) : Prop where
  peers : node.peers = peers
  lacks : node.state = .candidate → ¬node.HasQuorum

section

variable {peers : GoMap GoString GoString} {node : RaftNode C}

theorem HasQuorum.congr {other : RaftNode C} (votes : other.votes = node.votes)
    (same : other.peers = node.peers)
    : other.HasQuorum ↔ node.HasQuorum := by
  rw [HasQuorum, HasQuorum, votes, same]

/-- In a group of two or more a single vote is no majority. -/
theorem Contends.after (large : 2 ≤ peers.keys.length) (h : Contends peers node)
    (call : NodeCall C)
    : Contends peers (node.after call) := by
  have same := (Successor.call node call).peers
  refine ⟨same.trans h.peers, fun standing quorum => ?_⟩
  cases Candidacy.call node call with
  | ends state _ => exact absurd (standing.symm.trans state) (by decide)
  | stays state votes =>
      exact h.lacks (state.symm.trans standing) ((HasQuorum.congr votes same).mp quorum)
  | stands _ _ votes _ =>
      have card : (node.after call).votes.card = 1 := by
        rw [show (node.after call).votes = {node.nodeID} from votes, Finset.card_singleton]
      have size : (node.after call).peers.keys.length = peers.keys.length := by
        rw [show (node.after call).peers = node.peers from same, h.peers]
      rw [HasQuorum, card, size] at quorum
      omega
  | counts _ _ lacks => exact lacks quorum
  | wins _ state => exact absurd (standing.symm.trans state) (by decide)

/-- Votes of one term that become a majority make the candidate leader. -/
theorem Contends.turns {call : NodeCall C} (h : Contends peers (node.after call))
    (standing : node.state = .candidate)
    (term : (node.after call).currentTerm = node.currentTerm)
    (quorum : (node.after call).HasQuorum)
    : (node.after call).state = .leader := by
  cases Candidacy.call node call with
  | ends _ later => exact absurd term later.ne'
  | stays state _ => exact absurd quorum (h.lacks (state.trans standing))
  | stands _ _ _ later => exact absurd term later.ne'
  | counts _ _ lacks => exact absurd quorum lacks
  | wins _ state => exact state

/-- Without an election a follower stays one. -/
theorem after_follower {call : NodeCall C} (other : call ≠ .startElection)
    (follows : node.state = .follower)
    : (node.after call).state = .follower := by
  cases Candidacy.call node call with
  | ends state _ => exact state
  | stays state _ => exact state.trans follows
  | stands starting _ _ _ => exact absurd starting other
  | counts standing _ _ => exact absurd (follows.symm.trans standing) (by decide)
  | wins standing _ => exact absurd (follows.symm.trans standing) (by decide)

end

/-- Over any calls on a node, a majority makes a candidate leader exactly if its group has two
peers or more, or it never starts an election.
-/
theorem quorumLeads_iff (nodeID : GoString) (peers : GoMap GoString GoString)
    (calls : List (NodeCall C))
    : QuorumLeads nodeID peers calls
      ↔ 2 ≤ peers.keys.length ∨ NodeCall.startElection ∉ calls := by
  have free : AllSteps RaftNode.after (fun _ _ => True) (newRaftNode nodeID peers : RaftNode C)
      calls := AllSteps.of_forall (fun _ _ => trivial) _ calls
  constructor
  · intro leads
    by_contra fails
    obtain ⟨small, starts⟩ := not_or.mp fails
    obtain ⟨node, visited, next⟩ := exists_visited_of_mem RaftNode.after
      (newRaftNode nodeID peers : RaftNode C) (not_not.mp starts)
    have keep (state : RaftNode C) (call : NodeCall C) (_ : True) (same : state.peers = peers)
        : (state.after call).peers = peers := (Successor.call state call).peers.trans same
    have member : node.peers = peers := free.always keep rfl node visited
    refine leads.candidate _ next rfl ?_
    show ({node.nodeID} : Finset GoString).card > node.peers.keys.length / 2
    rw [Finset.card_singleton, member]
    omega
  · rintro (large | quiet)
    · have start : Contends peers (newRaftNode nodeID peers : RaftNode C) :=
        ⟨rfl, fun standing => RaftState.noConfusion standing⟩
      have keep (state : RaftNode C) (call : NodeCall C) (_ : True) (h : Contends peers state)
          : Contends peers (state.after call) := h.after large call
      refine ⟨fun node visited => (free.always keep start node visited).lacks, ?_⟩
      exact free.gives keep
        (fun state call _ h standing term quorum => (h.after large call).turns standing term quorum)
        start
    · have others : ∀ call ∈ calls, call ≠ NodeCall.startElection := by
        rintro call taken rfl
        exact quiet taken
      have steps := free.and others
      have keep (state : RaftNode C) (call : NodeCall C)
          (other : True ∧ call ≠ .startElection) (follows : state.state = .follower)
          : (state.after call).state = .follower := after_follower other.2 follows
      have idle {state : RaftNode C} (follows : state.state = .follower)
          : state.state ≠ .candidate := by
        rw [follows]
        decide
      refine ⟨fun node visited standing => ?_, ?_⟩
      · exact absurd standing (idle (steps.always keep rfl node visited))
      · exact steps.gives keep (fun _ _ _ follows standing => absurd standing (idle follows)) rfl

/-- The leader of a topic without followers stands for election and stays candidate, though
its own vote passes the majority test.
-/
theorem not_quorumLeads_alone
    : ¬QuorumLeads [1] (RaftManager.rolePeers .leader [] []) [(.startElection : NodeCall Nat)] := by
  intro leads
  exact leads.candidate (newRaftNode [1] (RaftManager.rolePeers .leader [] [])).startElection
    (by simp [RaftNode.after, RaftNode.call]) rfl (by decide)

end Goulette.Raft
