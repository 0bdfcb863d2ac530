import Goulette.Raft.Checked

/-! Runs of a Raft node in word arithmetic: no call has a fault before calls and delivered entries
together number `2 ^ 64`.
-/

namespace Goulette.Raft

open Goulette.Go List Function

variable {C : Type} {node : RaftNode C}

/-- The calls with the entries that the requests among them deliver. -/
def NodeCall.work : NodeCall C → Nat
  | .appendEntries request => request.entries.length + 1
  | _ => 1

namespace RaftNode

/-- How far the counters of a node can have come after some work. A log is never empty, and
peers that requests are sent to have a position to continue at.
-/
structure InRange (work : Nat) (node : RaftNode C) : Prop where
  positive : 0 < node.log.length
  length : node.log.length ≤ max 1 work
  commitIndex : node.commitIndex < max 1 work
  caughtUp : node.CaughtUp
  nextIndex : ∀ peerID, node.nextIndex peerID ≤ max 1 work
  started : ∀ peerID ∈ node.peerIDs, 1 ≤ node.nextIndex peerID
  worked : node.state ≠ .follower → 1 ≤ work

namespace InRange

open Checked

variable {work extra : Nat} {node next : RaftNode C}

theorem new (nodeID : GoString) (peers : GoMap GoString GoString)
    : InRange 0 (newRaftNode nodeID peers : RaftNode C) where
  positive := Nat.one_pos
  length := le_rfl
  commitIndex := Nat.one_pos
  caughtUp := le_rfl
  nextIndex := by
    intro peerID
    simp only [newRaftNode]
    split <;> simp
  started := by
    intro peerID addressed
    obtain ⟨known, other⟩ := mem_filter.mp addressed
    simp only [newRaftNode]
    rw [if_pos ⟨AList.mem_keys.mpr known, of_decide_eq_true other⟩]
  worked := by
    intro other
    exact absurd rfl other

variable (h : InRange work node)
include h

theorem sized (small : work < 2 ^ 64) : Sized node.log :=
  ⟨h.positive, by have := h.length; omega⟩

/-- More work leaves the bounds where they are. -/
theorem more (more : 1 ≤ extra) : InRange (work + extra) node where
  positive := h.positive
  length := h.length.trans (by omega)
  commitIndex := lt_of_lt_of_le h.commitIndex (by omega)
  caughtUp := h.caughtUp
  nextIndex := fun peerID => (h.nextIndex peerID).trans (by omega)
  started := h.started
  worked := fun _ => by omega

theorem adoptTerm (term : Nat) (more : 1 ≤ extra)
    : InRange (work + extra) (node.adoptTerm term) := by
  unfold RaftNode.adoptTerm
  split <;> exact { h.more more with worked := fun _ => by omega }

theorem observeLeader (request : AppendEntriesRequest C) (more : 1 ≤ extra)
    : InRange (work + extra) (node.observeLeader request) := by
  unfold RaftNode.observeLeader
  split <;> exact { h.more more with worked := fun _ => by omega }

theorem handleRequestVote (request : RequestVoteRequest)
    : InRange (work + 1) (node.handleRequestVote request).1 := by
  have adopted : InRange (work + 1) (node.adoptTerm request.term) := h.adoptTerm _ le_rfl
  rcases node.handleRequestVote_cases request with
    ⟨_, handled⟩ | ⟨_, handled⟩ | ⟨_, _, _, handled⟩ <;> rw [handled]
  · exact { h.more le_rfl with }
  · exact adopted
  · exact { adopted with }

/-- A new leader continues every peer at the end of its log. -/
theorem becomeLeader : InRange (work + 1) node.becomeLeader where
  positive := h.positive
  length := h.length.trans (by omega)
  commitIndex := lt_of_lt_of_le h.commitIndex (by omega)
  caughtUp := h.caughtUp
  nextIndex := by
    intro peerID
    have positive := h.positive
    have length := h.length
    have before := h.nextIndex peerID
    simp only [RaftNode.becomeLeader, RaftNode.getLastLogIndex]
    split <;> omega
  started := by
    intro peerID addressed
    have before := h.started peerID addressed
    simp only [RaftNode.becomeLeader]
    split <;> omega
  worked := fun _ => by omega

theorem handleRequestVoteResponse (peerID : GoString) (response : RequestVoteResponse)
    : InRange (work + 1) (node.handleRequestVoteResponse peerID response).1 := by
  rcases node.handleRequestVoteResponse_cases peerID response with
    ⟨_, handled⟩ | handled | ⟨_, _, _, _, handled⟩ | ⟨_, _, _, _, handled⟩ <;> rw [handled]
  · exact { h.more le_rfl with worked := fun _ => by omega }
  · exact { h.more le_rfl with }
  · exact { h.more le_rfl with }
  · have counted : InRange work { node with votes := insert peerID node.votes } := { h with }
    exact counted.becomeLeader

theorem propose {command : C} (proposed : node.propose command = .ok next)
    : InRange (work + 1) next := by
  obtain ⟨leader, rfl⟩ := propose_ok proposed
  have worked := h.worked (by rw [leader]; decide)
  have kept : InRange (work + 1) node := h.more le_rfl
  have length := h.length
  exact { kept with
    positive := by simp
    length := by
      simp only [length_append, length_singleton]
      omega }

/-- Committing up to the last entry keeps the bounds. -/
theorem updateCommit (leaderCommit : Nat)
    : InRange work (node.updateCommit leaderCommit).1 := by
  unfold RaftNode.updateCommit
  split
  · have positive := h.positive
    have length := h.length
    have applied := CaughtUp.applyLogs { node with
      commitIndex := min leaderCommit node.getLastLogIndex }
    have last : node.getLastLogIndex < max 1 work := by
      unfold RaftNode.getLastLogIndex
      omega
    rw [applyLogs_fst] at applied ⊢
    exact { h with
      caughtUp := applied
      commitIndex := lt_of_le_of_lt (Nat.min_le_right _ _) last }
  · exact h

theorem handleAppendEntries (request : AppendEntriesRequest C)
    : InRange (work + (request.entries.length + 1)) (node.handleAppendEntries request).1 := by
  have observed : InRange (work + (request.entries.length + 1)) (node.observeLeader request) :=
    h.observeLeader request (by omega)
  rcases node.handleAppendEntries_cases request with
    ⟨_, handled⟩ | ⟨_, handled⟩ | ⟨_, check, handled⟩ <;> rw [handled]
  · exact h.more (by omega)
  · exact observed
  · rw [node.observeLeader_matchesPrev request] at check
    obtain ⟨least, most⟩ := accepted_length h.positive check
    have length := h.length
    have appended : InRange (work + (request.entries.length + 1)) (node.appended request) :=
      { observed with
        positive := least
        length := most.trans (by omega) }
    exact appended.updateCommit _

/-- A peer can be moved to any position but zero that the calls so far account for. -/
theorem moveNext {position : Nat} (started : 1 ≤ position)
    (bound : position ≤ max 1 (work + 1)) (peerID : GoString)
    : InRange (work + 1)
        { node with nextIndex := update node.nextIndex peerID position } := by
  have kept : InRange (work + 1) node := h.more le_rfl
  exact { kept with
    nextIndex := by
      intro other
      by_cases same : other = peerID
      · subst same
        simpa only [update_self] using bound
      · simp only [update_of_ne same]
        exact kept.nextIndex other
    started := by
      intro other addressed
      by_cases same : other = peerID
      · subst same
        simpa only [update_self] using started
      · simp only [update_of_ne same]
        exact kept.started other addressed }

/-- A counted success moves one peer on by one position, which is the work of one call. -/
theorem countSuccess (leads : node.state = .leader) (peerID : GoString)
    : InRange (work + 1) (node.countSuccess peerID) := by
  have worked := h.worked (by rw [leads]; decide)
  have bound := h.nextIndex peerID
  exact { h.moveNext (Nat.le_add_left 1 _) (by omega) peerID with }

theorem tryCommitLogs : InRange work node.tryCommitLogs.1 := by
  obtain ⟨last, reached, origin⟩ := node.tryCommitLogs_eq
  have bound : last < max 1 work := by
    rcases origin with rfl | ⟨_, inside, _⟩
    · exact h.commitIndex
    · have positive := h.positive
      have length := h.length
      unfold RaftNode.getLastLogIndex at inside
      omega
  have applied := CaughtUp.applyLogs { node with commitIndex := last }
  rw [applyLogs_fst] at applied
  rw [reached, applyLogs_fst]
  exact { h with caughtUp := applied, commitIndex := bound }

/-- A refused request moves the peer back, but not to position zero. -/
theorem lowerNext {peerID : GoString} (above : 1 < node.nextIndex peerID)
    : InRange (work + 1)
        { node with
          nextIndex := update node.nextIndex peerID (node.nextIndex peerID - 1) } := by
  have bound := h.nextIndex peerID
  exact h.moveNext (by omega) (by omega) peerID

theorem handleAppendEntriesResponse (peerID : GoString) (response : AppendEntriesResponse)
    : InRange (work + 1) (node.handleAppendEntriesResponse peerID response).1 := by
  rcases node.handleAppendEntriesResponse_cases peerID response with
    ⟨_, handled⟩ | handled | ⟨leads, _, _, handled⟩ | ⟨above, handled⟩ <;> rw [handled]
  · exact { h.more le_rfl with worked := fun _ => by omega }
  · exact { h.more le_rfl with }
  · exact (h.countSuccess leads peerID).tryCommitLogs
  · exact h.lowerNext above

end InRange

namespace Checked

def call (node : RaftNode C) : NodeCall C → Except Fault (RaftNode C)
  | .startElection => .ok (startElection node)
  | .propose command => propose node command
  | .requestVote request => do return (← handleRequestVote node request).1
  | .requestVoteResponse peerID response => do
      return (← handleRequestVoteResponse node peerID response).1
  | .appendEntries request => do return (← handleAppendEntries node request).1
  | .appendEntriesResponse peerID response => do
      return (← handleAppendEntriesResponse node peerID response).1

/-- As long as the term does not wrap, a call has no fault and does what it does on naturals. -/
theorem call_eq {work : Nat} (h : node.InRange work) (call : NodeCall C)
    (small : work + call.work < 2 ^ 64)
    (term : call = .startElection → node.currentTerm + 1 < 2 ^ 64)
    : Checked.call node call = .ok (node.call call).1 := by
  have sized : Sized node.log := h.sized (by omega)
  cases call with
  | startElection =>
      simp only [Checked.call, startElection, addWord_eq (term rfl)]
      rfl
  | propose command => exact propose_eq sized command
  | requestVote request =>
      simp only [Checked.call, handleRequestVote_eq sized, ok_bind]
      rfl
  | requestVoteResponse peerID response =>
      simp only [Checked.call, handleRequestVoteResponse_eq sized, ok_bind]
      rfl
  | appendEntries request =>
      have length := h.length
      simp only [NodeCall.work] at small
      simp only [Checked.call, handleAppendEntries_eq sized request (by omega), ok_bind]
      rfl
  | appendEntriesResponse peerID response =>
      have commitIndex := h.commitIndex
      have nextIndex := h.nextIndex peerID
      simp only [NodeCall.work] at small
      have handled := handleAppendEntriesResponse_eq sized (by omega) h.caughtUp peerID
        (by
          intro leads
          have worked := h.worked (by rw [leads]; decide)
          omega)
        response
      simp only [Checked.call, handled, ok_bind]
      rfl

end Checked

theorem InRange.call {work : Nat} (h : node.InRange work) (call : NodeCall C)
    : InRange (work + call.work) (node.call call).1 := by
  cases call with
  | startElection => exact { h.more le_rfl with worked := fun _ => Nat.le_add_left 1 _ }
  | propose command =>
      simp only [RaftNode.call]
      cases proposed : node.propose command with
      | error failure => exact { h.more le_rfl with }
      | ok next => exact h.propose proposed
  | requestVote request => exact h.handleRequestVote request
  | requestVoteResponse peerID response => exact h.handleRequestVoteResponse peerID response
  | appendEntries request => exact h.handleAppendEntries request
  | appendEntriesResponse peerID response => exact h.handleAppendEntriesResponse peerID response

/-- A call in range has no fault, also where the term wraps. -/
theorem InRange.call_ok {work : Nat} (h : node.InRange work) (call : NodeCall C)
    (small : work + call.work < 2 ^ 64)
    : ∃ next,
        Checked.call node call = .ok next
        ∧ next.InRange (work + call.work)
        ∧ next.nodeID = node.nodeID
        ∧ next.peers = node.peers := by
  by_cases stands : call = .startElection
  · subst stands
    exact ⟨_, rfl, { h.more le_rfl with worked := fun _ => Nat.le_add_left 1 _ }, rfl, rfl⟩
  · have same := Successor.call node call
    exact ⟨_, Checked.call_eq h call small (fun other => absurd other stands), h.call call,
      same.nodeID, same.peers⟩

end RaftNode

inductive Activity (C : Type)
  | call (call : NodeCall C)
  | requestVote
  | sendHeartbeat
  | sendAppendEntries (peerID : GoString) (isHeartbeat : Bool)

namespace Activity

def work : Activity C → Nat
  | .call made => made.work
  | _ => 1

def Addressed (nodeID : GoString) (peers : GoMap GoString GoString) : Activity C → Prop
  | .sendAppendEntries peerID _ => peerID ∈ peers ∧ peerID ≠ nodeID
  | _ => True

instance (nodeID : GoString) (peers : GoMap GoString GoString)
    : DecidablePred (Addressed nodeID peers : Activity C → Prop) := fun value => by
  unfold Addressed
  split <;> infer_instance

end Activity

namespace RaftNode.Checked

def step (node : RaftNode C) : Activity C → Except Fault (RaftNode C)
  | .call made => Checked.call node made
  | .requestVote => do
      let _ ← requestVote node
      return node
  | .sendHeartbeat => do
      let _ ← sendHeartbeat node
      return node
  | .sendAppendEntries peerID isHeartbeat => do
      let _ ← sendAppendEntries node peerID isHeartbeat
      return node

def run (nodeID : GoString) (peers : GoMap GoString GoString) (activities : List (Activity C))
    : Except Fault (RaftNode C) :=
  activities.foldlM step (newRaftNode nodeID peers)

theorem sendHeartbeat_eq {work : Nat} (h : node.InRange work) (small : work < 2 ^ 64)
    : sendHeartbeat node
      = .ok (node.peerIDs.map (fun peerID => node.sendAppendEntries peerID true)) := by
  have started := h.started
  unfold sendHeartbeat
  generalize node.peerIDs = peerIDs at started
  induction peerIDs with
  | nil => rfl
  | cons first rest ih =>
      have sent := sendAppendEntries_eq (h.sized small).small (started first mem_cons_self)
        true
      rw [mapM_cons, sent, ok_bind,
        ih (fun peerID member => started peerID (mem_cons_of_mem _ member))]
      rfl

theorem step_ok {work : Nat} (h : node.InRange work) {activity : Activity C}
    (small : work + activity.work < 2 ^ 64) (addressed : activity.Addressed node.nodeID node.peers)
    : ∃ next,
        step node activity = .ok next
        ∧ next.InRange (work + activity.work)
        ∧ next.nodeID = node.nodeID
        ∧ next.peers = node.peers := by
  have idle : node.InRange (work + 1) := { h.more le_rfl with }
  have sized : Sized node.log := h.sized (by omega)
  cases activity with
  | call call => exact h.call_ok call small
  | requestVote =>
      refine ⟨node, ?_, idle, rfl, rfl⟩
      rw [step, requestVote_eq sized]
      rfl
  | sendHeartbeat =>
      refine ⟨node, ?_, idle, rfl, rfl⟩
      rw [step, sendHeartbeat_eq h (by omega)]
      rfl
  | sendAppendEntries peerID isHeartbeat =>
      refine ⟨node, ?_, idle, rfl, rfl⟩
      have member : peerID ∈ node.peerIDs :=
        mem_filter.mpr ⟨AList.mem_keys.mp addressed.1, decide_eq_true addressed.2⟩
      rw [step, sendAppendEntries_eq sized.small (h.started peerID member)]
      rfl

/-- Activities in a row have no fault, by induction on them with the work done so far. -/
theorem steps_ok {work : Nat} (h : node.InRange work) {activities : List (Activity C)}
    (small : work + (activities.map Activity.work).sum < 2 ^ 64)
    (addressed : ∀ activity ∈ activities, activity.Addressed node.nodeID node.peers)
    : ∃ last,
        activities.foldlM step node = .ok last
        ∧ last.InRange (work + (activities.map Activity.work).sum) := by
  induction activities generalizing node work with
  | nil => exact ⟨node, rfl, h⟩
  | cons activity rest ih =>
      rw [map_cons, sum_cons] at small ⊢
      obtain ⟨next, stepped, reached, nodeID, peers⟩ :=
        step_ok h (by omega) (addressed activity mem_cons_self)
      have later : ∀ other ∈ rest, other.Addressed next.nodeID next.peers := by
        intro other member
        rw [nodeID, peers]
        exact addressed other (mem_cons_of_mem _ member)
      obtain ⟨last, final, bound⟩ := ih reached (by omega) later
      refine ⟨last, ?_, by rwa [← Nat.add_assoc]⟩
      rw [foldlM_cons, stepped]
      exact final

end RaftNode.Checked

open RaftNode

/-- Whatever the requests and responses hold, no activity has a fault while the activities and
the entries they deliver together number less than `2 ^ 64`. After each of them the log holds
an entry and everything committed is applied.
-/
theorem run_faultless (nodeID : GoString) (peers : GoMap GoString GoString)
    (activities : List (Activity C))
    (small : (activities.map Activity.work).sum < 2 ^ 64)
    (addressed : ∀ activity ∈ activities, activity.Addressed nodeID peers)
    {past : List (Activity C)} (earlier : past <+: activities)
    : ∃ node,
        Checked.run nodeID peers past = .ok node
        ∧ node.log ≠ []
        ∧ node.commitIndex ≤ node.lastApplied := by
  obtain ⟨rest, rfl⟩ := earlier
  rw [map_append, sum_append] at small
  obtain ⟨node, reached, bounds⟩ := Checked.steps_ok (InRange.new nodeID peers)
    (by omega : 0 + (past.map Activity.work).sum < 2 ^ 64)
    (fun activity member => addressed activity (mem_append_left _ member))
  exact ⟨node, reached, ne_nil_of_length_pos bounds.positive, bounds.caughtUp⟩

def electedRun : List (Activity Nat) :=
  acknowledgedLog.map Activity.call
    ++ [.requestVote, .sendHeartbeat, .sendAppendEntries [2] false]

theorem run_faultless_electedRun
    : (electedRun.map Activity.work).sum = 8
      ∧ ∃ node,
          Checked.run [1] pair electedRun = .ok node
          ∧ node.log ≠ []
          ∧ node.commitIndex ≤ node.lastApplied :=
  ⟨by decide,
    run_faultless [1] pair electedRun (by decide) (by decide) prefix_rfl⟩

def tenEntries : AppendEntriesRequest Nat :=
  { term := 0, leaderID := [], prevLogIndex := 0, prevLogTerm := 0,
    entries := List.replicate 10 initialEntry, leaderCommit := 0 }

def leaderOfTen : List (Activity Nat) :=
  [
    .call (.appendEntries tenEntries),
    .call .startElection,
    .call (.requestVoteResponse [2] { term := 1, voteGranted := true })
  ]

def peerSuccess : Activity Nat :=
  .call (.appendEntriesResponse [2] { term := 1, success := true })

structure Counting (nextIndex : Nat) (node : RaftNode Nat) : Prop where
  state : node.state = .leader
  term : node.currentTerm = 1
  log : node.log = List.replicate 10 initialEntry
  commitIndex : node.commitIndex = 0
  lastApplied : node.lastApplied = 0
  nextIndex : node.nextIndex [2] = nextIndex

theorem counting_leaderOfTen
    : ∃ node, Checked.run [1] pair leaderOfTen = .ok node ∧ Counting 10 node :=
  ⟨_, rfl, by decide, by decide, by decide, by decide, by decide, by decide⟩

/-- A counted success commits nothing: no entry is of the leader's term. -/
theorem Counting.counted {nextIndex : Nat} {node : RaftNode Nat} (h : Counting nextIndex node)
    (small : nextIndex + 1 < 2 ^ 64)
    : ∃ next, Checked.step node peerSuccess = .ok next ∧ Counting (nextIndex + 1) next := by
  have sized : Checked.Sized node.log := by
    rw [h.log]
    exact ⟨by decide, by decide⟩
  have handled := Checked.handleAppendEntriesResponse_eq sized
    (by rw [h.commitIndex]; decide)
    (by rw [CaughtUp, h.commitIndex, h.lastApplied])
    [2] (by rw [h.nextIndex]; exact fun _ => small) { term := 1, success := true }
  have counts
      : node.handleAppendEntriesResponse [2] { term := 1, success := true }
        = (node.countSuccess [2]).tryCommitLogs := by
    simp [handleAppendEntriesResponse, h.state, h.term]
  obtain ⟨last, reached, origin⟩ := (node.countSuccess [2]).tryCommitLogs_eq
  have idle : last = 0 := by
    rcases origin with same | ⟨_, _, commits⟩
    · exact same.trans h.commitIndex
    · exfalso
      have term : (node.countSuccess [2]).currentTerm = 1 := h.term
      have log : (node.countSuccess [2]).log = List.replicate 10 initialEntry := h.log
      obtain ⟨own, _⟩ := Bool.and_eq_true_iff.mp commits
      obtain ⟨entry, found, same⟩ := Option.map_eq_some_iff.mp (eq_of_beq own)
      rw [log] at found
      rw [term, eq_of_mem_replicate (mem_of_getElem? found)] at same
      cases same
  refine ⟨(node.countSuccess [2]).tryCommitLogs.1, ?_, ?_⟩
  · simp only [peerSuccess, Checked.step, Checked.call, handled, counts, ok_bind]
    rfl
  · rw [reached, applyLogs_fst, idle]
    exact {
      state := h.state
      term := h.term
      log := h.log
      commitIndex := rfl
      lastApplied := by simp [countSuccess, h.lastApplied]
      nextIndex := by simp [countSuccess, h.nextIndex]
    }

/-- The counter runs up to the largest word and then wraps. -/
theorem Counting.wraps {nextIndex count : Nat} {node : RaftNode Nat} (h : Counting nextIndex node)
    (total : nextIndex + count = 2 ^ 64)
    (below : nextIndex < 2 ^ 64)
    : (List.replicate count peerSuccess).foldlM Checked.step node = .error .wrap := by
  induction count generalizing nextIndex node with
  | zero => omega
  | succ count ih =>
      rw [replicate_succ, foldlM_cons]
      by_cases small : nextIndex + 1 < 2 ^ 64
      · obtain ⟨next, stepped, counted⟩ := h.counted small
        rw [stepped]
        exact ih counted (by omega) small
      · have largest : addWord (node.nextIndex [2]) 1 = 0 := by
          rw [h.nextIndex, addWord]
          omega
        have fault : Checked.step node peerSuccess = .error .wrap := by
          simp [peerSuccess, Checked.step, Checked.call, Checked.handleAppendEntriesResponse,
            h.state, h.term, largest, subWord]
          rfl
        rw [fault]
        rfl

/-- Seven calls less than `2 ^ 64` are enough to wrap a counter, because one of them delivers
ten entries.
-/
theorem fault_of_tenEntries
    : ¬∀ activities : List (Activity Nat),
        activities.length < 2 ^ 64
        → (∀ activity ∈ activities, activity.Addressed [1] pair)
        → ∃ node, Checked.run [1] pair activities = .ok node := by
  intro faultless
  obtain ⟨leader, elected, counting⟩ := counting_leaderOfTen
  obtain ⟨node, reached⟩ := faultless (leaderOfTen ++ List.replicate (2 ^ 64 - 10) peerSuccess)
    (by
      rw [length_append, length_replicate]
      simp [leaderOfTen])
    (by
      intro activity member
      rcases mem_append.mp member with early | late
      · have all : ∀ activity ∈ leaderOfTen, activity.Addressed [1] pair := by decide
        exact all activity early
      · rw [eq_of_mem_replicate late]
        trivial)
  rw [Checked.run, foldlM_append] at reached
  rw [Checked.run] at elected
  rw [elected, ok_bind, counting.wraps (by omega) (by omega)] at reached
  cases reached

/-- A node has no next index for itself, so a send to itself wraps one. -/
theorem fault_of_selfSend (nodeID : GoString) (peers : GoMap GoString GoString)
    (isHeartbeat : Bool)
    : Checked.run nodeID peers [(.sendAppendEntries nodeID isHeartbeat : Activity C)]
      = .error .wrap := by
  have unset : (newRaftNode nodeID peers : RaftNode C).nextIndex nodeID = 0 := by
    simp [newRaftNode]
  have below : subWord 0 1 = .error .wrap := rfl
  simp only [Checked.run, foldlM_cons, Checked.step, Checked.sendAppendEntries, unset, below]
  split
  · rfl
  · rfl

end Goulette.Raft
