import Goulette.Raft.StateMachineSafety

/-! What nodes know about the leader of their term, and what a term cannot take back. A candidate
may still name the leader of an earlier term, since `startElection` leaves `leaderID` alone.
-/

namespace Goulette.Raft

open Goulette.Go Replication Runs

variable {C : Type} {membership : Membership} {cluster : Cluster C}
  {history next : History GoString (LogEntry C)} {node old : RaftNode C} {id dst : GoString}

def RaftNode.getLeaderID (node : RaftNode C) : GoString := node.leaderID

/-- A follower that names nobody, or a node that names the winner of its term. -/
def RaftNode.KnowsLeader (history : History GoString (LogEntry C)) (node : RaftNode C) : Prop :=
  node.state ≠ .candidate
  → (node.leaderID = [] ∧ node.state = .follower)
    ∨ history.leader node.currentTerm = some node.leaderID

/-- Requests name their sender as the leader. -/
structure LeadersKnown (membership : Membership) (cluster : Cluster C)
    (history : History GoString (LogEntry C))
    : Prop where
  node : ∀ id ∈ membership.members, (cluster.nodes id).KnowsLeader history
  packet
    : ∀ packet ∈ cluster.network, ∀ request,
        packet.message = .appendEntries request → request.leaderID = packet.src

/-- A change that names no new leader: the node stands, steps down, or names whom it did. -/
def RaftNode.NamesNone (old new : RaftNode C) : Prop :=
  new.state = .candidate
  ∨ (new.leaderID = [] ∧ new.state = .follower)
  ∨ (new.currentTerm = old.currentTerm ∧ new.state = old.state ∧ new.leaderID = old.leaderID)

theorem RaftNode.NamesNone.refl (node : RaftNode C) : node.NamesNone node :=
  Or.inr (Or.inr ⟨rfl, rfl, rfl⟩)

theorem RaftNode.KnowsLeader.keep (h : old.KnowsLeader history) (later : history.Extends next)
    (kept : old.NamesNone node)
    : node.KnowsLeader next := by
  intro settled
  rcases kept with stands | nobody | ⟨term, state, leaderID⟩
  · exact absurd stands settled
  · exact Or.inl nobody
  · rw [term, leaderID]
    exact (h (state ▸ settled)).imp (And.imp_right state.trans) later.leader

theorem Unmoved.namesNone (unmoved : Unmoved old node) : old.NamesNone node := by
  cases unmoved with
  | stays nextIndex => exact Or.inr (Or.inr ⟨rfl, rfl, rfl⟩)
  | stepsDown higher => exact Or.inr (Or.inl ⟨rfl, rfl⟩)

theorem LeadersKnown.act {applied : List (Option C)} {sent : List (Packet C)}
    (h : LeadersKnown membership cluster history) (later : history.Extends next)
    (self : node.KnowsLeader next)
    (packets
      : ∀ packet ∈ sent, ∀ request,
          packet.message = .appendEntries request → request.leaderID = packet.src)
    : LeadersKnown membership (cluster.act id node applied sent) next := by
  refine ⟨?_, List.forall_mem_append.mpr ⟨h.packet, packets⟩⟩
  exact cluster.forall_act (fun _ node _ => node.KnowsLeader next) self
    (fun other member _ => (h.node other member).keep later (.refl _))

theorem entries_name_sender (nodeID : node.nodeID = id) (isHeartbeat : Bool)
    : ∀ packet ∈ Cluster.broadcastEntries node id isHeartbeat, ∀ request,
        packet.message = .appendEntries request → request.leaderID = packet.src := by
  refine Cluster.forall_broadcast (fun peerID request message => ?_)
  cases message
  exact nodeID

/-- A node that hears from a leader names the winner of the term that it is then in. -/
theorem LeadersKnown.hears {src : GoString} {request : AppendEntriesRequest C}
    (h : LeadersKnown membership cluster history) (logs : Logs membership cluster history)
    (received : ⟨src, dst, .appendEntries request⟩ ∈ cluster.network)
    (current : (cluster.nodes dst).currentTerm ≤ request.term)
    (term : node.currentTerm = ((cluster.nodes dst).observeLeader request).currentTerm)
    (leaderID : node.leaderID = ((cluster.nodes dst).observeLeader request).leaderID)
    (later : history.Extends next)
    : node.KnowsLeader next := by
  have named : ((cluster.nodes dst).observeLeader request).leaderID = request.leaderID := by
    unfold RaftNode.observeLeader
    split <;> rfl
  intro _
  rw [term, leaderID, named, RaftNode.observeLeader_term current,
    h.packet _ received request rfl]
  exact Or.inr (later.leader (logs.packet _ received).2.1)

/-- The invariants of a cluster with its history, and one that needs them. -/
structure Recorded (membership : Membership)
    (holds : Cluster C → History GoString (LogEntry C) → Prop) (cluster : Cluster C)
    (history : History GoString (LogEntry C))
    : Prop where
  elections : Elections membership cluster history
  logs : Logs membership cluster history
  holds : holds cluster history

theorem Recorded.winner (h : Recorded membership (LeadersKnown membership) cluster history)
    (member : id ∈ membership.members)
    (settled : (cluster.nodes id).state ≠ .candidate)
    (names : (cluster.nodes id).getLeaderID ≠ [])
    : history.leader (cluster.nodes id).currentTerm = some (cluster.nodes id).getLeaderID :=
  (h.holds.node id member settled).resolve_left (fun nobody => names nobody.1)

variable [DecidableEq C]

section

variable (elections : Elections membership cluster history)
  (logs : Logs membership cluster history)
include elections logs

/-- A step forgets nothing that was recorded. -/
theorem record_extends (action : Action C)
    : history.Extends (cluster.record membership history action) := by
  have same := (SameLogs.refl history).extends
  have step := cluster.step_cases membership history action
  generalize cluster.step membership action = reached,
    cluster.record membership history action = later at step ⊢
  cases step with
  | disabled | sendHeartbeat => exact same
  | startElection member =>
      exact (SameLogs.recordVote ((elections.node _ member).future _ (Nat.lt_succ_self _)).1
        _ _).extends
  | propose member leads shape =>
      exact (logs.proposed elections member leads shape rfl).2.2.1.trans
        (SameLogs.recordAck ..).extends
  | @deliver src dst message next later received member handled =>
      cases handled with
      | grantVote current first newer =>
          -- only the first vote of a term is recorded, so that no record is replaced
          exact (SameLogs.recordVote ((elections.node dst member).unvoted current first)
            _ _).extends
      | winElection standing term granted majority shape =>
          obtain ⟨elected, unwon⟩ :=
            elections.wins member received standing term granted majority
          have closed := not_opened unwon elected.2.1
          have log := logs.node dst member
          exact (logs.written.legal.recordLeader dst closed log.matched
            (log.earlier closed)).1.trans (SameLogs.recordAck ..).extends
      | acceptEntries current check => exact (SameLogs.recordAck ..).extends
      | _ => exact same

theorem LeadersKnown.step (h : LeadersKnown membership cluster history) (action : Action C)
    : LeadersKnown membership (cluster.step membership action)
        (cluster.record membership history action) := by
  have later := record_extends elections logs action
  have step := cluster.step_cases membership history action
  generalize cluster.step membership action = reached,
    cluster.record membership history action = recorded at step later ⊢
  cases step with
  | disabled => exact h
  | startElection member =>
      exact h.act later (fun settled => absurd rfl settled)
        (Cluster.forall_broadcast (by simp))
  | sendHeartbeat member leads =>
      exact h.act later ((h.node _ member).keep later (.refl _))
        (entries_name_sender (elections.node _ member).nodeID true)
  | propose member leads shape =>
      subst shape
      refine h.act later ((h.node _ member).keep later (Or.inr (Or.inr ⟨rfl, rfl, rfl⟩)))
        (entries_name_sender ?_ false)
      exact (elections.node _ member).nodeID
  | @deliver src dst message next last received member handled =>
      have old := h.node dst member
      cases handled with
      | quiet unmoved refusals =>
          refine h.act later (old.keep later unmoved.namesNone) (fun packet sent => ?_)
          cases refusals packet sent <;> simp
      | @grantVote request current first newer =>
          refine h.act later ?_ (by simp)
          exact old.keep later (Unmoved.adoptTerm (cluster.nodes dst) request.term).namesNone
      | repeatVote term voted same => exact h.act later (old.keep later (.refl _)) (by simp)
      | countVote standing term granted =>
          exact h.act later (old.keep later (Or.inl standing)) (by simp)
      | winElection standing term granted majority shape =>
          have nodeID := (elections.node dst member).nodeID
          subst shape
          refine h.act later (fun _ => Or.inr ?_) (entries_name_sender ?_ true)
          · simp [RaftNode.becomeLeader, History.recordAck, History.recordLeader, nodeID]
          · exact nodeID
      -- whoever sends entries in a term has won it
      | observeLeader current =>
          exact h.act later (h.hears logs received current rfl rfl later) (by simp)
      | @acceptEntries request current check =>
          obtain ⟨commitIndex, lastApplied, moved⟩ :=
            ((cluster.nodes dst).appended request).updateCommit_fst request.leaderCommit
          refine h.act later ?_ (by simp)
          rw [moved]
          exact h.hears logs received current rfl rfl later
      | countSuccess leads term success =>
          obtain ⟨_, _, moved⟩ := ((cluster.nodes dst).countSuccess src).tryCommitLogs_fst
          refine h.act later (old.keep later ?_) (by simp)
          rw [moved]
          exact Or.inr (Or.inr ⟨rfl, rfl, rfl⟩)

end

section

variable (named : ∀ id ∈ membership.members, id ≠ []) {allowed : Cluster C → Action C → Prop}
  {holds : Cluster C → History GoString (LogEntry C) → Prop}
  (keep
    : ∀ cluster history action,
        allowed cluster action
        → Recorded membership holds cluster history
        → holds (cluster.step membership action) (cluster.record membership history action))
include named keep

theorem Recorded.run {actions : List (Action C)} (h : Recorded membership holds cluster history)
    (steps : AllSteps (Cluster.step membership) allowed cluster actions)
    : ∃ last, history.Extends last
        ∧ Recorded membership holds (cluster.run membership actions) last := by
  induction actions generalizing cluster history with
  | nil => exact ⟨history, (SameLogs.refl history).extends, h⟩
  | cons action rest ih =>
      obtain ⟨last, later, reached⟩ := ih
        ⟨h.elections.step named action, h.logs.step h.elections action,
          keep _ _ action steps.1 h⟩ steps.2
      exact ⟨last, (record_extends h.elections h.logs action).trans later, reached⟩

end

end Goulette.Raft
