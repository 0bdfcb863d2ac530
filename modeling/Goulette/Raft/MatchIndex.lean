import Goulette.Raft.StateMachineSafety

/-! What a leader's `matchIndex` says about its peers. The code moves it up with every success of
the term, whatever request was answered.
-/

namespace Goulette.Raft

open Goulette.Go Replication Runs List

variable {C : Type} {membership : Membership} {cluster : Cluster C}
  {history next : History GoString (LogEntry C)} {id src dst : GoString} {node : RaftNode C}
  {sent : List (Packet C)} {request : AppendEntriesRequest C}

def MatchIndexSound (membership : Membership) (cluster : Cluster C) : Prop :=
  ∀ l ∈ membership.members, ∀ p ∈ membership.members,
    p ≠ l
    → (cluster.nodes l).state = .leader
    → (cluster.nodes p).currentTerm = (cluster.nodes l).currentTerm
    → (cluster.nodes l).matchIndex p ≤ (cluster.nodes l).log.length
      ∧ (cluster.nodes l).log.take ((cluster.nodes l).matchIndex p)
        = (cluster.nodes p).log.take ((cluster.nodes l).matchIndex p)

instance [DecidableEq C] (membership : Membership) (cluster : Cluster C)
    : Decidable (MatchIndexSound membership cluster) :=
  inferInstanceAs (Decidable (∀ l ∈ membership.members, ∀ p ∈ membership.members, _))

/-- The condition on a step: a counted success moves `matchIndex` to a position that the peer
has acknowledged to the leader.
-/
def Cluster.CountsAcknowledged (cluster : Cluster C) : Action C → Prop
  | .deliver ⟨src, dst, .appendEntriesResponse _ response⟩ =>
      (cluster.nodes dst).state = .leader
      → response.term = (cluster.nodes dst).currentTerm
      → response.success
      → cluster.Acknowledged dst ((cluster.nodes dst).nextIndex src) src
  | _ => True

instance (cluster : Cluster C) : DecidablePred cluster.CountsAcknowledged := fun action => by
  rcases action with _ | _ | _ | ⟨_, _, _ | _ | _ | _⟩ <;> unfold Cluster.CountsAcknowledged
    <;> infer_instance

/-- One node's part of the invariant: it has acknowledged nothing beyond its term, holds what
it acknowledged in its term, and as leader trusts only what was acknowledged.
-/
structure NodeAcks (membership : Membership) (history : History GoString (LogEntry C))
    (id : GoString) (node : RaftNode C)
    : Prop where
  reached : ∀ t, 0 < history.ack id t → t ≤ node.currentTerm
  held : (history.termLog node.currentTerm).take (history.ack id node.currentTerm) <+: node.log
  matched
    : node.state = .leader
      → ∀ p ∈ membership.members, p ≠ id → node.matchIndex p ≤ history.ack p node.currentTerm

def PacketAcks (history : History GoString (LogEntry C)) (packet : Packet C) : Prop :=
  match packet.message with
  | .appendEntriesResponse request response =>
      response.success → request.coverage ≤ history.ack packet.src request.term
  | _ => True

structure Acks (membership : Membership) (cluster : Cluster C)
    (history : History GoString (LogEntry C))
    : Prop where
  legal : history.AcksLegal
  node : ∀ id ∈ membership.members, NodeAcks membership history id (cluster.nodes id)
  packet : ∀ packet ∈ cluster.network, PacketAcks history packet

theorem NodeAcks.extend (h : NodeAcks membership history id node) (later : history.Extends next)
    (acks : history.AcksLegal) (same : ∀ t, next.ack id t = history.ack id t)
    : NodeAcks membership next id node where
  reached := fun t some => h.reached t (same t ▸ some)
  held := by
    rw [same, acks.take_eq later le_rfl]
    exact h.held
  matched := fun leads p member other =>
    (h.matched leads p member other).trans (later.ack p node.currentTerm)

theorem PacketAcks.extend {packet : Packet C} (h : PacketAcks history packet)
    (later : history.Extends next)
    : PacketAcks next packet := by
  obtain ⟨src, dst, message⟩ := packet
  cases message with
  | appendEntriesResponse request response =>
      exact fun success => (h success).trans (later.ack src request.term)
  | _ => trivial

/-- Assemble the invariant after one node's step from the acting node's new part. -/
theorem Acks.act {applied : List (Option C)} (h : Acks membership cluster history)
    (later : history.Extends next) (legal : next.AcksLegal)
    (self : NodeAcks membership next id node)
    (others : ∀ other ≠ id, ∀ t, next.ack other t = history.ack other t)
    (packets : ∀ packet ∈ sent, PacketAcks next packet)
    : Acks membership (cluster.act id node applied sent) next := by
  refine ⟨legal, ?_, forall_mem_append.mpr
    ⟨fun packet old => (h.packet packet old).extend later, packets⟩⟩
  exact cluster.forall_act (fun id node _ => NodeAcks membership next id node) self
    (fun other member same => (h.node other member).extend later h.legal (others other same))

/-- Nothing has been acknowledged in a term the node has not reached. -/
theorem NodeAcks.ack_eq_zero (h : NodeAcks membership history id node) {t : Nat}
    (later : node.currentTerm < t)
    : history.ack id t = 0 := by
  by_contra some
  have := h.reached t (Nat.pos_of_ne_zero some)
  omega

/-- A change of ballot only: the node keeps its state and term, or follows a larger term. -/
theorem NodeAcks.keep {old new : RaftNode C} (h : NodeAcks membership history id old)
    (log : new.log = old.log) (matchIndex : new.matchIndex = old.matchIndex)
    (ballot
      : (new.currentTerm = old.currentTerm ∧ new.state = old.state)
        ∨ (old.currentTerm < new.currentTerm ∧ new.state ≠ .leader))
    : NodeAcks membership history id new := by
  rcases ballot with ⟨term, state⟩ | ⟨higher, follows⟩
  · exact {
      reached := by rw [term]; exact h.reached
      held := by rw [term, log]; exact h.held
      matched := by rw [term, state, matchIndex]; exact h.matched
    }
  · exact {
      reached := fun t some => (h.reached t some).trans higher.le
      held := by
        rw [h.ack_eq_zero higher, take_zero]
        exact nil_prefix
      matched := fun leads => absurd leads follows
    }

theorem Quiet.follows {old new : RaftNode C} (quiet : Quiet old new)
    : (new.currentTerm = old.currentTerm ∧ new.state = old.state)
      ∨ (old.currentTerm < new.currentTerm ∧ new.state ≠ .leader) := by
  rcases quiet.kept with same | ⟨higher, follower⟩
  · exact Or.inl same
  · exact Or.inr ⟨higher, by simp [follower]⟩

/-- A step that records no acknowledgement. -/
theorem Acks.keep {applied : List (Option C)} (h : Acks membership cluster history)
    (self : NodeAcks membership history id node)
    (packets : ∀ packet ∈ sent, PacketAcks history packet)
    : Acks membership (cluster.act id node applied sent) history :=
  h.act (SameLogs.refl history).extends h.legal self (fun _ _ _ => rfl) packets

theorem NodeAcks.lead (reached : ∀ t, 0 < history.ack id t → t ≤ node.currentTerm)
    (written : node.log = history.termLog node.currentTerm)
    (matched
      : ∀ p ∈ membership.members, p ≠ id
          → node.matchIndex p ≤ history.ack p node.currentTerm)
    : NodeAcks membership (history.recordAck id node.currentTerm node.log.length) id node where
  reached := by
    intro t some
    by_cases own : t = node.currentTerm
    · exact own.le
    · rw [history.recordAck_of_ne _ (Or.inr own)] at some
      exact reached t some
  held := by
    rw [show (history.recordAck id node.currentTerm node.log.length).termLog node.currentTerm
      = node.log from written.symm]
    exact take_prefix _ _
  matched := fun _ p member other =>
    (matched p member other).trans (history.ack_le_recordAck id _ _ p _)

/-- A new leader starts with no peer matched. -/
theorem Acks.victory (h : Acks membership cluster history) (logs : Logs membership cluster history)
    (member : id ∈ membership.members)
    (unwon : history.leader (cluster.nodes id).currentTerm = none)
    (positive : 0 < (cluster.nodes id).currentTerm) (log : node.log = (cluster.nodes id).log)
    (term : node.currentTerm = (cluster.nodes id).currentTerm)
    (unmatched : ∀ p ∈ membership.members, p ≠ id → node.matchIndex p = 0)
    (packets : ∀ packet ∈ sent, ∀ next, PacketAcks next packet)
    : Acks membership (cluster.act id node [] sent)
        ((history.recordLeader (cluster.nodes id).currentTerm id
            (cluster.nodes id).log).recordAck id (cluster.nodes id).currentTerm
          (cluster.nodes id).log.length) := by
  have old := h.node id member
  have closed := not_opened unwon positive
  obtain ⟨opening, _⟩ := logs.written.legal.recordLeader id closed
    (logs.node id member).matched ((logs.node id member).earlier closed)
  rw [← log, ← term] at opening ⊢
  have legal := h.legal.extend opening rfl
  have opened : (history.recordLeader node.currentTerm id node.log).Opened node.currentTerm :=
    Or.inr (by simp [History.recordLeader])
  have written
      : node.log
        = (history.recordLeader node.currentTerm id node.log).termLog node.currentTerm := by
    simp [History.recordLeader]
  have acked := SameLogs.recordAck (history.recordLeader node.currentTerm id node.log) id
    node.currentTerm node.log.length
  refine h.act (opening.trans acked.extends) ?_ ?_ ?_ (fun packet new => packets packet new _)
  · exact legal.recordAck opened (congrArg List.length written).le
  · refine NodeAcks.lead (fun t some => term ▸ old.reached t some) written ?_
    intro p known other
    rw [unmatched p known other]
    exact Nat.zero_le _
  · exact fun other different t => History.recordAck_of_ne _ _ (Or.inl different)

/-- A proposal extends the leader's log and its own acknowledgement. -/
theorem Acks.propose {e : LogEntry C} (h : Acks membership cluster history)
    (elections : Elections membership cluster history) (logs : Logs membership cluster history)
    (member : id ∈ membership.members) (leads : (cluster.nodes id).state = .leader)
    (shape : node = { cluster.nodes id with log := (cluster.nodes id).log ++ [e] })
    (own : e.term = (cluster.nodes id).currentTerm)
    (packets : ∀ packet ∈ sent, ∀ next, PacketAcks next packet)
    : Acks membership (cluster.act id node [] sent)
        ((history.recordTermLog node.currentTerm node.log).recordAck id node.currentTerm
          node.log.length) := by
  have old := h.node id member
  obtain ⟨opened, _, growing, written⟩ := logs.proposed elections member leads shape own
  have term : node.currentTerm = (cluster.nodes id).currentTerm := by rw [shape]
  have positions : node.matchIndex = (cluster.nodes id).matchIndex := by rw [shape]
  have legal := h.legal.extend growing rfl
  have acked := SameLogs.recordAck (history.recordTermLog node.currentTerm node.log) id
    node.currentTerm node.log.length
  refine h.act (growing.trans acked.extends) ?_ ?_ ?_ (fun packet new => packets packet new _)
  · exact legal.recordAck opened (congrArg List.length written).le
  · refine NodeAcks.lead (fun t some => term ▸ old.reached t some) written ?_
    intro p known other
    rw [positions, term]
    exact old.matched leads p known other
  · exact fun other different t => History.recordAck_of_ne _ _ (Or.inl different)

/-- An accepted request leaves in the log what it covers and what was acknowledged before. -/
theorem Acks.accept (h : Acks membership cluster history) (logs : Logs membership cluster history)
    (member : dst ∈ membership.members)
    (received : ⟨src, dst, .appendEntries request⟩ ∈ cluster.network)
    (current : (cluster.nodes dst).currentTerm ≤ request.term)
    (check : ((cluster.nodes dst).observeLeader request).matchesPrev request)
    {appended : List (LogEntry C)}
    (shape
      : appended
        = RaftNode.appendLoop (cluster.nodes dst).log (request.prevLogIndex + 1)
            request.entries)
    : (history.recordAck dst request.term request.coverage).AcksLegal
      ∧ (history.termLog request.term).take
          (max (history.ack dst request.term) request.coverage) <+: appended := by
  have old := h.node dst member
  have log := RaftNode.observeLeader_log (cluster.nodes dst) request
  obtain ⟨opened, bound, agree, slice, inside⟩ :=
    logs.accepted_agree member received log check
  rw [log] at bound agree
  obtain ⟨_, covers, kept, _⟩ :=
    appendLoop_covers (logs.node dst member).matched (logs.written.legal.matched opened) bound
      agree slice inside shape
  have sliceLength := slice.length_le
  simp only [length_drop] at sliceLength
  refine ⟨h.legal.recordAck opened (by rw [AppendEntriesRequest.coverage]; omega), ?_⟩
  rcases Nat.le_total (history.ack dst request.term) request.coverage with short | long
  · rw [Nat.max_eq_right short, AppendEntriesRequest.coverage, ← covers]
    exact take_prefix _ _
  · rw [Nat.max_eq_left long]
    refine kept _ ?_ (List.take_prefix _ _)
    rcases Nat.lt_or_ge (cluster.nodes dst).currentTerm request.term with higher | same
    · rw [old.ack_eq_zero higher, take_zero]
      exact nil_prefix
    · have term : (cluster.nodes dst).currentTerm = request.term := by omega
      rw [← term]
      exact old.held

theorem Acks.acknowledged {leader peerID : GoString} {index : Nat}
    (h : Acks membership cluster history) (other : peerID ≠ leader)
    (acknowledged : cluster.Acknowledged leader index peerID)
    : index ≤ history.ack peerID (cluster.nodes leader).currentTerm := by
  rcases acknowledged with same | ⟨⟨_, _, message⟩, sent, rfl, answer⟩
  · exact absurd same other
  · cases message with
    | appendEntriesResponse request response =>
        obtain ⟨success, term, covered⟩ := answer
        rw [← term]
        exact covered.trans (h.packet _ sent success)
    | _ => exact answer.elim

theorem Acks.init (membership : Membership)
    : Acks membership (Cluster.init membership : Cluster C) (History.initial initialEntry) where
  legal := by simp [History.AcksLegal, History.initial]
  node := fun id _ => {
    reached := by simp [History.initial]
    held := by
      rw [show (History.initial initialEntry : History GoString (LogEntry C)).ack id
        = fun _ => 0 from rfl, take_zero]
      exact nil_prefix
    matched := by simp [Cluster.init, newRaftNode]
  }
  packet := by simp [Cluster.init]

section

variable (h : Acks membership cluster history) (elections : Elections membership cluster history)
  (logs : Logs membership cluster history) (member : dst ∈ membership.members)
include h elections logs member

theorem Acks.acceptEntries (received : ⟨src, dst, .appendEntries request⟩ ∈ cluster.network)
    (current : (cluster.nodes dst).currentTerm ≤ request.term)
    (check : ((cluster.nodes dst).observeLeader request).matchesPrev request)
    : NodeAcks membership (history.recordAck dst request.term request.coverage) dst
        (((cluster.nodes dst).appended request).updateCommit request.leaderCommit).1 := by
  have old := h.node dst member
  have term : ((cluster.nodes dst).appended request).currentTerm = request.term :=
    RaftNode.observeLeader_term current
  obtain ⟨commitIndex, lastApplied, moved⟩ :=
    ((cluster.nodes dst).appended request).updateCommit_fst request.leaderCommit
  rw [moved]
  exact {
    reached := by
      intro t some
      simp only [term]
      by_cases own : t = request.term
      · exact own.le
      · rw [history.recordAck_of_ne _ (Or.inr own)] at some
        exact (old.reached t some).trans current
    held := by
      simp only [term, History.recordAck_self]
      exact (h.accept logs member received current check rfl).2
    matched := fun leads =>
      absurd leads (logs.receiver_follows elections member received current)
  }

theorem Acks.deliver {message : Message C} {reached : Cluster C}
    (received : ⟨src, dst, message⟩ ∈ cluster.network)
    (acknowledged : cluster.CountsAcknowledged (.deliver ⟨src, dst, message⟩))
    (handled
      : Cluster.Handled cluster history src dst (cluster.nodes dst) message reached next)
    : Acks membership reached next := by
  have old := h.node dst member
  cases handled with
  | quiet unmoved refusals =>
      obtain ⟨same, positions⟩ := unmoved.same
      refine h.keep (old.keep same.log positions unmoved.quiet.follows) (fun packet sent => ?_)
      cases refusals packet sent <;> simp [PacketAcks]
  | @grantVote request current first newer =>
      have fresh := (elections.node dst member).unvoted current first
      have later :=
        (SameLogs.recordVote fresh request.candidateID (cluster.nodes dst).log).extends
      obtain ⟨same, positions⟩ := (Unmoved.adoptTerm (cluster.nodes dst) request.term).same
      have voted
          : NodeAcks membership history dst
              { (cluster.nodes dst).adoptTerm request.term with
                votedFor := request.candidateID } :=
        old.keep same.log positions (Quiet.adoptTerm _ _).follows
      exact h.act later (h.legal.extend later rfl) (voted.extend later h.legal (fun _ => rfl))
        (fun _ _ _ => rfl) (by simp [PacketAcks])
  | repeatVote term voted same => exact h.keep old (by simp [PacketAcks])
  | countVote standing term granted =>
      exact h.keep (old.keep rfl rfl (Or.inl ⟨rfl, rfl⟩)) (by simp)
  | winElection standing term granted majority shape =>
      have ballot := elections.node dst member
      obtain ⟨elected, unwon⟩ := elections.wins member received standing term granted majority
      subst shape
      refine h.victory logs member unwon elected.2.1 rfl rfl ?_ ?_
      · intro p known other
        have peer : p ∈ (cluster.nodes dst).peers ∧ p ≠ (cluster.nodes dst).nodeID := by
          rw [ballot.peers, ballot.nodeID]
          exact ⟨membership.known p known, other⟩
        exact if_pos peer
      · exact fun packet sent next => Cluster.forall_broadcast (fun _ => trivial) packet sent
  | @observeLeader request current =>
      have positions
          : ((cluster.nodes dst).observeLeader request).matchIndex
            = (cluster.nodes dst).matchIndex := by
        unfold RaftNode.observeLeader
        split <;> rfl
      exact h.keep
        (old.keep (RaftNode.observeLeader_log _ _) positions (Quiet.observeLeader _ _).follows)
        (by simp [PacketAcks])
  | @acceptEntries request current check =>
      refine h.act (SameLogs.recordAck history dst request.term request.coverage).extends
        (h.accept logs member received current check rfl).1
        (h.acceptEntries elections logs member received current check)
        (fun other different t => History.recordAck_of_ne _ _ (Or.inl different)) ?_
      intro packet sent
      rw [mem_singleton.mp sent]
      intro _
      rw [History.recordAck_self]
      exact le_max_right _ _
  | countSuccess leads term success =>
      obtain ⟨_, _, moved⟩ := ((cluster.nodes dst).countSuccess src).tryCommitLogs_fst
      have position := acknowledged leads term success
      refine h.keep ?_ (by simp)
      rw [moved]
      refine ⟨old.reached, old.held, fun _ p known other => ?_⟩
      -- only the sender's `matchIndex` moves, to the position it has acknowledged
      by_cases same : p = src
      · subst same
        simpa [RaftNode.countSuccess] using h.acknowledged other position
      · simpa [RaftNode.countSuccess, same] using old.matched leads p known other

end

variable [DecidableEq C]

/-- Every step that meets the condition keeps the acknowledgement invariant. -/
theorem Acks.step (elections : Elections membership cluster history)
    (logs : Logs membership cluster history) (h : Acks membership cluster history)
    (action : Action C) (acknowledged : cluster.CountsAcknowledged action)
    : Acks membership (cluster.step membership action)
        (cluster.record membership history action) := by
  have step := cluster.step_cases membership history action
  generalize cluster.step membership action = next,
    cluster.record membership history action = later at step ⊢
  cases step with
  | disabled => exact h
  | @startElection id member =>
      have fresh := ((elections.node id member).future _ (Nat.lt_succ_self _)).1
      have later := (SameLogs.recordVote fresh id (cluster.nodes id).log).extends
      have standing : NodeAcks membership history id (cluster.nodes id).startElection :=
        (h.node id member).keep rfl rfl
          (Or.inr ⟨Nat.lt_succ_self _, by simp [RaftNode.startElection]⟩)
      refine h.act later (h.legal.extend later rfl)
        (standing.extend later h.legal (fun _ => rfl)) (fun _ _ _ => rfl) ?_
      exact Cluster.forall_broadcast (fun _ => trivial)
  | @sendHeartbeat id member leads =>
      exact h.keep (h.node id member) (Cluster.forall_broadcast (fun _ => trivial))
  | propose member leads shape =>
      exact h.propose elections logs member leads shape rfl
        (fun packet sent next => Cluster.forall_broadcast (fun _ => trivial) packet sent)
  | deliver received member handled =>
      exact h.deliver elections logs member received acknowledged handled

/-- In every run of a cluster with non-empty IDs that counts only acknowledged positions, the
leader's `matchIndex` is sound. Witness: the acknowledged part of the term's log lies in the
peer's log, and the leader's log is the term's log.
-/
theorem matchIndex_sound (membership : Membership)
    (named : ∀ id ∈ membership.members, id ≠ []) (actions : List (Action C))
    (acknowledged
      : AllSteps (Cluster.step membership) Cluster.CountsAcknowledged (Cluster.init membership)
          actions)
    : MatchIndexSound membership ((Cluster.init membership).run membership actions) := by
  obtain ⟨history, elections, logs, acks⟩ := Cluster.run_invariant_of_allSteps membership
    Cluster.CountsAcknowledged
    (fun cluster history =>
      Elections membership cluster history
      ∧ Logs membership cluster history
      ∧ Acks membership cluster history)
    ⟨Elections.init membership, Logs.init membership, Acks.init membership⟩
    (fun _ _ action allowed h =>
      ⟨h.1.step named action, h.2.1.step h.1 action, h.2.2.step h.1 h.2.1 action allowed⟩)
    actions acknowledged
  intro l lMember p pMember other leads term
  have trusted := (acks.node l lMember).matched leads p pMember other
  have held := (acks.node p pMember).held
  rw [term] at held
  rw [(logs.node l lMember).written leads]
  rcases Nat.eq_zero_or_pos
      ((((Cluster.init membership).run membership actions).nodes l).matchIndex p) with
    zero | positive
  · rw [zero]
    exact ⟨Nat.zero_le _, rfl⟩
  · have bound := (acks.legal p _ (positive.trans_le trusted)).2
    refine ⟨trusted.trans bound, ?_⟩
    have part := (take_prefix_take_left trusted).trans held
    rw [prefix_iff_eq_take, length_take, Nat.min_eq_left (trusted.trans bound)] at part
    exact part

theorem matchIndex_sound_firstCommit
    : (∀ id ∈ trio.members, id ≠ [])
      ∧ AllSteps (Cluster.step trio) Cluster.CountsAcknowledged (Cluster.init trio) firstCommit
      ∧ (((Cluster.init trio).run trio firstCommit).nodes [1]).matchIndex [2] = 2
      ∧ MatchIndexSound trio ((Cluster.init trio).run trio firstCommit) :=
  ⟨by decide, by decide +kernel, by decide +kernel,
    matchIndex_sound trio (by decide) firstCommit (by decide +kernel)⟩

def heartbeatCounted : List (Action Nat) :=
  firstElection ++
    [
      .deliver ⟨[1], [2], .appendEntries (fromStart [] 0)⟩,
      .propose [1] 7,
      .deliver ⟨[2], [1], .appendEntriesResponse (fromStart [] 0) accepted⟩,
      .deliver ⟨[2], [1], .appendEntriesResponse (fromStart [] 0) accepted⟩
    ]

theorem not_matchIndexSound_heartbeatCounted
    : ¬MatchIndexSound trio ((Cluster.init trio).run trio heartbeatCounted) := by
  decide +kernel

end Goulette.Raft
