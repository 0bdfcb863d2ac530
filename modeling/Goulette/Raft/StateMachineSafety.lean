import Goulette.Library.LeaderCompleteness
import Goulette.Raft.LogMatching

/-! State-machine safety of the cluster, for runs in which a commit never outruns what was
acknowledged, respectively vouched for by the request.
-/

namespace Goulette.Raft

open Goulette.Go Replication Runs List

variable {C : Type} {membership : Membership} {cluster : Cluster C}
  {history next : History GoString (LogEntry C)} {id src dst : GoString} {node old : RaftNode C}
  {applied : List (Option C)} {sent : List (Packet C)} {request : AppendEntriesRequest C}
  {appended : List (LogEntry C)}

def AppendEntriesRequest.coverage (request : AppendEntriesRequest C) : Nat :=
  request.prevLogIndex + request.entries.length

/-- A peer has acknowledged a position to a leader: it is the leader, or it answered a
request of the leader's current term that covers the position with success.
-/
def Cluster.Acknowledged (cluster : Cluster C) (leader : GoString) (index : Nat)
    (peerID : GoString)
    : Prop :=
  peerID = leader
  ∨ ∃ packet ∈ cluster.network,
      packet.src = peerID
      ∧ match packet.message with
        | .appendEntriesResponse request response =>
            response.success ∧ request.term = (cluster.nodes leader).currentTerm
            ∧ index ≤ request.coverage
        | _ => False

instance (cluster : Cluster C) (leader : GoString) (index : Nat) (peerID : GoString)
    : Decidable (cluster.Acknowledged leader index peerID) :=
  have (packet : Packet C) : Decidable (match packet.message with
      | .appendEntriesResponse request response =>
          response.success ∧ request.term = (cluster.nodes leader).currentTerm
          ∧ index ≤ request.coverage
      | _ => False) := by
    cases packet.message <;> infer_instance
  inferInstanceAs (Decidable (_ ∨ _))

/-- A request lets its receiver commit no more than it vouches for: it raises no commit, its
commit lies within its coverage, or the receiver's log will not reach beyond the coverage.
-/
def RaftNode.CommitCovered (node : RaftNode C) (request : AppendEntriesRequest C) : Prop :=
  request.leaderCommit ≤ node.commitIndex
  ∨ request.leaderCommit ≤ request.coverage
  ∨ node.log.length ≤ request.coverage + 1
  ∨ ¬request.entries.map LogEntry.term
      <+: (node.log.drop request.prevLogIndex).map LogEntry.term

instance (node : RaftNode C) (request : AppendEntriesRequest C)
    : Decidable (node.CommitCovered request) :=
  inferInstanceAs (Decidable (_ ∨ _))

/-- The condition on a step: a position passes the leader's commit test only if a majority
of the peers acknowledged it, and an accepted request commits only what it covers.
-/
def Cluster.CommitsAcknowledged (membership : Membership) (cluster : Cluster C)
    : Action C → Prop
  | .deliver ⟨_, dst, .appendEntries request⟩ =>
      (cluster.nodes dst).currentTerm ≤ request.term
      → (cluster.nodes dst).matchesPrev request
      → (cluster.nodes dst).CommitCovered request
  | .deliver ⟨src, dst, .appendEntriesResponse _ response⟩ =>
      (cluster.nodes dst).state = .leader
      → response.term = (cluster.nodes dst).currentTerm
      → response.success
      → ∀ index ≤ (cluster.nodes dst).getLastLogIndex,
          (cluster.nodes dst).commitIndex < index
          → ((cluster.nodes dst).countSuccess src).commits index
          → membership.peers.keys.length
            < 2 * (membership.peers.keys.filter (cluster.Acknowledged dst index ·)).length
  | _ => True

instance (membership : Membership) (cluster : Cluster C)
    : DecidablePred (cluster.CommitsAcknowledged membership) := fun action => by
  unfold Cluster.CommitsAcknowledged
  split <;> infer_instance

/-- One node's part of the invariant: it keeps what it acknowledged, a candidate of an open
race still has the log it stood with, a leader acknowledges its own log, and what the node
applied is a durable part of its log.
-/
structure NodeCommits (membership : Membership) (history : History GoString (LogEntry C))
    (id : GoString) (node : RaftNode C) (applied : List (Option C))
    : Prop where
  retained : RetainedUntil history id (node.currentTerm + 1) node.log
  reached : ∀ t, 0 < history.ack id t → t ≤ node.currentTerm
  standing
    : node.state = .candidate
      → history.leader node.currentTerm = none
      → history.vote id node.currentTerm = some (id, node.log)
  own : node.state = .leader → node.log.length ≤ history.ack id node.currentTerm
  commit : node.commitIndex ≤ node.lastApplied
  bound : node.lastApplied ≤ node.log.length
  applied : applied = (node.log.take node.lastApplied).map LogEntry.command
  durable
    : history.Durable LogEntry.term membership.population node.currentTerm
        (node.log.take node.lastApplied)

/-- A request commits a durable part of its sender's log, and a success was recorded as its
sender's acknowledgement.
-/
def PacketCommits (membership : Membership) (history : History GoString (LogEntry C))
    (packet : Packet C)
    : Prop :=
  match packet.message with
  | .appendEntries request =>
      history.Opened request.term
      ∧ request.leaderCommit ≤ (history.termLog request.term).length
      ∧ history.Durable LogEntry.term membership.population request.term
          ((history.termLog request.term).take request.leaderCommit)
  | .appendEntriesResponse request response =>
      response.success
      → packet.src ∈ membership.members
        ∧ request.coverage ≤ history.ack packet.src request.term
  | _ => True

structure Commits (membership : Membership) (cluster : Cluster C)
    (history : History GoString (LogEntry C))
    : Prop where
  legal : history.Legal LogEntry.term membership.population
  node
    : ∀ id ∈ membership.members,
        NodeCommits membership history id (cluster.nodes id) (cluster.applied id)
  packet : ∀ packet ∈ cluster.network, PacketCommits membership history packet

theorem NodeCommits.extend (h : NodeCommits membership history id node applied)
    (later : history.Extends next) (acks : history.AcksLegal)
    (same : ∀ t, next.ack id t = history.ack id t)
    : NodeCommits membership next id node applied where
  retained := h.retained.extend later acks (fun t _ => same t)
  reached := fun t some => h.reached t (same t ▸ some)
  standing := fun candidate unwon => by
    refine later.vote (h.standing candidate ?_)
    cases won : history.leader node.currentTerm with
    | none => rfl
    | some winner =>
        rw [later.leader won] at unwon
        cases unwon
  own := fun leads => (h.own leads).trans (same _).ge
  commit := h.commit
  bound := h.bound
  applied := h.applied
  durable := h.durable.extend later

theorem PacketCommits.extend {packet : Packet C} (h : PacketCommits membership history packet)
    (later : history.Extends next)
    : PacketCommits membership next packet := by
  obtain ⟨src, dst, message⟩ := packet
  cases message with
  | appendEntries request =>
      obtain ⟨opened, bound, durable⟩ := h
      obtain ⟨rest, same⟩ := later.termLog opened
      refine ⟨later.opened opened, ?_, ?_⟩
      · exact bound.trans (later.termLog opened).length_le
      · rw [← same, take_append_of_le_length bound]
        exact durable.extend later
  | appendEntriesResponse request response =>
      intro success
      obtain ⟨known, acked⟩ := h success
      exact ⟨known, acked.trans (later.ack src request.term)⟩
  | requestVote | requestVoteResponse => trivial

/-- Assemble the invariant after one node's step from the acting node's new part. -/
theorem Commits.act (h : Commits membership cluster history) (later : history.Extends next)
    (legal : next.Legal LogEntry.term membership.population)
    (self : NodeCommits membership next id node (cluster.applied id ++ applied))
    (others : ∀ other ≠ id, ∀ t, next.ack other t = history.ack other t)
    (packets : ∀ packet ∈ sent, PacketCommits membership next packet)
    : Commits membership (cluster.act id node applied sent) next := by
  refine ⟨legal, ?_, forall_mem_append.mpr
    ⟨fun packet old => (h.packet packet old).extend later, packets⟩⟩
  exact cluster.forall_act (NodeCommits membership next) self
    (fun other member same => (h.node other member).extend later h.legal.acks (others other same))

/-- A change of ballot only: the node keeps its state and term, or follows a larger term. -/
theorem NodeCommits.keep {new : RaftNode C} (h : NodeCommits membership history id old applied)
    (log : new.log = old.log) (commitIndex : new.commitIndex = old.commitIndex)
    (lastApplied : new.lastApplied = old.lastApplied)
    (ballot
      : (new.currentTerm = old.currentTerm ∧ new.state = old.state)
        ∨ (old.currentTerm < new.currentTerm ∧ new.state = .follower))
    : NodeCommits membership history id new applied := by
  have term : old.currentTerm ≤ new.currentTerm := by
    rcases ballot with ⟨same, _⟩ | ⟨higher, _⟩ <;> omega
  exact {
    retained := by
      rw [log]
      exact h.retained.raise (by omega) (fun t some => by have := h.reached t some; omega)
    reached := fun t some => (h.reached t some).trans term
    standing := by
      rcases ballot with ⟨same, state⟩ | ⟨_, follower⟩
      · rw [same, state, log]
        exact h.standing
      · simp [follower]
    own := by
      rcases ballot with ⟨same, state⟩ | ⟨_, follower⟩
      · rw [same, state, log]
        exact h.own
      · simp [follower]
    commit := by rw [commitIndex, lastApplied]; exact h.commit
    bound := by rw [log, lastApplied]; exact h.bound
    applied := by rw [log, lastApplied]; exact h.applied
    durable := by
      rw [log, lastApplied]
      exact h.durable.mono term prefix_rfl
  }

/-- A step that records nothing about logs and acknowledgements. -/
theorem Commits.keep (h : Commits membership cluster history)
    (self : NodeCommits membership history id node (cluster.applied id))
    (packets : ∀ packet ∈ sent, PacketCommits membership history packet)
    : Commits membership (cluster.act id node [] sent) history :=
  h.act (SameLogs.refl history).extends h.legal (by simpa using self) (fun _ _ _ => rfl) packets

/-- What a node keeps up to a term it may vote in, if that term has no winner yet. -/
theorem NodeCommits.retainedUntil (h : NodeCommits membership history id node applied) {t : Nat}
    (current : node.currentTerm ≤ t) (unwon : history.leader t = none)
    : RetainedUntil history id t node.log := by
  rcases Nat.eq_zero_or_pos t with rfl | positive
  · exact fun _ _ none => absurd none (Nat.not_lt_zero _)
  · have raised := h.retained.raise (Nat.succ_le_succ current)
      (fun u some => Nat.lt_succ_of_le (h.reached u some))
    exact raised.unopened (not_opened unwon positive)

theorem Commits.startElection (h : Commits membership cluster history)
    (elections : Elections membership cluster history) (logs : Logs membership cluster history)
    (member : id ∈ membership.members)
    (packets
      : ∀ packet ∈ sent, ∀ next, PacketCommits membership next packet)
    : Commits membership (cluster.act id (cluster.nodes id).startElection [] sent)
        (history.recordVote id ((cluster.nodes id).currentTerm + 1) id (cluster.nodes id).log) := by
  have old := h.node id member
  have log := logs.node id member
  have fresh := ((elections.node id member).future _ (Nat.lt_succ_self _)).1
  have later := (SameLogs.recordVote fresh id (cluster.nodes id).log).extends
  have recorded := old.extend later h.legal.acks (fun _ => rfl)
  refine h.act later ?_ ?_ (fun _ _ _ => rfl) (fun packet inSent => packets packet inSent _)
  · exact h.legal.recordVote fresh log.matched log.nonempty (Or.inl rfl) (fun _ => old.retained)
  · exact {
      retained := recorded.retained.raise (Nat.le_succ _)
        (fun t some => Nat.lt_succ_of_le (recorded.reached t some))
      reached := fun t some => (recorded.reached t some).trans (Nat.le_succ _)
      standing := fun _ _ => history.recordVote_self ..
      own := by simp [RaftNode.startElection]
      commit := recorded.commit
      bound := recorded.bound
      applied := by rw [append_nil]; exact recorded.applied
      durable := recorded.durable.mono (Nat.le_succ _) prefix_rfl
    }

/-- The code's comparison of last entries is the up-to-date test on nonempty logs. -/
theorem RaftNode.upToDate_of_isLogUpToDate {own : List (LogEntry C)} (nonempty : own ≠ [])
    (newer : node.isLogUpToDate (own.length - 1) (lastTerm LogEntry.term own))
    : UpToDate LogEntry.term own node.log := by
  have positive := length_pos_of_ne_nil nonempty
  rw [RaftNode.isLogUpToDate, RaftNode.getLastLogTerm_eq, RaftNode.getLastLogIndex] at newer
  split at newer
  · exact Or.inl (of_decide_eq_true newer)
  · next same =>
      have longer := of_decide_eq_true newer
      refine Or.inr ⟨(not_not.mp same).symm, ?_⟩
      omega

/-- Granting a first vote records a legal ballot. -/
theorem Commits.recordVote {request : RequestVoteRequest} (h : Commits membership cluster history)
    (elections : Elections membership cluster history) (logs : Logs membership cluster history)
    (member : dst ∈ membership.members)
    (received : ⟨src, dst, .requestVote request⟩ ∈ cluster.network)
    (current : (cluster.nodes dst).currentTerm ≤ request.term)
    (fresh : history.vote dst request.term = none)
    (newer
      : ((cluster.nodes dst).adoptTerm request.term).isLogUpToDate request.lastLogIndex
          request.lastLogTerm)
    : (history.recordVote dst request.term request.candidateID (cluster.nodes dst).log).Legal
        LogEntry.term membership.population := by
  have log := logs.node dst member
  obtain ⟨candidate, _, _, own, voted, index, term⟩ := elections.packet _ received
  rw [index, term] at newer
  refine h.legal.recordVote fresh log.matched log.nonempty (Or.inr ⟨own, ?_, ?_⟩) ?_
  · rw [candidate]
    exact voted
  · have ordered := RaftNode.upToDate_of_isLogUpToDate (h.legal.ballot voted).2 newer
    rwa [RaftNode.adoptTerm_log] at ordered
  · exact (h.node dst member).retainedUntil current

/-- A leader's requests commit what it applied. -/
theorem Commits.broadcastEntries (isHeartbeat : Bool)
    (self : NodeCommits membership next id node applied)
    (written : node.log = next.termLog node.currentTerm) (opened : next.Opened node.currentTerm)
    : ∀ packet ∈ Cluster.broadcastEntries node id isHeartbeat,
        PacketCommits membership next packet := by
  intro packet sent
  obtain ⟨peerID, _, rfl⟩ := Cluster.mem_broadcast.mp sent
  have bound := self.commit.trans self.bound
  refine ⟨opened, ?_, ?_⟩
  · simp only [RaftNode.sendAppendEntries]
    rwa [← written]
  · simp only [RaftNode.sendAppendEntries]
    rw [← written]
    exact self.durable.mono le_rfl (take_prefix_take_left self.commit)

/-- A leader that moves to a longer log written in its term acknowledges all of it. -/
theorem NodeCommits.lead (h : NodeCommits membership history id old applied)
    (log : old.log <+: node.log) (written : node.log = history.termLog node.currentTerm)
    (start : history.startLog node.currentTerm <+: history.termLog node.currentTerm)
    (opened : history.Opened node.currentTerm) (leads : node.state = .leader)
    (term : node.currentTerm = old.currentTerm) (commitIndex : node.commitIndex = old.commitIndex)
    (lastApplied : node.lastApplied = old.lastApplied)
    : NodeCommits membership (history.recordAck id node.currentTerm node.log.length) id node
        applied := by
  have later := (SameLogs.recordAck history id node.currentTerm node.log.length).extends
  have same : node.log.take old.lastApplied = old.log.take old.lastApplied := by
    obtain ⟨rest, extended⟩ := log
    rw [← extended, take_append_of_le_length h.bound]
  exact {
    retained := by
      refine h.retained.recordAck h.reached term.ge opened start
        (fun part held _ => held.trans log) ?_
      rw [← written]
      exact take_prefix _ _
    reached := fun t some => by
      by_cases own : t = node.currentTerm
      · exact own.le
      · rw [history.recordAck_of_ne _ (Or.inr own)] at some
        exact (h.reached t some).trans term.ge
    standing := by simp [leads]
    own := fun _ => by
      rw [History.recordAck_self]
      exact le_max_right _ _
    commit := by rw [commitIndex, lastApplied]; exact h.commit
    bound := by rw [lastApplied]; exact h.bound.trans log.length_le
    applied := by rw [lastApplied, same]; exact h.applied
    durable := by
      rw [lastApplied, same]
      exact (h.durable.mono term.ge prefix_rfl).extend later
  }

section

variable (h : Commits membership cluster history) (elections : Elections membership cluster history)
  (logs : Logs membership cluster history) (member : id ∈ membership.members)
include h elections logs member

/-- A first victory is a legal election, by the votes the candidate counted. -/
theorem Commits.victory (standing : (cluster.nodes id).state = .candidate)
    (elected : ElectedBy membership history (cluster.nodes id).currentTerm id)
    (unwon : history.leader (cluster.nodes id).currentTerm = none)
    (log : node.log = (cluster.nodes id).log)
    (term : node.currentTerm = (cluster.nodes id).currentTerm) (leads : node.state = .leader)
    (commitIndex : node.commitIndex = (cluster.nodes id).commitIndex)
    (lastApplied : node.lastApplied = (cluster.nodes id).lastApplied)
    : Commits membership (cluster.act id node [] (Cluster.broadcastEntries node id true))
        ((history.recordLeader (cluster.nodes id).currentTerm id
            (cluster.nodes id).log).recordAck id (cluster.nodes id).currentTerm
          (cluster.nodes id).log.length) := by
  have old := h.node id member
  have closed := not_opened unwon elected.2.1
  have earlier := (logs.node id member).earlier closed
  obtain ⟨_, _, voters, majority, voted⟩ := elected
  have legal := h.legal.recordLeader closed earlier (old.standing standing unwon) majority
    (fun v inVoters => (voted v inVoters).2)
  obtain ⟨opening, _⟩ :=
    h.legal.logs.recordLeader id closed (logs.node id member).matched earlier
  rw [← log, ← term] at legal opening ⊢
  have opened : (history.recordLeader node.currentTerm id node.log).Opened node.currentTerm :=
    Or.inr (by simp [History.recordLeader])
  have written
      : node.log
        = (history.recordLeader node.currentTerm id node.log).termLog node.currentTerm := by
    simp [History.recordLeader]
  have self := (old.extend opening h.legal.acks (fun _ => rfl)).lead (log ▸ prefix_rfl)
    written (legal.logs.start opened) opened leads term commitIndex lastApplied
  have acked := SameLogs.recordAck (history.recordLeader node.currentTerm id node.log) id
    node.currentTerm node.log.length
  refine h.act (opening.trans acked.extends) ?_ (by simpa using self) ?_ ?_
  · exact legal.recordAck opened (congrArg List.length written).le
      (fun u ballot => term ▸ (elections.node id member).voted ballot)
  · exact fun other different t => History.recordAck_of_ne _ _ (Or.inl different)
  · exact Commits.broadcastEntries true self written opened

/-- A proposal extends the leader's log and its own acknowledgement. -/
theorem Commits.propose {e : LogEntry C} (leads : (cluster.nodes id).state = .leader)
    (shape : node = { cluster.nodes id with log := (cluster.nodes id).log ++ [e] })
    (own : e.term = (cluster.nodes id).currentTerm)
    : Commits membership (cluster.act id node [] (Cluster.broadcastEntries node id false))
        ((history.recordTermLog node.currentTerm node.log).recordAck id node.currentTerm
          node.log.length) := by
  have old := h.node id member
  have ballot := elections.node id member
  obtain ⟨opened, log, growing, written⟩ := logs.proposed elections member leads shape own
  have term : node.currentTerm = (cluster.nodes id).currentTerm := by rw [shape]
  have legal := h.legal.recordTermLog opened (own.trans term.symm)
  rw [← log] at legal
  have self := (old.extend growing h.legal.acks (fun _ => rfl)).lead
    (by rw [shape]; exact prefix_append _ _) written (legal.logs.start opened) opened
    (by rw [shape]; exact leads) term (by rw [shape]) (by rw [shape])
  have acked := SameLogs.recordAck (history.recordTermLog node.currentTerm node.log) id
    node.currentTerm node.log.length
  refine h.act (growing.trans acked.extends) ?_ (by simpa using self) ?_ ?_
  · exact legal.recordAck opened (congrArg List.length written).le
      (fun u voted => term ▸ ballot.voted voted)
  · exact fun other different t => History.recordAck_of_ne _ _ (Or.inl different)
  · exact Commits.broadcastEntries false self written opened

end

/-! Replication and commits. -/

/-- The log after an accepted request: it has everything the request covers, keeps all that
the sender has, and reaches beyond the coverage only if it held the request's entries.
-/
theorem appendLoop_covers {log source : List (LogEntry C)} {p : Nat} {entries : List (LogEntry C)}
    (matched : history.Matched LogEntry.term log)
    (sourceMatched : history.Matched LogEntry.term source) (bound : p ≤ log.length)
    (agree : log.take p = source.take p) (slice : entries <+: source.drop p)
    (inside : p ≤ source.length) (shape : appended = RaftNode.appendLoop log (p + 1) entries)
    : p + entries.length ≤ appended.length
      ∧ appended.take (p + entries.length) = source.take (p + entries.length)
      ∧ (∀ part, part <+: log → part <+: source → part <+: appended)
      ∧ ((appended = log ∧ entries <+: log.drop p)
        ∨ appended.length = p + entries.length) := by
  have sourceLength := slice.length_le
  simp only [length_drop] at sourceLength
  rcases appendLoop_eq (.of_matched matched sourceMatched) bound agree slice with
    ⟨same, fits, agreeAll⟩ | cut
  · rw [← shape] at same
    subst same
    exact ⟨fits, agreeAll, fun part inLog _ => inLog, Or.inl ⟨rfl, slice_held slice agreeAll⟩⟩
  · rw [← shape] at cut
    have length : appended.length = p + entries.length := by
      rw [cut, length_take]
      omega
    refine ⟨length.ge, ?_, ?_, Or.inr length⟩
    · rw [cut, take_take, Nat.min_self]
    · intro part inLog inSource
      rcases Nat.le_total part.length (p + entries.length) with short | long
      · rw [cut, prefix_iff_eq_take.mp inSource]
        exact take_prefix_take_left short
      · -- A longer common part contains the entries, so the loop kept the log.
        have agreeAll : log.take (p + entries.length) = source.take (p + entries.length) := by
          obtain ⟨rest, rfl⟩ := inLog
          obtain ⟨more, rfl⟩ := inSource
          rw [take_append_of_le_length long, take_append_of_le_length long]
        rw [shape, appendLoop_held (slice_held slice agreeAll)]
        exact inLog

/-- Within the condition, a follower's new commit lies within the request's coverage. -/
theorem RaftNode.CommitCovered.min_le (covered : node.CommitCovered request)
    (raised : node.commitIndex < request.leaderCommit)
    (reach
      : (appended = node.log ∧ request.entries <+: node.log.drop request.prevLogIndex)
        ∨ appended.length = request.coverage)
    : min request.leaderCommit (appended.length - 1) ≤ request.coverage := by
  rcases reach with ⟨rfl, held⟩ | length
  · rcases covered with low | within | short | missing
    · omega
    · omega
    · omega
    · exact absurd (held.map LogEntry.term) missing
  · omega

/-- Replacing the log by one that keeps what the term's log has, and acknowledging part of
it, keeps the node's part: what it applied lies on every later term's log.
-/
theorem NodeCommits.append (h : NodeCommits membership history id old applied)
    (legal : history.Legal LogEntry.term membership.population) (node : RaftNode C) {t m : Nat}
    (term : node.currentTerm = t) (le : old.currentTerm ≤ t) (won : history.leader t ≠ none)
    (follows : node.state ≠ .leader)
    (kept : ∀ part, part <+: old.log → part <+: history.termLog t → part <+: node.log)
    (acked : (history.termLog t).take m <+: node.log)
    (commitIndex : node.commitIndex = old.commitIndex)
    (lastApplied : node.lastApplied = old.lastApplied)
    : NodeCommits membership (history.recordAck id t m) id node applied := by
  subst term
  have opened : history.Opened node.currentTerm := Or.inr (Option.isSome_iff_ne_none.mpr won)
  have later := (SameLogs.recordAck history id node.currentTerm m).extends
  have onLog := kept _ (List.take_prefix _ _) (h.durable.onTermLog legal le opened)
  have length : (old.log.take old.lastApplied).length = old.lastApplied := by
    rw [length_take]
    exact Nat.min_eq_left h.bound
  have same : node.log.take old.lastApplied = old.log.take old.lastApplied := by
    have cut := prefix_iff_eq_take.mp onLog
    rw [length] at cut
    exact cut.symm
  exact {
    retained := h.retained.recordAck h.reached le opened (legal.logs.start opened) kept acked
    reached := fun t some => by
      by_cases own : t = node.currentTerm
      · exact own.le
      · rw [history.recordAck_of_ne m (Or.inr own)] at some
        exact (h.reached t some).trans le
    standing := fun _ unwon => absurd unwon won
    own := fun leads => absurd leads follows
    commit := by rw [commitIndex, lastApplied]; exact h.commit
    bound := by
      rw [lastApplied, ← length]
      exact onLog.length_le
    applied := by rw [lastApplied, same]; exact h.applied
    durable := by
      rw [lastApplied, same]
      exact (h.durable.mono le prefix_rfl).extend later
  }

theorem NodeCommits.applyLogs (h : NodeCommits membership history id node applied)
    {commitIndex : Nat} (bound : commitIndex ≤ node.log.length)
    (durable
      : node.lastApplied < commitIndex
        → history.Durable LogEntry.term membership.population node.currentTerm
            (node.log.take commitIndex))
    : NodeCommits membership history id { node with commitIndex := commitIndex }.applyLogs.1
        (applied ++ { node with commitIndex := commitIndex }.applyLogs.2) := by
  have commands := RaftNode.applyLogs_snd { node with commitIndex := commitIndex } bound
  rw [RaftNode.applyLogs_fst]
  exact {
    retained := h.retained
    reached := h.reached
    standing := h.standing
    own := h.own
    commit := le_max_right _ _
    bound := max_le h.bound bound
    applied := by
      rw [h.applied]
      exact commands
    durable := by
      rcases Nat.lt_or_ge node.lastApplied commitIndex with ahead | idle
      · simp only [Nat.max_eq_right ahead.le]
        exact durable ahead
      · simp only [Nat.max_eq_left idle]
        exact h.durable
  }

section

variable (h : Commits membership cluster history) (elections : Elections membership cluster history)
  (logs : Logs membership cluster history) (member : dst ∈ membership.members)
include h elections logs member

/-- Accepting a request: the new log keeps what was acknowledged and applied, and what is
newly applied is durable because the request covers and commits it.
-/
theorem Commits.accept (received : ⟨src, dst, .appendEntries request⟩ ∈ cluster.network)
    (current : (cluster.nodes dst).currentTerm ≤ request.term)
    (check : ((cluster.nodes dst).observeLeader request).matchesPrev request)
    (covered : (cluster.nodes dst).CommitCovered request)
    : (history.recordAck dst request.term request.coverage).Legal LogEntry.term
        membership.population
      ∧ NodeCommits membership (history.recordAck dst request.term request.coverage) dst
          (((cluster.nodes dst).appended request).updateCommit request.leaderCommit).1
          (cluster.applied dst
            ++ (((cluster.nodes dst).appended request).updateCommit request.leaderCommit).2) := by
  have old := h.node dst member
  have log := RaftNode.observeLeader_log (cluster.nodes dst) request
  have term : ((cluster.nodes dst).appended request).currentTerm = request.term :=
    RaftNode.observeLeader_term current
  obtain ⟨commit, applied⟩ := RaftNode.observeLeader_commit (cluster.nodes dst) request
  have commit : ((cluster.nodes dst).appended request).commitIndex
      = (cluster.nodes dst).commitIndex := commit
  obtain ⟨_, won, _⟩ := logs.packet _ received
  obtain ⟨_, _, durable⟩ := h.packet _ received
  obtain ⟨opened, bound, agree, slice, inside⟩ :=
    logs.accepted_agree member received log check
  rw [log] at bound agree
  obtain ⟨reach, covers, kept, extent⟩ :=
    appendLoop_covers (logs.node dst member).matched (h.legal.logs.matched opened) bound agree
      slice inside (show ((cluster.nodes dst).appended request).log = _ from rfl)
  have voted (u : Nat) (ballot : (history.vote dst u).isSome) : u ≤ request.term :=
    ((elections.node dst member).voted ballot).trans current
  have sliceLength := slice.length_le
  simp only [length_drop] at sliceLength
  refine ⟨h.legal.recordAck opened (by rw [AppendEntriesRequest.coverage]; omega) voted, ?_⟩
  have recorded := old.append h.legal ((cluster.nodes dst).appended request) term current
    (by simp [won]) (logs.receiver_follows elections member received current) kept
    (covers ▸ take_prefix _ _) commit applied
  generalize (cluster.nodes dst).appended request = node at *
  rw [RaftNode.updateCommit]
  split
  · next raised =>
      refine recorded.applyLogs ?_ (fun ahead => ?_)
      · exact (Nat.min_le_right _ _).trans (Nat.sub_le _ _)
      · -- The new commit lies within the coverage, where the log is the sender's.
        have within := covered.min_le (commit ▸ raised) extent
        simp only [RaftNode.getLastLogIndex, term]
        have sender
            : node.log.take (min request.leaderCommit (node.log.length - 1))
              = (history.termLog request.term).take
                  (min request.leaderCommit (node.log.length - 1)) := by
          have cut := congrArg (List.take (min request.leaderCommit (node.log.length - 1))) covers
          rw [AppendEntriesRequest.coverage] at within
          rwa [take_take, take_take, Nat.min_eq_left within] at cut
        rw [sender]
        exact (durable.mono le_rfl (take_prefix_take_left (Nat.min_le_left _ _))).extend
          (SameLogs.recordAck history dst request.term request.coverage).extends
  · rw [append_nil]
    exact recorded

/-- A position that a majority acknowledged and that passes the commit test is committed in
the leader's term.
-/
theorem Commits.committed {index : Nat} (leads : (cluster.nodes dst).state = .leader)
    (positive : 0 < index) (inside : index ≤ (cluster.nodes dst).getLastLogIndex)
    (test : ((cluster.nodes dst).countSuccess src).commits index)
    (majority
      : membership.peers.keys.length
        < 2 * (membership.peers.keys.filter (cluster.Acknowledged dst index ·)).length)
    : history.Committed LogEntry.term membership.population (cluster.nodes dst).currentTerm
        index := by
  have old := h.node dst member
  have written := (logs.node dst member).written leads
  simp only [RaftNode.getLastLogIndex] at inside
  simp only [RaftNode.commits, RaftNode.countSuccess, Bool.and_eq_true, beq_iff_eq,
    Option.map_eq_some_iff] at test
  obtain ⟨⟨e, found, own⟩, _⟩ := test
  refine ⟨?_, ⟨e, written ▸ found, own⟩, ?_, positive,
    (membership.peers.keys.filter (cluster.Acknowledged dst index ·)).toFinset, ⟨?_, ?_⟩, ?_⟩
  · rw [← written]
    omega
  · exact Or.inr (by simp [(elections.node dst member).leads.mp leads])
  · intro v acked
    exact mem_toFinset.mpr (mem_of_mem_filter (mem_toFinset.mp acked))
  · rw [Membership.population, toFinset_card_of_nodup membership.peers.keys_nodup,
      toFinset_card_of_nodup (membership.peers.keys_nodup.filter _)]
    exact majority
  · intro v acked
    have acknowledged := (mem_filter.mp (mem_toFinset.mp acked)).2
    rcases of_decide_eq_true acknowledged with rfl | ⟨⟨_, _, message⟩, sent, rfl, answer⟩
    · have := old.own leads
      omega
    · cases message with
      | appendEntriesResponse request response =>
          obtain ⟨success, term, covered⟩ := answer
          rw [← term]
          exact covered.trans (h.packet _ sent success).2
      | _ => exact answer.elim

/-- Counting a success changes neither log nor term; what it commits is durable. -/
theorem Commits.count (leads : (cluster.nodes dst).state = .leader)
    (acknowledged
      : ∀ index ≤ (cluster.nodes dst).getLastLogIndex,
          (cluster.nodes dst).commitIndex < index
          → ((cluster.nodes dst).countSuccess src).commits index
          → membership.peers.keys.length
            < 2 * (membership.peers.keys.filter (cluster.Acknowledged dst index ·)).length)
    : NodeCommits membership history dst ((cluster.nodes dst).countSuccess src).tryCommitLogs.1
        (cluster.applied dst ++ ((cluster.nodes dst).countSuccess src).tryCommitLogs.2) := by
  have old := h.node dst member
  have counted
      : NodeCommits membership history dst ((cluster.nodes dst).countSuccess src)
          (cluster.applied dst) :=
    old.keep rfl rfl rfl (Or.inl ⟨rfl, rfl⟩)
  obtain ⟨last, reached, origin⟩ := ((cluster.nodes dst).countSuccess src).tryCommitLogs_eq
  rw [reached]
  rcases origin with same | ⟨higher, inside, test⟩
  · refine counted.applyLogs ?_ ?_
    · rw [same]
      exact counted.commit.trans counted.bound
    · intro ahead
      have := counted.commit
      omega
  · refine counted.applyLogs (inside.trans (Nat.sub_le _ _)) (fun _ => Or.inr ?_)
    have committed := h.committed elections logs member leads (by omega) inside test
      (acknowledged last inside higher test)
    refine ⟨_, last, le_rfl, committed, ?_⟩
    exact ((logs.node dst member).written leads) ▸ prefix_rfl

end

theorem Commits.deliver {message : Message C} {reached : Cluster C}
    (h : Commits membership cluster history) (elections : Elections membership cluster history)
    (logs : Logs membership cluster history) (member : dst ∈ membership.members)
    (received : ⟨src, dst, message⟩ ∈ cluster.network)
    (acknowledged : cluster.CommitsAcknowledged membership (.deliver ⟨src, dst, message⟩))
    (handled
      : Cluster.Handled cluster history src dst (cluster.nodes dst) message reached next)
    : Commits membership reached next := by
  have old := h.node dst member
  cases handled with
  | quiet unmoved refusals =>
      obtain ⟨same, _⟩ := unmoved.same
      refine h.keep (old.keep same.log same.commitIndex same.lastApplied unmoved.quiet.kept)
        (fun packet sent => ?_)
      cases refusals packet sent <;> simp [PacketCommits]
  | @grantVote request current first newer =>
      have fresh := (elections.node dst member).unvoted current first
      have later :=
        (SameLogs.recordVote fresh request.candidateID (cluster.nodes dst).log).extends
      have commit := RaftNode.adoptTerm_commit (cluster.nodes dst) request.term
      have voted
          : NodeCommits membership history dst
              { (cluster.nodes dst).adoptTerm request.term with votedFor := request.candidateID }
              (cluster.applied dst) :=
        old.keep (RaftNode.adoptTerm_log _ _) commit.1 commit.2 (Quiet.adoptTerm _ _).kept
      refine h.act later (h.recordVote elections logs member received current fresh newer) ?_
        (fun _ _ _ => rfl) (by simp [PacketCommits])
      rw [append_nil]
      exact voted.extend later h.legal.acks (fun _ => rfl)
  | repeatVote term voted same => exact h.keep old (by simp [PacketCommits])
  | countVote standing term granted =>
      exact h.keep (old.keep rfl rfl rfl (Or.inl ⟨rfl, rfl⟩)) (by simp)
  | winElection standing term granted majority shape =>
      obtain ⟨elected, unwon⟩ := elections.wins member received standing term granted majority
      subst shape
      exact h.victory elections logs member standing elected unwon rfl rfl rfl rfl rfl
  | @observeLeader request current =>
      have commit := RaftNode.observeLeader_commit (cluster.nodes dst) request
      exact h.keep
        (old.keep (RaftNode.observeLeader_log _ _) commit.1 commit.2 (Quiet.observeLeader _ _).kept)
        (by simp [PacketCommits])
  | @acceptEntries request current check =>
      have covered := acknowledged current (RaftNode.observeLeader_matchesPrev _ request ▸ check)
      obtain ⟨legal, self⟩ := h.accept elections logs member received current check covered
      refine h.act (SameLogs.recordAck history dst request.term request.coverage).extends legal
        self (fun other different t => History.recordAck_of_ne _ _ (Or.inl different)) ?_
      intro packet sent
      rw [mem_singleton.mp sent]
      intro _
      refine ⟨member, ?_⟩
      rw [History.recordAck_self]
      exact le_max_right _ _
  | countSuccess leads term success =>
      exact h.act (SameLogs.refl history).extends h.legal
        (h.count elections logs member leads (acknowledged leads term success))
        (fun _ _ _ => rfl) (by simp)

theorem Commits.init (membership : Membership)
    : Commits membership (Cluster.init membership : Cluster C) (History.initial initialEntry) where
  legal := .initial rfl
  node := fun id _ => {
    retained := fun t n _ acked => by
      rw [Nat.le_zero.mp acked]
      exact Or.inl (by simp)
    reached := by simp [History.initial]
    standing := by simp [Cluster.init, newRaftNode]
    own := by simp [Cluster.init, newRaftNode]
    commit := le_rfl
    bound := Nat.zero_le _
    applied := rfl
    durable := Or.inl rfl
  }
  packet := by simp [Cluster.init]

variable [DecidableEq C]

/-- Every step that meets the condition keeps the commit invariant. -/
theorem Commits.step (elections : Elections membership cluster history)
    (logs : Logs membership cluster history) (h : Commits membership cluster history)
    (action : Action C) (acknowledged : cluster.CommitsAcknowledged membership action)
    : Commits membership (cluster.step membership action)
        (cluster.record membership history action) := by
  have step := cluster.step_cases membership history action
  generalize cluster.step membership action = next,
    cluster.record membership history action = later at step ⊢
  cases step with
  | disabled => exact h
  | startElection member =>
      exact h.startElection elections logs member
        (fun packet sent next => Cluster.forall_broadcast (fun _ => trivial) packet sent)
  | @sendHeartbeat id member leads =>
      have old := h.node id member
      refine h.keep old
        (Commits.broadcastEntries true old ((logs.node id member).written leads) ?_)
      exact Or.inr (by simp [(elections.node id member).leads.mp leads])
  | propose member leads shape => exact h.propose elections logs member leads shape rfl
  | deliver received member handled =>
      exact h.deliver elections logs member received acknowledged handled

def AppliedAgree (membership : Membership) (cluster : Cluster C) : Prop :=
  ∀ l ∈ membership.members, ∀ r ∈ membership.members,
    cluster.applied l <+: cluster.applied r ∨ cluster.applied r <+: cluster.applied l

instance (membership : Membership) (cluster : Cluster C)
    : Decidable (AppliedAgree membership cluster) :=
  inferInstanceAs (Decidable (∀ l ∈ membership.members, ∀ r ∈ membership.members, _))

/-- Raft state-machine safety over every run of a cluster with non-empty IDs whose commits
are all acknowledged. Witness: what two nodes applied are durable parts of their logs, and
durable parts are comparable by leader completeness.
-/
theorem stateMachineSafety (membership : Membership)
    (named : ∀ id ∈ membership.members, id ≠ []) (actions : List (Action C))
    (acknowledged
      : AllSteps (Cluster.step membership) (Cluster.CommitsAcknowledged membership)
          (Cluster.init membership) actions)
    : AppliedAgree membership ((Cluster.init membership).run membership actions) := by
  obtain ⟨history, elections, logs, commits⟩ := Cluster.run_invariant_of_allSteps membership
    (Cluster.CommitsAcknowledged membership)
    (fun cluster history =>
      Elections membership cluster history
      ∧ Logs membership cluster history
      ∧ Commits membership cluster history)
    ⟨Elections.init membership, Logs.init membership, Commits.init membership⟩
    (fun _ _ action allowed h =>
      ⟨h.1.step named action, h.2.1.step h.1 action, h.2.2.step h.1 h.2.1 action allowed⟩)
    actions acknowledged
  intro l lMember r rMember
  have left := commits.node l lMember
  have right := commits.node r rMember
  rw [left.applied, right.applied]
  exact (left.durable.comparable right.durable commits.legal).imp
    (fun below => below.map _) (fun below => below.map _)

def fromStart (entries : List (LogEntry Nat)) (leaderCommit : Nat) : AppendEntriesRequest Nat :=
  { term := 1, leaderID := [1], prevLogIndex := 0, prevLogTerm := 0, entries, leaderCommit }

def accepted : AppendEntriesResponse := { term := 1, success := true }

/-- Node 1 replicates two commands to node 2, commits the first one on the two successes and
passes the commit on with a heartbeat.
-/
def firstCommit : List (Action Nat) :=
  let one := fromStart [initialEntry, ⟨1, 1, some 7⟩] 0
  let two := fromStart [initialEntry, ⟨1, 1, some 7⟩, ⟨1, 2, some 8⟩] 0
  let beat : AppendEntriesRequest Nat :=
    { term := 1, leaderID := [1], prevLogIndex := 2, prevLogTerm := 1, entries := [],
      leaderCommit := 2 }
  firstElection ++
    [
      .propose [1] 7,
      .propose [1] 8,
      .deliver ⟨[1], [2], .appendEntries one⟩,
      .deliver ⟨[1], [2], .appendEntries two⟩,
      .deliver ⟨[2], [1], .appendEntriesResponse one accepted⟩,
      .deliver ⟨[2], [1], .appendEntriesResponse two accepted⟩,
      .sendHeartbeat [1],
      .deliver ⟨[1], [2], .appendEntries beat⟩
    ]

theorem stateMachineSafety_trio
    : (∀ id ∈ trio.members, id ≠ [])
      ∧ AllSteps (Cluster.step trio) (Cluster.CommitsAcknowledged trio) (Cluster.init trio)
          firstCommit
      ∧ ((Cluster.init trio).run trio firstCommit).applied [2] = [none, some 7]
      ∧ AppliedAgree trio ((Cluster.init trio).run trio firstCommit) :=
  ⟨by decide, by decide +kernel, by decide +kernel,
    stateMachineSafety trio (by decide) firstCommit (by decide +kernel)⟩

/-- Node 1 proposes two commands that never reach node 2 and commits the first one on two
successes that answer heartbeats. Node 2 then wins term 2 with node 3's vote and commits a
command of its own at the same position in the same way.
-/
def heartbeatCommits : List (Action Nat) :=
  let beat (term : Nat) (id : GoString) : AppendEntriesRequest Nat :=
    { term, leaderID := id, prevLogIndex := 0, prevLogTerm := 0, entries := [],
      leaderCommit := 0 }
  let ballot : RequestVoteRequest :=
    { term := 2, candidateID := [2], lastLogIndex := 0, lastLogTerm := 0 }
  firstElection ++
    [
      .deliver ⟨[1], [2], .appendEntries (beat 1 [1])⟩,
      .propose [1] 7,
      .propose [1] 8,
      .deliver ⟨[2], [1], .appendEntriesResponse (beat 1 [1]) accepted⟩,
      .deliver ⟨[2], [1], .appendEntriesResponse (beat 1 [1]) accepted⟩,
      .startElection [2],
      .deliver ⟨[2], [3], .requestVote ballot⟩,
      .deliver ⟨[2], [3], .requestVote ballot⟩,
      .deliver ⟨[3], [2], .requestVoteResponse ballot { term := 2, voteGranted := true }⟩,
      .deliver ⟨[2], [3], .appendEntries (beat 2 [2])⟩,
      .propose [2] 9,
      .propose [2] 10,
      .deliver ⟨[3], [2], .appendEntriesResponse (beat 2 [2]) { term := 2, success := true }⟩,
      .deliver ⟨[3], [2], .appendEntriesResponse (beat 2 [2]) { term := 2, success := true }⟩
    ]

theorem not_appliedAgree_heartbeatCommits
    : ¬AppliedAgree trio ((Cluster.init trio).run trio heartbeatCommits) := by
  decide +kernel

end Goulette.Raft
