import Goulette.Raft.Cluster

/-! Election safety of the cluster. The invariant ties each node's term and vote to the history of
first votes, so stale grants and votes kept across a step-down are harmless.
-/

namespace Goulette.Raft

open Goulette.Go Replication Function

variable {C : Type} {membership : Membership} {cluster : Cluster C}
  {history next : History GoString (LogEntry C)} {t term : Nat} {id src dst : GoString}
  {node : RaftNode C} {request : RequestVoteRequest} {response : RequestVoteResponse}

abbrev Membership.population (membership : Membership) : Finset GoString :=
  membership.peers.keys.toFinset

/-- The sets that pass the code's majority test are majorities of the peers map. -/
theorem Membership.majority_of_card (membership : Membership) {voters : Finset GoString}
    (known : ∀ v ∈ voters, v ∈ membership.members)
    (count : membership.peers.keys.length < 2 * voters.card)
    : Majority membership.population voters := by
  refine ⟨fun v member => ?_, ?_⟩
  · exact List.mem_toFinset.mpr (membership.known v (known v member))
  · rwa [Membership.population, List.toFinset_card_of_nodup membership.peers.keys_nodup]

def ElectedBy (membership : Membership) (history : History GoString (LogEntry C)) (t : Nat)
    (l : GoString)
    : Prop :=
  l ∈ membership.members ∧ 0 < t
  ∧ ∃ voters : Finset GoString,
      Majority membership.population voters
      ∧ ∀ v ∈ voters, v ∈ membership.members ∧ ∃ log, history.vote v t = some (l, log)

/-- One node's part of the invariant: its vote is the recorded one, nothing is recorded for
terms it has not reached, a candidate's votes are recorded votes, and it leads exactly the
terms it is recorded to have won.
-/
structure NodeElections (membership : Membership) (history : History GoString (LogEntry C))
    (id : GoString) (node : RaftNode C)
    : Prop where
  nodeID : node.nodeID = id
  peers : node.peers = membership.peers
  future : ∀ t, node.currentTerm < t → history.vote id t = none ∧ history.leader t ≠ some id
  current
    : (history.vote id node.currentTerm).map Prod.fst
      = if node.votedFor = [] then none else some node.votedFor
  standing : node.state ≠ .follower → node.votedFor = id ∧ 0 < node.currentTerm
  tally
    : node.state = .candidate
      → ∀ v ∈ node.votes,
          v ∈ membership.members ∧ ∃ log, history.vote v node.currentTerm = some (id, log)
  leads : node.state = .leader ↔ history.leader node.currentTerm = some id

/-- A vote request states its sender's recorded candidacy; a granted response was preceded
by the voter's recorded vote in the request's term, and never carries a larger term.
-/
def PacketElections (membership : Membership) (history : History GoString (LogEntry C))
    (nodes : GoString → RaftNode C) (packet : Packet C)
    : Prop :=
  match packet.message with
  | .requestVote request =>
      request.candidateID = packet.src ∧ packet.src ∈ membership.members
      ∧ request.term ≤ (nodes packet.src).currentTerm
      ∧ ∃ log, history.vote packet.src request.term = some (packet.src, log)
          ∧ request.lastLogIndex = log.length - 1
          ∧ request.lastLogTerm = lastTerm LogEntry.term log
  | .requestVoteResponse request response =>
      response.voteGranted
      → packet.src ∈ membership.members
        ∧ response.term ≤ request.term
        ∧ request.term ≤ (nodes packet.dst).currentTerm
        ∧ ∃ log, history.vote packet.src request.term = some (packet.dst, log)
  | _ => True

structure Elections (membership : Membership) (cluster : Cluster C)
    (history : History GoString (LogEntry C))
    : Prop where
  node : ∀ id ∈ membership.members, NodeElections membership history id (cluster.nodes id)
  elected : ∀ t l, history.leader t = some l → ElectedBy membership history t l
  packet
    : ∀ packet ∈ cluster.network, PacketElections membership history cluster.nodes packet

/-- Two majorities of one term's votes elect one node: they share a voter. -/
theorem ElectedBy.unique {l r : GoString} (hl : ElectedBy membership history t l)
    (hr : ElectedBy membership history t r)
    : l = r := by
  obtain ⟨_, _, left, leftMajority, leftVotes⟩ := hl
  obtain ⟨_, _, right, rightMajority, rightVotes⟩ := hr
  obtain ⟨v, inLeft, inRight⟩ := leftMajority.meet rightMajority
  obtain ⟨_, log, voted⟩ := leftVotes v inLeft
  obtain ⟨_, other, votedAgain⟩ := rightVotes v inRight
  rw [voted] at votedAgain
  simp only [Option.some.injEq, Prod.mk.injEq] at votedAgain
  exact votedAgain.1

theorem ElectedBy.extend {l : GoString} (h : ElectedBy membership history t l)
    (votes : ∀ {v u ballot}, history.vote v u = some ballot → next.vote v u = some ballot)
    : ElectedBy membership next t l := by
  obtain ⟨member, positive, voters, majority, voted⟩ := h
  refine ⟨member, positive, voters, majority, fun v inVoters => ?_⟩
  obtain ⟨known, log, vote⟩ := voted v inVoters
  exact ⟨known, log, votes vote⟩

/-- A node's part depends on others only through the votes it counted. -/
theorem NodeElections.frame (h : NodeElections membership history id node)
    (votes : ∀ {v u ballot}, history.vote v u = some ballot → next.vote v u = some ballot)
    (own : ∀ t, next.vote id t = history.vote id t)
    (leader : ∀ t, next.leader t = some id ↔ history.leader t = some id)
    : NodeElections membership next id node where
  nodeID := h.nodeID
  peers := h.peers
  future := fun t later => ⟨(own t).trans (h.future t later).1,
    fun won => (h.future t later).2 ((leader t).mp won)⟩
  current := by rw [own]; exact h.current
  standing := h.standing
  tally := fun candidate v member => by
    obtain ⟨known, log, voted⟩ := h.tally candidate v member
    exact ⟨known, log, votes voted⟩
  leads := h.leads.trans (leader _).symm

theorem NodeElections.voted (h : NodeElections membership history id node)
    (ballot : (history.vote id t).isSome)
    : t ≤ node.currentTerm := by
  by_contra later
  simp [(h.future t (by omega)).1] at ballot

theorem PacketElections.mono {nodes later : GoString → RaftNode C} {packet : Packet C}
    (h : PacketElections membership history nodes packet)
    (votes : ∀ {v u ballot}, history.vote v u = some ballot → next.vote v u = some ballot)
    (terms : ∀ id, (nodes id).currentTerm ≤ (later id).currentTerm)
    : PacketElections membership next later packet := by
  obtain ⟨src, dst, message⟩ := packet
  cases message with
  | requestVote request =>
      obtain ⟨candidate, known, bound, log, voted, last⟩ := h
      exact ⟨candidate, known, bound.trans (terms src), log, votes voted, last⟩
  | requestVoteResponse request response =>
      intro granted
      obtain ⟨known, older, bound, log, voted⟩ := h granted
      exact ⟨known, older, bound.trans (terms dst), log, votes voted⟩
  | appendEntries | appendEntriesResponse => trivial

/-- Assemble the invariant after one node's step from the acting node's new part. -/
theorem Elections.act {applied : List (Option C)} {sent : List (Packet C)}
    (h : Elections membership cluster history)
    (votes : ∀ {v u ballot}, history.vote v u = some ballot → next.vote v u = some ballot)
    (term : (cluster.nodes id).currentTerm ≤ node.currentTerm)
    (self : NodeElections membership next id node)
    (others
      : ∀ other ≠ id, ∀ t,
          next.vote other t = history.vote other t
          ∧ (next.leader t = some other ↔ history.leader t = some other))
    (elected : ∀ t l, next.leader t = some l → ElectedBy membership next t l)
    (packets
      : ∀ packet ∈ sent,
          PacketElections membership next (update cluster.nodes id node) packet)
    : Elections membership (cluster.act id node applied sent) next := by
  have terms := (forall_update_iff cluster.nodes
    (fun other node => (cluster.nodes other).currentTerm ≤ node.currentTerm)).mpr
    ⟨term, fun _ _ => le_rfl⟩
  refine ⟨?_, elected, List.forall_mem_append.mpr
    ⟨fun packet old => (h.packet packet old).mono votes terms, packets⟩⟩
  exact cluster.forall_act (fun id node _ => NodeElections membership next id node) self
    (fun other member same => (h.node other member).frame votes
      (fun t => (others other same t).1) (fun t => (others other same t).2))

/-- A quiet change keeps the node's part: nothing was recorded for the term it adopts. -/
theorem NodeElections.quiet {old new : RaftNode C} (h : NodeElections membership history id old)
    (quiet : Quiet old new)
    : NodeElections membership history id new := by
  rcases quiet.ballot with ⟨term, votedFor, state, votes⟩ | ⟨higher, votedFor, state⟩
  · exact {
      nodeID := quiet.nodeID.trans h.nodeID
      peers := quiet.peers.trans h.peers
      future := by rw [term]; exact h.future
      current := by rw [term, votedFor]; exact h.current
      standing := by rw [state, term, votedFor]; exact h.standing
      tally := by rw [state, term, votes]; exact h.tally
      leads := by rw [state, term]; exact h.leads
    }
  · exact {
      nodeID := quiet.nodeID.trans h.nodeID
      peers := quiet.peers.trans h.peers
      future := fun t later => h.future t (higher.trans later)
      current := by simp [votedFor, (h.future _ higher).1]
      standing := by simp [state]
      tally := by simp [state]
      leads := by simp [state, (h.future _ higher).2]
    }

/-- The history after a quiet step: votes and winners are the recorded ones. -/
theorem Elections.quiet {applied : List (Option C)} {sent : List (Packet C)}
    (h : Elections membership cluster history) (member : id ∈ membership.members)
    (quiet : Quiet (cluster.nodes id) node) (vote : next.vote = history.vote)
    (leader : next.leader = history.leader)
    (packets
      : ∀ packet ∈ sent,
          PacketElections membership history (update cluster.nodes id node) packet)
    : Elections membership (cluster.act id node applied sent) next := by
  have votes {v : GoString} {u : Nat} {ballot : GoString × List (LogEntry C)}
      (voted : history.vote v u = some ballot) : next.vote v u = some ballot := by
    rw [vote]
    exact voted
  refine h.act votes quiet.term_le ?_ ?_ ?_ ?_
  · exact ((h.node id member).quiet quiet).frame votes (fun t => by rw [vote])
      (fun t => by rw [leader])
  · exact fun other _ t => ⟨by rw [vote], by rw [leader]⟩
  · intro t l won
    rw [leader] at won
    exact (h.elected t l won).extend votes
  · exact fun packet new => (packets packet new).mono votes (fun _ => le_rfl)

/-! Candidacies, votes and victories. -/

theorem RaftNode.getLastLogTerm_eq (node : RaftNode C)
    : node.getLastLogTerm = lastTerm LogEntry.term node.log := by
  unfold RaftNode.getLastLogTerm lastTerm
  cases node.log.getLast? <;> rfl

/-- Starting an election records the node's vote for itself in a term it had not reached. -/
theorem Elections.startElection (h : Elections membership cluster history)
    (member : id ∈ membership.members) (named : id ≠ [])
    : Elections membership
        (cluster.act id (cluster.nodes id).startElection []
          (Cluster.broadcast (cluster.nodes id).startElection id
            (fun _ => .requestVote (cluster.nodes id).startElection.requestVote)))
        (history.recordVote id ((cluster.nodes id).currentTerm + 1) id
          (cluster.nodes id).log) := by
  have old := h.node id member
  have fresh := (old.future ((cluster.nodes id).currentTerm + 1) (by omega)).1
  have votes {v : GoString} {u : Nat} {ballot : GoString × List (LogEntry C)}
      (voted : history.vote v u = some ballot) :=
    History.recordVote_keeps fresh id (cluster.nodes id).log voted
  refine h.act votes (by simp [RaftNode.startElection]) ?_ ?_ ?_ ?_
  · exact {
      nodeID := old.nodeID
      peers := old.peers
      future := by
        intro t later
        simp only [RaftNode.startElection] at later
        rw [history.recordVote_of_ne _ _ (Or.inr (by omega))]
        exact old.future t (by omega)
      current := by simp [RaftNode.startElection, History.recordVote, old.nodeID, named]
      standing := by simp [RaftNode.startElection, old.nodeID]
      tally := by
        intro _ v counted
        simp only [RaftNode.startElection, old.nodeID, Finset.mem_singleton] at counted
        subst counted
        exact ⟨member, (cluster.nodes v).log, history.recordVote_self ..⟩
      leads := by
        have unwon := (old.future ((cluster.nodes id).currentTerm + 1) (by omega)).2
        simpa [RaftNode.startElection, History.recordVote] using unwon
    }
  · intro other different t
    exact ⟨history.recordVote_of_ne _ _ (Or.inl different), Iff.rfl⟩
  · exact fun t l won => (h.elected t l won).extend votes
  · intro packet sent
    obtain ⟨peerID, _, rfl⟩ := Cluster.mem_broadcast.mp sent
    refine ⟨old.nodeID, member, ?_, (cluster.nodes id).log, ?_, rfl, ?_⟩
    · simp [RaftNode.requestVote]
    · exact history.recordVote_self ..
    · simp only [RaftNode.requestVote, RaftNode.getLastLogTerm_eq, RaftNode.startElection]

/-- A node that looks unvoted in a term has no recorded vote there. -/
theorem NodeElections.unvoted (h : NodeElections membership history id node)
    (current : node.currentTerm ≤ term) (first : node.currentTerm < term ∨ node.votedFor = [])
    : history.vote id term = none := by
  rcases first with higher | free
  · exact (h.future term higher).1
  · rcases Nat.lt_or_eq_of_le current with higher | rfl
    · exact (h.future term higher).1
    · simpa [free] using h.current

theorem NodeElections.vote {candidate : GoString} (h : NodeElections membership history id node)
    (named : id ≠ []) (candidateNamed : candidate ≠ []) (current : node.currentTerm ≤ term)
    (first : node.currentTerm < term ∨ node.votedFor = [])
    : history.vote id term = none
      ∧ NodeElections membership (history.recordVote id term candidate node.log) id
          { node.adoptTerm term with votedFor := candidate } := by
  have adopted := h.quiet (Quiet.adoptTerm node term)
  have termEq := RaftNode.adoptTerm_term current
  have free : (node.adoptTerm term).votedFor = [] := by
    unfold RaftNode.adoptTerm
    split
    · rfl
    · exact first.resolve_left (by omega)
  have fresh := h.unvoted current first
  have follower : (node.adoptTerm term).state = .follower := by
    by_contra standing
    exact named ((adopted.standing standing).1.symm.trans free)
  refine ⟨fresh, ?_⟩
  exact {
    nodeID := adopted.nodeID
    peers := adopted.peers
    future := by
      intro t later
      simp only [termEq] at later
      rw [history.recordVote_of_ne _ _ (Or.inr (by omega))]
      exact adopted.future t (by omega)
    current := by simp [History.recordVote, termEq, candidateNamed]
    standing := by simp [follower]
    tally := by simp [follower]
    leads := adopted.leads
  }

section

variable (h : Elections membership cluster history) (member : dst ∈ membership.members)
  (received : ⟨src, dst, .requestVote request⟩ ∈ cluster.network)
include h member received

/-- A first vote is recorded for a candidate that stands in the request's term. -/
theorem Elections.grantVote (named : ∀ id ∈ membership.members, id ≠ [])
    (current : (cluster.nodes dst).currentTerm ≤ request.term)
    (first
      : (cluster.nodes dst).currentTerm < request.term ∨ (cluster.nodes dst).votedFor = [])
    : Elections membership
        (cluster.act dst
          { (cluster.nodes dst).adoptTerm request.term with votedFor := request.candidateID } []
          [⟨dst, src, .requestVoteResponse request ⟨(cluster.nodes dst).currentTerm, true⟩⟩])
        (history.recordVote dst request.term request.candidateID (cluster.nodes dst).log) := by
  obtain ⟨candidate, known, reached, _, _, _⟩ := h.packet _ received
  have candidateNamed : request.candidateID ≠ [] := by
    rw [candidate]
    exact named src known
  have termEq := RaftNode.adoptTerm_term current
  obtain ⟨fresh, self⟩ :=
    (h.node dst member).vote (named dst member) candidateNamed current first
  have votes {v : GoString} {u : Nat} {ballot : GoString × List (LogEntry C)}
      (voted : history.vote v u = some ballot) :=
    History.recordVote_keeps fresh request.candidateID (cluster.nodes dst).log voted
  refine h.act votes (by simp [termEq, current]) self ?_ ?_ ?_
  · intro other different t
    exact ⟨history.recordVote_of_ne _ _ (Or.inl different), Iff.rfl⟩
  · exact fun t l won => (h.elected t l won).extend votes
  · intro packet sent
    rw [List.mem_singleton.mp sent]
    intro _
    refine ⟨member, current, ?_, (cluster.nodes dst).log, by simp [candidate]⟩
    by_cases same : src = dst
    · subst same
      simp [termEq]
    · simpa [update_of_ne same] using reached

/-- A vote that is granted again is the recorded one. -/
theorem Elections.repeatVote (term : (cluster.nodes dst).currentTerm = request.term)
    (voted : (cluster.nodes dst).votedFor ≠ [])
    (same : (cluster.nodes dst).votedFor = request.candidateID)
    : Elections membership
        (cluster.act dst (cluster.nodes dst) []
          [⟨dst, src, .requestVoteResponse request ⟨(cluster.nodes dst).currentTerm, true⟩⟩])
        history := by
  obtain ⟨candidate, _, reached, _, _, _⟩ := h.packet _ received
  have recorded := (h.node dst member).current
  rw [if_neg voted, same, term, Option.map_eq_some_iff] at recorded
  obtain ⟨⟨target, log⟩, vote, rfl⟩ := recorded
  refine h.quiet member (Quiet.refl _) rfl rfl ?_
  intro packet sent
  rw [List.mem_singleton.mp sent]
  intro _
  refine ⟨member, term.le, ?_, log, by rw [vote, candidate]⟩
  rw [update_eq_self]
  exact reached

end

/-- A counted response adds its true voter: the voter's term was the candidate's, so the
request it answers is of that term too.
-/
theorem NodeElections.count {nodes : GoString → RaftNode C}
    (h : NodeElections membership history dst (nodes dst))
    (packet
      : PacketElections membership history nodes
          ⟨src, dst, .requestVoteResponse request response⟩)
    (standing : (nodes dst).state = .candidate) (term : response.term = (nodes dst).currentTerm)
    (granted : response.voteGranted)
    : ∀ v ∈ insert src (nodes dst).votes,
        v ∈ membership.members
        ∧ ∃ log, history.vote v (nodes dst).currentTerm = some (dst, log) := by
  intro v counted
  rcases Finset.mem_insert.mp counted with rfl | earlier
  · obtain ⟨known, older, reached, log, voted⟩ := packet granted
    have same : request.term = (nodes dst).currentTerm := by
      simp only at reached
      omega
    exact ⟨known, log, same ▸ voted⟩
  · exact h.tally standing v earlier

/-- A candidate whose counted votes pass the majority test is the term's first winner. -/
theorem Elections.victory {votes : Finset GoString} (h : Elections membership cluster history)
    (member : id ∈ membership.members) (standing : (cluster.nodes id).state = .candidate)
    (counted
      : ∀ v ∈ votes,
          v ∈ membership.members
          ∧ ∃ log, history.vote v (cluster.nodes id).currentTerm = some (id, log))
    (majority : (cluster.nodes id).peers.keys.length < 2 * votes.card)
    : ElectedBy membership history (cluster.nodes id).currentTerm id
      ∧ history.leader (cluster.nodes id).currentTerm = none := by
  have old := h.node id member
  rw [old.peers] at majority
  have elected : ElectedBy membership history (cluster.nodes id).currentTerm id :=
    ⟨member, (old.standing (by simp [standing])).2, votes,
      membership.majority_of_card (fun v inVotes => (counted v inVotes).1) majority, counted⟩
  refine ⟨elected, ?_⟩
  cases won : history.leader (cluster.nodes id).currentTerm with
  | none => rfl
  | some winner =>
      have same := (h.elected _ _ won).unique elected
      have leads := old.leads.mpr (same ▸ won)
      rw [standing] at leads
      cases leads

section

variable (h : Elections membership cluster history) (member : dst ∈ membership.members)
  (received : ⟨src, dst, .requestVoteResponse request response⟩ ∈ cluster.network)
  (standing : (cluster.nodes dst).state = .candidate)
  (sameTerm : response.term = (cluster.nodes dst).currentTerm) (granted : response.voteGranted)
include h member received standing sameTerm granted

theorem Elections.countVote
    : Elections membership
        (cluster.act dst { cluster.nodes dst with votes := insert src (cluster.nodes dst).votes }
          [] [])
        history := by
  have old := h.node dst member
  refine h.act id le_rfl ?_ (fun _ _ _ => ⟨rfl, Iff.rfl⟩) h.elected (by simp)
  exact {
    nodeID := old.nodeID
    peers := old.peers
    future := old.future
    current := old.current
    standing := old.standing
    tally := fun _ => old.count (h.packet _ received) standing sameTerm granted
    leads := old.leads
  }

variable
  (majority
    : (cluster.nodes dst).peers.keys.length < 2 * (insert src (cluster.nodes dst).votes).card)
include majority

/-- The vote response that completes a majority elects its receiver, the first winner of the
term.
-/
theorem Elections.wins
    : ElectedBy membership history (cluster.nodes dst).currentTerm dst
      ∧ history.leader (cluster.nodes dst).currentTerm = none := by
  have counted := (h.node dst member).count (h.packet _ received) standing sameTerm granted
  exact h.victory member standing counted majority

theorem Elections.winElection
    (shape
      : node
        = { cluster.nodes dst with votes := insert src (cluster.nodes dst).votes }.becomeLeader)
    : Elections membership (cluster.act dst node [] (Cluster.broadcastEntries node dst true))
        ((history.recordLeader (cluster.nodes dst).currentTerm dst
            (cluster.nodes dst).log).recordAck dst (cluster.nodes dst).currentTerm
          (cluster.nodes dst).log.length) := by
  have old := h.node dst member
  obtain ⟨elected, unwon⟩ := h.wins member received standing sameTerm granted majority
  subst shape
  refine h.act id le_rfl ?_ ?_ ?_ ?_
  · exact {
      nodeID := old.nodeID
      peers := old.peers
      future := by
        intro t later
        simp only [RaftNode.becomeLeader] at later
        have different : t ≠ (cluster.nodes dst).currentTerm := by omega
        simp only [History.recordAck, History.recordLeader, update_of_ne different]
        exact old.future t later
      current := old.current
      standing := fun _ => old.standing (by simp [standing])
      tally := by simp [RaftNode.becomeLeader]
      leads := by simp [RaftNode.becomeLeader, History.recordAck, History.recordLeader]
    }
  · intro other different t
    refine ⟨rfl, ?_⟩
    by_cases same : t = (cluster.nodes dst).currentTerm
    · simp [History.recordAck, History.recordLeader, same, unwon, Ne.symm different]
    · simp [History.recordAck, History.recordLeader, update_of_ne same]
  · intro t l won
    by_cases same : t = (cluster.nodes dst).currentTerm
    · subst same
      simp only [History.recordAck, History.recordLeader, update_self,
        Option.some.injEq] at won
      exact won ▸ elected
    · simp only [History.recordAck, History.recordLeader, update_of_ne same] at won
      exact h.elected t l won
  · exact Cluster.forall_broadcast (fun _ => trivial)

end

/-- Delivering a message keeps the election invariant: only votes need an argument. -/
theorem Elections.deliver {message : Message C} {reached : Cluster C}
    (h : Elections membership cluster history) (named : ∀ id ∈ membership.members, id ≠ [])
    (member : dst ∈ membership.members) (received : ⟨src, dst, message⟩ ∈ cluster.network)
    (handled
      : Cluster.Handled cluster history src dst (cluster.nodes dst) message reached next)
    : Elections membership reached next := by
  cases handled with
  | quiet unmoved refusals =>
      refine h.quiet member unmoved.quiet rfl rfl (fun packet sent => ?_)
      cases refusals packet sent <;> simp [PacketElections]
  | grantVote current first newer => exact h.grantVote member received named current first
  | repeatVote term voted same => exact h.repeatVote member received term voted same
  | countVote standing term granted => exact h.countVote member received standing term granted
  | winElection standing term granted majority shape =>
      exact h.winElection member received standing term granted majority shape
  | observeLeader current =>
      exact h.quiet member (Quiet.observeLeader _ _) rfl rfl (by simp [PacketElections])
  | acceptEntries current check =>
      exact h.quiet member (Quiet.accepted _ _) rfl rfl (by simp [PacketElections])
  | countSuccess leads term success =>
      exact h.quiet member (Quiet.countSuccess _ _) rfl rfl (by simp)

theorem Elections.init (membership : Membership)
    : Elections membership (Cluster.init membership : Cluster C)
        (History.initial initialEntry) where
  node := fun id _ => {
    nodeID := rfl
    peers := rfl
    future := by simp [History.initial]
    current := by simp [History.initial, Cluster.init, newRaftNode]
    standing := by simp [Cluster.init, newRaftNode]
    tally := by simp [Cluster.init, newRaftNode]
    leads := by simp [History.initial, Cluster.init, newRaftNode]
  }
  elected := by simp [History.initial]
  packet := by simp [Cluster.init]

variable [DecidableEq C]

theorem Elections.step (named : ∀ id ∈ membership.members, id ≠ [])
    (h : Elections membership cluster history) (action : Action C)
    : Elections membership (cluster.step membership action)
        (cluster.record membership history action) := by
  have step := cluster.step_cases membership history action
  generalize cluster.step membership action = next,
    cluster.record membership history action = later at step ⊢
  cases step with
  | disabled => exact h
  | @startElection id member => exact h.startElection member (named id member)
  | sendHeartbeat member leads =>
      exact h.quiet member (Quiet.refl _) rfl rfl (Cluster.forall_broadcast (fun _ => trivial))
  | propose member leads shape =>
      subst shape
      exact h.quiet member ⟨rfl, rfl, Or.inl ⟨rfl, rfl, rfl, rfl⟩⟩ rfl rfl
        (Cluster.forall_broadcast (fun _ => trivial))
  | deliver received member handled => exact h.deliver named member received handled

def OneLeaderPerTerm (membership : Membership) (cluster : Cluster C) : Prop :=
  ∀ l ∈ membership.members, ∀ r ∈ membership.members,
    (cluster.nodes l).state = .leader
    → (cluster.nodes r).state = .leader
    → (cluster.nodes l).currentTerm = (cluster.nodes r).currentTerm
    → l = r

/-- Raft election safety: whatever the network does, a cluster whose nodes have non-empty
IDs and share a peers map that contains them all never has two leaders in one term.
Witness: a leader of a term is the recorded winner of that term.
-/
theorem electionSafety (membership : Membership)
    (named : ∀ id ∈ membership.members, id ≠ []) (actions : List (Action C))
    : OneLeaderPerTerm membership ((Cluster.init membership).run membership actions) := by
  obtain ⟨history, inv⟩ := Cluster.run_invariant membership (Elections membership)
    (Elections.init membership) (fun _ _ action h => h.step named action) actions
  intro l lMember r rMember lLeads rLeads sameTerm
  have left := (inv.node l lMember).leads.mp lLeads
  have right := (inv.node r rMember).leads.mp rLeads
  rw [sameTerm, right] at left
  exact (Option.some.inj left).symm

/-- Three nodes that know each other, as in the package's basic test. -/
def trio : Membership where
  peers := [⟨[1], []⟩, ⟨[2], []⟩, ⟨[3], []⟩].toAList
  members := [[1], [2], [3]]
  known := by decide

def firstBallot : RequestVoteRequest :=
  { term := 1, candidateID := [1], lastLogIndex := 0, lastLogTerm := 0 }

/-- Node 1 wins term 1. Its request reaches node 2 twice: the first grant carries node 2's
old term and would be ignored, the second one counts.
-/
def firstElection : List (Action Nat) :=
  [
    .startElection [1],
    .deliver ⟨[1], [2], .requestVote firstBallot⟩,
    .deliver ⟨[1], [2], .requestVote firstBallot⟩,
    .deliver ⟨[2], [1], .requestVoteResponse firstBallot { term := 1, voteGranted := true }⟩
  ]

theorem electionSafety_trio
    : (∀ id ∈ trio.members, id ≠ [])
      ∧ (((Cluster.init trio).run trio firstElection).nodes [1]).state = .leader
      ∧ OneLeaderPerTerm trio ((Cluster.init trio).run trio firstElection) :=
  ⟨by decide, by decide, electionSafety trio (by decide) firstElection⟩

end Goulette.Raft
