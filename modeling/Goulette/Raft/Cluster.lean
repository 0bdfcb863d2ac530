import Goulette.Library.Runs
import Goulette.Library.TermHistory
import Goulette.Raft.Node

/-! A cluster of Raft nodes over an unreliable network. A request is built in the step that sends
it, and every packet ever sent stays available. A response travels with the request it answers,
which no handler reads, and is credited to its true sender.
-/

namespace Goulette.Raft

open Goulette.Go Replication Runs

variable {C : Type}

/-- The nodes of a cluster and the peers map they share, which contains all of them. -/
structure Membership where
  peers : GoMap GoString GoString
  members : List GoString
  known : ∀ id ∈ members, id ∈ peers

inductive Message (C : Type)
  | requestVote (request : RequestVoteRequest)
  | requestVoteResponse (request : RequestVoteRequest) (response : RequestVoteResponse)
  | appendEntries (request : AppendEntriesRequest C)
  | appendEntriesResponse (request : AppendEntriesRequest C) (response : AppendEntriesResponse)
deriving DecidableEq

structure Packet (C : Type) where
  src : GoString
  dst : GoString
  message : Message C
deriving DecidableEq

/-- `applied` collects what each node has passed to `applyFunc`, oldest first. -/
structure Cluster (C : Type) where
  nodes : GoString → RaftNode C
  applied : GoString → List (Option C)
  network : List (Packet C)

inductive Action (C : Type)
  | startElection (id : GoString)
  | sendHeartbeat (id : GoString)
  | propose (id : GoString) (command : C)
  | deliver (packet : Packet C)

/-- A node change that casts and counts no vote: the ballot stays, or a larger term is
adopted without a vote.
-/
structure Quiet (old new : RaftNode C) : Prop where
  nodeID : new.nodeID = old.nodeID
  peers : new.peers = old.peers
  ballot
    : (new.currentTerm = old.currentTerm ∧ new.votedFor = old.votedFor
        ∧ new.state = old.state ∧ new.votes = old.votes)
      ∨ (old.currentTerm < new.currentTerm ∧ new.votedFor = [] ∧ new.state = .follower)

theorem Quiet.term_le {old new : RaftNode C} (h : Quiet old new)
    : old.currentTerm ≤ new.currentTerm := by
  rcases h.ballot with ⟨same, _⟩ | ⟨lt, _⟩ <;> omega

theorem Quiet.refl (node : RaftNode C) : Quiet node node :=
  ⟨rfl, rfl, Or.inl ⟨rfl, rfl, rfl, rfl⟩⟩

theorem Quiet.stepDown (node : RaftNode C) {term : Nat} (higher : node.currentTerm < term)
    : Quiet node (node.stepDown term) :=
  ⟨rfl, rfl, Or.inr ⟨higher, rfl, rfl⟩⟩

theorem Quiet.adoptTerm (node : RaftNode C) (term : Nat) : Quiet node (node.adoptTerm term) := by
  unfold RaftNode.adoptTerm
  split
  · next higher => exact Quiet.stepDown node higher
  · exact Quiet.refl node

theorem Quiet.observeLeader (node : RaftNode C) (request : AppendEntriesRequest C)
    : Quiet node (node.observeLeader request) := by
  unfold RaftNode.observeLeader
  split
  · next higher => exact ⟨rfl, rfl, Or.inr ⟨higher, rfl, rfl⟩⟩
  · exact ⟨rfl, rfl, Or.inl ⟨rfl, rfl, rfl, rfl⟩⟩

theorem Quiet.kept {old new : RaftNode C} (quiet : Quiet old new)
    : (new.currentTerm = old.currentTerm ∧ new.state = old.state)
      ∨ (old.currentTerm < new.currentTerm ∧ new.state = .follower) := by
  rcases quiet.ballot with ⟨term, _, state, _⟩ | ⟨higher, _, follower⟩
  · exact Or.inl ⟨term, state⟩
  · exact Or.inr ⟨higher, follower⟩

/-- Whoever leads after a quiet change led that term before. -/
theorem Quiet.leads {old new : RaftNode C} (quiet : Quiet old new) (leads : new.state = .leader)
    : old.state = .leader ∧ new.currentTerm = old.currentTerm := by
  rcases quiet.kept with ⟨term, state⟩ | ⟨_, follower⟩
  · exact ⟨state ▸ leads, term⟩
  · rw [follower] at leads
    cases leads

/-- An accepted request changes the log and the committed positions. -/
theorem Quiet.accepted (node : RaftNode C) (request : AppendEntriesRequest C)
    : Quiet node ((node.appended request).updateCommit request.leaderCommit).1 := by
  obtain ⟨commitIndex, lastApplied, moved⟩ :=
    (node.appended request).updateCommit_fst request.leaderCommit
  rw [moved]
  exact ⟨(Quiet.observeLeader node request).nodeID, (Quiet.observeLeader node request).peers,
    (Quiet.observeLeader node request).ballot⟩

theorem Quiet.countSuccess (node : RaftNode C) (peerID : GoString)
    : Quiet node (node.countSuccess peerID).tryCommitLogs.1 := by
  obtain ⟨commitIndex, lastApplied, moved⟩ := (node.countSuccess peerID).tryCommitLogs_fst
  rw [moved]
  exact ⟨rfl, rfl, Or.inl ⟨rfl, rfl, rfl, rfl⟩⟩

theorem Quiet.handleAppendEntries (node : RaftNode C) (request : AppendEntriesRequest C)
    : Quiet node (node.handleAppendEntries request).1 := by
  rcases node.handleAppendEntries_cases request with
    ⟨_, handled⟩ | ⟨_, handled⟩ | ⟨_, _, handled⟩ <;> rw [handled]
  · exact Quiet.refl node
  · exact Quiet.observeLeader node request
  · exact Quiet.accepted node request

theorem Quiet.handleAppendEntriesResponse (node : RaftNode C) (peerID : GoString)
    (response : AppendEntriesResponse)
    : Quiet node (node.handleAppendEntriesResponse peerID response).1 := by
  rcases node.handleAppendEntriesResponse_cases peerID response with
    ⟨higher, handled⟩ | handled | ⟨_, _, _, handled⟩ | ⟨_, handled⟩ <;> rw [handled]
  · exact Quiet.stepDown node higher
  · exact Quiet.refl node
  · exact Quiet.countSuccess node peerID
  · exact ⟨rfl, rfl, Or.inl ⟨rfl, rfl, rfl, rfl⟩⟩

/-- What a message does that a node does not follow: it moves a peer's `nextIndex` at most, or
makes the node step down.
-/
inductive Unmoved (node : RaftNode C) : RaftNode C → Prop
  | stays (nextIndex : GoString → Nat) : Unmoved node { node with nextIndex }
  | stepsDown {term : Nat} (higher : node.currentTerm < term) : Unmoved node (node.stepDown term)

theorem Unmoved.adoptTerm (node : RaftNode C) (term : Nat)
    : Unmoved node (node.adoptTerm term) := by
  unfold RaftNode.adoptTerm
  split
  · next higher => exact .stepsDown higher
  · exact .stays node.nextIndex

theorem Unmoved.quiet {old new : RaftNode C} (unmoved : Unmoved old new) : Quiet old new := by
  cases unmoved with
  | stays nextIndex => exact ⟨rfl, rfl, Or.inl ⟨rfl, rfl, rfl, rfl⟩⟩
  | stepsDown higher => exact Quiet.stepDown old higher

theorem Unmoved.same {old new : RaftNode C} (unmoved : Unmoved old new)
    : RaftNode.LogKept old new ∧ new.matchIndex = old.matchIndex := by
  cases unmoved with
  | stays | stepsDown => exact ⟨⟨rfl, rfl, rfl⟩, rfl⟩

inductive Refusal : Packet C → Prop
  | vote (src dst : GoString) (request : RequestVoteRequest) (term : Nat)
      : Refusal ⟨src, dst, .requestVoteResponse request { term, voteGranted := false }⟩
  | append (src dst : GoString) (request : AppendEntriesRequest C) (term : Nat)
      : Refusal ⟨src, dst, .appendEntriesResponse request { term, success := false }⟩

namespace Cluster

def init (membership : Membership) : Cluster C where
  nodes := fun id => newRaftNode id membership.peers
  applied := fun _ => []
  network := []

def act (cluster : Cluster C) (id : GoString) (node : RaftNode C) (applied : List (Option C))
    (sent : List (Packet C))
    : Cluster C where
  nodes := Function.update cluster.nodes id node
  applied := Function.update cluster.applied id (cluster.applied id ++ applied)
  network := cluster.network ++ sent

def broadcast (node : RaftNode C) (id : GoString) (message : GoString → Message C)
    : List (Packet C) :=
  node.peerIDs.map (fun peerID => { src := id, dst := peerID, message := message peerID })

def broadcastEntries (node : RaftNode C) (id : GoString) (isHeartbeat : Bool)
    : List (Packet C) :=
  broadcast node id (fun peerID => .appendEntries (node.sendAppendEntries peerID isHeartbeat))

/-- What holds of the acting node after its step, and of every other one as it is, holds of all. -/
theorem forall_act (cluster : Cluster C) {id : GoString} {node : RaftNode C}
    {applied : List (Option C)} {sent : List (Packet C)} {members : List GoString}
    (holds : GoString → RaftNode C → List (Option C) → Prop)
    (self : holds id node (cluster.applied id ++ applied))
    (others
      : ∀ other ∈ members, other ≠ id
          → holds other (cluster.nodes other) (cluster.applied other))
    : ∀ other ∈ members,
        holds other ((cluster.act id node applied sent).nodes other)
          ((cluster.act id node applied sent).applied other) := by
  intro other member
  by_cases same : other = id
  · subst same
    simpa [act] using self
  · simp only [act, Function.update_of_ne same]
    exact others other member same

theorem mem_broadcast {node : RaftNode C} {id : GoString} {message : GoString → Message C}
    {packet : Packet C}
    : packet ∈ broadcast node id message
      ↔ ∃ peerID ∈ node.peerIDs,
          packet = { src := id, dst := peerID, message := message peerID } := by
  simp only [broadcast, List.mem_map, eq_comm]

/-- What holds of the message to every peer holds of a broadcast. -/
theorem forall_broadcast {node : RaftNode C} {id : GoString} {message : GoString → Message C}
    {holds : Packet C → Prop}
    (all : ∀ peerID, holds { src := id, dst := peerID, message := message peerID })
    : ∀ packet ∈ broadcast node id message, holds packet := by
  intro packet sent
  obtain ⟨peerID, _, rfl⟩ := mem_broadcast.mp sent
  exact all peerID

def receive (cluster : Cluster C) (src dst : GoString) : Message C → Cluster C
  | .requestVote request =>
      let result := (cluster.nodes dst).handleRequestVote request
      cluster.act dst result.1 []
        [{ src := dst, dst := src, message := .requestVoteResponse request result.2 }]
  | .requestVoteResponse _ response =>
      let result := (cluster.nodes dst).handleRequestVoteResponse src response
      cluster.act dst result.1 []
        (if result.2 then broadcastEntries result.1 dst true else [])
  | .appendEntries request =>
      let result := (cluster.nodes dst).handleAppendEntries request
      cluster.act dst result.1 result.2.1
        [{ src := dst, dst := src, message := .appendEntriesResponse request result.2.2 }]
  | .appendEntriesResponse _ response =>
      let result := (cluster.nodes dst).handleAppendEntriesResponse src response
      cluster.act dst result.1 result.2 []

variable [DecidableEq C]

/-- One step of the cluster. An action that is not enabled changes nothing: an unknown node,
a packet that was never sent, a heartbeat or proposal on a node that is not leader.
-/
def step (membership : Membership) (cluster : Cluster C) : Action C → Cluster C
  | .startElection id =>
      if id ∈ membership.members then
        let node := (cluster.nodes id).startElection
        cluster.act id node [] (broadcast node id (fun _ => .requestVote node.requestVote))
      else cluster
  | .sendHeartbeat id =>
      if id ∈ membership.members ∧ (cluster.nodes id).state = .leader then
        cluster.act id (cluster.nodes id) [] (broadcastEntries (cluster.nodes id) id true)
      else cluster
  | .propose id command =>
      if id ∈ membership.members then
        match (cluster.nodes id).propose command with
        | .error _ => cluster
        | .ok node => cluster.act id node [] (broadcastEntries node id false)
      else cluster
  | .deliver packet =>
      if packet ∈ cluster.network ∧ packet.dst ∈ membership.members then
        cluster.receive packet.src packet.dst packet.message
      else cluster

def run (membership : Membership) (cluster : Cluster C) (actions : List (Action C)) : Cluster C :=
  actions.foldl (step membership) cluster

/-- What a step adds to the history of the run: a first vote of a term, a winner with its
log, a leader's extended log, or an accepted append request. No handler reads it.
-/
def record (membership : Membership) (cluster : Cluster C)
    (history : History GoString (LogEntry C))
    : Action C → History GoString (LogEntry C)
  | .startElection id =>
      if id ∈ membership.members then
        history.recordVote id ((cluster.nodes id).currentTerm + 1) id (cluster.nodes id).log
      else history
  | .sendHeartbeat _ => history
  | .propose id command =>
      if id ∈ membership.members then
        match (cluster.nodes id).propose command with
        | .error _ => history
        | .ok node =>
            (history.recordTermLog node.currentTerm node.log).recordAck id node.currentTerm
              node.log.length
      else history
  | .deliver packet =>
      let node := cluster.nodes packet.dst
      if packet ∈ cluster.network ∧ packet.dst ∈ membership.members then
        match packet.message with
        | .requestVote request =>
            if (node.handleRequestVote request).2.voteGranted
                ∧ (node.currentTerm < request.term ∨ node.votedFor = []) then
              history.recordVote packet.dst request.term request.candidateID node.log
            else history
        | .requestVoteResponse _ response =>
            if (node.handleRequestVoteResponse packet.src response).2 then
              (history.recordLeader node.currentTerm packet.dst node.log).recordAck packet.dst
                node.currentTerm node.log.length
            else history
        | .appendEntries request =>
            if (node.handleAppendEntries request).2.2.success then
              history.recordAck packet.dst request.term
                (request.prevLogIndex + request.entries.length)
            else history
        | .appendEntriesResponse _ _ => history
      else history

instance decidablePacketMem (packet : Packet C) (packets : List (Packet C))
    : Decidable (packet ∈ packets) :=
  inferInstance

/-- What the delivery of a message to a node can do to the cluster and its history. -/
inductive Handled (cluster : Cluster C) (history : History GoString (LogEntry C))
    (src dst : GoString) (node : RaftNode C)
    : Message C → Cluster C → History GoString (LogEntry C) → Prop
  | quiet {message : Message C} {next : RaftNode C} {sent : List (Packet C)}
      (unmoved : Unmoved node next) (refusals : ∀ packet ∈ sent, Refusal packet)
      : Handled cluster history src dst node message (cluster.act dst next [] sent) history
  | grantVote {request : RequestVoteRequest} (current : node.currentTerm ≤ request.term)
      (first : node.currentTerm < request.term ∨ node.votedFor = [])
      (newer
        : (node.adoptTerm request.term).isLogUpToDate request.lastLogIndex request.lastLogTerm)
      : Handled cluster history src dst node (.requestVote request)
          (cluster.act dst
            { node.adoptTerm request.term with votedFor := request.candidateID } []
            [⟨dst, src, .requestVoteResponse request ⟨node.currentTerm, true⟩⟩])
          (history.recordVote dst request.term request.candidateID node.log)
  | repeatVote {request : RequestVoteRequest} (term : node.currentTerm = request.term)
      (voted : node.votedFor ≠ []) (same : node.votedFor = request.candidateID)
      : Handled cluster history src dst node (.requestVote request)
          (cluster.act dst node []
            [⟨dst, src, .requestVoteResponse request ⟨node.currentTerm, true⟩⟩])
          history
  | countVote {request : RequestVoteRequest} {response : RequestVoteResponse}
      (standing : node.state = .candidate) (term : response.term = node.currentTerm)
      (granted : response.voteGranted)
      : Handled cluster history src dst node (.requestVoteResponse request response)
          (cluster.act dst { node with votes := insert src node.votes } [] []) history
  | winElection {request : RequestVoteRequest} {response : RequestVoteResponse}
      {leader : RaftNode C} (standing : node.state = .candidate)
      (term : response.term = node.currentTerm) (granted : response.voteGranted)
      (majority : node.peers.keys.length < 2 * (insert src node.votes).card)
      (shape : leader = { node with votes := insert src node.votes }.becomeLeader)
      : Handled cluster history src dst node (.requestVoteResponse request response)
          (cluster.act dst leader [] (broadcastEntries leader dst true))
          ((history.recordLeader node.currentTerm dst node.log).recordAck dst node.currentTerm
            node.log.length)
  | observeLeader {request : AppendEntriesRequest C} (current : node.currentTerm ≤ request.term)
      : Handled cluster history src dst node (.appendEntries request)
          (cluster.act dst (node.observeLeader request) []
            [⟨dst, src, .appendEntriesResponse request ⟨node.currentTerm, false⟩⟩])
          history
  | acceptEntries {request : AppendEntriesRequest C} (current : node.currentTerm ≤ request.term)
      (check : (node.observeLeader request).matchesPrev request)
      : Handled cluster history src dst node (.appendEntries request)
          (cluster.act dst ((node.appended request).updateCommit request.leaderCommit).1
            ((node.appended request).updateCommit request.leaderCommit).2
            [⟨dst, src, .appendEntriesResponse request ⟨node.currentTerm, true⟩⟩])
          (history.recordAck dst request.term (request.prevLogIndex + request.entries.length))
  | countSuccess {request : AppendEntriesRequest C} {response : AppendEntriesResponse}
      (leads : node.state = .leader) (term : response.term = node.currentTerm)
      (success : response.success)
      : Handled cluster history src dst node (.appendEntriesResponse request response)
          (cluster.act dst (node.countSuccess src).tryCommitLogs.1
            (node.countSuccess src).tryCommitLogs.2 [])
          history

theorem handled {membership : Membership} {cluster : Cluster C} {src dst : GoString}
    {message : Message C} (received : ⟨src, dst, message⟩ ∈ cluster.network)
    (member : dst ∈ membership.members) (history : History GoString (LogEntry C))
    : Handled cluster history src dst (cluster.nodes dst) message
        (cluster.receive src dst message)
        (cluster.record membership history (.deliver ⟨src, dst, message⟩)) := by
  have stays : Unmoved (cluster.nodes dst) (cluster.nodes dst) := .stays _
  cases message with
  | requestVote request =>
      simp only [record, received, member, and_self, if_true, receive]
      rcases (cluster.nodes dst).handleRequestVote_cases request with
        ⟨_, handled⟩ | ⟨_, handled⟩ | ⟨current, choice, newer, handled⟩
      · simp only [handled, Bool.false_eq_true, false_and, if_false]
        exact .quiet stays (List.forall_mem_singleton.mpr (.vote ..))
      · simp only [handled, Bool.false_eq_true, false_and, if_false]
        exact .quiet (.adoptTerm _ _) (List.forall_mem_singleton.mpr (.vote ..))
      · simp only [handled, true_and]
        split
        · next first => exact .grantVote current first newer
        · next repeated =>
            -- the term is not new, and the vote went to the candidate before
            obtain ⟨notHigher, voted⟩ := not_or.mp repeated
            have same : (cluster.nodes dst).adoptTerm request.term = cluster.nodes dst := by
              simp [RaftNode.adoptTerm, notHigher]
            rw [same] at choice ⊢
            have chosen := choice.resolve_left voted
            rw [← show cluster.nodes dst
                = { cluster.nodes dst with votedFor := request.candidateID } by rw [← chosen]]
            exact .repeatVote (by omega) voted chosen
  | requestVoteResponse request response =>
      simp only [record, received, member, and_self, if_true, receive]
      rcases (cluster.nodes dst).handleRequestVoteResponse_cases src response with
        ⟨higher, handled⟩ | handled | ⟨standing, term, granted, _, handled⟩
        | ⟨standing, term, granted, majority, handled⟩
      · simp only [handled, Bool.false_eq_true, if_false]
        exact .quiet (.stepsDown higher) (by simp)
      · simp only [handled, Bool.false_eq_true, if_false]
        exact .quiet stays (by simp)
      · simp only [handled, Bool.false_eq_true, if_false]
        exact .countVote standing term granted
      · simp only [handled, if_true]
        exact .winElection standing term granted majority rfl
  | appendEntries request =>
      simp only [record, received, member, and_self, if_true, receive]
      rcases (cluster.nodes dst).handleAppendEntries_cases request with
        ⟨_, handled⟩ | ⟨current, handled⟩ | ⟨current, check, handled⟩
      · simp only [handled, Bool.false_eq_true, if_false]
        exact .quiet stays (List.forall_mem_singleton.mpr (.append ..))
      · simp only [handled, Bool.false_eq_true, if_false]
        exact .observeLeader current
      · simp only [handled, if_true]
        exact .acceptEntries current check
  | appendEntriesResponse request response =>
      simp only [record, received, member, and_self, if_true, receive]
      rcases (cluster.nodes dst).handleAppendEntriesResponse_cases src response with
        ⟨higher, handled⟩ | handled | ⟨leads, term, success, handled⟩ | ⟨_, handled⟩
      · simp only [handled]
        exact .quiet (.stepsDown higher) (by simp)
      · simp only [handled]
        exact .quiet stays (by simp)
      · simp only [handled]
        exact .countSuccess leads term success
      · simp only [handled]
        exact .quiet (.stays _) (by simp)

/-- What a step can do to a cluster and its history: nothing, or the effect of an action that
is enabled.
-/
inductive StepCases (membership : Membership) (cluster : Cluster C)
    (history : History GoString (LogEntry C))
    : Action C → Cluster C → History GoString (LogEntry C) → Prop
  | disabled (action : Action C)
      : StepCases membership cluster history action cluster history
  | startElection {id : GoString} (member : id ∈ membership.members)
      : StepCases membership cluster history (.startElection id)
          (cluster.act id (cluster.nodes id).startElection []
            (broadcast (cluster.nodes id).startElection id
              (fun _ => .requestVote (cluster.nodes id).startElection.requestVote)))
          (history.recordVote id ((cluster.nodes id).currentTerm + 1) id (cluster.nodes id).log)
  | sendHeartbeat {id : GoString} (member : id ∈ membership.members)
      (leads : (cluster.nodes id).state = .leader)
      : StepCases membership cluster history (.sendHeartbeat id)
          (cluster.act id (cluster.nodes id) [] (broadcastEntries (cluster.nodes id) id true))
          history
  | propose {id : GoString} {command : C} {node : RaftNode C} (member : id ∈ membership.members)
      (leads : (cluster.nodes id).state = .leader)
      (shape
        : node
          = { cluster.nodes id with
              log := (cluster.nodes id).log ++
                [⟨(cluster.nodes id).currentTerm, (cluster.nodes id).getLastLogIndex + 1,
                  some command⟩] })
      : StepCases membership cluster history (.propose id command)
          (cluster.act id node [] (broadcastEntries node id false))
          ((history.recordTermLog node.currentTerm node.log).recordAck id node.currentTerm
            node.log.length)
  | deliver {src dst : GoString} {message : Message C} {next : Cluster C}
      {later : History GoString (LogEntry C)}
      (received : ⟨src, dst, message⟩ ∈ cluster.network) (member : dst ∈ membership.members)
      (handled : Handled cluster history src dst (cluster.nodes dst) message next later)
      : StepCases membership cluster history (.deliver ⟨src, dst, message⟩) next later

theorem step_cases (membership : Membership) (cluster : Cluster C)
    (history : History GoString (LogEntry C)) (action : Action C)
    : StepCases membership cluster history action (cluster.step membership action)
        (cluster.record membership history action) := by
  cases action with
  | startElection id =>
      by_cases member : id ∈ membership.members
      · simp only [step, record, member, if_true]
        exact .startElection member
      · simp only [step, record, member, if_false]
        exact .disabled _
  | sendHeartbeat id =>
      by_cases enabled : id ∈ membership.members ∧ (cluster.nodes id).state = .leader
      · simp only [step, record, enabled, and_self, if_true]
        exact .sendHeartbeat enabled.1 enabled.2
      · simp only [step, record, enabled, if_false]
        exact .disabled _
  | propose id command =>
      by_cases member : id ∈ membership.members
      · simp only [step, record, member, if_true, RaftNode.propose]
        by_cases leads : (cluster.nodes id).state = .leader
        · simp only [leads, ne_eq, not_true_eq_false, if_false]
          exact .propose member leads (by simp only [leads])
        · simp only [ne_eq, leads, not_false_eq_true, if_true]
          exact .disabled _
      · simp only [step, record, member, if_false]
        exact .disabled _
  | deliver packet =>
      obtain ⟨src, dst, message⟩ := packet
      by_cases enabled
          : (⟨src, dst, message⟩ : Packet C) ∈ cluster.network ∧ dst ∈ membership.members
      · have delivered
            : cluster.step membership (.deliver ⟨src, dst, message⟩)
              = cluster.receive src dst message := by
          simp only [step, enabled, and_self, if_true]
        rw [delivered]
        exact .deliver enabled.1 enabled.2 (handled enabled.1 enabled.2 history)
      · simp only [step, record, enabled, if_false]
        exact .disabled _

/-- An invariant of a cluster and its history that every allowed step keeps holds after any
run of allowed steps from the initial state.
-/
theorem run_invariant_of_allSteps (membership : Membership)
    (allowed : Cluster C → Action C → Prop)
    (invariant : Cluster C → History GoString (LogEntry C) → Prop)
    (start : invariant (init membership) (History.initial initialEntry))
    (keep
      : ∀ cluster history action,
          allowed cluster action
          → invariant cluster history
          → invariant (cluster.step membership action)
              (cluster.record membership history action))
    (actions : List (Action C))
    (steps : AllSteps (step membership) allowed (init membership) actions)
    : ∃ history, invariant ((init membership).run membership actions) history :=
  ⟨_, AllSteps.simulation keep start steps⟩

theorem run_invariant (membership : Membership)
    (invariant : Cluster C → History GoString (LogEntry C) → Prop)
    (start : invariant (init membership) (History.initial initialEntry))
    (keep
      : ∀ cluster history action,
          invariant cluster history
          → invariant (cluster.step membership action)
              (cluster.record membership history action))
    (actions : List (Action C))
    : ∃ history, invariant ((init membership).run membership actions) history :=
  run_invariant_of_allSteps membership (fun _ _ => True) invariant start
    (fun cluster history action _ => keep cluster history action) actions
    (AllSteps.of_forall (fun _ _ => trivial) _ _)

end Cluster

end Goulette.Raft
