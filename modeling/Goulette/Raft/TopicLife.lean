import Goulette.Raft.ManagerRuns

/-! The life of a topic under a manager that replaces its node with every role assignment. -/

namespace Goulette.Raft

open Goulette.Go Goulette.Storage Runs ByteFrames List

namespace RaftNode

variable {C : Type} {old new node : RaftNode C} {grants : List (Nat × GoString)}

/-- The vote a call grants, as term and candidate; a candidate votes for itself. -/
def granted (node : RaftNode C) : NodeCall C → Option (Nat × GoString)
  | .startElection => some (addWord node.currentTerm 1, node.nodeID)
  | .requestVote request =>
      if (node.handleRequestVote request).2.voteGranted then
        some (request.term, request.candidateID)
      else none
  | _ => none

def committed (node : RaftNode C) : List (LogEntry C) := node.log.take node.commitIndex

/-- No entry of the request differs in term from a committed one. -/
def RespectsCommitted (node : RaftNode C) (request : AppendEntriesRequest C) : Prop :=
  ∀ entry ∈ request.entries.zipIdx request.prevLogIndex, entry.2 < node.commitIndex
    → node.log[entry.2]?.map LogEntry.term = some entry.1.term

/-- Candidates have a name, no election wraps the term, and an accepted request does not overwrite
committed entries.
-/
def KeepsPast (node : RaftNode C) : NodeCall C → Prop
  | .startElection => node.nodeID ≠ [] ∧ node.currentTerm + 1 < 2 ^ 64
  | .requestVote request => request.candidateID ≠ []
  | .appendEntries request =>
      node.currentTerm ≤ request.term → node.matchesPrev request
      → node.RespectsCommitted request
  | _ => True

instance (node : RaftNode C) : DecidablePred node.KeepsPast := fun action => by
  unfold RaftNode.KeepsPast RespectsCommitted
  split <;> infer_instance

/-- Under the condition no call wraps. -/
theorem KeepsPast.wordCall {node : RaftNode Command} {call : NodeCall Command}
    (kept : node.KeepsPast call)
    : node.wordCall call = (node.call call).1 := by
  cases call with
  | startElection =>
      rw [RaftNode.wordCall, Checked.startElection, addWord_eq kept.2]
      rfl
  | _ => rfl

/-- An entry that agrees with the first `count` positions leaves them as they are. -/
theorem appendEntry_take {log : List (LogEntry C)} {position count : Nat} {entry : LogEntry C}
    (inside : count < log.length)
    (agrees : position < count → log[position]?.map LogEntry.term = some entry.term)
    : (appendEntry log (position + 1) entry).take count = log.take count
      ∧ count < (appendEntry log (position + 1) entry).length := by
  simp only [appendEntry, Nat.add_sub_cancel]
  cases held : log[position]? with
  | none =>
      have beyond := List.getElem?_eq_none_iff.mp held
      dsimp only
      rw [if_pos (by omega), take_append_of_le_length (by omega), length_append]
      exact ⟨rfl, by omega⟩
  | some found =>
      obtain ⟨within, _⟩ := List.getElem?_eq_some_iff.mp held
      by_cases same : found.term = entry.term
      · simp only [same, ne_eq, not_true_eq_false, if_false]
        rw [if_neg (by omega)]
        exact ⟨rfl, inside⟩
      · have later : count ≤ position := by
          by_contra before
          have agree := agrees (by omega)
          rw [held] at agree
          exact same (Option.some.inj agree)
        have cut : (log.take position).length = position := length_take_of_le (by omega)
        simp only [same, ne_eq, not_false_eq_true, if_true]
        rw [if_pos (by omega), take_append_of_le_length (by omega), take_take,
          Nat.min_eq_left later, length_append, cut]
        exact ⟨rfl, by simp only [length_singleton]; omega⟩

/-- The append loop keeps the first positions if the entries agree with them, by induction on
the entries.
-/
theorem appendLoop_take {log entries : List (LogEntry C)} {position count : Nat}
    (inside : count < log.length)
    (agrees
      : ∀ entry ∈ entries.zipIdx position, entry.2 < count
          → log[entry.2]?.map LogEntry.term = some entry.1.term)
    : (appendLoop log (position + 1) entries).take count = log.take count
      ∧ count < (appendLoop log (position + 1) entries).length := by
  induction entries generalizing log position with
  | nil => exact ⟨rfl, inside⟩
  | cons first rest ih =>
      obtain ⟨kept, long⟩ := appendEntry_take inside
        (agrees (first, position) (by simp [zipIdx_cons]))
      have later
          : ∀ entry ∈ rest.zipIdx (position + 1), entry.2 < count
              → (appendEntry log (position + 1) first)[entry.2]?.map LogEntry.term
                = some entry.1.term := by
        intro entry member below
        have same : (appendEntry log (position + 1) first)[entry.2]? = log[entry.2]? := by
          rw [← List.getElem?_take_of_lt below, kept, List.getElem?_take_of_lt below]
        rw [same]
        exact agrees entry (by simp [zipIdx_cons, member]) below
      obtain ⟨rest, length⟩ := ih long later
      exact ⟨rest.trans kept, length⟩

/-- A later node of the topic: the term has not gone back, committed entries stay committed,
and the commit index stays below the end of the log.
-/
structure Outlasts (old new : RaftNode C) : Prop where
  term : old.currentTerm ≤ new.currentTerm
  committed : old.committed <+: new.committed
  bound : new.commitIndex < new.log.length

theorem Outlasts.of_same (bound : old.commitIndex < old.log.length)
    (term : old.currentTerm ≤ new.currentTerm) (log : new.log = old.log)
    (commitIndex : new.commitIndex = old.commitIndex)
    : Outlasts old new where
  term
  committed := by rw [RaftNode.committed, RaftNode.committed, log, commitIndex]
  bound := by rwa [log, commitIndex]

section

variable (bound : node.commitIndex < node.log.length)
include bound

theorem Outlasts.handleAppendEntries {request : AppendEntriesRequest C}
    (kept : node.KeepsPast (.appendEntries request))
    : Outlasts node (node.handleAppendEntries request).1 := by
  have later := (Successor.handleAppendEntries node request).term
  have log := node.observeLeader_log request
  have commitIndex := (node.observeLeader_commit request).1
  have appended : (node.appended request).commitIndex = node.commitIndex := commitIndex
  rcases node.handleAppendEntries_cases request with
    ⟨_, handled⟩ | ⟨_, handled⟩ | ⟨current, check, handled⟩ <;>
    rw [handled] at later ⊢
  · exact .of_same bound later rfl rfl
  · exact .of_same bound later log commitIndex
  · rw [node.observeLeader_matchesPrev request] at check
    obtain ⟨same, long⟩ := appendLoop_take bound (kept current check)
    unfold updateCommit at later ⊢
    split
    · next raised =>
        rw [appended] at raised
        rw [applyLogs_fst]
        refine ⟨(Quiet.observeLeader node request).term_le, ?_, ?_⟩
        · simp only [RaftNode.committed, getLastLogIndex, RaftNode.appended]
          rw [← same]
          exact take_prefix_take_left (by omega)
        · simp only [getLastLogIndex, RaftNode.appended]
          omega
    · refine ⟨(Quiet.observeLeader node request).term_le, ?_, ?_⟩
      · rw [RaftNode.committed, RaftNode.committed, appended]
        exact same ▸ prefix_refl _
      · rw [appended]
        exact long

theorem Outlasts.handleAppendEntriesResponse (peerID : GoString) (response : AppendEntriesResponse)
    : Outlasts node (node.handleAppendEntriesResponse peerID response).1 := by
  have later := (Successor.handleAppendEntriesResponse node peerID response).term
  rcases node.handleAppendEntriesResponse_cases peerID response with
    ⟨_, handled⟩ | handled | ⟨_, _, _, handled⟩ | ⟨_, handled⟩ <;> rw [handled] at later ⊢
  · exact .of_same bound later rfl rfl
  · exact .of_same bound later rfl rfl
  · obtain ⟨last, reached, origin⟩ := (node.countSuccess peerID).tryCommitLogs_eq
    have raised : node.commitIndex ≤ last ∧ last < node.log.length := by
      rcases origin with same | ⟨above, inside, _⟩
      · exact ⟨same.ge, same.trans_lt bound⟩
      · have inside' : last ≤ node.log.length - 1 := inside
        exact ⟨Nat.le_of_lt above, by omega⟩
    rw [reached, applyLogs_fst]
    exact ⟨le_rfl, take_prefix_take_left raised.1, raised.2⟩
  · exact .of_same bound later rfl rfl

theorem Outlasts.call {call : NodeCall C} (kept : node.KeepsPast call)
    : Outlasts node (node.call call).1 := by
  have later := (Successor.call node call).term
  cases call with
  | startElection => exact .of_same bound later rfl rfl
  | propose command =>
      simp only [RaftNode.call]
      cases proposed : node.propose command with
      | error failure => exact .of_same bound le_rfl rfl rfl
      | ok next =>
          obtain ⟨_, rfl⟩ := propose_ok proposed
          refine ⟨le_rfl, ?_, ?_⟩
          · rw [RaftNode.committed, RaftNode.committed,
              take_append_of_le_length (Nat.le_of_lt bound)]
          · simp only [length_append]
            omega
  | requestVote request =>
      have kept := LogKept.handleRequestVote node request
      exact .of_same bound later kept.log kept.commitIndex
  | requestVoteResponse peerID response =>
      have kept := LogKept.handleRequestVoteResponse node peerID response
      exact .of_same bound later kept.log kept.commitIndex
  | appendEntries request => exact .handleAppendEntries bound kept
  | appendEntriesResponse peerID response =>
      exact .handleAppendEntriesResponse bound peerID response

end

/-- The node remembers the votes of its term: every grant of the term is its `votedFor`. -/
def Remembers (node : RaftNode C) (grants : List (Nat × GoString)) : Prop :=
  ∀ grant ∈ grants, grant.2 ≠ [] ∧ grant.1 ≤ node.currentTerm
    ∧ (grant.1 = node.currentTerm → grant.2 = node.votedFor)

theorem Remembers.of_ballot (h : old.Remembers grants)
    (ballot
      : (new.currentTerm = old.currentTerm ∧ new.votedFor = old.votedFor)
        ∨ old.currentTerm < new.currentTerm)
    : new.Remembers grants := by
  intro grant member
  obtain ⟨named, reached, current⟩ := h grant member
  rcases ballot with ⟨term, votedFor⟩ | higher
  · rw [term, votedFor]
    exact ⟨named, reached, current⟩
  · exact ⟨named, by omega, fun same => by omega⟩

theorem Remembers.of_quiet (h : old.Remembers grants) (quiet : Quiet old new)
    : new.Remembers grants := by
  refine h.of_ballot ?_
  rcases quiet.ballot with ⟨term, votedFor, _⟩ | ⟨higher, _⟩
  · exact Or.inl ⟨term, votedFor⟩
  · exact Or.inr higher

/-- A vote for a named candidate joins the votes of a node that had none or the same one. -/
theorem Remembers.grant (h : node.Remembers grants) {term : Nat} {candidate : GoString}
    (reached : node.currentTerm = term) (named : candidate ≠ [])
    (free : node.votedFor = [] ∨ node.votedFor = candidate)
    : ({ node with votedFor := candidate } : RaftNode C).Remembers
        (grants ++ [(term, candidate)]) := by
  subst reached
  intro grant member
  rcases mem_append.mp member with old | new
  · obtain ⟨known, reached, current⟩ := h grant old
    refine ⟨known, reached, fun same => ?_⟩
    rcases free with empty | agreed
    · exact absurd ((current same).trans empty) known
    · exact (current same).trans agreed
  · cases mem_singleton.mp new
    exact ⟨named, le_rfl, fun _ => rfl⟩

theorem Remembers.call (h : node.Remembers grants) {call : NodeCall C} (kept : node.KeepsPast call)
    : (node.call call).1.Remembers (grants ++ (node.granted call).toList) := by
  cases call with
  | startElection =>
      have standing : (node.startElection).Remembers grants :=
        h.of_ballot (Or.inr (Nat.lt_succ_self _))
      exact standing.grant (addWord_eq kept.2).symm kept.1 (Or.inr rfl)
  | propose command =>
      simp only [granted, Option.toList_none, append_nil, RaftNode.call]
      cases proposed : node.propose command with
      | error failure => exact h
      | ok next =>
          obtain ⟨_, rfl⟩ := propose_ok proposed
          exact h
  | requestVote request =>
      have adopted := h.of_quiet (Quiet.adoptTerm node request.term)
      simp only [granted, RaftNode.call]
      rcases node.handleRequestVote_cases request with
        ⟨_, handled⟩ | ⟨_, handled⟩ | ⟨current, free, _, handled⟩ <;> rw [handled]
      · simpa using h
      · simpa using adopted
      · exact adopted.grant (adoptTerm_term current) kept free
  | requestVoteResponse peerID response =>
      simp only [granted, Option.toList_none, append_nil, RaftNode.call]
      rcases node.handleRequestVoteResponse_cases peerID response with
        ⟨higher, handled⟩ | handled | ⟨_, _, _, _, handled⟩ | ⟨_, _, _, _, handled⟩ <;>
        rw [handled]
      · exact h.of_quiet (Quiet.stepDown node higher)
      · exact h
      · exact h.of_ballot (Or.inl ⟨rfl, rfl⟩)
      · exact h.of_ballot (Or.inl ⟨rfl, rfl⟩)
  | appendEntries request =>
      simp only [granted, Option.toList_none, append_nil, RaftNode.call]
      exact h.of_quiet (Quiet.handleAppendEntries node request)
  | appendEntriesResponse peerID response =>
      simp only [granted, Option.toList_none, append_nil, RaftNode.call]
      exact h.of_quiet (Quiet.handleAppendEntriesResponse node peerID response)

theorem granted_current {call : NodeCall C} (kept : node.KeepsPast call) {grant : Nat × GoString}
    (given : grant ∈ node.granted call)
    : grant.1 = (node.call call).1.currentTerm := by
  cases call with
  | startElection =>
      cases given
      exact addWord_eq kept.2
  | requestVote request =>
      simp only [granted] at given
      rcases node.handleRequestVote_cases request with
        ⟨_, handled⟩ | ⟨_, handled⟩ | ⟨current, _, _, handled⟩ <;> rw [handled] at given
      · cases given
      · cases given
      · cases given
        simp only [RaftNode.call, handled]
        exact (adoptTerm_term current).symm
  | _ => cases given

def Untouched (node : RaftNode C) : Prop :=
  node.currentTerm = 0 ∧ node.votedFor = [] ∧ node.commitIndex = 0

instance (node : RaftNode C) : Decidable node.Untouched :=
  inferInstanceAs (Decidable (_ ∧ _))

/-- Nothing is lost when an untouched node is replaced by a new one. -/
theorem Untouched.outlasts (h : node.Untouched) (nodeID : GoString)
    (peers : GoMap GoString GoString)
    : Outlasts node (newRaftNode nodeID peers) where
  term := h.1.le
  committed := by
    rw [committed, h.2.2]
    exact nil_prefix
  bound := Nat.one_pos

theorem Untouched.remembers (h : node.Untouched) (remembers : node.Remembers grants)
    (nodeID : GoString) (peers : GoMap GoString GoString)
    : (newRaftNode nodeID peers : RaftNode C).Remembers grants := by
  intro grant member
  obtain ⟨named, reached, current⟩ := remembers grant member
  have first : grant.1 = node.currentTerm := by
    have := h.1
    omega
  exact absurd ((current first).trans h.2.1) named

end RaftNode

/-! The life of a topic. -/

structure TopicLife where
  nodes : List (RaftNode Command)
  grants : List (Nat × GoString)

namespace TopicLife

/-- The term never goes back, no committed entry leaves the log, and in each term the votes
go to one candidate.
-/
structure Survives (life : TopicLife) : Prop where
  nodes : life.nodes.Pairwise (fun earlier later =>
    earlier.currentTerm ≤ later.currentTerm ∧ earlier.committed <+: later.log)
  grants : life.grants.Pairwise (fun earlier later =>
    earlier.1 = later.1 → earlier.2 = later.2)

structure LivesOn (life : TopicLife) (node : RaftNode Command) : Prop where
  survives : life.Survives
  bound : node.commitIndex < node.log.length
  past : ∀ earlier ∈ life.nodes,
    earlier.currentTerm ≤ node.currentTerm ∧ earlier.committed <+: node.committed
  votes : node.Remembers life.grants

theorem LivesOn.next {life : TopicLife} {node next : RaftNode Command} (h : life.LivesOn node)
    (outlasts : RaftNode.Outlasts node next) {granted : Option (Nat × GoString)}
    (votes : next.Remembers (life.grants ++ granted.toList))
    (current : ∀ grant ∈ granted, grant.1 = next.currentTerm)
    : LivesOn ⟨life.nodes ++ [next], life.grants ++ granted.toList⟩ next := by
  have past
      : ∀ earlier ∈ life.nodes,
          earlier.currentTerm ≤ next.currentTerm ∧ earlier.committed <+: next.committed := by
    intro earlier member
    obtain ⟨term, committed⟩ := h.past earlier member
    exact ⟨term.trans outlasts.term, committed.trans outlasts.committed⟩
  refine ⟨⟨?_, ?_⟩, outlasts.bound, ?_, votes⟩
  · refine pairwise_append.mpr ⟨h.survives.nodes, pairwise_singleton _ _,
      fun earlier member => forall_mem_singleton.mpr ?_⟩
    obtain ⟨term, committed⟩ := past earlier member
    exact ⟨term, committed.trans (List.take_prefix _ _)⟩
  · refine pairwise_append.mpr ⟨h.survives.grants, by cases granted <;> simp, ?_⟩
    intro earlier member later new same
    have term := current later (Option.mem_toList.mp new)
    obtain ⟨_, _, voted⟩ := votes later (mem_append_right _ new)
    obtain ⟨_, _, earlierVoted⟩ := votes earlier (mem_append_left _ member)
    exact (earlierVoted (same.trans term)).trans (voted term).symm
  · exact forall_mem_append.mpr ⟨past, forall_mem_singleton.mpr ⟨le_rfl, prefix_refl _⟩⟩

theorem LivesOn.stay {life : TopicLife} {node : RaftNode Command} (h : life.LivesOn node)
    : LivesOn ⟨life.nodes ++ [node], life.grants ++ (none : Option (Nat × GoString)).toList⟩
        node :=
  h.next ⟨le_rfl, prefix_refl _, h.bound⟩ (by simpa using h.votes) (by simp)

end TopicLife

namespace RaftManager

open TopicRaftCluster

def grantedBy (rm : RaftManager) (topic : GoString) (call : ManagerCall)
    : Option (Nat × GoString) :=
  match call.nodeCall, rm.clusters.lookup topic with
  | some (target, nodeCall), some cluster =>
      if target = topic ∧ cluster.admits nodeCall then cluster.raftNode.granted nodeCall
      else none
  | _, _ => none

def recordLife (topic : GoString) (rm : RaftManager) (life : TopicLife) (call : ManagerCall)
    : TopicLife where
  nodes := life.nodes ++ (((rm.step call).clusters.lookup topic).map raftNode).toList
  grants := life.grants ++ (rm.grantedBy topic call).toList

/-- The topic's role is assigned only while its node is untouched, the topic is not removed,
and calls on its node keep what it has granted and committed.
-/
def KeepsLife (topic : GoString) (rm : RaftManager) : ManagerCall → Prop
  | .setTopicRole target _ _ _ =>
      target = topic → ∀ cluster ∈ rm.clusters.lookup topic, cluster.raftNode.Untouched
  | .removeTopic target => target ≠ topic
  | call =>
      ∀ target ∈ call.nodeCall, target.1 = topic
        → ∀ cluster ∈ rm.clusters.lookup topic, cluster.raftNode.KeepsPast target.2

instance (topic : GoString) (rm : RaftManager) : DecidablePred (rm.KeepsLife topic)
  | .setTopicRole _ _ _ _ => inferInstanceAs (Decidable (_ → ∀ cluster ∈ _, _))
  | .removeTopic _ => inferInstanceAs (Decidable (_ ≠ _))
  | .raftRequest _ => inferInstanceAs (Decidable (∀ target ∈ _, _ → ∀ cluster ∈ _, _))
  | .electionTimeout _ => inferInstanceAs (Decidable (∀ target ∈ _, _ → ∀ cluster ∈ _, _))
  | .proposeMessage _ _ _ _ =>
      inferInstanceAs (Decidable (∀ target ∈ _, _ → ∀ cluster ∈ _, _))

/-- A topic without a node has no past, and a node carries on the past. -/
structure Lives (topic : GoString) (rm : RaftManager) (life : TopicLife) : Prop where
  absent : rm.clusters.lookup topic = none → life = ⟨[], []⟩
  present : ∀ cluster, rm.clusters.lookup topic = some cluster → life.LivesOn cluster.raftNode

variable {rm : RaftManager} {topic : GoString} {life : TopicLife} {call : ManagerCall}

theorem Lives.new (brokerID topic : GoString)
    : Lives topic (newRaftManager brokerID) ⟨[], []⟩ where
  absent := fun _ => rfl
  present := fun cluster found => by simp [newRaftManager] at found

/-- A call that does not concern the topic. -/
theorem Lives.unchanged (h : Lives topic rm life)
    (same : (rm.step call).clusters.lookup topic = rm.clusters.lookup topic)
    (silent : rm.grantedBy topic call = none)
    : Lives topic (rm.step call) (recordLife topic rm life call) := by
  refine ⟨fun absent => ?_, fun cluster found => ?_⟩
  · rw [recordLife, absent, silent, h.absent (same ▸ absent)]
    rfl
  · rw [recordLife, found, silent]
    exact (h.present cluster (same ▸ found)).stay

theorem Lives.carriedOn {cluster : TopicRaftCluster}
    (found : (rm.step call).clusters.lookup topic = some cluster)
    (carriesOn
      : TopicLife.LivesOn
          ⟨life.nodes ++ [cluster.raftNode], life.grants ++ (rm.grantedBy topic call).toList⟩
          cluster.raftNode)
    : Lives topic (rm.step call) (recordLife topic rm life call) := by
  refine ⟨fun absent => ?_, fun other there => ?_⟩
  · rw [absent] at found
    cases found
  · rw [found] at there
    cases there
    rw [recordLife, found]
    exact carriesOn

section

variable (h : Lives topic rm life)
include h

/-- A role assignment: the new node takes over from none or from an untouched one. -/
theorem Lives.setTopicRole {role : TopicRole} {followers : List GoString} {leaderAddr : GoString}
    (kept : rm.KeepsLife topic (.setTopicRole topic role followers leaderAddr))
    : Lives topic (rm.step (.setTopicRole topic role followers leaderAddr))
        (recordLife topic rm life (.setTopicRole topic role followers leaderAddr)) := by
  refine .carriedOn ((lookup_step rm _ topic).trans (if_pos rfl)) ?_
  cases found : rm.clusters.lookup topic with
  | none =>
      rw [h.absent found]
      have none : TopicLife.LivesOn ⟨[], []⟩
          (newRaftNode rm.brokerID (rolePeers role followers leaderAddr)) :=
        ⟨⟨.nil, .nil⟩, Nat.one_pos, by simp, by simp [RaftNode.Remembers]⟩
      exact none.stay
  | some cluster =>
      have lives := h.present cluster found
      have untouched := kept rfl cluster found
      refine lives.next (untouched.outlasts _ _) ?_ (by simp [grantedBy, ManagerCall.nodeCall])
      simpa [grantedBy, ManagerCall.nodeCall] using untouched.remembers lives.votes _ _

theorem Lives.nodeCall
    (calls
      : topicStep rm.brokerID topic (rm.clusters.lookup topic) call
        = match call.nodeCall with
          | none => rm.clusters.lookup topic
          | some (target, nodeCall) =>
              if target = topic then
                (rm.clusters.lookup topic).map (fun cluster => cluster.call nodeCall)
              else rm.clusters.lookup topic)
    (kept
      : ∀ target ∈ call.nodeCall, target.1 = topic
          → ∀ cluster ∈ rm.clusters.lookup topic, cluster.raftNode.KeepsPast target.2)
    : Lives topic (rm.step call) (recordLife topic rm life call) := by
  rw [← lookup_step] at calls
  cases made : call.nodeCall with
  | none =>
      rw [made] at calls
      exact h.unchanged calls (by simp [grantedBy, made])
  | some target =>
      obtain ⟨target, nodeCall⟩ := target
      simp only [made] at calls
      by_cases here : target = topic
      · subst here
        rw [if_pos rfl] at calls
        cases found : rm.clusters.lookup target with
        | none =>
            rw [found] at calls
            exact h.unchanged (calls.trans found.symm) (by simp [grantedBy, made, found])
        | some cluster =>
            rw [found, Option.map_some] at calls
            have lives := h.present cluster found
            have keeps := kept _ made rfl cluster found
            cases admitted : cluster.admits nodeCall with
            | false =>
                refine h.unchanged ?_ (by simp [grantedBy, made, found, admitted])
                rw [calls, found, TopicRaftCluster.call, admitted]
                rfl
            | true =>
                have next
                    : (cluster.call nodeCall).raftNode
                      = (cluster.raftNode.call nodeCall).1 := by
                  rw [TopicRaftCluster.call, if_pos admitted]
                  exact keeps.wordCall
                have grants
                    : rm.grantedBy target call = cluster.raftNode.granted nodeCall := by
                  simp [grantedBy, made, found, admitted]
                refine .carriedOn calls ?_
                rw [next, grants]
                exact lives.next (.call lives.bound keeps) (lives.votes.call keeps)
                  (fun grant given => RaftNode.granted_current keeps given)
      · rw [if_neg here] at calls
        refine h.unchanged calls ?_
        cases found : rm.clusters.lookup topic <;> simp [grantedBy, made, found, here]

theorem Lives.step (kept : rm.KeepsLife topic call)
    : Lives topic (rm.step call) (recordLife topic rm life call) := by
  cases call with
  | setTopicRole target role followers leaderAddr =>
      by_cases here : target = topic
      · subst here
        exact h.setTopicRole kept
      · exact h.unchanged ((lookup_step rm _ topic).trans (if_neg here)) rfl
  | removeTopic target => exact h.unchanged ((lookup_step rm _ topic).trans (if_neg kept)) rfl
  | _ => exact h.nodeCall rfl kept

theorem Lives.survives : life.Survives := by
  cases found : rm.clusters.lookup topic with
  | none =>
      rw [h.absent found]
      exact ⟨.nil, .nil⟩
  | some cluster => exact (h.present cluster found).survives

end

/-- In every run whose steps keep the topic's life, the term never goes back, every term has
one candidate voted for, and committed entries stay in the log.
-/
theorem topic_survives (brokerID topic : GoString) {calls : List ManagerCall}
    (steps : AllSteps step (fun rm call => rm.KeepsLife topic call) (newRaftManager brokerID)
      calls)
    : (follow step (recordLife topic) (newRaftManager brokerID) ⟨[], []⟩ calls).Survives := by
  have lives : Lives topic _ _ :=
    AllSteps.simulation (fun rm life call kept h => h.step kept) (Lives.new brokerID topic) steps
  exact lives.survives

def assignFollower : ManagerCall :=
  .setTopicRole (lit "topic") .follower [] (lit "leader:1")

def voteRequest : ManagerCall :=
  .raftRequest {
    topic := lit "topic"
    fromPeerID := lit "candidate"
    messageType := .requestVote
    payload := RequestVoteRequest.marshal ⟨5, lit "candidate", 0, 0⟩
  }

theorem topic_survives_reassigned
    : AllSteps step (fun rm call => rm.KeepsLife (lit "topic") call)
        (newRaftManager (lit "broker")) [assignFollower, assignFollower, voteRequest]
      ∧ (follow step (recordLife (lit "topic")) (newRaftManager (lit "broker")) ⟨[], []⟩
          [assignFollower, assignFollower, voteRequest]).Survives := by
  have kept
      : AllSteps step (fun rm call => rm.KeepsLife (lit "topic") call)
          (newRaftManager (lit "broker")) [assignFollower, assignFollower, voteRequest] := by
    decide +kernel
  exact ⟨kept, topic_survives (lit "broker") (lit "topic") kept⟩

/-- Assigning the same role once more after the vote takes the node back to term 0. -/
theorem not_survives_reassigned
    : ¬(follow step (recordLife (lit "topic")) (newRaftManager (lit "broker")) ⟨[], []⟩
        [assignFollower, voteRequest, assignFollower]).Survives := by
  intro survives
  have terms
      : (follow step (recordLife (lit "topic")) (newRaftManager (lit "broker")) ⟨[], []⟩
          [assignFollower, voteRequest, assignFollower]).nodes.map RaftNode.currentTerm
        = [0, 5, 0] := by
    decide +kernel
  have sorted := survives.nodes.imp (fun {earlier later} kept => kept.1)
  rw [← pairwise_map (f := RaftNode.currentTerm) (R := (· ≤ ·)), terms] at sorted
  exact absurd sorted (by decide)

end RaftManager

end Goulette.Raft
