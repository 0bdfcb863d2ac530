import Mathlib.Data.Finset.Card
import Goulette.Go.Strings

/-! The Raft node of `internal/raft/raft.go`. A handler returns the new node with the requests it
sends and the commands it passes to `applyFunc`. Timers, locks and sleeps carry no protocol
state. Counters are naturals: a run that wraps a 64-bit counter is out of scope.
-/

namespace Goulette.Raft

open Goulette.Go List

variable {C : Type}

inductive RaftState
  | follower
  | candidate
  | leader
deriving DecidableEq, Repr

/-- A log entry; `none` is the nil command of the initial entry. -/
structure LogEntry (C : Type) where
  term : Nat
  index : Nat
  command : Option C
deriving DecidableEq, Repr

/-- The protocol state of a `RaftNode`. A missing key of `nextIndex` or `matchIndex` reads
as zero, as in a Go map; no code asks for their sizes. `votes` holds the keys set to true.
-/
structure RaftNode (C : Type) where
  currentTerm : Nat
  votedFor : GoString
  log : List (LogEntry C)
  commitIndex : Nat
  lastApplied : Nat
  nextIndex : GoString → Nat
  matchIndex : GoString → Nat
  nodeID : GoString
  state : RaftState
  leaderID : GoString
  votes : Finset GoString
  peers : GoMap GoString GoString

structure RequestVoteRequest where
  term : Nat
  candidateID : GoString
  lastLogIndex : Nat
  lastLogTerm : Nat
deriving DecidableEq, Repr

structure RequestVoteResponse where
  term : Nat
  voteGranted : Bool
deriving DecidableEq, Repr

structure AppendEntriesRequest (C : Type) where
  term : Nat
  leaderID : GoString
  prevLogIndex : Nat
  prevLogTerm : Nat
  entries : List (LogEntry C)
  leaderCommit : Nat
deriving DecidableEq, Repr

structure AppendEntriesResponse where
  term : Nat
  success : Bool
deriving DecidableEq, Repr

def initialEntry : LogEntry C := { term := 0, index := 0, command := none }

def newRaftNode (nodeID : GoString) (peers : GoMap GoString GoString) : RaftNode C where
  currentTerm := 0
  votedFor := []
  log := [initialEntry]
  commitIndex := 0
  lastApplied := 0
  nextIndex := fun peerID => if peerID ∈ peers ∧ peerID ≠ nodeID then 1 else 0
  matchIndex := fun _ => 0
  nodeID := nodeID
  state := .follower
  leaderID := []
  votes := ∅
  peers := peers

namespace RaftNode

def peerIDs (node : RaftNode C) : List GoString :=
  node.peers.keys.filter (fun peerID => peerID ≠ node.nodeID)

def getLastLogIndex (node : RaftNode C) : Nat := node.log.length - 1

def getLastLogTerm (node : RaftNode C) : Nat :=
  match node.log.getLast? with
  | none => 0
  | some entry => entry.term

def getLogTerm (node : RaftNode C) (index : Nat) : Nat :=
  if index = 0 then 0
  else
    match node.log[index - 1]? with
    | none => 0
    | some entry => entry.term

def isLogUpToDate (node : RaftNode C) (lastLogIndex lastLogTerm : Nat) : Bool :=
  if lastLogTerm ≠ node.getLastLogTerm then decide (lastLogTerm > node.getLastLogTerm)
  else decide (lastLogIndex ≥ node.getLastLogIndex)

def requestVote (node : RaftNode C) : RequestVoteRequest where
  term := node.currentTerm
  candidateID := node.nodeID
  lastLogIndex := node.getLastLogIndex
  lastLogTerm := node.getLastLogTerm

def startElection (node : RaftNode C) : RaftNode C :=
  { node with
    currentTerm := node.currentTerm + 1
    state := .candidate
    votedFor := node.nodeID
    votes := {node.nodeID} }

/-- Adopting a larger term: the node becomes a follower without a vote. -/
def stepDown (node : RaftNode C) (term : Nat) : RaftNode C :=
  { node with currentTerm := term, state := .follower, votedFor := [], leaderID := [] }

def adoptTerm (node : RaftNode C) (term : Nat) : RaftNode C :=
  if term > node.currentTerm then node.stepDown term else node

def handleRequestVote (node : RaftNode C) (request : RequestVoteRequest)
    : RaftNode C × RequestVoteResponse :=
  if request.term < node.currentTerm then
    (node, { term := node.currentTerm, voteGranted := false })
  else
    let current := node.adoptTerm request.term
    -- the response carries the term from before the adoption
    if (current.votedFor = [] ∨ current.votedFor = request.candidateID)
        ∧ current.isLogUpToDate request.lastLogIndex request.lastLogTerm then
      ({ current with votedFor := request.candidateID },
        { term := node.currentTerm, voteGranted := true })
    else
      (current, { term := node.currentTerm, voteGranted := false })

def becomeLeader (node : RaftNode C) : RaftNode C :=
  { node with
    state := .leader
    leaderID := node.nodeID
    nextIndex := fun peerID =>
      if peerID ∈ node.peers ∧ peerID ≠ node.nodeID then node.getLastLogIndex + 1
      else node.nextIndex peerID
    matchIndex := fun peerID =>
      if peerID ∈ node.peers ∧ peerID ≠ node.nodeID then 0 else node.matchIndex peerID }

/-- The flag tells whether the response completed a majority, so that `becomeLeader` ran
and sent its first heartbeat.
-/
def handleRequestVoteResponse (node : RaftNode C) (peerID : GoString)
    (response : RequestVoteResponse)
    : RaftNode C × Bool :=
  if response.term > node.currentTerm then (node.stepDown response.term, false)
  else if node.state ≠ .candidate ∨ response.term ≠ node.currentTerm then (node, false)
  else if response.voteGranted then
    let counted := { node with votes := insert peerID node.votes }
    if counted.votes.card > node.peers.keys.length / 2 then (counted.becomeLeader, true)
    else (counted, false)
  else (node, false)

def sendAppendEntries (node : RaftNode C) (peerID : GoString) (isHeartbeat : Bool)
    : AppendEntriesRequest C where
  term := node.currentTerm
  leaderID := node.nodeID
  prevLogIndex := node.nextIndex peerID - 1
  prevLogTerm := node.getLogTerm (node.nextIndex peerID - 1)
  entries :=
    if !isHeartbeat ∧ node.nextIndex peerID ≤ node.log.length then
      node.log.drop (node.nextIndex peerID - 1)
    else []
  leaderCommit := node.commitIndex

def propose (node : RaftNode C) (command : C) : Except GoError (RaftNode C) :=
  if node.state ≠ .leader then .error (lit "只有leader可以提议命令")
  else
    .ok { node with
      log := node.log ++
        [{ term := node.currentTerm, index := node.getLastLogIndex + 1, command := some command }] }

/-- The body of the append loop at a 1-based position. -/
def appendEntry (log : List (LogEntry C)) (index : Nat) (entry : LogEntry C)
    : List (LogEntry C) :=
  let kept :=
    match log[index - 1]? with
    | none => log
    -- drop a conflicting suffix
    | some found => if found.term ≠ entry.term then log.take (index - 1) else log
  -- append when the log ends right before the position
  if index > kept.length then kept ++ [entry] else kept

def appendLoop (log : List (LogEntry C)) (index : Nat)
    : List (LogEntry C) → List (LogEntry C)
  | [] => log
  | entry :: rest => appendLoop (appendEntry log index entry) (index + 1) rest

/-- The apply loop runs `steps` times; the log holds every position it reads. -/
def applyLoop (node : RaftNode C) : Nat → RaftNode C × List (Option C)
  | 0 => (node, [])
  | steps + 1 =>
      let command := (node.log[node.lastApplied]?).bind LogEntry.command
      let rest := applyLoop { node with lastApplied := node.lastApplied + 1 } steps
      (rest.1, command :: rest.2)

def applyLogs (node : RaftNode C) : RaftNode C × List (Option C) :=
  node.applyLoop (node.commitIndex - node.lastApplied)

def matchesPrev (node : RaftNode C) (request : AppendEntriesRequest C) : Bool :=
  decide (request.prevLogIndex = 0
    ∨ (request.prevLogIndex ≤ node.getLastLogIndex
        ∧ node.getLogTerm request.prevLogIndex = request.prevLogTerm))

/-- A request of the current or a larger term sets the leader; a larger term also makes the
node a follower without a vote.
-/
def observeLeader (node : RaftNode C) (request : AppendEntriesRequest C) : RaftNode C :=
  if request.term > node.currentTerm then
    { node with
      currentTerm := request.term
      state := .follower
      votedFor := []
      leaderID := request.leaderID }
  -- a candidate of the same term stays candidate
  else { node with leaderID := request.leaderID }

def updateCommit (node : RaftNode C) (leaderCommit : Nat) : RaftNode C × List (Option C) :=
  if leaderCommit > node.commitIndex then
    { node with commitIndex := min leaderCommit node.getLastLogIndex }.applyLogs
  else (node, [])

def handleAppendEntries (node : RaftNode C) (request : AppendEntriesRequest C)
    : RaftNode C × List (Option C) × AppendEntriesResponse :=
  if request.term < node.currentTerm then
    (node, [], { term := node.currentTerm, success := false })
  else
    let current := node.observeLeader request
    if current.matchesPrev request then
      let appended :=
        { current with log := appendLoop current.log (request.prevLogIndex + 1) request.entries }
      let updated := appended.updateCommit request.leaderCommit
      (updated.1, updated.2, { term := node.currentTerm, success := true })
    else (current, [], { term := node.currentTerm, success := false })

/-- The nodes counted for a 1-based position: the leader and the peers that matched it. -/
def matchCount (node : RaftNode C) (index : Nat) : Nat :=
  1 + (node.peerIDs.filter (fun peerID => node.matchIndex peerID ≥ index)).length

def commits (node : RaftNode C) (index : Nat) : Bool :=
  (node.log[index - 1]?.map LogEntry.term == some node.currentTerm)
    && decide (node.matchCount index > node.peers.keys.length / 2)

def commitLoop (node : RaftNode C) (index : Nat) : Nat → RaftNode C
  | 0 => node
  | steps + 1 =>
      commitLoop (if node.commits index then { node with commitIndex := index } else node)
        (index + 1) steps

def tryCommitLogs (node : RaftNode C) : RaftNode C × List (Option C) :=
  (node.commitLoop (node.commitIndex + 1) (node.getLastLogIndex - node.commitIndex)).applyLogs

/-- A success moves the peer's counters up by one, whatever request it answers. -/
def countSuccess (node : RaftNode C) (peerID : GoString) : RaftNode C :=
  { node with
    nextIndex := Function.update node.nextIndex peerID (node.nextIndex peerID + 1)
    matchIndex := Function.update node.matchIndex peerID (node.nextIndex peerID) }

def handleAppendEntriesResponse (node : RaftNode C) (peerID : GoString)
    (response : AppendEntriesResponse)
    : RaftNode C × List (Option C) :=
  if response.term > node.currentTerm then (node.stepDown response.term, [])
  else if node.state ≠ .leader ∨ response.term ≠ node.currentTerm then (node, [])
  else if response.success then (node.countSuccess peerID).tryCommitLogs
  else if node.nextIndex peerID > 1 then
    ({ node with
        nextIndex := Function.update node.nextIndex peerID (node.nextIndex peerID - 1) }, [])
  else (node, [])

/-! What each handler can do. -/

/-- A vote request is stale, refused or granted; only a grant sets `votedFor`. -/
theorem handleRequestVote_cases (node : RaftNode C) (request : RequestVoteRequest)
    : (request.term < node.currentTerm
        ∧ node.handleRequestVote request
          = (node, { term := node.currentTerm, voteGranted := false }))
      ∨ (node.currentTerm ≤ request.term
        ∧ node.handleRequestVote request
          = (node.adoptTerm request.term, { term := node.currentTerm, voteGranted := false }))
      ∨ (node.currentTerm ≤ request.term
        ∧ ((node.adoptTerm request.term).votedFor = []
          ∨ (node.adoptTerm request.term).votedFor = request.candidateID)
        ∧ (node.adoptTerm request.term).isLogUpToDate request.lastLogIndex request.lastLogTerm
        ∧ node.handleRequestVote request
          = ({ node.adoptTerm request.term with votedFor := request.candidateID },
              { term := node.currentTerm, voteGranted := true })) := by
  by_cases stale : request.term < node.currentTerm
  · exact Or.inl ⟨stale, by simp [handleRequestVote, stale]⟩
  · have current : node.currentTerm ≤ request.term := by omega
    simp only [handleRequestVote, stale, if_false]
    split
    · next granted => exact Or.inr (Or.inr ⟨current, granted.1, granted.2, rfl⟩)
    · exact Or.inr (Or.inl ⟨current, rfl⟩)

/-- A vote response makes the node step down, is ignored, is counted, or completes a
majority.
-/
theorem handleRequestVoteResponse_cases (node : RaftNode C) (peerID : GoString)
    (response : RequestVoteResponse)
    : (node.currentTerm < response.term
        ∧ node.handleRequestVoteResponse peerID response = (node.stepDown response.term, false))
      ∨ node.handleRequestVoteResponse peerID response = (node, false)
      ∨ (node.state = .candidate ∧ response.term = node.currentTerm ∧ response.voteGranted
        ∧ 2 * (insert peerID node.votes).card ≤ node.peers.keys.length
        ∧ node.handleRequestVoteResponse peerID response
          = ({ node with votes := insert peerID node.votes }, false))
      ∨ (node.state = .candidate ∧ response.term = node.currentTerm ∧ response.voteGranted
        ∧ node.peers.keys.length < 2 * (insert peerID node.votes).card
        ∧ node.handleRequestVoteResponse peerID response
          = ({ node with votes := insert peerID node.votes }.becomeLeader, true)) := by
  by_cases higher : response.term > node.currentTerm
  · exact Or.inl ⟨higher, by simp [handleRequestVoteResponse, higher]⟩
  by_cases ignored : node.state ≠ .candidate ∨ response.term ≠ node.currentTerm
  · refine Or.inr (Or.inl ?_)
    simp only [handleRequestVoteResponse, higher, ignored, if_true, if_false]
  obtain ⟨standing, term⟩ : node.state = .candidate ∧ response.term = node.currentTerm := by
    simpa only [not_or, not_not] using ignored
  cases granted : response.voteGranted with
  | false =>
      refine Or.inr (Or.inl ?_)
      simp only [handleRequestVoteResponse, higher, ignored, granted, if_false, Bool.false_eq_true]
  | true =>
      simp only [handleRequestVoteResponse, higher, ignored, granted, if_false, if_true]
      split
      · next majority => exact Or.inr (Or.inr (Or.inr ⟨standing, term, trivial, by omega, rfl⟩))
      · exact Or.inr (Or.inr (Or.inl ⟨standing, term, trivial, by omega, rfl⟩))

/-- The node with the entries of a request in its log. -/
def appended (node : RaftNode C) (request : AppendEntriesRequest C) : RaftNode C :=
  { node.observeLeader request with
    log := appendLoop node.log (request.prevLogIndex + 1) request.entries }

theorem observeLeader_log (node : RaftNode C) (request : AppendEntriesRequest C)
    : (node.observeLeader request).log = node.log := by
  unfold observeLeader
  split <;> rfl

/-- An append request is stale, fails the consistency check, or is accepted. -/
theorem handleAppendEntries_cases (node : RaftNode C) (request : AppendEntriesRequest C)
    : (request.term < node.currentTerm
        ∧ node.handleAppendEntries request
          = (node, [], { term := node.currentTerm, success := false }))
      ∨ (node.currentTerm ≤ request.term
        ∧ node.handleAppendEntries request
          = (node.observeLeader request, [], { term := node.currentTerm, success := false }))
      ∨ (node.currentTerm ≤ request.term
        ∧ (node.observeLeader request).matchesPrev request
        ∧ node.handleAppendEntries request
          = (((node.appended request).updateCommit request.leaderCommit).1,
              ((node.appended request).updateCommit request.leaderCommit).2,
              { term := node.currentTerm, success := true })) := by
  by_cases stale : request.term < node.currentTerm
  · exact Or.inl ⟨stale, by simp [handleAppendEntries, stale]⟩
  · have current : node.currentTerm ≤ request.term := by omega
    cases check : (node.observeLeader request).matchesPrev request with
    | false =>
        refine Or.inr (Or.inl ⟨current, ?_⟩)
        simp only [handleAppendEntries, stale, check, if_false, Bool.false_eq_true]
    | true =>
        refine Or.inr (Or.inr ⟨current, rfl, ?_⟩)
        simp only [handleAppendEntries, stale, check, if_false, if_true, observeLeader_log,
          appended]

/-- An append response makes the node step down, is ignored, counts a success or lowers the
peer's `nextIndex`.
-/
theorem handleAppendEntriesResponse_cases (node : RaftNode C) (peerID : GoString)
    (response : AppendEntriesResponse)
    : (node.currentTerm < response.term
        ∧ node.handleAppendEntriesResponse peerID response = (node.stepDown response.term, []))
      ∨ node.handleAppendEntriesResponse peerID response = (node, [])
      ∨ (node.state = .leader ∧ response.term = node.currentTerm ∧ response.success
        ∧ node.handleAppendEntriesResponse peerID response
          = (node.countSuccess peerID).tryCommitLogs)
      ∨ (1 < node.nextIndex peerID
        ∧ node.handleAppendEntriesResponse peerID response
          = ({ node with
                nextIndex :=
                  Function.update node.nextIndex peerID (node.nextIndex peerID - 1) }, [])) := by
  by_cases higher : response.term > node.currentTerm
  · exact Or.inl ⟨higher, by simp [handleAppendEntriesResponse, higher]⟩
  by_cases ignored : node.state ≠ .leader ∨ response.term ≠ node.currentTerm
  · refine Or.inr (Or.inl ?_)
    simp only [handleAppendEntriesResponse, higher, ignored, if_true, if_false]
  obtain ⟨leads, term⟩ : node.state = .leader ∧ response.term = node.currentTerm := by
    simpa only [not_or, not_not] using ignored
  cases success : response.success with
  | true =>
      refine Or.inr (Or.inr (Or.inl ⟨leads, term, rfl, ?_⟩))
      simp only [handleAppendEntriesResponse, higher, ignored, success, if_false, if_true]
  | false =>
      simp only [handleAppendEntriesResponse, higher, ignored, success, if_false,
        Bool.false_eq_true]
      split
      · next above => exact Or.inr (Or.inr (Or.inr ⟨above, rfl⟩))
      · exact Or.inr (Or.inl rfl)

theorem propose_ok {node next : RaftNode C} {command : C}
    (proposed : node.propose command = .ok next)
    : node.state = .leader
      ∧ next = { node with
          log := node.log ++ [{
            term := node.currentTerm
            index := node.getLastLogIndex + 1
            command := some command }] } := by
  unfold propose at proposed
  split at proposed
  · cases proposed
  · next leads => exact ⟨not_not.mp leads, (Except.ok.inj proposed).symm⟩

theorem adoptTerm_term {node : RaftNode C} {term : Nat}
    (current : node.currentTerm ≤ term)
    : (node.adoptTerm term).currentTerm = term := by
  unfold adoptTerm
  split
  · rfl
  · omega

theorem adoptTerm_log (node : RaftNode C) (term : Nat)
    : (node.adoptTerm term).log = node.log := by
  unfold adoptTerm
  split <;> rfl

theorem adoptTerm_commit (node : RaftNode C) (term : Nat)
    : (node.adoptTerm term).commitIndex = node.commitIndex
      ∧ (node.adoptTerm term).lastApplied = node.lastApplied := by
  unfold adoptTerm
  split <;> exact ⟨rfl, rfl⟩

/-- The log is the same, and so is what is committed and applied of it. -/
structure LogKept (old new : RaftNode C) : Prop where
  log : new.log = old.log
  commitIndex : new.commitIndex = old.commitIndex
  lastApplied : new.lastApplied = old.lastApplied

theorem LogKept.handleRequestVote (node : RaftNode C) (request : RequestVoteRequest)
    : LogKept node (node.handleRequestVote request).1 := by
  have log := node.adoptTerm_log request.term
  obtain ⟨commitIndex, lastApplied⟩ := node.adoptTerm_commit request.term
  rcases node.handleRequestVote_cases request with
    ⟨_, handled⟩ | ⟨_, handled⟩ | ⟨_, _, _, handled⟩ <;> rw [handled]
  · exact ⟨rfl, rfl, rfl⟩
  · exact ⟨log, commitIndex, lastApplied⟩
  · exact ⟨log, commitIndex, lastApplied⟩

theorem LogKept.handleRequestVoteResponse (node : RaftNode C) (peerID : GoString)
    (response : RequestVoteResponse)
    : LogKept node (node.handleRequestVoteResponse peerID response).1 := by
  rcases node.handleRequestVoteResponse_cases peerID response with
    ⟨_, handled⟩ | handled | ⟨_, _, _, _, handled⟩ | ⟨_, _, _, _, handled⟩ <;>
    rw [handled] <;> exact ⟨rfl, rfl, rfl⟩

section

variable (node : RaftNode C) (request : AppendEntriesRequest C)

theorem observeLeader_commit
    : (node.observeLeader request).commitIndex = node.commitIndex
      ∧ (node.observeLeader request).lastApplied = node.lastApplied := by
  unfold observeLeader
  split <;> exact ⟨rfl, rfl⟩

theorem observeLeader_matchesPrev
    : (node.observeLeader request).matchesPrev request = node.matchesPrev request := by
  unfold observeLeader
  split <;> rfl

end

theorem observeLeader_term {node : RaftNode C} {request : AppendEntriesRequest C}
    (current : node.currentTerm ≤ request.term)
    : (node.observeLeader request).currentTerm = request.term := by
  unfold observeLeader
  split
  · rfl
  · show node.currentTerm = request.term
    omega

section

variable (node : RaftNode C)

theorem applyLoop_fst (steps : Nat)
    : (node.applyLoop steps).1 = { node with lastApplied := node.lastApplied + steps } := by
  induction steps generalizing node with
  | zero => rfl
  | succ steps ih =>
      simp only [applyLoop, ih]
      congr 1
      omega

/-- Within the log, the apply loop passes on exactly the commands it walks over. -/
theorem applyLoop_snd (steps : Nat) (bound : node.lastApplied + steps ≤ node.log.length)
    : (node.applyLoop steps).2
      = ((node.log.drop node.lastApplied).take steps).map LogEntry.command := by
  induction steps generalizing node with
  | zero => simp [applyLoop]
  | succ steps ih =>
      have inside : node.lastApplied < node.log.length := by omega
      simp only [applyLoop]
      rw [ih { node with lastApplied := node.lastApplied + 1 } (by simp only; omega),
        drop_eq_getElem_cons inside, take_succ_cons, map_cons,
        List.getElem?_eq_getElem inside]
      rfl

theorem applyLogs_fst
    : node.applyLogs.1
      = { node with lastApplied := max node.lastApplied node.commitIndex } := by
  rw [applyLogs, applyLoop_fst]
  congr 1
  omega

/-- Applying continues the commands of the log where the earlier calls stopped. -/
theorem applyLogs_snd (bound : node.commitIndex ≤ node.log.length)
    : (node.log.take node.lastApplied).map LogEntry.command ++ node.applyLogs.2
      = (node.log.take (max node.lastApplied node.commitIndex)).map LogEntry.command := by
  rcases Nat.le_total node.commitIndex node.lastApplied with idle | ahead
  · have none : node.commitIndex - node.lastApplied = 0 := by omega
    rw [applyLogs, none, Nat.max_eq_left idle]
    simp [applyLoop]
  · rw [applyLogs, applyLoop_snd node _ (by omega), Nat.max_eq_right ahead, ← map_append]
    congr 1
    rw [← Nat.add_sub_cancel' ahead, take_add, Nat.add_sub_cancel' ahead]

/-- The commit loop moves `commitIndex` only to positions that pass the commit test. -/
theorem commitLoop_eq (index steps : Nat)
    : ∃ last,
        node.commitLoop index steps = { node with commitIndex := last }
        ∧ (last = node.commitIndex
          ∨ (index ≤ last ∧ last < index + steps ∧ node.commits last)) := by
  induction steps generalizing node index with
  | zero => exact ⟨node.commitIndex, rfl, Or.inl rfl⟩
  | succ steps ih =>
      cases test : node.commits index with
      | false =>
          obtain ⟨last, reached, origin⟩ := ih node (index + 1)
          refine ⟨last, by simp only [commitLoop, test, Bool.false_eq_true, if_false, reached], ?_⟩
          rcases origin with same | ⟨lo, hi, passed⟩
          · exact Or.inl same
          · exact Or.inr ⟨by omega, by omega, passed⟩
      | true =>
          obtain ⟨last, reached, origin⟩ := ih { node with commitIndex := index } (index + 1)
          refine ⟨last, by simp only [commitLoop, test, if_true, reached], Or.inr ?_⟩
          rcases origin with same | ⟨lo, hi, passed⟩
          · simp only at same
            exact ⟨by omega, by omega, same ▸ test⟩
          · exact ⟨by omega, by omega, passed⟩

theorem tryCommitLogs_eq
    : ∃ last,
        node.tryCommitLogs = { node with commitIndex := last }.applyLogs
        ∧ (last = node.commitIndex
          ∨ (node.commitIndex < last ∧ last ≤ node.getLastLogIndex ∧ node.commits last)) := by
  obtain ⟨last, reached, origin⟩ := node.commitLoop_eq (node.commitIndex + 1)
    (node.getLastLogIndex - node.commitIndex)
  refine ⟨last, by rw [tryCommitLogs, reached], ?_⟩
  rcases origin with same | ⟨lo, hi, passed⟩
  · exact Or.inl same
  · exact Or.inr ⟨by omega, by omega, passed⟩

theorem tryCommitLogs_fst
    : ∃ commitIndex lastApplied,
        node.tryCommitLogs.1 = { node with commitIndex, lastApplied } := by
  obtain ⟨last, reached, _⟩ := node.tryCommitLogs_eq
  exact ⟨last, _, by rw [reached, applyLogs_fst]⟩

theorem handleAppendEntriesResponse_log (peerID : GoString) (response : AppendEntriesResponse)
    : (node.handleAppendEntriesResponse peerID response).1.log = node.log := by
  rcases node.handleAppendEntriesResponse_cases peerID response with
    ⟨_, handled⟩ | handled | ⟨_, _, _, handled⟩ | ⟨_, handled⟩
  · rw [handled]
    rfl
  · rw [handled]
  · obtain ⟨commitIndex, lastApplied, moved⟩ := (node.countSuccess peerID).tryCommitLogs_fst
    rw [handled, moved]
    rfl
  · rw [handled]

theorem updateCommit_fst (leaderCommit : Nat)
    : ∃ commitIndex lastApplied,
        (node.updateCommit leaderCommit).1 = { node with commitIndex, lastApplied } := by
  unfold updateCommit
  split
  · exact ⟨_, _, applyLogs_fst _⟩
  · exact ⟨_, _, rfl⟩

end

/-- What is applied lies between `lastApplied` and `commitIndex`; a position beyond the log
reads as nil.
-/
theorem applyLogs_mem {node : RaftNode C} {command : Option C}
    (applied : command ∈ node.applyLogs.2)
    : command = none
      ∨ ∃ entry ∈ (node.log.take node.commitIndex).drop node.lastApplied,
          entry.command = command := by
  have general (steps : Nat) (node : RaftNode C) (applied : command ∈ (node.applyLoop steps).2)
      : command = none
        ∨ ∃ entry ∈ (node.log.drop node.lastApplied).take steps, entry.command = command := by
    induction steps generalizing node with
    | zero => cases applied
    | succ steps ih =>
        rcases mem_cons.mp applied with rfl | later
        · cases held : node.log[node.lastApplied]? with
          | none => exact Or.inl rfl
          | some entry =>
              obtain ⟨inside, rfl⟩ := List.getElem?_eq_some_iff.mp held
              refine Or.inr ⟨_, ?_, rfl⟩
              rw [drop_eq_getElem_cons inside, take_succ_cons]
              exact mem_cons_self
        · rcases ih _ later with none | ⟨entry, member, same⟩
          · exact Or.inl none
          · refine Or.inr ⟨entry, ?_, same⟩
            rcases Nat.lt_or_ge node.lastApplied node.log.length with inside | beyond
            · rw [drop_eq_getElem_cons inside, take_succ_cons]
              exact mem_cons_of_mem _ member
            · rw [drop_eq_nil_of_le (by simp only; omega)] at member
              simp at member
  rw [drop_take]
  exact general _ node applied

/-- What an append loop leaves between two positions was there before or came with the
request, by induction on the entries.
-/
theorem appendLoop_mem_between {log entries : List (LogEntry C)} {index start stop : Nat}
    {entry : LogEntry C} (member : entry ∈ ((appendLoop log index entries).take stop).drop start)
    : entry ∈ (log.take stop).drop start ∨ entry ∈ entries := by
  induction entries generalizing log index with
  | nil => exact Or.inl member
  | cons first rest ih =>
      rcases ih member with old | new
      · have cut (kept : List (LogEntry C)) (below : kept <+: log)
            (found
              : entry ∈ ((if index > kept.length then kept ++ [first] else kept).take stop).drop
                  start)
            : entry ∈ (log.take stop).drop start ∨ entry = first := by
          have within (here : entry ∈ (kept.take stop).drop start)
              : entry ∈ (log.take stop).drop start :=
            ((below.take stop).drop start).subset here
          split at found
          · rw [take_append, drop_append] at found
            rcases mem_append.mp found with here | there
            · exact Or.inl (within here)
            · exact Or.inr
                (mem_singleton.mp (mem_of_mem_take (mem_of_mem_drop there)))
          · exact Or.inl (within found)
        have step : entry ∈ (log.take stop).drop start ∨ entry = first := by
          refine cut _ ?_ old
          split
          · exact prefix_refl _
          · split
            · exact take_prefix _ _
            · exact prefix_refl _
        rcases step with old | rfl
        · exact Or.inl old
        · exact Or.inr mem_cons_self
      · exact Or.inr (mem_cons_of_mem _ new)

end RaftNode

end Goulette.Raft
