import Goulette.Go.Checked
import Goulette.Raft.Calls

/-! The Raft node in the word arithmetic of its source: counters wrap at `2 ^ 64`, and a slice
expression out of range or a subtraction below zero ends the call with a fault.
-/

namespace Goulette.Raft

open Goulette.Go List

variable {C : Type}

namespace RaftNode.Checked

/-- On an empty log `len(log) - 1` is below zero. -/
def getLastLogIndex (node : RaftNode C) : Except Fault Nat := subWord (lenWord node.log) 1

/-- An empty log has term 0. -/
def getLastLogTerm (node : RaftNode C) : Except Fault Nat :=
  if node.log.length = 0 then .ok 0
  else do
    let entry ← index node.log (← subWord (lenWord node.log) 1)
    return entry.term

/-- An index outside the log reads as term 0; the others are read one place earlier. -/
def getLogTerm (node : RaftNode C) (position : Nat) : Except Fault Nat :=
  if position = 0 ∨ position > lenWord node.log then .ok 0
  else do
    let entry ← index node.log (← subWord position 1)
    return entry.term

/-- The index is computed only when the terms are equal. -/
def isLogUpToDate (node : RaftNode C) (lastLogIndex lastLogTerm : Nat) : Except Fault Bool := do
  let myLastLogTerm ← getLastLogTerm node
  if lastLogTerm ≠ myLastLogTerm then return decide (lastLogTerm > myLastLogTerm)
  else return decide (lastLogIndex ≥ (← getLastLogIndex node))

def requestVote (node : RaftNode C) : Except Fault RequestVoteRequest := do
  let lastLogIndex ← getLastLogIndex node
  let lastLogTerm ← getLastLogTerm node
  return { term := node.currentTerm, candidateID := node.nodeID, lastLogIndex, lastLogTerm }

/-- Only a free vote looks at the log and can fault. -/
def handleRequestVote (node : RaftNode C) (request : RequestVoteRequest)
    : Except Fault (RaftNode C × RequestVoteResponse) :=
  if request.term < node.currentTerm then
    .ok (node, { term := node.currentTerm, voteGranted := false })
  else do
    let current := node.adoptTerm request.term
    let grants ←
      -- the log is looked at only if the vote is free
      if current.votedFor = [] ∨ current.votedFor = request.candidateID then
        isLogUpToDate current request.lastLogIndex request.lastLogTerm
      else .ok false
    if grants then
      return ({ current with votedFor := request.candidateID },
        { term := node.currentTerm, voteGranted := true })
    else return (current, { term := node.currentTerm, voteGranted := false })

/-- The peers' next index is the word behind the last index. -/
def becomeLeader (node : RaftNode C) : Except Fault (RaftNode C) := do
  let last ← getLastLogIndex node
  return { node.becomeLeader with
    nextIndex := fun peerID =>
      if peerID ∈ node.peers ∧ peerID ≠ node.nodeID then addWord last 1
      else node.nextIndex peerID }

def handleRequestVoteResponse (node : RaftNode C) (peerID : GoString)
    (response : RequestVoteResponse)
    : Except Fault (RaftNode C × Bool) :=
  if response.term > node.currentTerm then .ok (node.stepDown response.term, false)
  else if node.state ≠ .candidate ∨ response.term ≠ node.currentTerm then .ok (node, false)
  else if response.voteGranted then
    let counted := { node with votes := insert peerID node.votes }
    if counted.votes.card > node.peers.keys.length / 2 then do
      let leader ← becomeLeader counted
      return (leader, true)
    else .ok (counted, false)
  else .ok (node, false)

/-- The entries start at `log[nextIndex-1:]`, so a next index of 0 is a fault. -/
def sendAppendEntries (node : RaftNode C) (peerID : GoString) (isHeartbeat : Bool)
    : Except Fault (AppendEntriesRequest C) := do
  let nextIndex := node.nextIndex peerID
  let entries ←
    if !isHeartbeat ∧ nextIndex ≤ lenWord node.log then do
      sliceFrom node.log (← subWord nextIndex 1)
    else .ok []
  let prevLogIndex ← subWord nextIndex 1
  let prevLogTerm ← getLogTerm node prevLogIndex
  return { term := node.currentTerm, leaderID := node.nodeID, prevLogIndex, prevLogTerm, entries,
           leaderCommit := node.commitIndex }

def sendHeartbeat (node : RaftNode C) : Except Fault (List (AppendEntriesRequest C)) :=
  node.peerIDs.mapM (fun peerID => sendAppendEntries node peerID true)

/-- The new index is the word behind the last one. -/
def propose (node : RaftNode C) (command : C) : Except Fault (RaftNode C) :=
  if node.state ≠ .leader then .ok node
  else do
    let last ← getLastLogIndex node
    return { node with
      log := node.log ++
        [{ term := node.currentTerm, index := addWord last 1, command := some command }] }

/-- One entry of a request; `log[:position-1]` cuts a conflict off. -/
def appendEntry (log : List (LogEntry C)) (position : Nat) (entry : LogEntry C)
    : Except Fault (List (LogEntry C)) := do
  let kept ←
    if position ≤ lenWord log then do
      let found ← index log (← subWord position 1)
      if found.term ≠ entry.term then sliceTo log (← subWord position 1) else .ok log
    else .ok log
  return if position > lenWord kept then kept ++ [entry] else kept

def appendLoop (log : List (LogEntry C)) (prevLogIndex i : Nat)
    : List (LogEntry C) → Except Fault (List (LogEntry C))
  | [] => .ok log
  | entry :: rest => do
      let next ← appendEntry log (addWord (addWord prevLogIndex i) 1) entry
      appendLoop next prevLogIndex (i + 1) rest

/-- The callback gets `log[lastApplied-1]` after the counter was raised. -/
def applyLoop (node : RaftNode C) : Nat → Except Fault (RaftNode C × List (Option C))
  | 0 => .ok (node, [])
  | steps + 1 => do
      let lastApplied := addWord node.lastApplied 1
      let entry ← index node.log (← subWord lastApplied 1)
      let rest ← applyLoop { node with lastApplied } steps
      return (rest.1, entry.command :: rest.2)

/-- The loop runs up to the commit index. -/
def applyLogs (node : RaftNode C) : Except Fault (RaftNode C × List (Option C)) :=
  applyLoop node (node.commitIndex - node.lastApplied)

/-- Index 0 matches every log. -/
def matchesPrev (node : RaftNode C) (request : AppendEntriesRequest C) : Except Fault Bool :=
  if request.prevLogIndex > 0 then do
    let last ← getLastLogIndex node
    if request.prevLogIndex > last then return false
    -- the right operand of `||` is evaluated only if the left one is false
    else return decide ((← getLogTerm node request.prevLogIndex) = request.prevLogTerm)
  else .ok true

/-- The commit index stops at the last entry. -/
def updateCommit (node : RaftNode C) (leaderCommit : Nat)
    : Except Fault (RaftNode C × List (Option C)) :=
  if leaderCommit > node.commitIndex then do
    let last ← getLastLogIndex node
    applyLogs { node with commitIndex := min leaderCommit last }
  else .ok (node, [])

def handleAppendEntries (node : RaftNode C) (request : AppendEntriesRequest C)
    : Except Fault (RaftNode C × List (Option C) × AppendEntriesResponse) :=
  if request.term < node.currentTerm then
    .ok (node, [], { term := node.currentTerm, success := false })
  else do
    let current := node.observeLeader request
    if ← matchesPrev current request then
      let log ← appendLoop current.log request.prevLogIndex 0 request.entries
      let updated ← updateCommit { current with log } request.leaderCommit
      return (updated.1, updated.2, { term := node.currentTerm, success := true })
    else return (current, [], { term := node.currentTerm, success := false })

/-- The positions above the commit index, each read at `position - 1`. -/
def commitLoop (node : RaftNode C) (position : Nat) : Nat → Except Fault (RaftNode C)
  | 0 => .ok node
  | steps + 1 => do
      let entry ← index node.log (← subWord position 1)
      let commits := entry.term = node.currentTerm
        ∧ node.matchCount position > node.peers.keys.length / 2
      commitLoop (if commits then { node with commitIndex := position } else node)
        (addWord position 1) steps

def tryCommitLogs (node : RaftNode C) : Except Fault (RaftNode C × List (Option C)) := do
  let last ← getLastLogIndex node
  let start := addWord node.commitIndex 1
  -- the loop ends where the positions pass the last one
  let committed ← commitLoop node start (last + 1 - start)
  applyLogs committed

def handleAppendEntriesResponse (node : RaftNode C) (peerID : GoString)
    (response : AppendEntriesResponse)
    : Except Fault (RaftNode C × List (Option C)) :=
  if response.term > node.currentTerm then .ok (node.stepDown response.term, [])
  else if node.state ≠ .leader ∨ response.term ≠ node.currentTerm then .ok (node, [])
  else if response.success then do
    let nextIndex := addWord (node.nextIndex peerID) 1
    let matchIndex ← subWord nextIndex 1
    tryCommitLogs { node with
      nextIndex := Function.update node.nextIndex peerID nextIndex
      matchIndex := Function.update node.matchIndex peerID matchIndex }
  else if node.nextIndex peerID > 1 then do
    let nextIndex ← subWord (node.nextIndex peerID) 1
    return ({ node with nextIndex := Function.update node.nextIndex peerID nextIndex }, [])
  else .ok (node, [])

/-! Calls without a fault. -/

/-- A log that is not empty and whose length is a word. -/
structure Sized (log : List (LogEntry C)) : Prop where
  positive : 0 < log.length
  small : log.length < 2 ^ 64

variable {node : RaftNode C} {log : List (LogEntry C)} {position : Nat}

/-- A log in use has the initial entry, so the subtraction stays above zero. -/
theorem getLastLogIndex_eq (sized : Sized node.log)
    : getLastLogIndex node = .ok node.getLastLogIndex := by
  rw [getLastLogIndex, lenWord_eq sized.small, subWord_eq sized.positive]
  rfl

theorem getLastLogTerm_eq (sized : Sized node.log)
    : getLastLogTerm node = .ok node.getLastLogTerm := by
  obtain ⟨positive, small⟩ := sized
  have last : node.log[node.log.length - 1]? = some (node.log[node.log.length - 1]) :=
    List.getElem?_eq_getElem (by omega)
  have nonempty : ¬node.log.length = 0 := by omega
  rw [getLastLogTerm, if_neg nonempty, lenWord_eq small, subWord_eq positive]
  simp only [RaftNode.getLastLogTerm, List.getLast?_eq_getElem?, last, ok_bind]
  rw [index_eq last]
  rfl

/-- On words every index reads the same term. -/
theorem getLogTerm_eq (small : node.log.length < 2 ^ 64) (position : Nat)
    : getLogTerm node position = .ok (node.getLogTerm position) := by
  rw [getLogTerm, RaftNode.getLogTerm, lenWord_eq small]
  by_cases zero : position = 0
  · simp [zero]
  by_cases beyond : position > node.log.length
  · rw [if_pos (Or.inr beyond), if_neg zero, List.getElem?_eq_none (by omega)]
  · have inside : node.log[position - 1]? = some (node.log[position - 1]) :=
      List.getElem?_eq_getElem (by omega)
    rw [if_neg (by omega), if_neg zero, subWord_eq (by omega)]
    simp only [inside, ok_bind]
    rw [index_eq inside]
    rfl

section

variable (sized : Sized node.log)
include sized

theorem isLogUpToDate_eq (lastLogIndex lastLogTerm : Nat)
    : isLogUpToDate node lastLogIndex lastLogTerm
      = .ok (node.isLogUpToDate lastLogIndex lastLogTerm) := by
  rw [isLogUpToDate, RaftNode.isLogUpToDate, getLastLogTerm_eq sized, ok_bind]
  split
  · rfl
  · rw [getLastLogIndex_eq sized, ok_bind]
    rfl

theorem requestVote_eq : requestVote node = .ok node.requestVote := by
  rw [requestVote, getLastLogIndex_eq sized, ok_bind, getLastLogTerm_eq sized]
  rfl

theorem handleRequestVote_eq (request : RequestVoteRequest)
    : handleRequestVote node request = .ok (node.handleRequestVote request) := by
  have current : Sized (node.adoptTerm request.term).log := by
    rw [adoptTerm_log]
    exact sized
  simp only [handleRequestVote, RaftNode.handleRequestVote, isLogUpToDate_eq current]
  split
  · rfl
  · by_cases free
        : (node.adoptTerm request.term).votedFor = []
          ∨ (node.adoptTerm request.term).votedFor = request.candidateID
    · rw [if_pos free, ok_bind]
      cases (node.adoptTerm request.term).isLogUpToDate request.lastLogIndex
        request.lastLogTerm <;> simp [free] <;> rfl
    · rw [if_neg free, ok_bind]
      simp only [free, false_and, if_false, Bool.false_eq_true]
      rfl

theorem becomeLeader_eq : becomeLeader node = .ok node.becomeLeader := by
  have last : addWord node.getLastLogIndex 1 = node.getLastLogIndex + 1 := by
    have small := sized.small
    exact addWord_eq (by unfold RaftNode.getLastLogIndex; omega)
  rw [becomeLeader, getLastLogIndex_eq sized, ok_bind, last]
  rfl

theorem handleRequestVoteResponse_eq (peerID : GoString) (response : RequestVoteResponse)
    : handleRequestVoteResponse node peerID response
      = .ok (node.handleRequestVoteResponse peerID response) := by
  have counted : Sized { node with votes := insert peerID node.votes }.log := sized
  simp only [handleRequestVoteResponse, RaftNode.handleRequestVoteResponse,
    becomeLeader_eq counted]
  repeat' split
  all_goals rfl

end

/-- A request to a peer whose next position is not zero is built without a fault. -/
theorem sendAppendEntries_eq (small : node.log.length < 2 ^ 64) {peerID : GoString}
    (started : 1 ≤ node.nextIndex peerID) (isHeartbeat : Bool)
    : sendAppendEntries node peerID isHeartbeat
      = .ok (node.sendAppendEntries peerID isHeartbeat) := by
  simp only [sendAppendEntries, RaftNode.sendAppendEntries, subWord_eq started, ok_bind,
    getLogTerm_eq small, lenWord_eq small]
  split
  · next carries =>
      rw [sliceFrom_eq (by omega), ok_bind]
      rfl
  · rfl

theorem propose_eq (sized : Sized node.log) (command : C)
    : propose node command = .ok (node.call (.propose command)).1 := by
  simp only [propose, RaftNode.call, RaftNode.propose, getLastLogIndex_eq sized, ok_bind]
  split
  · rfl
  · have last : addWord node.getLastLogIndex 1 = node.getLastLogIndex + 1 := by
      have small := sized.small
      exact addWord_eq (by unfold RaftNode.getLastLogIndex; omega)
    rw [last]
    rfl

/-- Both slice expressions are within the log, since the position is 1 or more. -/
theorem appendEntry_eq (small : log.length < 2 ^ 64) (positive : 1 ≤ position) (entry : LogEntry C)
    : appendEntry log position entry = .ok (RaftNode.appendEntry log position entry) := by
  have cut : (log.take (position - 1)).length < 2 ^ 64 := by
    rw [length_take]
    omega
  simp only [appendEntry, RaftNode.appendEntry, lenWord_eq small, subWord_eq positive, ok_bind]
  by_cases inside : position ≤ log.length
  · have found : log[position - 1]? = some (log[position - 1]) :=
      List.getElem?_eq_getElem (by omega)
    rw [if_pos inside, found, index_eq found, ok_bind]
    simp only
    split
    · rw [sliceTo_eq (by omega), ok_bind, lenWord_eq cut]
      rfl
    · rfl
  · rw [if_neg inside, List.getElem?_eq_none (by omega)]
    rfl

/-- A round of the append loop right after the end or inside the log covers its position and
makes the log at most one entry longer.
-/
theorem appendEntry_length (log : List (LogEntry C)) (positive : 1 ≤ position)
    (reached : position ≤ log.length + 1) (entry : LogEntry C)
    : position ≤ (RaftNode.appendEntry log position entry).length
      ∧ (RaftNode.appendEntry log position entry).length ≤ max log.length position := by
  have longer (kept : List (LogEntry C)) (below : kept.length ≤ log.length)
      (near : position ≤ kept.length + 1)
      : position ≤ (if position > kept.length then kept ++ [entry] else kept).length
        ∧ (if position > kept.length then kept ++ [entry] else kept).length
          ≤ max log.length position := by
    split
    · rw [length_append, length_singleton]
      omega
    · omega
  refine longer _ ?_ ?_
  · split
    · exact le_rfl
    · split
      · exact length_take_le' _ _
      · exact le_rfl
  · split
    · exact reached
    · split
      · rw [length_take]
        omega
      · exact reached

/-- The append loop entered inside the log runs without a fault, by induction on the entries:
every round covers the position that the next one continues after.
-/
theorem appendLoop_eq {prevLogIndex i : Nat} {entries : List (LogEntry C)}
    (small : log.length < 2 ^ 64) (reached : prevLogIndex + i ≤ log.length)
    (fits : prevLogIndex + i + entries.length < 2 ^ 64)
    : appendLoop log prevLogIndex i entries
        = .ok (RaftNode.appendLoop log (prevLogIndex + i + 1) entries) := by
  induction entries generalizing log i with
  | nil => rfl
  | cons entry rest ih =>
      rw [length_cons] at fits
      have position : addWord (addWord prevLogIndex i) 1 = prevLogIndex + i + 1 := by
        rw [addWord_eq (by omega : prevLogIndex + i < 2 ^ 64), addWord_eq (by omega)]
      obtain ⟨covered, bound⟩ := appendEntry_length log (by omega : 1 ≤ prevLogIndex + i + 1)
        (by omega) entry
      rw [appendLoop, position, appendEntry_eq small (by omega), ok_bind,
        ih (by omega) (by omega) (by omega)]
      rfl

theorem appendLoop_length {entries : List (LogEntry C)} (positive : 1 ≤ position)
    (reached : position ≤ log.length + 1)
    : position + entries.length ≤ (RaftNode.appendLoop log position entries).length + 1
      ∧ (RaftNode.appendLoop log position entries).length
        ≤ max log.length (position + entries.length - 1) := by
  induction entries generalizing log position with
  | nil => exact ⟨reached, le_max_left _ _⟩
  | cons entry rest ih =>
      obtain ⟨covered, bound⟩ := appendEntry_length log positive reached entry
      obtain ⟨least, most⟩ := @ih (RaftNode.appendEntry log position entry) (position + 1)
        (by omega) (by omega)
      rw [length_cons, RaftNode.appendLoop]
      exact ⟨by omega, by omega⟩

/-- Up to the length of the log every entry is there, by induction on the steps. -/
theorem applyLoop_eq {steps : Nat} (small : node.log.length < 2 ^ 64)
    (bound : node.lastApplied + steps ≤ node.log.length)
    : applyLoop node steps = .ok (node.applyLoop steps) := by
  induction steps generalizing node with
  | zero => rfl
  | succ steps ih =>
      have inside : node.log[node.lastApplied]? = some (node.log[node.lastApplied]) :=
        List.getElem?_eq_getElem (by omega)
      have later := @ih { node with lastApplied := node.lastApplied + 1 } small
        (by simp only; omega)
      rw [applyLoop, addWord_eq (by omega), subWord_eq (by omega), ok_bind, Nat.add_sub_cancel,
        index_eq inside, ok_bind, later, ok_bind]
      simp only [RaftNode.applyLoop, inside]
      rfl

/-- Within the log nothing applied is out of range. -/
theorem applyLogs_eq (small : node.log.length < 2 ^ 64)
    (bound : node.commitIndex ≤ max node.lastApplied node.log.length)
    : applyLogs node = .ok node.applyLogs := by
  rcases Nat.lt_or_ge node.lastApplied node.commitIndex with ahead | idle
  · exact applyLoop_eq small (by omega)
  · have none : node.commitIndex - node.lastApplied = 0 := by omega
    rw [applyLogs, RaftNode.applyLogs, none]
    rfl

theorem matchesPrev_eq (sized : Sized node.log) (request : AppendEntriesRequest C)
    : matchesPrev node request = .ok (node.matchesPrev request) := by
  simp only [matchesPrev, RaftNode.matchesPrev, getLastLogIndex_eq sized,
    getLogTerm_eq sized.small, ok_bind]
  by_cases zero : request.prevLogIndex = 0
  · simp [zero]
  · rw [if_pos (Nat.pos_of_ne_zero zero)]
    by_cases beyond : request.prevLogIndex > node.getLastLogIndex
    · simp [zero, beyond, Nat.not_le.mpr beyond]
      rfl
    · simp [zero, beyond, Nat.le_of_not_gt beyond]
      rfl

theorem updateCommit_eq (sized : Sized node.log) (leaderCommit : Nat)
    : updateCommit node leaderCommit = .ok (node.updateCommit leaderCommit) := by
  simp only [updateCommit, RaftNode.updateCommit, getLastLogIndex_eq sized, ok_bind]
  split
  · have last : node.getLastLogIndex ≤ node.log.length := Nat.sub_le _ _
    refine applyLogs_eq ?_ ?_
    · exact sized.small
    · exact (Nat.min_le_right _ _).trans (last.trans (le_max_right _ _))
  · rfl

/-- The consistency check keeps the append loop inside the log. -/
theorem matchesPrev_lt (positive : 0 < node.log.length) {request : AppendEntriesRequest C}
    (check : node.matchesPrev request)
    : request.prevLogIndex < node.log.length := by
  have known := of_decide_eq_true check
  unfold RaftNode.getLastLogIndex at known
  omega

/-- An accepted request leaves a log that is no longer than the old one and the delivered
entries together, less one: the first entry meets one that is there.
-/
theorem accepted_length (positive : 0 < node.log.length) {request : AppendEntriesRequest C}
    (check : node.matchesPrev request)
    : 0 < (RaftNode.appendLoop node.log (request.prevLogIndex + 1) request.entries).length
      ∧ (RaftNode.appendLoop node.log (request.prevLogIndex + 1) request.entries).length
        ≤ max node.log.length (node.log.length + request.entries.length - 1) := by
  have inside := matchesPrev_lt positive check
  cases delivered : request.entries with
  | nil => exact ⟨positive, le_max_left _ _⟩
  | cons entry rest =>
      obtain ⟨least, most⟩ := @appendLoop_length C node.log (request.prevLogIndex + 1)
        (entry :: rest) (by omega) (by omega)
      rw [length_cons] at least most ⊢
      exact ⟨by omega, by omega⟩

/-- The sum of the lengths bounds every index the loop computes. -/
theorem handleAppendEntries_eq (sized : Sized node.log) (request : AppendEntriesRequest C)
    (fits : node.log.length + request.entries.length ≤ 2 ^ 64)
    : handleAppendEntries node request = .ok (node.handleAppendEntries request) := by
  obtain ⟨positive, small⟩ := sized
  have log := node.observeLeader_log request
  have current : Sized (node.observeLeader request).log := by
    rw [log]
    exact ⟨positive, small⟩
  simp only [handleAppendEntries, RaftNode.handleAppendEntries, matchesPrev_eq current, ok_bind]
  split
  · rfl
  · split
    · next check =>
        have inside := matchesPrev_lt current.positive check
        obtain ⟨least, most⟩ := accepted_length current.positive check
        rw [log] at inside least most
        have appended
            : appendLoop (node.observeLeader request).log request.prevLogIndex 0 request.entries
              = .ok (RaftNode.appendLoop (node.observeLeader request).log
                  (request.prevLogIndex + 1) request.entries) := by
          rw [log]
          exact appendLoop_eq small (by omega) (by omega)
        rw [appended, ok_bind, updateCommit_eq, ok_bind]
        · rfl
        · simp only [log]
          exact ⟨least, by omega⟩
    · rfl

/-- By induction on the steps, with the positions bounded by the length of the log. -/
theorem commitLoop_eq {steps : Nat} (small : node.log.length < 2 ^ 64) (positive : 1 ≤ position)
    (bound : position + steps ≤ node.log.length)
    : commitLoop node position steps = .ok (node.commitLoop position steps) := by
  induction steps generalizing node position with
  | zero => rfl
  | succ steps ih =>
      have inside : node.log[position - 1]? = some (node.log[position - 1]) :=
        List.getElem?_eq_getElem (by omega)
      have test
          : ((node.log[position - 1]).term = node.currentTerm
              ∧ node.matchCount position > node.peers.keys.length / 2)
            ↔ node.commits position = true := by
        simp [RaftNode.commits, inside]
      have next : addWord position 1 = position + 1 := addWord_eq (by omega)
      simp only [commitLoop, RaftNode.commitLoop, subWord_eq positive, ok_bind, index_eq inside,
        test, next]
      apply ih
      · split <;> exact small
      · omega
      · have later : position + 1 + steps ≤ node.log.length := by omega
        split <;> exact later

variable (sized : Sized node.log) (small : node.commitIndex + 1 < 2 ^ 64) (caughtUp : node.CaughtUp)
include sized small caughtUp

/-- The positions that are counted lie in the log. -/
theorem tryCommitLogs_eq
    : tryCommitLogs node = .ok node.tryCommitLogs := by
  have positive := sized.positive
  have last : node.getLastLogIndex + 1 = node.log.length := by
    unfold RaftNode.getLastLogIndex
    omega
  have steps
      : node.getLastLogIndex + 1 - (node.commitIndex + 1)
        = node.getLastLogIndex - node.commitIndex := by
    omega
  unfold RaftNode.CaughtUp at caughtUp
  obtain ⟨final, reached, origin⟩ := node.commitLoop_eq (node.commitIndex + 1)
    (node.getLastLogIndex - node.commitIndex)
  simp only [tryCommitLogs, getLastLogIndex_eq sized, ok_bind, addWord_eq small, steps,
    RaftNode.tryCommitLogs]
  have looped
      : commitLoop node (node.commitIndex + 1) (node.getLastLogIndex - node.commitIndex)
        = .ok { node with commitIndex := final } := by
    rcases Nat.lt_or_ge node.commitIndex node.log.length with inside | beyond
    · rw [← reached]
      exact commitLoop_eq sized.small (by omega) (by omega)
    · have none : node.getLastLogIndex - node.commitIndex = 0 := by omega
      rw [none] at reached ⊢
      rw [← reached]
      rfl
  rw [looped, ok_bind, reached]
  refine applyLogs_eq ?_ ?_
  · exact sized.small
  · simp only
    omega

/-- Only a leader raises a next index, and it may not be the last word. -/
theorem handleAppendEntriesResponse_eq (peerID : GoString)
    (fits : node.state = .leader → node.nextIndex peerID + 1 < 2 ^ 64)
    (response : AppendEntriesResponse)
    : handleAppendEntriesResponse node peerID response
      = .ok (node.handleAppendEntriesResponse peerID response) := by
  have counted : tryCommitLogs (node.countSuccess peerID)
      = .ok (node.countSuccess peerID).tryCommitLogs := by
    refine tryCommitLogs_eq ?_ ?_ ?_
    · exact sized
    · exact small
    · exact caughtUp
  simp only [handleAppendEntriesResponse, RaftNode.handleAppendEntriesResponse]
  by_cases higher : response.term > node.currentTerm
  · simp [higher]
  by_cases ignored : node.state ≠ .leader ∨ response.term ≠ node.currentTerm
  · simp [higher, ignored]
  have leads : node.state = .leader := by
    by_contra other
    exact ignored (Or.inl other)
  rw [if_neg higher, if_neg higher, if_neg ignored, if_neg ignored]
  split
  · rw [addWord_eq (fits leads), subWord_eq (by omega), ok_bind, Nat.add_sub_cancel]
    exact counted
  · split
    · rw [subWord_eq (by omega), ok_bind]
      rfl
    · rfl

end RaftNode.Checked

end Goulette.Raft
