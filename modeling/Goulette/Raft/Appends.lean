import Goulette.Raft.Calls

/-! What an accepted append request leaves in a follower's log, and how far it commits. Positions
are 0-based unless they are called 1-based.
-/

namespace Goulette.Raft

open Goulette.Go List

variable {C : Type}

def TermsAgree (log : List (LogEntry C)) (p : Nat) (entries : List (LogEntry C)) : Prop :=
  ∀ (i : Nat) (held entry : LogEntry C),
    log[p + i]? = some held → entries[i]? = some entry → held.term = entry.term

structure FirstConflict (log : List (LogEntry C)) (p : Nat) (entries : List (LogEntry C)) (j : Nat)
    : Prop where
  differs
    : ∃ held entry, log[p + j]? = some held ∧ entries[j]? = some entry ∧ held.term ≠ entry.term
  earlier
    : ∀ i < j, ∀ held entry : LogEntry C,
        log[p + i]? = some held → entries[i]? = some entry → held.term = entry.term

section

variable {log entries rest : List (LogEntry C)} {p j : Nat} {entry held : LogEntry C}

/-- At the end of a log there is nothing to disagree with. -/
theorem TermsAgree.of_end (ends : log.length ≤ p) : TermsAgree log p entries := by
  intro i held entry inside _
  obtain ⟨bound, _⟩ := List.getElem?_eq_some_iff.mp inside
  omega

theorem TermsAgree.tail (agree : TermsAgree log p (entry :: rest))
    : TermsAgree log (p + 1) rest := by
  intro i held entry inside found
  refine agree (i + 1) held entry ?_ (by simpa using found)
  rwa [Nat.add_assoc, Nat.add_comm 1 i] at inside

theorem FirstConflict.tail (first : FirstConflict log p (entry :: rest) (j + 1))
    : FirstConflict log (p + 1) rest j := by
  have shift (i : Nat) : p + 1 + i = p + (i + 1) := by omega
  obtain ⟨⟨held, other, inside, found, differs⟩, earlier⟩ := first
  refine ⟨⟨held, other, by rw [shift]; exact inside, by simpa using found, differs⟩, ?_⟩
  intro i before held other inside found
  rw [shift] at inside
  exact earlier (i + 1) (by omega) held other inside (by simpa using found)

theorem termsAgree_or_firstConflict (log : List (LogEntry C)) (p : Nat)
    (entries : List (LogEntry C))
    : TermsAgree log p entries ∨ ∃ j, FirstConflict log p entries j := by
  classical
  by_cases some
      : ∃ j held entry, log[p + j]? = .some held ∧ entries[j]? = .some entry
          ∧ held.term ≠ entry.term
  · refine Or.inr ⟨Nat.find some, Nat.find_spec some, ?_⟩
    intro i before held entry inside found
    by_contra differs
    exact Nat.find_min some before ⟨held, entry, inside, found, differs⟩
  · refine Or.inl ?_
    intro i held entry inside found
    by_contra differs
    exact some ⟨i, held, entry, inside, found, differs⟩

theorem TermsAgree.not_firstConflict (agree : TermsAgree log p entries)
    : ¬FirstConflict log p entries j := by
  rintro ⟨⟨held, entry, inside, found, differs⟩, _⟩
  exact differs (agree j held entry inside found)

theorem appendEntry_end (ends : log.length = p)
    : RaftNode.appendEntry log (p + 1) entry = log ++ [entry] := by
  simp [RaftNode.appendEntry, ends]

theorem appendEntry_same (inside : log[p]? = some held) (same : held.term = entry.term)
    : RaftNode.appendEntry log (p + 1) entry = log := by
  obtain ⟨bound, _⟩ := List.getElem?_eq_some_iff.mp inside
  have long : ¬log.length < p + 1 := by omega
  simp [RaftNode.appendEntry, inside, same, long]

theorem appendEntry_differs (inside : log[p]? = some held) (differs : held.term ≠ entry.term)
    : RaftNode.appendEntry log (p + 1) entry = log.take p ++ [entry] := by
  simp [RaftNode.appendEntry, inside, differs]

/-- Without a conflict the log is kept and the entries beyond it are appended. Witness:
induction on the entries; once the log ends, each of them is appended at its end.
-/
theorem appendLoop_agree (bound : p ≤ log.length) (agree : TermsAgree log p entries)
    : RaftNode.appendLoop log (p + 1) entries = log ++ entries.drop (log.length - p) := by
  induction entries generalizing log p with
  | nil => simp [RaftNode.appendLoop]
  | cons entry rest ih =>
      rw [RaftNode.appendLoop]
      cases inside : log[p]? with
      | none =>
          have ends : log.length = p := by
            have := List.getElem?_eq_none_iff.mp inside
            omega
          have length : (log ++ [entry]).length = p + 1 := by simp [ends]
          rw [appendEntry_end ends, ih length.ge (.of_end length.le), length, ends]
          simp
      | some held =>
          obtain ⟨before, _⟩ := List.getElem?_eq_some_iff.mp inside
          have same : held.term = entry.term := agree 0 held entry inside rfl
          have shift : log.length - p = log.length - (p + 1) + 1 := by omega
          rw [appendEntry_same inside same, ih before agree.tail, shift, drop_succ_cons]

/-- At the first conflict the log is cut and the entries from there on replace its end. -/
theorem appendLoop_conflict (first : FirstConflict log p entries j)
    : RaftNode.appendLoop log (p + 1) entries = log.take (p + j) ++ entries.drop j := by
  induction entries generalizing log p j with
  | nil =>
      obtain ⟨⟨held, entry, inside, found, differs⟩, _⟩ := first
      simp at found
  | cons entry rest ih =>
      rw [RaftNode.appendLoop]
      cases j with
      | zero =>
          obtain ⟨⟨held, other, inside, found, differs⟩, _⟩ := first
          obtain rfl : entry = other := Option.some.inj found
          obtain ⟨bound, _⟩ := List.getElem?_eq_some_iff.mp inside
          have length : (log.take p ++ [entry]).length = p + 1 := by
            rw [length_append, length_take_of_le (by omega), length_singleton]
          rw [appendEntry_differs inside differs, Nat.add_zero,
            appendLoop_agree length.ge (.of_end length.le), length]
          simp
      | succ j =>
          obtain ⟨held, _, later, _, _⟩ := first.differs
          obtain ⟨bound, _⟩ := List.getElem?_eq_some_iff.mp later
          have inside : log[p]? = some (log[p]) := List.getElem?_eq_getElem (by omega)
          have same : log[p].term = entry.term :=
            first.earlier 0 (Nat.succ_pos j) _ entry inside rfl
          rw [appendEntry_same inside same, ih first.tail, drop_succ_cons,
            Nat.add_assoc, Nat.add_comm 1 j]

theorem appendLoop_length_of_agree (bound : p ≤ log.length) (agree : TermsAgree log p entries)
    : (RaftNode.appendLoop log (p + 1) entries).length = max log.length (p + entries.length) := by
  rw [appendLoop_agree bound agree, length_append, length_drop]
  omega

theorem FirstConflict.bounds (first : FirstConflict log p entries j)
    : p + j < log.length ∧ j < entries.length := by
  obtain ⟨⟨held, entry, inside, found, _⟩, _⟩ := first
  exact ⟨(List.getElem?_eq_some_iff.mp inside).1, (List.getElem?_eq_some_iff.mp found).1⟩

theorem appendLoop_length_of_conflict (first : FirstConflict log p entries j)
    : (RaftNode.appendLoop log (p + 1) entries).length = p + entries.length := by
  obtain ⟨inside, within⟩ := first.bounds
  rw [appendLoop_conflict first, length_append, length_take_of_le (by omega),
    length_drop]
  omega

/-- The loop leaves a log that reaches as far as the entries do, and agrees with them. -/
theorem appendLoop_settled (bound : p ≤ log.length) (entries : List (LogEntry C))
    : TermsAgree (RaftNode.appendLoop log (p + 1) entries) p entries
      ∧ p + entries.length ≤ (RaftNode.appendLoop log (p + 1) entries).length := by
  rcases termsAgree_or_firstConflict log p entries with agree | ⟨j, first⟩
  · refine ⟨?_, by rw [appendLoop_length_of_agree bound agree]; omega⟩
    intro i held entry inside found
    rw [appendLoop_agree bound agree] at inside
    rcases Nat.lt_or_ge (p + i) log.length with before | after
    · rw [List.getElem?_append_left before] at inside
      exact agree i held entry inside found
    · have shift : log.length - p + (p + i - log.length) = i := by omega
      rw [List.getElem?_append_right after, List.getElem?_drop, shift, found] at inside
      rw [Option.some.inj inside]
  · refine ⟨?_, (appendLoop_length_of_conflict first).ge⟩
    intro i held entry inside found
    have cut : (log.take (p + j)).length = p + j :=
      length_take_of_le (Nat.le_of_lt first.bounds.1)
    rw [appendLoop_conflict first] at inside
    rcases Nat.lt_or_ge i j with before | after
    · rw [List.getElem?_append_left (by omega), List.getElem?_take_of_lt (by omega)] at inside
      exact first.earlier i before held entry inside found
    · have shift : j + (p + i - (p + j)) = i := by omega
      rw [List.getElem?_append_right (by omega), cut, List.getElem?_drop, shift, found] at inside
      rw [Option.some.inj inside]

/-- The loop keeps the log up to the position where it starts. -/
theorem appendLoop_take_start (bound : p ≤ log.length)
    : (RaftNode.appendLoop log (p + 1) entries).take p = log.take p := by
  rcases termsAgree_or_firstConflict log p entries with agree | ⟨j, first⟩
  · rw [appendLoop_agree bound agree, take_append_of_le_length bound]
  · obtain ⟨inside, _⟩ := first.bounds
    rw [appendLoop_conflict first,
      take_append_of_le_length (by rw [length_take]; omega), take_take,
      Nat.min_eq_left (Nat.le_add_right p j)]

/-- A log that holds the starting position still holds it. -/
theorem appendLoop_longer (inside : p < log.length)
    : p < (RaftNode.appendLoop log (p + 1) entries).length := by
  rcases termsAgree_or_firstConflict log p entries with agree | ⟨j, first⟩
  · rw [appendLoop_length_of_agree (Nat.le_of_lt inside) agree]
    omega
  · have within := first.bounds.2
    rw [appendLoop_length_of_conflict first]
    omega

/-- The loop does not empty a log. -/
theorem appendLoop_ne_nil (bound : p ≤ log.length) (nonempty : log ≠ [])
    (entries : List (LogEntry C))
    : RaftNode.appendLoop log (p + 1) entries ≠ [] := by
  rcases termsAgree_or_firstConflict log p entries with agree | ⟨j, first⟩
  · rw [appendLoop_agree bound agree]
    exact append_ne_nil_of_left_ne_nil nonempty _
  · have carries := first.bounds.2
    apply ne_nil_of_length_pos
    rw [appendLoop_length_of_conflict first]
    omega

/-- A second run of the loop on the same entries changes nothing. -/
theorem appendLoop_again (bound : p ≤ log.length)
    : RaftNode.appendLoop (RaftNode.appendLoop log (p + 1) entries) (p + 1) entries
      = RaftNode.appendLoop log (p + 1) entries := by
  obtain ⟨agree, long⟩ := appendLoop_settled bound entries
  rw [appendLoop_agree (by omega) agree, drop_eq_nil_of_le (by omega), append_nil]

end

namespace RaftNode

def Accepts (node : RaftNode C) (request : AppendEntriesRequest C) : Prop :=
  (node.handleAppendEntries request).2.2.success = true

variable {node : RaftNode C} {request : AppendEntriesRequest C}

theorem accepts_iff
    : node.Accepts request ↔ node.currentTerm ≤ request.term ∧ node.matchesPrev request := by
  rcases Nat.lt_or_ge request.term node.currentTerm with stale | current
  · have reject : ¬node.currentTerm ≤ request.term := by omega
    simp [Accepts, handleAppendEntries, stale, reject]
  · have fresh : ¬request.term < node.currentTerm := by omega
    simp only [Accepts, handleAppendEntries, fresh, if_false, observeLeader_matchesPrev]
    split <;> simp_all

theorem Accepts.handled (accepted : node.Accepts request)
    : node.handleAppendEntries request
      = (((node.appended request).updateCommit request.leaderCommit).1,
          ((node.appended request).updateCommit request.leaderCommit).2,
          { term := node.currentTerm, success := true }) := by
  obtain ⟨current, check⟩ := accepts_iff.mp accepted
  have fresh : ¬request.term < node.currentTerm := by omega
  simp only [handleAppendEntries, fresh, if_false, observeLeader_matchesPrev, check, if_true,
    observeLeader_log, appended]

/-- A request that is not accepted moves neither the log nor the committed positions. -/
theorem handleAppendEntries_of_not_accepts (refused : ¬node.Accepts request)
    : (node.handleAppendEntries request).1.log = node.log
      ∧ (node.handleAppendEntries request).1.commitIndex = node.commitIndex
      ∧ (node.handleAppendEntries request).2.1 = [] := by
  rcases node.handleAppendEntries_cases request with
    ⟨_, handled⟩ | ⟨_, handled⟩ | ⟨_, _, handled⟩
  · rw [handled]
    exact ⟨rfl, rfl, rfl⟩
  · rw [handled]
    exact ⟨node.observeLeader_log request, (node.observeLeader_commit request).1, rfl⟩
  · exact absurd (by rw [Accepts, handled]) refused

theorem Accepts.log (accepted : node.Accepts request)
    : (node.handleAppendEntries request).1.log
      = appendLoop node.log (request.prevLogIndex + 1) request.entries := by
  obtain ⟨commitIndex, lastApplied, moved⟩ :=
    (node.appended request).updateCommit_fst request.leaderCommit
  rw [accepted.handled, moved]
  rfl

theorem matchesPrev_iff
    : node.matchesPrev request
      ↔ request.prevLogIndex = 0
        ∨ (request.prevLogIndex < node.log.length
          ∧ ∃ held, node.log[request.prevLogIndex - 1]? = some held
              ∧ held.term = request.prevLogTerm) := by
  unfold matchesPrev getLastLogIndex
  rw [decide_eq_true_iff]
  refine or_congr_right' (fun positive => ?_)
  by_cases inside : request.prevLogIndex < node.log.length
  · have found : node.log[request.prevLogIndex - 1]? = some (node.log[request.prevLogIndex - 1]) :=
      List.getElem?_eq_getElem (by omega)
    have before : request.prevLogIndex ≤ node.log.length - 1 := by omega
    simp [getLogTerm, positive, found, before, inside]
  · have beyond : ¬request.prevLogIndex ≤ node.log.length - 1 := by omega
    simp [beyond, inside]

theorem Accepts.bound (accepted : node.Accepts request)
    : request.prevLogIndex ≤ node.log.length := by
  rcases matchesPrev_iff.mp (accepts_iff.mp accepted).2 with zero | ⟨inside, _⟩ <;> omega

/-- The commit moves to a position of the log, or it stays; what is committed then is applied. -/
theorem updateCommit_cases (node : RaftNode C) (leaderCommit : Nat)
    : (leaderCommit ≤ node.commitIndex ∧ node.updateCommit leaderCommit = (node, []))
      ∨ (node.commitIndex < leaderCommit
        ∧ node.updateCommit leaderCommit
          = ({ node with
                commitIndex := min leaderCommit node.getLastLogIndex
                lastApplied := max node.lastApplied (min leaderCommit node.getLastLogIndex) },
              (node.updateCommit leaderCommit).2)
        ∧ (node.updateCommit leaderCommit).2.length
          = min leaderCommit node.getLastLogIndex - node.lastApplied) := by
  rcases Nat.lt_or_ge node.commitIndex leaderCommit with raised | settled
  · refine Or.inr ⟨raised, ?_, ?_⟩
    · refine Prod.ext ?_ rfl
      simp only [updateCommit, gt_iff_lt, raised, if_true, applyLogs_fst]
    · have count := Replica.applyLogs_length
        { node with commitIndex := min leaderCommit node.getLastLogIndex }
      simp only [updateCommit, gt_iff_lt, raised, if_true]
      simp only at count
      omega
  · exact Or.inl ⟨settled, by simp [updateCommit, Nat.not_lt.mpr settled]⟩

theorem updateCommit_again (node : RaftNode C) (leaderCommit : Nat)
    : (node.updateCommit leaderCommit).1.updateCommit leaderCommit
      = ((node.updateCommit leaderCommit).1, []) := by
  rcases node.updateCommit_cases leaderCommit with ⟨settled, kept⟩ | ⟨raised, moved, _⟩
  · rw [kept]
    exact kept
  · rw [moved]
    simp only [updateCommit, gt_iff_lt, getLastLogIndex, applyLogs]
    split
    · rw [show ∀ a b : Nat, a - max b a = 0 by omega]
      rfl
    · rfl

theorem observeLeader_same (term : node.currentTerm = request.term)
    (leader : node.leaderID = request.leaderID)
    : node.observeLeader request = node := by
  rw [observeLeader, if_neg (by omega), ← leader]

/-- Handling an accepted request once more changes nothing and applies nothing. -/
theorem Accepts.again (accepted : node.Accepts request)
    : (node.handleAppendEntries request).1.Accepts request
      ∧ ((node.handleAppendEntries request).1.handleAppendEntries request).1
        = (node.handleAppendEntries request).1
      ∧ ((node.handleAppendEntries request).1.handleAppendEntries request).2.1 = [] := by
  obtain ⟨current, check⟩ := accepts_iff.mp accepted
  obtain ⟨commitIndex, lastApplied, moved⟩ :=
    (node.appended request).updateCommit_fst request.leaderCommit
  have reached
      : (node.handleAppendEntries request).1
        = ((node.appended request).updateCommit request.leaderCommit).1 := by
    rw [accepted.handled]
  have term : (node.handleAppendEntries request).1.currentTerm = request.term := by
    rw [reached, moved]
    exact observeLeader_term current
  have leader : (node.handleAppendEntries request).1.leaderID = request.leaderID := by
    rw [reached, moved]
    show (node.observeLeader request).leaderID = request.leaderID
    unfold observeLeader
    split <;> rfl
  have log := accepted.log
  have repeated : (node.handleAppendEntries request).1.Accepts request := by
    refine accepts_iff.mpr ⟨term.le, ?_⟩
    rw [matchesPrev_iff] at check ⊢
    rw [log]
    rcases Nat.eq_zero_or_pos request.prevLogIndex with zero | positive
    · exact Or.inl zero
    · obtain ⟨inside, held, found, same⟩ := check.resolve_left (by omega)
      refine Or.inr ⟨appendLoop_longer inside, held, ?_, same⟩
      have before : request.prevLogIndex - 1 < request.prevLogIndex := by omega
      rw [← List.getElem?_take_of_lt before, appendLoop_take_start accepted.bound,
        List.getElem?_take_of_lt before, found]
  have appended
      : (node.handleAppendEntries request).1.appended request
        = (node.handleAppendEntries request).1 := by
    rw [RaftNode.appended, observeLeader_same term leader, log, appendLoop_again accepted.bound,
      ← log]
  refine ⟨repeated, ?_, ?_⟩
  · rw [repeated.handled, appended, reached, updateCommit_again]
  · rw [repeated.handled, appended, reached, updateCommit_again]

/-! Slices of one leader's log. -/

/-- How much of the leader's log a request carries; without entries it leaves a log alone. -/
def reach (request : AppendEntriesRequest C) : Nat :=
  if request.entries = [] then 0 else request.prevLogIndex + request.entries.length

/-- A log takes over a leader's log up to a position, unless it agrees with it that far. -/
def Settles (leaderLog : List (LogEntry C)) (reach : Nat) (log result : List (LogEntry C)) : Prop :=
  (log.take reach = leaderLog.take reach ∧ result = log)
  ∨ (log.take reach ≠ leaderLog.take reach ∧ result = leaderLog.take reach)

theorem Accepts.agree {leaderLog : List (LogEntry C)} (accepted : node.Accepts request)
    (matching : LogsMatch node.log leaderLog)
    (prev
      : request.prevLogIndex = 0
        ∨ ∃ e, leaderLog[request.prevLogIndex - 1]? = some e ∧ e.term = request.prevLogTerm)
    : node.log.take request.prevLogIndex = leaderLog.take request.prevLogIndex := by
  rcases Nat.eq_zero_or_pos request.prevLogIndex with zero | positive
  · simp [zero]
  · obtain ⟨e, sent, term⟩ := prev.resolve_left (by omega)
    obtain ⟨_, held, found, same⟩ :=
      (matchesPrev_iff.mp (accepts_iff.mp accepted).2).resolve_left (by omega)
    have shift : request.prevLogIndex - 1 + 1 = request.prevLogIndex := by omega
    have equal := matching _ held e found sent (same.trans term.symm)
    rwa [shift] at equal

/-- A slice of the leader's log is kept where it is held already, and otherwise leaves the
leader's log up to the end of the slice.
-/
theorem Accepts.slice {leaderLog : List (LogEntry C)} (accepted : node.Accepts request)
    (matching : LogsMatch node.log leaderLog) (slice : SliceOf leaderLog request)
    : Settles leaderLog (reach request) node.log (node.handleAppendEntries request).1.log := by
  rw [accepted.log]
  by_cases empty : request.entries = []
  · have nothing : reach request = 0 := if_pos empty
    refine Or.inl ⟨by simp [nothing], ?_⟩
    rw [empty]
    rfl
  · have whole : reach request = request.prevLogIndex + request.entries.length := if_neg empty
    obtain ⟨part, inside, prev⟩ := slice.resolve_right (fun past => empty past.1)
    rw [whole]
    by_cases holds
        : node.log.take (request.prevLogIndex + request.entries.length)
          = leaderLog.take (request.prevLogIndex + request.entries.length)
    · exact Or.inl ⟨holds, appendLoop_held (slice_held part holds)⟩
    · refine Or.inr ⟨holds, ?_⟩
      rcases appendLoop_eq matching accepted.bound (accepted.agree matching prev) part with
        ⟨_, _, same⟩ | cut
      · exact absurd same holds
      · exact cut

theorem reach_le {leaderLog : List (LogEntry C)} (slice : SliceOf leaderLog request)
    : reach request ≤ leaderLog.length := by
  unfold reach
  split
  · exact Nat.zero_le _
  · next carries =>
      obtain ⟨part, inside, _⟩ := slice.resolve_right (fun past => carries past.1)
      have length := part.length_le
      rw [length_drop] at length
      omega

namespace Settles

variable {leaderLog log result : List (LogEntry C)} {count reach : Nat}

theorem of_holds (settles : Settles leaderLog reach log result)
    (holds : log.take reach = leaderLog.take reach)
    : result = log := by
  rcases settles with ⟨_, kept⟩ | ⟨lacks, _⟩
  · exact kept
  · exact absurd holds lacks

/-- A part of the leader's log grows to the farther of the two ends. -/
theorem of_take (settles : Settles leaderLog reach (leaderLog.take count) result)
    (inside : reach ≤ leaderLog.length)
    : result = leaderLog.take (max count reach) := by
  rcases settles with ⟨holds, kept⟩ | ⟨lacks, cut⟩
  · have length := congrArg List.length holds
    simp only [length_take] at length
    rw [kept]
    rcases Nat.le_total reach count with within | beyond
    · rw [Nat.max_eq_left within]
    · have full : count = reach ∨ leaderLog.length ≤ count := by omega
      rcases full with same | long
      · rw [same, Nat.max_self]
      · rw [take_of_length_le long, take_of_length_le (by omega)]
  · have short : count < reach := by
      by_contra within
      rw [take_take, Nat.min_eq_left (by omega)] at lacks
      exact lacks rfl
    rw [cut, Nat.max_eq_right (Nat.le_of_lt short)]

/-- A log that agrees up to a position and lacks something up to another lacks it further on. -/
theorem lt_of_lacks {other : Nat} (holds : log.take reach = leaderLog.take reach)
    (lacks : log.take other ≠ leaderLog.take other)
    : reach < other := by
  by_contra within
  have cut := congrArg (List.take other) holds
  rw [take_take, take_take, Nat.min_eq_left (by omega)] at cut
  exact lacks cut

/-- Two positions of one leader's log can be settled in either order. -/
theorem commute {other : Nat} {first second otherFirst otherSecond : List (LogEntry C)}
    (inside : reach ≤ leaderLog.length) (otherInside : other ≤ leaderLog.length)
    (settles : Settles leaderLog reach log first)
    (settlesThen : Settles leaderLog other first second)
    (otherSettles : Settles leaderLog other log otherFirst)
    (otherThen : Settles leaderLog reach otherFirst otherSecond)
    : second = otherSecond := by
  rcases settles with ⟨holds, rfl⟩ | ⟨lacks, rfl⟩
  · rcases otherSettles with ⟨otherHolds, rfl⟩ | ⟨otherLacks, rfl⟩
    · rw [settlesThen.of_holds otherHolds, otherThen.of_holds holds]
    · have farther := lt_of_lacks holds otherLacks
      rw [otherThen.of_take inside, Nat.max_eq_left (Nat.le_of_lt farther)]
      rcases settlesThen with ⟨otherHolds, _⟩ | ⟨_, cut⟩
      · exact absurd otherHolds otherLacks
      · exact cut
  · rcases otherSettles with ⟨otherHolds, rfl⟩ | ⟨_, rfl⟩
    · have farther := lt_of_lacks otherHolds lacks
      rw [settlesThen.of_take otherInside, Nat.max_eq_left (Nat.le_of_lt farther)]
      rcases otherThen with ⟨holds, _⟩ | ⟨_, cut⟩
      · exact absurd holds lacks
      · exact cut.symm
    · rw [settlesThen.of_take otherInside, otherThen.of_take inside, Nat.max_comm]

theorem matching (settles : Settles leaderLog reach log result)
    (before : LogsMatch log leaderLog)
    : LogsMatch result leaderLog := by
  rcases settles with ⟨_, rfl⟩ | ⟨_, rfl⟩
  · exact before
  · exact LogsMatch.of_take leaderLog reach

end Settles

end RaftNode

open RaftNode

/-- The log after an accepted request: the old log where the request holds nothing new, the
old log continued by the entries beyond it, or the old log cut at the first conflict and
continued by the entries from there on. The same request once more changes nothing, and two
slices of one leader's log give the same log in either order.
-/
theorem handleAppendEntries_log (node : RaftNode C) (request : AppendEntriesRequest C)
    (accepted : node.Accepts request)
    : (TermsAgree node.log request.prevLogIndex request.entries
        → request.prevLogIndex + request.entries.length ≤ node.log.length
        → (node.handleAppendEntries request).1.log = node.log)
      ∧ (TermsAgree node.log request.prevLogIndex request.entries
        → node.log.length < request.prevLogIndex + request.entries.length
        → (node.handleAppendEntries request).1.log
          = node.log ++ request.entries.drop (node.log.length - request.prevLogIndex))
      ∧ (¬TermsAgree node.log request.prevLogIndex request.entries
        → ∃ j, FirstConflict node.log request.prevLogIndex request.entries j
            ∧ (node.handleAppendEntries request).1.log
              = node.log.take (request.prevLogIndex + j) ++ request.entries.drop j)
      ∧ ((node.handleAppendEntries request).1.handleAppendEntries request).1
        = (node.handleAppendEntries request).1
      ∧ ((node.handleAppendEntries request).1.handleAppendEntries request).2.1 = []
      ∧ (∀ (leaderLog : List (LogEntry C)) (other : AppendEntriesRequest C),
          LogsMatch node.log leaderLog
          → SliceOf leaderLog request
          → SliceOf leaderLog other
          → (node.handleAppendEntries request).1.Accepts other
          → node.Accepts other
          → (node.handleAppendEntries other).1.Accepts request
          → ((node.handleAppendEntries request).1.handleAppendEntries other).1.log
            = ((node.handleAppendEntries other).1.handleAppendEntries request).1.log) := by
  rw [accepted.log]
  refine ⟨?_, ?_, ?_, accepted.again.2.1, accepted.again.2.2, ?_⟩
  · intro agree inside
    rw [appendLoop_agree accepted.bound agree, drop_eq_nil_of_le (by omega),
      append_nil]
  · intro agree _
    exact appendLoop_agree accepted.bound agree
  · intro conflict
    obtain ⟨j, first⟩ :=
      (termsAgree_or_firstConflict node.log request.prevLogIndex request.entries).resolve_left
        conflict
    exact ⟨j, first, appendLoop_conflict first⟩
  · intro leaderLog other matching slice otherSlice acceptedThen otherFirst otherThen
    have settles := accepted.slice matching slice
    have otherSettles := otherFirst.slice matching otherSlice
    exact Settles.commute (reach_le slice) (reach_le otherSlice) settles
      (acceptedThen.slice (settles.matching matching) otherSlice) otherSettles
      (otherThen.slice (otherSettles.matching matching) slice)

def divergent : RaftNode Nat :=
  { (newRaftNode [1] pair : RaftNode Nat) with
    currentTerm := 1
    log := [initialEntry, { term := 1, index := 1, command := some 7 },
      { term := 1, index := 2, command := some 8 }] }

def replacing : AppendEntriesRequest Nat where
  term := 2
  leaderID := [2]
  prevLogIndex := 1
  prevLogTerm := 0
  entries := [{ term := 2, index := 1, command := some 9 }]
  leaderCommit := 0

/-- The follower's end is replaced; a delayed copy of the leader's first entry then changes
nothing, whether it comes before or after.
-/
theorem handleAppendEntries_log_replacing
    : divergent.Accepts replacing
      ∧ ((divergent.handleAppendEntries replacing).1.handleAppendEntries replacing).1
        = (divergent.handleAppendEntries replacing).1
      ∧ ((divergent.handleAppendEntries replacing).1.handleAppendEntries
          { replacing with prevLogIndex := 0, entries := [initialEntry] }).1.log
        = ((divergent.handleAppendEntries
            { replacing with prevLogIndex := 0, entries := [initialEntry] }).1.handleAppendEntries
          replacing).1.log := by
  have spec := handleAppendEntries_log divergent replacing rfl
  refine ⟨rfl, spec.2.2.2.1, ?_⟩
  refine spec.2.2.2.2.2 [initialEntry, { term := 2, index := 1, command := some 9 }] _ ?_ ?_ ?_
    rfl rfl rfl
  · intro k held found inLog inLeader same
    rcases k with _ | _ | k
    · rfl
    · obtain rfl := Option.some.inj inLog
      obtain rfl := Option.some.inj inLeader
      simp at same
    · simp at inLeader
  · exact Or.inl ⟨by decide, by decide, Or.inr ⟨initialEntry, rfl, rfl⟩⟩
  · exact Or.inl ⟨by decide, by decide, Or.inl rfl⟩

/-- What a request has checked: the 1-based positions up to its last entry. -/
def AppendEntriesRequest.covered (request : AppendEntriesRequest C) : Nat :=
  request.prevLogIndex + request.entries.length

namespace RaftNode

variable {node : RaftNode C} {request : AppendEntriesRequest C}

/-- The commit does not go back, and neither it nor an entry that is applied lies beyond the
positions that the request has checked. Command number `i` of a call is the one at the 1-based
position `lastApplied + i + 1` of the new log.
-/
structure CommitsChecked (node : RaftNode C) (request : AppendEntriesRequest C) : Prop where
  kept : node.commitIndex ≤ (node.handleAppendEntries request).1.commitIndex
  checked
    : node.commitIndex < (node.handleAppendEntries request).1.commitIndex
      → (node.handleAppendEntries request).1.commitIndex ≤ request.covered
  applied
    : ∀ (i : Nat) (command : Option C),
        (node.handleAppendEntries request).2.1[i]? = some command
        → (node.handleAppendEntries request).1.log[node.lastApplied + i]?.map LogEntry.command
            = some command
          ∧ node.lastApplied + i + 1 ≤ request.covered

/-- The request is refused or brings no commit. Otherwise the log must not be cut below the
commit, and what the follower has beyond the request must not be committed with it: the
leader's commit lies within the request, or it holds at most one entry more, or a conflict
cuts them off, or they are committed and applied up to the last but one.
-/
def WithinRequest (node : RaftNode C) (request : AppendEntriesRequest C) : Prop :=
  request.term < node.currentTerm
  ∨ node.matchesPrev request = false
  ∨ request.leaderCommit ≤ node.commitIndex
  ∨ ((node.commitIndex < request.covered
        ∨ (TermsAgree node.log request.prevLogIndex request.entries
          ∧ node.commitIndex < node.log.length))
      ∧ (request.leaderCommit ≤ request.covered
        ∨ node.log.length ≤ request.covered + 1
        ∨ ¬TermsAgree node.log request.prevLogIndex request.entries
        ∨ (node.log.length = node.commitIndex + 1 ∧ node.commitIndex ≤ node.lastApplied)))

theorem Accepts.length (accepted : node.Accepts request)
    : (TermsAgree node.log request.prevLogIndex request.entries
        ∧ (node.appended request).log.length = max node.log.length request.covered)
      ∨ (¬TermsAgree node.log request.prevLogIndex request.entries
        ∧ (node.appended request).log.length = request.covered
        ∧ 0 < request.covered) := by
  rcases termsAgree_or_firstConflict node.log request.prevLogIndex request.entries with
    agree | ⟨j, first⟩
  · exact Or.inl ⟨agree, appendLoop_length_of_agree accepted.bound agree⟩
  · refine Or.inr ⟨fun agree => agree.not_firstConflict first,
      appendLoop_length_of_conflict first, ?_⟩
    have carries := first.bounds.2
    unfold AppendEntriesRequest.covered
    omega

section

variable (nonempty : node.log ≠ []) (accepted : node.Accepts request)
include nonempty accepted

/-- The commands a call passes on are those of the positions after `lastApplied`. -/
theorem Accepts.passed {i : Nat} {command : Option C}
    (passed : (node.handleAppendEntries request).2.1[i]? = some command)
    : (node.handleAppendEntries request).1.log[node.lastApplied + i]?.map LogEntry.command
      = some command := by
  have log := accepted.log
  have positive := length_pos_of_ne_nil
    (appendLoop_ne_nil accepted.bound nonempty request.entries)
  have appliedBefore : (node.appended request).lastApplied = node.lastApplied :=
    (node.observeLeader_commit request).2
  obtain ⟨inside, _⟩ := List.getElem?_eq_some_iff.mp passed
  rw [log]
  rw [accepted.handled] at passed inside
  rcases (node.appended request).updateCommit_cases request.leaderCommit with
    ⟨_, kept⟩ | ⟨raised, _, count⟩
  · rw [kept] at passed
    simp at passed
  · -- The loop ran, so it went up to a committed position inside the log.
    simp only [count, appliedBefore, getLastLogIndex] at inside
    have bound
        : node.lastApplied + (min request.leaderCommit (node.appended request).getLastLogIndex
            - node.lastApplied)
          ≤ (node.appended request).log.length := by
      unfold getLastLogIndex
      omega
    simp only [updateCommit, gt_iff_lt, raised, if_true, applyLogs, appliedBefore] at passed
    rw [applyLoop_snd _ _ (by simpa only [appliedBefore] using bound)] at passed
    simp only [List.getElem?_map, List.getElem?_take, List.getElem?_drop] at passed
    split at passed
    · exact passed
    · simp at passed

/-- The property in numbers. -/
theorem Accepts.commitsChecked_iff_counts
    : node.CommitsChecked request
      ↔ node.commitIndex ≤ (node.handleAppendEntries request).1.commitIndex
        ∧ ((node.handleAppendEntries request).1.commitIndex ≤ node.commitIndex
          ∨ (node.handleAppendEntries request).1.commitIndex ≤ request.covered)
        ∧ ((node.handleAppendEntries request).2.1.length = 0
          ∨ node.lastApplied + (node.handleAppendEntries request).2.1.length
            ≤ request.covered) := by
  constructor
  · rintro ⟨kept, checked, applied⟩
    refine ⟨kept, ?_, ?_⟩
    · rcases Nat.lt_or_ge node.commitIndex (node.handleAppendEntries request).1.commitIndex with
        grown | same
      · exact Or.inr (checked grown)
      · exact Or.inl same
    · rcases Nat.eq_zero_or_pos (node.handleAppendEntries request).2.1.length with none | some
      · exact Or.inl none
      · have last := (applied _ _ (List.getElem?_eq_getElem (Nat.sub_one_lt_of_lt some))).2
        exact Or.inr (by omega)
  · rintro ⟨kept, checked, applied⟩
    refine ⟨kept, fun grown => by omega, fun i command passed => ?_⟩
    obtain ⟨inside, _⟩ := List.getElem?_eq_some_iff.mp passed
    exact ⟨accepted.passed nonempty passed, by omega⟩

theorem Accepts.commitsChecked_iff_within
    : node.CommitsChecked request ↔ node.WithinRequest request := by
  obtain ⟨current, check⟩ := accepts_iff.mp accepted
  have positive := length_pos_of_ne_nil nonempty
  obtain ⟨commitIndex, lastApplied⟩ := node.observeLeader_commit request
  have appendedCommit : (node.appended request).commitIndex = node.commitIndex := commitIndex
  have appendedApplied : (node.appended request).lastApplied = node.lastApplied := lastApplied
  have fresh : ¬request.term < node.currentTerm := by omega
  rw [accepted.commitsChecked_iff_counts nonempty, accepted.handled, WithinRequest]
  simp only [fresh, check, Bool.true_eq_false, false_or]
  rcases (node.appended request).updateCommit_cases request.leaderCommit with
    ⟨settled, kept⟩ | ⟨raised, moved, count⟩
  · rw [kept]
    rw [appendedCommit] at settled ⊢
    exact ⟨fun _ => Or.inl settled, fun _ => ⟨le_rfl, Or.inl le_rfl, Or.inl rfl⟩⟩
  · rw [moved]
    simp only [count, appendedApplied, getLastLogIndex, appendedCommit] at raised ⊢
    rcases accepted.length with ⟨agree, length⟩ | ⟨conflict, length, carries⟩
    · simp only [length, agree, not_true_eq_false, true_and, false_or]
      omega
    · simp only [length, conflict, not_false_eq_true, false_and, or_false, true_or, or_true,
        and_true]
      omega

end

theorem call_log_ne_nil (nonempty : node.log ≠ []) (call : NodeCall C)
    : (node.call call).1.log ≠ [] := by
  cases call with
  | startElection => exact nonempty
  | propose command =>
      simp only [RaftNode.call]
      cases proposed : node.propose command with
      | error failure => exact nonempty
      | ok next =>
          obtain ⟨_, rfl⟩ := propose_ok proposed
          exact append_ne_nil_of_left_ne_nil nonempty _
  | requestVote request =>
      rw [RaftNode.call, (LogKept.handleRequestVote node request).log]
      exact nonempty
  | requestVoteResponse peerID response =>
      rw [RaftNode.call, (LogKept.handleRequestVoteResponse node peerID response).log]
      exact nonempty
  | appendEntries request =>
      show (node.handleAppendEntries request).1.log ≠ []
      by_cases accepted : node.Accepts request
      · rw [accepted.log]
        exact appendLoop_ne_nil accepted.bound nonempty request.entries
      · rw [(handleAppendEntries_of_not_accepts accepted).1]
        exact nonempty
  | appendEntriesResponse peerID response =>
      rw [RaftNode.call, handleAppendEntriesResponse_log]
      exact nonempty

end RaftNode

/-- A node as `NewRaftNode` and the calls on it leave it: its log has an entry. -/
structure LoggedNode (C : Type) extends RaftNode C where
  nonempty : log ≠ []

namespace LoggedNode

def new (nodeID : GoString) (peers : GoMap GoString GoString) : LoggedNode C :=
  { (newRaftNode nodeID peers : RaftNode C) with nonempty := cons_ne_nil _ _ }

def step (node : LoggedNode C) (call : NodeCall C) : LoggedNode C :=
  { (node.toRaftNode.call call).1 with nonempty := call_log_ne_nil node.nonempty call }

end LoggedNode

/-- A call commits and applies only what the request has checked, and takes back nothing,
exactly if it stays within the request.
-/
theorem commitsChecked_iff (node : LoggedNode C) (request : AppendEntriesRequest C)
    : node.CommitsChecked request ↔ node.WithinRequest request := by
  by_cases accepted : node.Accepts request
  · exact accepted.commitsChecked_iff_within node.nonempty
  · obtain ⟨_, commit, applied⟩ := handleAppendEntries_of_not_accepts accepted
    have within : node.WithinRequest request := by
      rw [accepts_iff] at accepted
      rcases Nat.lt_or_ge request.term node.currentTerm with stale | current
      · exact Or.inl stale
      · have mismatch := Bool.eq_false_of_not_eq_true (fun check => accepted ⟨current, check⟩)
        exact Or.inr (Or.inl mismatch)
    have checked : node.CommitsChecked request := by
      refine ⟨commit.ge, fun grown => ?_, fun i command passed => ?_⟩
      · omega
      · rw [applied] at passed
        simp at passed
    exact iff_of_true checked within

def overreaching : AppendEntriesRequest Nat where
  term := 2
  leaderID := [2]
  prevLogIndex := 1
  prevLogTerm := 0
  entries := []
  leaderCommit := 2

/-- Only the initial entry is checked, but the follower commits and applies its own second. -/
theorem not_commitsChecked_overreaching
    : ∃ node : LoggedNode Nat, node.toRaftNode = divergent
        ∧ ¬node.CommitsChecked overreaching := by
  refine ⟨⟨divergent, by decide⟩, rfl, ?_⟩
  intro committed
  have beyond := committed.checked (by decide)
  revert beyond
  decide

end Goulette.Raft
