import Goulette.Raft.Elections

/-! Log matching of the cluster. Positions are 0-based here; the code's `getLogTerm` and append loop
count from one.
-/

namespace Goulette.Raft

open Goulette.Go Replication List Function

variable {C : Type} {membership : Membership} {cluster : Cluster C}
  {history next : History GoString (LogEntry C)} {log source entries : List (LogEntry C)}
  {request : AppendEntriesRequest C} {p t : Nat} {node : RaftNode C} {id src : GoString}
  {e : LogEntry C}

/-- The written logs: legal, rooted in the initial entry, and indexed by position. -/
structure HistoryLogs (history : History GoString (LogEntry C)) : Prop where
  legal : history.LogsLegal LogEntry.term
  root : history.termLog 0 = [initialEntry]
  indexed
    : ∀ {t k} {e : LogEntry C},
        history.Opened t → (history.termLog t)[k]? = some e → e.index = k

structure NodeLogs (history : History GoString (LogEntry C)) (node : RaftNode C) : Prop where
  matched : history.Matched LogEntry.term node.log
  nonempty : node.log ≠ []
  bounded : ∀ e ∈ node.log, e.term ≤ node.currentTerm
  written : node.state = .leader → node.log = history.termLog node.currentTerm

/-- What an append request says about its sender's log: the entry before its first one and
a slice after it, or nothing at all when `nextIndex` had run past the log.
-/
def SliceOf (log : List (LogEntry C)) (request : AppendEntriesRequest C) : Prop :=
  (request.entries <+: log.drop request.prevLogIndex
    ∧ request.prevLogIndex ≤ log.length
    ∧ (request.prevLogIndex = 0
      ∨ ∃ e, log[request.prevLogIndex - 1]? = some e ∧ e.term = request.prevLogTerm))
  ∨ (request.entries = [] ∧ 1 < request.prevLogIndex ∧ request.prevLogTerm = 0)

def PacketLogs (history : History GoString (LogEntry C)) (packet : Packet C) : Prop :=
  match packet.message with
  | .appendEntries request =>
      packet.dst ≠ packet.src
      ∧ history.leader request.term = some packet.src
      ∧ SliceOf (history.termLog request.term) request
  | _ => True

structure Logs (membership : Membership) (cluster : Cluster C)
    (history : History GoString (LogEntry C))
    : Prop where
  written : HistoryLogs history
  node : ∀ id ∈ membership.members, NodeLogs history (cluster.nodes id)
  packet : ∀ packet ∈ cluster.network, PacketLogs history packet

theorem SliceOf.extend {longer : List (LogEntry C)} (h : SliceOf log request)
    (below : log <+: longer)
    : SliceOf longer request := by
  rcases h with ⟨slice, bound, prev⟩ | past
  · obtain ⟨rest, rfl⟩ := below
    refine Or.inl ⟨?_, by simp only [length_append]; omega, prev.imp_right ?_⟩
    · rw [drop_append_of_le_length bound]
      exact slice.trans (prefix_append _ _)
    · rintro ⟨e, found, term⟩
      exact ⟨e, getElem?_of_below (prefix_append _ _) found, term⟩
  · exact Or.inr past

/-- The requests a node builds are slices of its own log. -/
theorem sendAppendEntries_slice (node : RaftNode C) (peerID : GoString) (isHeartbeat : Bool)
    (nonempty : node.log ≠ [])
    : SliceOf node.log (node.sendAppendEntries peerID isHeartbeat) := by
  have positive := length_pos_of_ne_nil nonempty
  by_cases inside : node.nextIndex peerID - 1 ≤ node.log.length
  · refine Or.inl ⟨?_, inside, ?_⟩
    · simp only [RaftNode.sendAppendEntries]
      split
      · exact prefix_rfl
      · exact nil_prefix
    · by_cases zero : node.nextIndex peerID - 1 = 0
      · exact Or.inl zero
      · obtain ⟨e, found⟩ : ∃ e, node.log[node.nextIndex peerID - 1 - 1]? = some e :=
          ⟨_, List.getElem?_eq_getElem (by omega)⟩
        refine Or.inr ⟨e, found, ?_⟩
        simp only [RaftNode.sendAppendEntries, RaftNode.getLogTerm, zero, if_false, found]
  · refine Or.inr ⟨?_, ?_, ?_⟩
    · have past : ¬node.nextIndex peerID ≤ node.log.length := by omega
      simp [RaftNode.sendAppendEntries, past]
    · simp only [RaftNode.sendAppendEntries]
      omega
    · have beyond : node.log[node.nextIndex peerID - 1 - 1]? = none :=
        List.getElem?_eq_none (by omega)
      simp only [RaftNode.sendAppendEntries, RaftNode.getLogTerm, beyond, ite_self]

def LogsMatch (log source : List (LogEntry C)) : Prop :=
  ∀ (k : Nat) (held found : LogEntry C),
    log[k]? = some held
    → source[k]? = some found
    → held.term = found.term
    → log.take (k + 1) = source.take (k + 1)

theorem LogsMatch.of_matched (matched : history.Matched LogEntry.term log)
    (sourceMatched : history.Matched LogEntry.term source)
    : LogsMatch log source :=
  fun _ _ _ held found same => matched.agree sourceMatched held found same

theorem LogsMatch.of_take (source : List (LogEntry C)) (count : Nat)
    : LogsMatch (source.take count) source := by
  intro k held found inPart _ _
  obtain ⟨bound, _⟩ := List.getElem?_eq_some_iff.mp inPart
  rw [length_take] at bound
  rw [take_take, Nat.min_eq_left (by omega)]

/-- One round of the append loop at a position up to which the log agrees with a written
log: the log is kept when the terms agree, and is cut down to the written log otherwise.
-/
theorem appendEntry_eq {entry : LogEntry C} (matching : LogsMatch log source)
    (bound : p ≤ log.length) (agree : log.take p = source.take p) (found : source[p]? = some entry)
    : (RaftNode.appendEntry log (p + 1) entry = log ∧ p < log.length
        ∧ log.take (p + 1) = source.take (p + 1))
      ∨ RaftNode.appendEntry log (p + 1) entry = source.take (p + 1) := by
  obtain ⟨sourceBound, sourceGet⟩ := List.getElem?_eq_some_iff.mp found
  have sourceTake : source.take (p + 1) = source.take p ++ [entry] := by
    rw [take_add_one, found]
    rfl
  simp only [RaftNode.appendEntry, Nat.add_sub_cancel]
  cases held : log[p]? with
  | none =>
      have length : log.length = p := by
        have := List.getElem?_eq_none_iff.mp held
        omega
      refine Or.inr ?_
      simp only [length, gt_iff_lt, Nat.lt_add_one, if_true]
      rw [sourceTake, ← agree, ← length, take_length]
  | some current =>
      obtain ⟨inside, _⟩ := List.getElem?_eq_some_iff.mp held
      by_cases same : current.term = entry.term
      · refine Or.inl ⟨?_, inside, matching p current entry held found same⟩
        have kept : ¬log.length < p + 1 := by omega
        simp [same, kept]
      · refine Or.inr ?_
        have cut : (log.take p).length < p + 1 := by
          simp only [length_take]
          omega
        simp only [ne_eq, same, not_false_eq_true, if_true, gt_iff_lt, cut]
        rw [sourceTake, agree]

/-- The append loop on a slice of a written log keeps the log when it already contains the
slice, and otherwise leaves the written log up to the slice's end. Witness: induction on the
slice; once the log was cut it stays a prefix of the written log.
-/
theorem appendLoop_eq (matching : LogsMatch log source) (bound : p ≤ log.length)
    (agree : log.take p = source.take p) (slice : entries <+: source.drop p)
    : (RaftNode.appendLoop log (p + 1) entries = log
        ∧ p + entries.length ≤ log.length
        ∧ log.take (p + entries.length) = source.take (p + entries.length))
      ∨ RaftNode.appendLoop log (p + 1) entries = source.take (p + entries.length) := by
  induction entries generalizing log p with
  | nil => exact Or.inl ⟨rfl, bound, agree⟩
  | cons entry rest ih =>
      have found : source[p]? = some entry := by
        have head := getElem?_of_below slice (k := 0) rfl
        simpa using head
      obtain ⟨sourceBound, _⟩ := List.getElem?_eq_some_iff.mp found
      have tail : rest <+: source.drop (p + 1) := by
        rw [drop_eq_getElem_cons sourceBound] at slice
        exact (cons_prefix_cons.mp slice).2
      have length : p + (entry :: rest).length = p + 1 + rest.length := by
        simp only [length_cons]
        omega
      rw [length, RaftNode.appendLoop]
      rcases appendEntry_eq matching bound agree found with ⟨kept, inside, agreeNext⟩ | cut
      · rw [kept]
        exact ih matching inside agreeNext tail
      · rw [cut]
        have cutLength : (source.take (p + 1)).length = p + 1 := by
          simp only [length_take]
          omega
        have again := ih (LogsMatch.of_take source (p + 1)) cutLength.ge
          (by rw [take_of_length_le cutLength.le]) tail
        refine Or.inr ?_
        rcases again with ⟨same, fits, agreeAll⟩ | cutAll
        · rw [cutLength] at fits
          have empty : rest.length = 0 := by omega
          rw [same, empty]
        · exact cutAll

theorem slice_held (slice : entries <+: source.drop p)
    (agree : log.take (p + entries.length) = source.take (p + entries.length))
    : entries <+: log.drop p := by
  have cut : (log.take (p + entries.length)).drop p = entries := by
    rw [agree, drop_take, Nat.add_sub_cancel_left]
    exact (prefix_iff_eq_take.mp slice).symm
  have sub := take_prefix (p + entries.length - p) (log.drop p)
  rw [← drop_take, cut] at sub
  exact sub

/-- The append loop leaves a log alone that holds the entries already. -/
theorem appendLoop_held (held : entries <+: log.drop p)
    : RaftNode.appendLoop log (p + 1) entries = log := by
  induction entries generalizing p with
  | nil => rfl
  | cons entry rest ih =>
      have found : log[p]? = some entry := by
        have head := getElem?_of_below held (k := 0) rfl
        simpa using head
      obtain ⟨inside, _⟩ := List.getElem?_eq_some_iff.mp found
      have kept : RaftNode.appendEntry log (p + 1) entry = log := by
        have long : ¬log.length < p + 1 := by omega
        simp [RaftNode.appendEntry, found, long]
      rw [drop_eq_getElem_cons inside] at held
      rw [RaftNode.appendLoop, kept]
      exact ih (cons_prefix_cons.mp held).2

theorem NodeLogs.extend (h : NodeLogs history node) (later : history.Extends next)
    (written
      : node.state = .leader
        → next.termLog node.currentTerm = history.termLog node.currentTerm)
    : NodeLogs next node where
  matched := h.matched.extend later
  nonempty := h.nonempty
  bounded := h.bounded
  written := fun leads => (h.written leads).trans (written leads).symm

theorem PacketLogs.extend {packet : Packet C} (h : PacketLogs history packet)
    (later : history.Extends next)
    : PacketLogs next packet := by
  obtain ⟨src, dst, message⟩ := packet
  cases message with
  | appendEntries request =>
      obtain ⟨different, won, slice⟩ := h
      exact ⟨different, later.leader won,
        slice.extend (later.termLog (Or.inr (by simp [won])))⟩
  | _ => trivial

/-- Assemble the invariant after one node's step from the acting node's new part. -/
theorem Logs.act {applied : List (Option C)} {sent : List (Packet C)}
    (h : Logs membership cluster history) (later : history.Extends next) (legal : HistoryLogs next)
    (self : NodeLogs next node)
    (others
      : ∀ other ∈ membership.members, other ≠ id
          → (cluster.nodes other).state = .leader
          → next.termLog (cluster.nodes other).currentTerm
            = history.termLog (cluster.nodes other).currentTerm)
    (packets : ∀ packet ∈ sent, PacketLogs next packet)
    : Logs membership (cluster.act id node applied sent) next := by
  refine ⟨legal, ?_, forall_mem_append.mpr
    ⟨fun packet old => (h.packet packet old).extend later, packets⟩⟩
  exact cluster.forall_act (fun _ node _ => NodeLogs next node) self
    (fun other member same => (h.node other member).extend later (others other member same))

/-- A later history that adds only votes and acknowledgements has the same logs. -/
structure SameLogs (history next : History GoString (LogEntry C)) : Prop where
  vote : ∀ {v u ballot}, history.vote v u = some ballot → next.vote v u = some ballot
  leader : next.leader = history.leader
  startLog : next.startLog = history.startLog
  termLog : next.termLog = history.termLog
  ack : ∀ v u, history.ack v u ≤ next.ack v u

theorem SameLogs.refl (history : History GoString (LogEntry C)) : SameLogs history history :=
  ⟨fun voted => voted, rfl, rfl, rfl, fun _ _ => le_rfl⟩

theorem SameLogs.recordVote {voter : GoString} (fresh : history.vote voter t = none)
    (candidate : GoString) (log : List (LogEntry C))
    : SameLogs history (history.recordVote voter t candidate log) :=
  ⟨History.recordVote_keeps fresh candidate log, rfl, rfl, rfl, fun _ _ => le_rfl⟩

theorem SameLogs.extends (same : SameLogs history next) : history.Extends next where
  vote := same.vote
  leader := fun won => by rw [same.leader]; exact won
  startLog := fun _ => by rw [same.startLog]
  termLog := fun _ => by rw [same.termLog]
  ack := same.ack

theorem SameLogs.opened (same : SameLogs history next) (t : Nat)
    : next.Opened t ↔ history.Opened t := by
  rw [History.Opened, same.leader]
  rfl

theorem HistoryLogs.same (h : HistoryLogs history) (same : SameLogs history next)
    : HistoryLogs next where
  legal := {
    start := fun opened => by
      rw [same.startLog, same.termLog]
      exact h.legal.start ((same.opened _).mp opened)
    own := fun opened found => by
      rw [same.termLog] at found
      rw [same.startLog]
      exact h.legal.own ((same.opened _).mp opened) found
    matched := fun opened => by
      rw [same.termLog]
      exact (h.legal.matched ((same.opened _).mp opened)).extend same.extends
  }
  root := by rw [same.termLog]; exact h.root
  indexed := fun opened found => by
    rw [same.termLog] at found
    exact h.indexed ((same.opened _).mp opened) found

/-- A step that keeps the acting node's log and records nothing about logs. The node may
lead afterwards only the term it led before.
-/
theorem Logs.keep {applied : List (Option C)} {sent : List (Packet C)}
    (h : Logs membership cluster history) (member : id ∈ membership.members)
    (same : SameLogs history next) (log : node.log = (cluster.nodes id).log)
    (term : (cluster.nodes id).currentTerm ≤ node.currentTerm)
    (leads
      : node.state = .leader
        → (cluster.nodes id).state = .leader
          ∧ node.currentTerm = (cluster.nodes id).currentTerm)
    (packets : ∀ packet ∈ sent, PacketLogs history packet)
    : Logs membership (cluster.act id node applied sent) next := by
  have old := h.node id member
  refine h.act same.extends (h.written.same same) ?_ ?_ ?_
  · exact {
      matched := by rw [log]; exact old.matched.extend same.extends
      nonempty := by rw [log]; exact old.nonempty
      bounded := fun e inLog => (old.bounded e (log ▸ inLog)).trans term
      written := fun now => by
        rw [log, (leads now).2, same.termLog]
        exact old.written (leads now).1
    }
  · exact fun _ _ _ _ => by rw [same.termLog]
  · exact fun packet new => (packets packet new).extend same.extends

/-- A leader's append requests are slices of its term's log, addressed to others. -/
theorem Logs.broadcastEntries (isHeartbeat : Bool) (nodeID : node.nodeID = id)
    (self : NodeLogs next node) (leads : node.state = .leader)
    (won : next.leader node.currentTerm = some id)
    : ∀ packet ∈ Cluster.broadcastEntries node id isHeartbeat, PacketLogs next packet := by
  intro packet sent
  obtain ⟨peerID, addressed, rfl⟩ := Cluster.mem_broadcast.mp sent
  have different : peerID ≠ id := by
    simp only [RaftNode.peerIDs, nodeID, mem_filter, decide_eq_true_eq] at addressed
    exact addressed.2
  have slice := sendAppendEntries_slice node peerID isHeartbeat self.nonempty
  rw [self.written leads] at slice
  exact ⟨different, won, slice⟩

/-- Acknowledgements do not touch the logs. -/
theorem SameLogs.recordAck (history : History GoString (LogEntry C)) (node : GoString)
    (t count : Nat)
    : SameLogs history (history.recordAck node t count) :=
  ⟨fun voted => voted, rfl, rfl, rfl, history.ack_le_recordAck node t count⟩

theorem HistoryLogs.recordTermLog (h : HistoryLogs history) (opened : history.Opened t)
    (positive : 0 < t) (own : e.term = t) (index : e.index = (history.termLog t).length)
    : HistoryLogs (history.recordTermLog t (history.termLog t ++ [e])) := by
  refine ⟨(h.legal.recordTermLog opened own).2, ?_, ?_⟩
  · have zero : 0 ≠ t := by omega
    simpa [History.recordTermLog, update_of_ne zero] using h.root
  · intro u k f uOpened found
    by_cases same : u = t
    · subst same
      simp only [History.recordTermLog, update_self] at found
      rcases Nat.lt_or_ge k (history.termLog u).length with before | new
      · rw [List.getElem?_append_left before] at found
        exact h.indexed opened found
      · obtain ⟨inside, _⟩ := List.getElem?_eq_some_iff.mp found
        rw [List.getElem?_append_right new] at found
        rw [mem_singleton.mp (mem_of_getElem? found), index]
        simp only [length_append, length_singleton] at inside
        omega
    · simp only [History.recordTermLog, update_of_ne same] at found
      exact h.indexed uOpened found

theorem HistoryLogs.index_eq (h : HistoryLogs history) (matched : history.Matched LogEntry.term log)
    {k : Nat} (found : log[k]? = some e)
    : e.index = k := by
  obtain ⟨opened, below⟩ := matched k e found
  refine h.indexed opened (getElem?_of_below below ?_)
  rw [List.getElem?_take_of_lt (by omega)]
  exact found

theorem HistoryLogs.recordLeader (h : HistoryLogs history) (node : GoString)
    (closed : ¬history.Opened t) (positive : 0 < t) (matched : history.Matched LogEntry.term log)
    (earlier : ∀ e ∈ log, e.term < t)
    : HistoryLogs (history.recordLeader t node log) := by
  refine ⟨(h.legal.recordLeader node closed matched earlier).2, ?_, ?_⟩
  · have zero : 0 ≠ t := by omega
    simpa [History.recordLeader, update_of_ne zero] using h.root
  · intro u k f uOpened found
    by_cases same : u = t
    · subst same
      simp only [History.recordLeader, update_self] at found
      exact h.index_eq matched found
    · simp only [History.recordLeader, update_of_ne same] at found
      refine h.indexed ?_ found
      simpa [History.Opened, History.recordLeader, update_of_ne same] using uOpened

theorem Elections.other_term (h : Elections membership cluster history) {other : GoString}
    (won : history.leader t = some id ∨ history.leader t = none)
    (member : other ∈ membership.members) (different : other ≠ id)
    (leads : (cluster.nodes other).state = .leader)
    : (cluster.nodes other).currentTerm ≠ t := by
  rintro rfl
  have otherWon := (h.node other member).leads.mp leads
  rcases won with won | none
  · rw [won] at otherWon
    exact different (Option.some.inj otherWon).symm
  · rw [none] at otherWon
    cases otherWon

section

variable (h : Logs membership cluster history) (elections : Elections membership cluster history)
  (member : id ∈ membership.members) (leads : (cluster.nodes id).state = .leader)
  (shape : node = { cluster.nodes id with log := (cluster.nodes id).log ++ [e] })
  (own : e.term = (cluster.nodes id).currentTerm)
include h elections member leads shape own

/-- A leader's new entry extends the log of its open term. -/
theorem Logs.proposed
    : history.Opened node.currentTerm
      ∧ node.log = history.termLog node.currentTerm ++ [e]
      ∧ history.Extends (history.recordTermLog node.currentTerm node.log)
      ∧ node.log = (history.recordTermLog node.currentTerm node.log).termLog node.currentTerm := by
  have won := (elections.node id member).leads.mp leads
  have opened : history.Opened (cluster.nodes id).currentTerm := Or.inr (by simp [won])
  have written := (h.node id member).written leads
  have later := (h.written.legal.recordTermLog opened own).1
  subst shape
  rw [← written] at later
  exact ⟨opened, congrArg (· ++ [e]) written, later, by simp [History.recordTermLog]⟩

/-- A leader's proposal extends its term's log by an entry of that term. -/
theorem Logs.propose (index : e.index = (cluster.nodes id).log.length)
    : Logs membership (cluster.act id node [] (Cluster.broadcastEntries node id false))
        ((history.recordTermLog node.currentTerm node.log).recordAck id node.currentTerm
          node.log.length) := by
  have old := h.node id member
  have ballot := elections.node id member
  have won := ballot.leads.mp leads
  have opened : history.Opened (cluster.nodes id).currentTerm := Or.inr (by simp [won])
  have written := old.written leads
  have recorded := h.written.recordTermLog opened (elections.elected _ _ won).2.1 own
    (by rw [index, written])
  have later := (h.written.legal.recordTermLog opened own).1
  subst shape
  simp only
  rw [← written] at recorded later
  have same := SameLogs.recordAck
    (history.recordTermLog (cluster.nodes id).currentTerm ((cluster.nodes id).log ++ [e])) id
    (cluster.nodes id).currentTerm ((cluster.nodes id).log ++ [e]).length
  have self
      : NodeLogs
          ((history.recordTermLog (cluster.nodes id).currentTerm
              ((cluster.nodes id).log ++ [e])).recordAck id (cluster.nodes id).currentTerm
            ((cluster.nodes id).log ++ [e]).length)
          { cluster.nodes id with log := (cluster.nodes id).log ++ [e] } := {
    matched := by
      have matched :=
        (recorded.same same).legal.matched (t := (cluster.nodes id).currentTerm) opened
      simpa [History.recordAck, History.recordTermLog] using matched
    nonempty := by simp
    bounded := forall_mem_append.mpr ⟨old.bounded, forall_mem_singleton.mpr own.le⟩
    written := by simp [History.recordAck, History.recordTermLog]
  }
  refine h.act (later.trans same.extends) (recorded.same same) self ?_ ?_
  · intro other otherMember different otherLeads
    have apart := elections.other_term (Or.inl won) otherMember different otherLeads
    simp [History.recordAck, History.recordTermLog, update_of_ne apart]
  · exact Logs.broadcastEntries false ballot.nodeID self leads won

end

theorem not_opened (unwon : history.leader t = none) (positive : 0 < t)
    : ¬history.Opened t := by
  rintro (zero | won)
  · omega
  · simp [unwon] at won

/-- A log holds no entry of a term that nobody won. -/
theorem NodeLogs.earlier (h : NodeLogs history node) (closed : ¬history.Opened node.currentTerm)
    : ∀ e ∈ node.log, e.term < node.currentTerm := by
  intro e inLog
  obtain ⟨k, found⟩ := List.getElem?_of_mem inLog
  refine lt_of_le_of_ne (h.bounded e inLog) (fun current => ?_)
  exact closed (current ▸ (h.matched k e found).1)

/-- The first victory of a term opens it with the winner's log. -/
theorem Logs.victory (h : Logs membership cluster history)
    (elections : Elections membership cluster history) (member : id ∈ membership.members)
    (unwon : history.leader (cluster.nodes id).currentTerm = none)
    (positive : 0 < (cluster.nodes id).currentTerm) (log : node.log = (cluster.nodes id).log)
    (term : node.currentTerm = (cluster.nodes id).currentTerm) (nodeID : node.nodeID = id)
    (leads : node.state = .leader)
    : Logs membership (cluster.act id node [] (Cluster.broadcastEntries node id true))
        ((history.recordLeader (cluster.nodes id).currentTerm id
            (cluster.nodes id).log).recordAck id (cluster.nodes id).currentTerm
          (cluster.nodes id).log.length) := by
  have old := h.node id member
  have closed := not_opened unwon positive
  have earlier := old.earlier closed
  have recorded := h.written.recordLeader id closed positive old.matched earlier
  have later := (h.written.legal.recordLeader id closed old.matched earlier).1
  have same := SameLogs.recordAck
    (history.recordLeader (cluster.nodes id).currentTerm id (cluster.nodes id).log) id
    (cluster.nodes id).currentTerm (cluster.nodes id).log.length
  have self
      : NodeLogs
          ((history.recordLeader (cluster.nodes id).currentTerm id
              (cluster.nodes id).log).recordAck id (cluster.nodes id).currentTerm
            (cluster.nodes id).log.length) node := {
    matched := by rw [log]; exact old.matched.extend (later.trans same.extends)
    nonempty := by rw [log]; exact old.nonempty
    bounded := by rw [log, term]; exact old.bounded
    written := by simp [log, term, History.recordAck, History.recordLeader]
  }
  refine h.act (later.trans same.extends) (recorded.same same) self ?_ ?_
  · intro other otherMember different otherLeads
    have apart := elections.other_term (Or.inr unwon) otherMember different otherLeads
    simp [History.recordAck, History.recordLeader, update_of_ne apart]
  · exact Logs.broadcastEntries true nodeID self leads
      (by simp [term, History.recordAck, History.recordLeader])

/-- Entries after the first position come from elected terms. -/
theorem HistoryLogs.term_pos (h : HistoryLogs history) (matched : history.Matched LogEntry.term log)
    {k : Nat} (found : log[k]? = some e) (later : 0 < k)
    : 0 < e.term := by
  by_contra zero
  obtain ⟨inside, _⟩ := List.getElem?_eq_some_iff.mp found
  have below := (matched k e found).2.length_le
  have termZero : e.term = 0 := by omega
  rw [termZero, h.root] at below
  simp only [length_take, length_singleton] at below
  omega

section

variable (h : Logs membership cluster history) (member : id ∈ membership.members)
  (received : ⟨src, id, .appendEntries request⟩ ∈ cluster.network)
  (sameLog : node.log = (cluster.nodes id).log)
include h member received sameLog

/-- Passing the consistency check means agreeing with the sender's term up to the request's
first position.
-/
theorem Logs.accepted_agree (check : node.matchesPrev request)
    : history.Opened request.term
      ∧ request.prevLogIndex ≤ node.log.length
      ∧ node.log.take request.prevLogIndex
        = (history.termLog request.term).take request.prevLogIndex
      ∧ request.entries <+: (history.termLog request.term).drop request.prevLogIndex
      ∧ request.prevLogIndex ≤ (history.termLog request.term).length := by
  obtain ⟨_, won, slice⟩ := h.packet _ received
  have old := h.node id member
  have nonempty := length_pos_of_ne_nil old.nonempty
  have opened : history.Opened request.term := Or.inr (by simp [won])
  have sourceMatched := h.written.legal.matched opened
  simp only [RaftNode.matchesPrev, decide_eq_true_eq, RaftNode.getLastLogIndex, sameLog] at check
  rw [sameLog]
  by_cases zero : request.prevLogIndex = 0
  · rcases slice with ⟨entries, bound, _⟩ | ⟨_, past, _⟩
    · exact ⟨opened, by omega, by simp [zero], entries, bound⟩
    · omega
  · obtain ⟨bound, term⟩ := check.resolve_left zero
    obtain ⟨f, found⟩ : ∃ f, (cluster.nodes id).log[request.prevLogIndex - 1]? = some f :=
      ⟨_, List.getElem?_eq_getElem (by omega)⟩
    simp only [RaftNode.getLogTerm, zero, if_false, sameLog, found] at term
    rcases slice with ⟨entries, inside, prev⟩ | ⟨_, past, noTerm⟩
    · obtain ⟨e, sourceFound, sourceTerm⟩ := prev.resolve_left zero
      have agree := old.matched.agree sourceMatched found sourceFound (term.trans sourceTerm.symm)
      rw [Nat.sub_add_cancel (by omega)] at agree
      exact ⟨opened, by omega, agree, entries, inside⟩
    · -- A request past its sender's log carries term zero, which no later position has.
      have positive := h.written.term_pos old.matched found (by omega)
      omega

theorem Logs.appendLog (current : (cluster.nodes id).currentTerm ≤ request.term)
    (check : node.matchesPrev request) {appended : List (LogEntry C)}
    (shape
      : appended = RaftNode.appendLoop node.log (request.prevLogIndex + 1) request.entries)
    : history.Matched LogEntry.term appended
      ∧ appended ≠ []
      ∧ ∀ e ∈ appended, e.term ≤ request.term := by
  have old := h.node id member
  obtain ⟨opened, bound, agree, slice, inside⟩ := h.accepted_agree member received sameLog check
  have sourceMatched := h.written.legal.matched opened
  have kept : history.Matched LogEntry.term node.log ∧ node.log ≠ []
      ∧ ∀ e ∈ node.log, e.term ≤ request.term := by
    rw [sameLog]
    exact ⟨old.matched, old.nonempty, fun e inLog => (old.bounded e inLog).trans current⟩
  rcases appendLoop_eq (.of_matched kept.1 sourceMatched) bound agree slice with ⟨same, _⟩ | cut
  · rw [shape, same]
    exact kept
  · by_cases empty : request.prevLogIndex + request.entries.length = 0
    · have noEntries : request.entries = [] := length_eq_zero_iff.mp (by omega)
      rw [shape, noEntries, RaftNode.appendLoop]
      exact kept
    · rw [shape, cut]
      have sourceLength := slice.length_le
      simp only [length_drop] at sourceLength
      refine ⟨sourceMatched.of_below (List.take_prefix _ _), ?_, ?_⟩
      · rw [Ne, take_eq_nil_iff, not_or]
        refine ⟨empty, fun nil => ?_⟩
        simp only [nil, length_nil] at inside sourceLength
        omega
      · intro e inLog
        obtain ⟨k, found⟩ := List.getElem?_of_mem (mem_of_mem_take inLog)
        exact h.written.legal.term_le opened found

end

theorem HistoryLogs.initial : HistoryLogs (C := C) (History.initial initialEntry) where
  legal := History.LogsLegal.initial rfl
  root := rfl
  indexed := by
    intro t k e _ found
    obtain ⟨bound, same⟩ := List.getElem?_eq_some_iff.mp found
    simp only [History.initial, length_singleton, Nat.lt_one_iff] at bound
    subst bound
    exact congrArg LogEntry.index same.symm

/-- The receiver of a current append request does not lead: the term's winner is the
sender.
-/
theorem Logs.receiver_follows (h : Logs membership cluster history)
    (elections : Elections membership cluster history) (member : id ∈ membership.members)
    (received : ⟨src, id, .appendEntries request⟩ ∈ cluster.network)
    (current : (cluster.nodes id).currentTerm ≤ request.term)
    : ((cluster.nodes id).observeLeader request).state ≠ .leader := by
  obtain ⟨different, won, _⟩ := h.packet _ received
  unfold RaftNode.observeLeader
  split
  · simp
  · intro leads
    have own := (elections.node id member).leads.mp leads
    have same : (cluster.nodes id).currentTerm = request.term := by omega
    rw [same, won] at own
    exact different (Option.some.inj own).symm

theorem Logs.init (membership : Membership)
    : Logs membership (Cluster.init membership : Cluster C) (History.initial initialEntry) where
  written := HistoryLogs.initial
  node := fun id _ => {
    matched := (HistoryLogs.initial (C := C)).legal.matched (Or.inl rfl)
    nonempty := by simp [Cluster.init, newRaftNode]
    bounded := by simp [Cluster.init, newRaftNode, initialEntry]
    written := by simp [Cluster.init, newRaftNode]
  }
  packet := by simp [Cluster.init]

section

variable (h : Logs membership cluster history) (elections : Elections membership cluster history)
  {dst : GoString} (member : dst ∈ membership.members)
include h elections member

theorem Logs.acceptEntries
    (received : ⟨src, dst, .appendEntries request⟩ ∈ cluster.network)
    (current : (cluster.nodes dst).currentTerm ≤ request.term)
    (check : ((cluster.nodes dst).observeLeader request).matchesPrev request)
    : NodeLogs history
        (((cluster.nodes dst).appended request).updateCommit request.leaderCommit).1 := by
  have log := (cluster.nodes dst).observeLeader_log request
  obtain ⟨commitIndex, lastApplied, moved⟩ :=
    ((cluster.nodes dst).appended request).updateCommit_fst request.leaderCommit
  obtain ⟨matched, nonempty, bounded⟩ :=
    h.appendLog member received log current check (by rw [log])
  rw [moved]
  exact {
    matched
    nonempty
    bounded := by simpa only [RaftNode.appended, RaftNode.observeLeader_term current] using bounded
    written := fun leads => absurd leads (h.receiver_follows elections member received current)
  }

theorem Logs.deliver {message : Message C} {reached : Cluster C}
    (received : ⟨src, dst, message⟩ ∈ cluster.network)
    (handled
      : Cluster.Handled cluster history src dst (cluster.nodes dst) message reached next)
    : Logs membership reached next := by
  have same := SameLogs.refl history
  cases handled with
  | quiet unmoved refusals =>
      have quiet := unmoved.quiet
      refine h.keep member same unmoved.same.1.log quiet.term_le quiet.leads
        (fun packet sent => ?_)
      cases refusals packet sent <;> trivial
  | @grantVote request current first newer =>
      have quiet := Quiet.adoptTerm (cluster.nodes dst) request.term
      have fresh := (elections.node dst member).unvoted current first
      exact h.keep member (SameLogs.recordVote fresh _ _) (RaftNode.adoptTerm_log _ _)
        quiet.term_le quiet.leads (by simp [PacketLogs])
  | repeatVote term voted chosen =>
      exact h.keep member same rfl le_rfl (fun leads => ⟨leads, rfl⟩) (by simp [PacketLogs])
  | countVote standing term granted =>
      exact h.keep member same rfl le_rfl (fun leads => ⟨leads, rfl⟩) (by simp)
  | winElection standing term granted majority shape =>
      obtain ⟨elected, unwon⟩ := elections.wins member received standing term granted majority
      subst shape
      exact h.victory elections member unwon elected.2.1 rfl rfl
        (elections.node dst member).nodeID rfl
  | @observeLeader request current =>
      have quiet := Quiet.observeLeader (cluster.nodes dst) request
      exact h.keep member same (RaftNode.observeLeader_log _ _) quiet.term_le quiet.leads
        (by simp [PacketLogs])
  | @acceptEntries request current check =>
      have acked := SameLogs.recordAck history dst request.term
        (request.prevLogIndex + request.entries.length)
      have self := (h.acceptEntries elections member received current check).extend acked.extends
        (fun _ => rfl)
      exact h.act acked.extends (h.written.same acked) self (fun _ _ _ _ => rfl)
        (by simp [PacketLogs])
  | countSuccess leads term success =>
      have quiet := Quiet.countSuccess (cluster.nodes dst) src
      obtain ⟨_, _, moved⟩ := ((cluster.nodes dst).countSuccess src).tryCommitLogs_fst
      exact h.keep member same (by rw [moved]; rfl) quiet.term_le quiet.leads (by simp)

end

variable [DecidableEq C]

/-- Every step keeps the logs matched. -/
theorem Logs.step (elections : Elections membership cluster history)
    (h : Logs membership cluster history) (action : Action C)
    : Logs membership (cluster.step membership action)
        (cluster.record membership history action) := by
  have same := SameLogs.refl history
  have step := cluster.step_cases membership history action
  generalize cluster.step membership action = next,
    cluster.record membership history action = later at step ⊢
  cases step with
  | disabled => exact h
  | @startElection id member =>
      have fresh := ((elections.node id member).future _ (Nat.lt_succ_self _)).1
      exact h.keep member (SameLogs.recordVote fresh _ _) rfl
        (by simp [RaftNode.startElection]) (by simp [RaftNode.startElection])
        (Cluster.forall_broadcast (fun _ => trivial))
  | @sendHeartbeat id member leads =>
      have ballot := elections.node id member
      exact h.keep member same rfl le_rfl (fun leads => ⟨leads, rfl⟩)
        (Logs.broadcastEntries true ballot.nodeID (h.node id member) leads
          (ballot.leads.mp leads))
  | @propose id command node member leads shape =>
      have nonempty := length_pos_of_ne_nil (h.node id member).nonempty
      refine h.propose elections member leads shape rfl ?_
      simp only [RaftNode.getLastLogIndex]
      omega
  | deliver received member handled => exact h.deliver elections member received handled

/-- Entries of equal term at one position of two logs mean equal logs up to it, and an
entry's index is its position.
-/
structure LogMatching (membership : Membership) (cluster : Cluster C) : Prop where
  agree
    : ∀ l ∈ membership.members, ∀ r ∈ membership.members, ∀ k (e f : LogEntry C),
        (cluster.nodes l).log[k]? = some e
        → (cluster.nodes r).log[k]? = some f
        → e.term = f.term
        → (cluster.nodes l).log.take (k + 1) = (cluster.nodes r).log.take (k + 1)
  index
    : ∀ id ∈ membership.members, ∀ k (e : LogEntry C),
        (cluster.nodes id).log[k]? = some e → e.index = k

/-- Raft log matching over every run of a cluster whose nodes have non-empty IDs. Witness:
both entries lie on the one log written in their term.
-/
theorem logMatching (membership : Membership)
    (named : ∀ id ∈ membership.members, id ≠ []) (actions : List (Action C))
    : LogMatching membership ((Cluster.init membership).run membership actions) := by
  obtain ⟨history, elections, logs⟩ := Cluster.run_invariant membership
    (fun cluster history =>
      Elections membership cluster history ∧ Logs membership cluster history)
    ⟨Elections.init membership, Logs.init membership⟩
    (fun _ _ action h => ⟨h.1.step named action, h.2.step h.1 action⟩) actions
  refine ⟨?_, ?_⟩
  · intro l lMember r rMember k e f foundLeft foundRight same
    exact (logs.node l lMember).matched.agree (logs.node r rMember).matched foundLeft foundRight
      same
  · intro id member k e found
    exact logs.written.index_eq (logs.node id member).matched found

def firstReplication : List (Action Nat) :=
  firstElection ++
    [
      .propose [1] 7,
      .deliver ⟨[1], [2], .appendEntries
        { term := 1, leaderID := [1], prevLogIndex := 0, prevLogTerm := 0,
          entries := [initialEntry, ⟨1, 1, some 7⟩], leaderCommit := 0 }⟩
    ]

theorem logMatching_trio
    : (∀ id ∈ trio.members, id ≠ [])
      ∧ (((Cluster.init trio).run trio firstReplication).nodes [2]).log
        = [initialEntry, ⟨1, 1, some 7⟩]
      ∧ LogMatching trio ((Cluster.init trio).run trio firstReplication) :=
  ⟨by decide, by decide, logMatching trio (by decide) firstReplication⟩

/-- Three nodes of which one has the empty ID, the value `votedFor` uses for no vote. -/
def unnamedTrio : Membership where
  peers := [⟨[], []⟩, ⟨[2], []⟩, ⟨[3], []⟩].toAList
  members := [[], [2], [3]]
  known := by decide

/-- Node 2 votes for the unnamed node and, its vote looking unused, for node 3 as well. Both
become leaders of term 1 and append an entry of their own.
-/
def splitElection : List (Action Nat) :=
  let ballot (id : GoString) : RequestVoteRequest :=
    { term := 1, candidateID := id, lastLogIndex := 0, lastLogTerm := 0 }
  let campaign (id : GoString) : List (Action Nat) :=
    [
      .startElection id,
      .deliver ⟨id, [2], .requestVote (ballot id)⟩,
      .deliver ⟨id, [2], .requestVote (ballot id)⟩,
      .deliver ⟨[2], id, .requestVoteResponse (ballot id) { term := 1, voteGranted := true }⟩
    ]
  campaign [] ++ campaign [3] ++ [.propose [] 7, .propose [3] 8]

theorem not_logMatching_unnamed
    : ¬LogMatching unnamedTrio ((Cluster.init unnamedTrio).run unnamedTrio splitElection) := by
  intro matching
  have left
      : (((Cluster.init unnamedTrio).run unnamedTrio splitElection).nodes []).log
        = [initialEntry, ⟨1, 1, some 7⟩] := by
    decide +kernel
  have right
      : (((Cluster.init unnamedTrio).run unnamedTrio splitElection).nodes [3]).log
        = [initialEntry, ⟨1, 1, some 8⟩] := by
    decide +kernel
  have same := matching.agree [] (by decide) [3] (by decide) 1 ⟨1, 1, some 7⟩ ⟨1, 1, some 8⟩
    (by rw [left]; rfl) (by rw [right]; rfl) rfl
  rw [left, right] at same
  simp at same

end Goulette.Raft
