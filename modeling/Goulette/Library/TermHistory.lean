import Mathlib.Data.Finset.Card
import Mathlib.Data.List.Infix
import Mathlib.Tactic.Tauto

/-! Histories of a replicated log whose writers are elected for numbered terms: who won a term, from
which log, who voted with which log, and how much of a term's log each node acknowledged.
-/

namespace Replication

open List Function

variable {N E : Type} {node : N} {term t k : Nat} {e : E}

def Majority (population members : Finset N) : Prop :=
  members ⊆ population ∧ population.card < 2 * members.card

/-- Two majorities of one population share a member, by counting their union. -/
theorem Majority.meet [DecidableEq N] {population left right : Finset N}
    (hl : Majority population left) (hr : Majority population right)
    : ∃ node, node ∈ left ∧ node ∈ right := by
  by_contra separate
  have disjoint : Disjoint left right := by
    rw [Finset.disjoint_left]
    intro node inLeft inRight
    exact separate ⟨node, inLeft, inRight⟩
  have union : (left ∪ right).card ≤ population.card :=
    Finset.card_le_card (Finset.union_subset hl.1 hr.1)
  rw [Finset.card_union_of_disjoint disjoint] at union
  have := hl.2
  have := hr.2
  omega

/-- What a run has recorded so far. `startLog` and `termLog` mean something only for opened
terms; `vote` keeps the candidate and the voter's log at its first vote of the term.
-/
structure History (N E : Type) where
  leader : Nat → Option N
  startLog : Nat → List E
  termLog : Nat → List E
  vote : N → Nat → Option (N × List E)
  ack : N → Nat → Nat

/-- Term zero holds the common root of all logs; any other term is opened by its winner. -/
def History.Opened (history : History N E) (term : Nat) : Prop :=
  term = 0 ∨ (history.leader term).isSome

def History.initial (root : E) : History N E where
  leader := fun _ => none
  startLog := fun _ => []
  termLog := fun _ => [root]
  vote := fun _ _ => none
  ack := fun _ _ => 0

def History.recordVote [DecidableEq N] (history : History N E) (voter : N) (term : Nat)
    (candidate : N) (log : List E)
    : History N E :=
  { history with
    vote := fun node at' =>
      if node = voter ∧ at' = term then some (candidate, log) else history.vote node at' }

def History.recordAck [DecidableEq N] (history : History N E) (node : N) (term count : Nat)
    : History N E :=
  { history with
    ack := fun other at' =>
      if other = node ∧ at' = term then max (history.ack node term) count
      else history.ack other at' }

def History.recordTermLog (history : History N E) (term : Nat) (log : List E)
    : History N E :=
  { history with termLog := update history.termLog term log }

def History.recordLeader (history : History N E) (term : Nat) (node : N) (log : List E)
    : History N E :=
  { history with
    leader := update history.leader term (some node)
    startLog := update history.startLog term log
    termLog := update history.termLog term log }

@[simp] theorem History.recordVote_self [DecidableEq N] (history : History N E) (voter : N)
    (term : Nat) (candidate : N) (log : List E)
    : (history.recordVote voter term candidate log).vote voter term = some (candidate, log) := by
  simp [recordVote]

theorem History.recordVote_of_ne [DecidableEq N] (history : History N E) {voter : N} (candidate : N)
    (log : List E) (other : node ≠ voter ∨ t ≠ term)
    : (history.recordVote voter term candidate log).vote node t = history.vote node t := by
  have apart : ¬(node = voter ∧ t = term) := by tauto
  simp only [recordVote, apart, if_false]

theorem History.recordAck_of_ne [DecidableEq N] (history : History N E) {other : N} (count : Nat)
    (apart : other ≠ node ∨ t ≠ term)
    : (history.recordAck node term count).ack other t = history.ack other t := by
  have distinct : ¬(other = node ∧ t = term) := by tauto
  simp only [recordAck, distinct, if_false]

@[simp] theorem History.recordAck_self [DecidableEq N] (history : History N E) (node : N)
    (term count : Nat)
    : (history.recordAck node term count).ack node term = max (history.ack node term) count := by
  simp [recordAck]

/-- Acknowledgements only grow. -/
theorem History.ack_le_recordAck [DecidableEq N] (history : History N E) (node : N)
    (term count : Nat) (other : N) (t : Nat)
    : history.ack other t ≤ (history.recordAck node term count).ack other t := by
  by_cases same : other = node ∧ t = term
  · rw [same.1, same.2, recordAck_self]
    exact le_max_left _ _
  · rw [history.recordAck_of_ne count (by tauto)]

/-- Recording a first vote keeps every vote recorded before. -/
theorem History.recordVote_keeps [DecidableEq N] {history : History N E} {voter : N}
    (fresh : history.vote voter term = none) (candidate : N) (log : List E) {ballot : N × List E}
    (voted : history.vote node t = some ballot)
    : (history.recordVote voter term candidate log).vote node t = some ballot := by
  rw [history.recordVote_of_ne candidate log, voted]
  by_contra same
  simp only [not_or, not_not] at same
  rw [same.1, same.2, fresh] at voted
  cases voted

/-- A later history keeps votes and winners, keeps the start of every opened term, and only
extends term logs and acknowledgements.
-/
structure History.Extends (earlier later : History N E) : Prop where
  vote : ∀ {node term ballot}, earlier.vote node term = some ballot
    → later.vote node term = some ballot
  leader : ∀ {term node}, earlier.leader term = some node → later.leader term = some node
  startLog : ∀ {term}, earlier.Opened term → later.startLog term = earlier.startLog term
  termLog : ∀ {term}, earlier.Opened term → earlier.termLog term <+: later.termLog term
  ack : ∀ node term, earlier.ack node term ≤ later.ack node term

theorem History.Extends.opened {earlier later : History N E} (h : earlier.Extends later)
    (opened : earlier.Opened term)
    : later.Opened term := by
  rcases opened with zero | won
  · exact Or.inl zero
  · obtain ⟨node, found⟩ := Option.isSome_iff_exists.mp won
    exact Or.inr (by simp [h.leader found])

theorem History.Extends.trans {first second third : History N E}
    (h : first.Extends second) (later : second.Extends third)
    : first.Extends third where
  vote := fun voted => later.vote (h.vote voted)
  leader := fun won => later.leader (h.leader won)
  startLog := fun opened => (later.startLog (h.opened opened)).trans (h.startLog opened)
  termLog := fun opened => (h.termLog opened).trans (later.termLog (h.opened opened))
  ack := fun node term => (h.ack node term).trans (later.ack node term)

/-- A position of a prefix is a position of the whole list. -/
theorem getElem?_of_below {part whole : List E} (h : part <+: whole) (found : part[k]? = some e)
    : whole[k]? = some e := by
  obtain ⟨rest, rfl⟩ := h
  obtain ⟨bound, _⟩ := List.getElem?_eq_some_iff.mp found
  rw [List.getElem?_append_left bound]
  exact found

section Terms

variable (term : E → Nat)

/-- Every position of the log lies on the log its entry's term wrote, together with all
positions before it.
-/
def History.Matched (history : History N E) (log : List E) : Prop :=
  ∀ k e, log[k]? = some e
    → history.Opened (term e) ∧ log.take (k + 1) <+: history.termLog (term e)

def lastTerm (log : List E) : Nat := (log.getLast?.map term).getD 0

def UpToDate (candidate voter : List E) : Prop :=
  lastTerm term voter < lastTerm term candidate
  ∨ (lastTerm term voter = lastTerm term candidate ∧ voter.length ≤ candidate.length)

/-- The logs of opened terms: a term's log extends the log its winner started from with
entries of that term only, and is itself matched.
-/
structure History.LogsLegal (history : History N E) : Prop where
  start : ∀ {t}, history.Opened t → history.startLog t <+: history.termLog t
  own
    : ∀ {t k e}, history.Opened t → (history.termLog t)[k]? = some e
      → (k < (history.startLog t).length ∧ term e < t)
        ∨ ((history.startLog t).length ≤ k ∧ term e = t)
  matched : ∀ {t}, history.Opened t → history.Matched term (history.termLog t)

variable {term} {history : History N E} {log : List E}

/-- Matching survives in every later history, by extending the term log. -/
theorem History.Matched.extend {later : History N E} (matched : history.Matched term log)
    (h : history.Extends later)
    : later.Matched term log := by
  intro k e found
  obtain ⟨opened, below⟩ := matched _ _ found
  exact ⟨h.opened opened, below.trans (h.termLog opened)⟩

/-- A prefix of a matched log is matched: its positions are positions of the whole log. -/
theorem History.Matched.of_below {part : List E} (matched : history.Matched term log)
    (h : part <+: log)
    : history.Matched term part := by
  intro k e found
  obtain ⟨bound, _⟩ := List.getElem?_eq_some_iff.mp found
  have whole : log[k]? = some e := getElem?_of_below h found
  refine ⟨(matched _ _ whole).1, ?_⟩
  have same : part.take (k + 1) = log.take (k + 1) := by
    obtain ⟨rest, rfl⟩ := h
    rw [take_append_of_le_length (by omega)]
  rw [same]
  exact (matched _ _ whole).2

/-- A nonempty matched log is a prefix of the log written in its last entry's term. -/
theorem History.Matched.last (matched : history.Matched term log) (nonempty : log ≠ [])
    : history.Opened (lastTerm term log) ∧ log <+: history.termLog (lastTerm term log) := by
  have found : log[log.length - 1]? = some (log.getLast nonempty) := by
    rw [← List.getLast?_eq_getElem?, List.getLast?_eq_some_getLast nonempty]
  have last : lastTerm term log = term (log.getLast nonempty) := by
    simp [lastTerm, List.getLast?_eq_some_getLast nonempty]
  have positive := length_pos_of_ne_nil nonempty
  obtain ⟨opened, below⟩ := matched _ _ found
  rw [take_of_length_le (by omega)] at below
  exact ⟨last ▸ opened, last ▸ below⟩

/-- Entries of a term's log never come from a later term. -/
theorem History.LogsLegal.term_le (legal : history.LogsLegal term) (opened : history.Opened t)
    (found : (history.termLog t)[k]? = some e)
    : term e ≤ t := by
  rcases legal.own opened found with ⟨_, lt⟩ | ⟨_, eq⟩ <;> omega

/-- Entries of a matched log never come from a term later than its last entry's. -/
theorem History.Matched.term_le_lastTerm (matched : history.Matched term log)
    (legal : history.LogsLegal term) (found : log[k]? = some e)
    : term e ≤ lastTerm term log := by
  have nonempty : log ≠ [] := by
    rintro rfl
    simp at found
  obtain ⟨opened, below⟩ := matched.last nonempty
  exact legal.term_le opened (getElem?_of_below below found)

/-- Two matched logs with entries of one term at a position agree up to that position. -/
theorem History.Matched.agree {left right : List E} (hl : history.Matched term left)
    (hr : history.Matched term right) {f : E} (foundLeft : left[k]? = some e)
    (foundRight : right[k]? = some f) (same : term e = term f)
    : left.take (k + 1) = right.take (k + 1) := by
  obtain ⟨leftBound, _⟩ := List.getElem?_eq_some_iff.mp foundLeft
  obtain ⟨rightBound, _⟩ := List.getElem?_eq_some_iff.mp foundRight
  have below := (hl _ _ foundLeft).2
  rw [same] at below
  have length : (left.take (k + 1)).length = (right.take (k + 1)).length := by
    simp only [length_take]
    omega
  exact List.IsPrefix.eq_of_length
    (prefix_of_prefix_length_le below (hr _ _ foundRight).2 length.le) length

/-- Before any vote only term zero is open, and it wrote a root entry of its own. -/
theorem History.LogsLegal.initial {root : E} (own : term root = 0)
    : (History.initial root : History N E).LogsLegal term := by
  have only {t : Nat} (opened : (History.initial root : History N E).Opened t) : t = 0 := by
    simpa [History.Opened, History.initial] using opened
  refine ⟨fun _ => nil_prefix, fun {t k e} opened found => ?_, fun {t} opened k e found => ?_⟩
  · have single := mem_singleton.mp (mem_of_getElem? found)
    exact Or.inr ⟨Nat.zero_le k, by rw [single, own, only opened]⟩
  · have single := mem_singleton.mp (mem_of_getElem? found)
    exact ⟨Or.inl (single ▸ own), take_prefix _ _⟩

/-- A winner's entry appended to its term's log keeps all term logs legal. -/
theorem History.LogsLegal.recordTermLog (legal : history.LogsLegal term) (opened : history.Opened t)
    (own : term e = t)
    : history.Extends (history.recordTermLog t (history.termLog t ++ [e]))
      ∧ (history.recordTermLog t (history.termLog t ++ [e])).LogsLegal term := by
  have later : history.Extends (history.recordTermLog t (history.termLog t ++ [e])) := by
    refine ⟨id, id, fun _ => rfl, fun {u} _ => ?_, fun _ _ => le_rfl⟩
    by_cases same : u = t
    · subst same
      simp [History.recordTermLog]
    · simp [History.recordTermLog, update_of_ne same]
  refine ⟨later, ?_, ?_, ?_⟩
  · intro u uOpened
    exact (legal.start uOpened).trans (later.termLog uOpened)
  · intro u k f uOpened found
    by_cases same : u = t
    · subst same
      simp only [History.recordTermLog, update_self] at found
      rcases Nat.lt_or_ge k (history.termLog u).length with old | new
      · rw [List.getElem?_append_left old] at found
        exact legal.own uOpened found
      · rw [List.getElem?_append_right new] at found
        have only := mem_singleton.mp (mem_of_getElem? found)
        have start := (legal.start uOpened).length_le
        exact Or.inr ⟨start.trans new, only ▸ own⟩
    · simp only [History.recordTermLog, update_of_ne same] at found
      exact legal.own uOpened found
  · intro u uOpened
    by_cases same : u = t
    · subst same
      intro k f found
      simp only [History.recordTermLog, update_self] at found ⊢
      rcases Nat.lt_or_ge k (history.termLog u).length with old | new
      · rw [List.getElem?_append_left old] at found
        rw [take_append_of_le_length old]
        exact (legal.matched uOpened).extend later _ _ found
      · obtain ⟨inside, _⟩ := List.getElem?_eq_some_iff.mp found
        rw [List.getElem?_append_right new] at found
        have only := mem_singleton.mp (mem_of_getElem? found)
        rw [only, own, update_self]
        exact ⟨opened, take_prefix _ _⟩
    · simp only [History.recordTermLog, update_of_ne same]
      exact (legal.matched uOpened).extend later

/-- A new winner's log opens its term legally when its entries come from earlier terms. -/
theorem History.LogsLegal.recordLeader (legal : history.LogsLegal term) (node : N)
    (closed : ¬history.Opened t) (matched : history.Matched term log)
    (earlier : ∀ e ∈ log, term e < t)
    : history.Extends (history.recordLeader t node log)
      ∧ (history.recordLeader t node log).LogsLegal term := by
  have other {u : Nat} (uOpened : history.Opened u) : u ≠ t := by
    rintro rfl
    exact closed uOpened
  have later : history.Extends (history.recordLeader t node log) := by
    refine ⟨id, fun {u winner} won => ?_, fun uOpened => ?_, fun uOpened => ?_, fun _ _ => le_rfl⟩
    · have apart := other (u := u) (Or.inr (by simp [won]))
      simpa [History.recordLeader, update_of_ne apart] using won
    · simp [History.recordLeader, update_of_ne (other uOpened)]
    · simp [History.recordLeader, update_of_ne (other uOpened)]
  have before {u : Nat} (apart : u ≠ t) (uOpened : (history.recordLeader t node log).Opened u)
      : history.Opened u := by
    simpa [History.Opened, History.recordLeader, update_of_ne apart] using uOpened
  refine ⟨later, ?_, ?_, ?_⟩
  · intro u uOpened
    by_cases same : u = t
    · subst same
      simp [History.recordLeader]
    · simpa [History.recordLeader, update_of_ne same] using
        legal.start (before same uOpened)
  · intro u k f uOpened found
    by_cases same : u = t
    · subst same
      simp only [History.recordLeader, update_self] at found ⊢
      obtain ⟨inside, _⟩ := List.getElem?_eq_some_iff.mp found
      exact Or.inl ⟨inside, earlier f (mem_of_getElem? found)⟩
    · simp only [History.recordLeader, update_of_ne same] at found ⊢
      exact legal.own (before same uOpened) found
  · intro u uOpened
    by_cases same : u = t
    · subst same
      simpa [History.recordLeader] using matched.extend later
    · simpa [History.recordLeader, update_of_ne same]
        using (legal.matched (before same uOpened)).extend later

end Terms

end Replication
