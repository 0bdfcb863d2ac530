import Goulette.Library.TermHistory

/-! Leader completeness for histories of elected terms. `Legal` collects the obligations on voters;
every way of recording into a history keeps it, under the conditions stated there.
-/

namespace Replication

open List

variable {N E : Type} {term : E → Nat} {history next : History N E} {v owner : N} {t n : Nat}
  {log : List E}

/-- Acknowledgements stay within the logs of opened terms. -/
def History.AcksLegal (history : History N E) : Prop :=
  ∀ v t, 0 < history.ack v t
    → history.Opened t ∧ history.ack v t ≤ (history.termLog t).length

variable (history) in
/-- A log that keeps what its owner acknowledged before a term: every acknowledged part of an
earlier term's log is still there, or some term in between was opened without it.
-/
def RetainedUntil (owner : N) (before : Nat) (log : List E) : Prop :=
  ∀ t n, t < before → n ≤ history.ack owner t
    → (history.termLog t).take n <+: log
      ∨ ∃ u, t < u ∧ u < before ∧ history.Opened u
          ∧ ¬(history.termLog t).take n <+: history.startLog u

/-- Acknowledged parts of term logs never change afterwards. -/
theorem History.AcksLegal.take_eq (acks : history.AcksLegal) (later : history.Extends next)
    (acked : n ≤ history.ack v t)
    : (next.termLog t).take n = (history.termLog t).take n := by
  rcases Nat.eq_zero_or_pos n with rfl | positive
  · simp
  · obtain ⟨opened, bound⟩ := acks v t (positive.trans_le acked)
    obtain ⟨rest, same⟩ := later.termLog opened
    rw [← same, take_append_of_le_length (acked.trans bound)]

/-- Longer term logs cover the acknowledgements of the shorter ones. -/
theorem History.AcksLegal.extend (acks : history.AcksLegal) (later : history.Extends next)
    (same : next.ack = history.ack)
    : next.AcksLegal := by
  intro v t some
  rw [same] at some ⊢
  obtain ⟨opened, bound⟩ := acks v t some
  exact ⟨later.opened opened, bound.trans (later.termLog opened).length_le⟩

/-- An acknowledgement within the log of an opened term. -/
theorem History.AcksLegal.recordAck [DecidableEq N] (acks : history.AcksLegal)
    (opened : history.Opened t) (bound : n ≤ (history.termLog t).length)
    : (history.recordAck v t n).AcksLegal := by
  intro other u some
  by_cases same : other = v ∧ u = t
  · rw [same.1, same.2, History.recordAck_self]
    refine ⟨opened, max_le ?_ bound⟩
    rcases Nat.eq_zero_or_pos (history.ack v t) with zero | positive
    · omega
    · exact (acks v t positive).2
  · rw [history.recordAck_of_ne n (by tauto)] at some ⊢
    exact acks other u some

/-- Retention survives in later histories with the same earlier acknowledgements. -/
theorem RetainedUntil.extend {before : Nat} (h : RetainedUntil history owner before log)
    (later : history.Extends next) (acks : history.AcksLegal)
    (same : ∀ t, t < before → next.ack owner t = history.ack owner t)
    : RetainedUntil next owner before log := by
  intro t n earlier acked
  rw [same t earlier] at acked
  rw [acks.take_eq later acked]
  rcases h t n earlier acked with held | ⟨u, lo, hi, opened, lost⟩
  · exact Or.inl held
  · exact Or.inr ⟨u, lo, hi, later.opened opened, by rwa [later.startLog opened]⟩

/-- A later bound asks nothing new of an owner without later acknowledgements. -/
theorem RetainedUntil.raise {before limit : Nat} (h : RetainedUntil history owner before log)
    (le : before ≤ limit) (reached : ∀ t, 0 < history.ack owner t → t < before)
    : RetainedUntil history owner limit log := by
  intro t n _ acked
  rcases Nat.eq_zero_or_pos n with rfl | positive
  · exact Or.inl (by simp)
  · rcases h t n (reached t (positive.trans_le acked)) acked with held | ⟨u, lo, hi, lost⟩
    · exact Or.inl held
    · exact Or.inr ⟨u, lo, hi.trans_le le, lost⟩

/-- A term that was not opened took nothing away. -/
theorem RetainedUntil.unopened (h : RetainedUntil history owner (t + 1) log)
    (closed : ¬history.Opened t)
    : RetainedUntil history owner t log := by
  intro s n earlier acked
  rcases h s n (by omega) acked with held | ⟨u, lo, hi, opened, lost⟩
  · exact Or.inl held
  · have apart : u ≠ t := by
      rintro rfl
      exact closed opened
    exact Or.inr ⟨u, lo, by omega, opened, lost⟩

/-- Acknowledging part of a term's log while moving to a new log that drops nothing the
term's log has. What the new log drops was missing from the start of that term.
-/
theorem RetainedUntil.recordAck [DecidableEq N] {reached m : Nat} {newLog : List E}
    (h : RetainedUntil history owner (reached + 1) log)
    (acks : ∀ u, 0 < history.ack owner u → u ≤ reached) (le : reached ≤ t)
    (opened : history.Opened t) (start : history.startLog t <+: history.termLog t)
    (kept : ∀ part, part <+: log → part <+: history.termLog t → part <+: newLog)
    (acked : (history.termLog t).take m <+: newLog)
    : RetainedUntil (history.recordAck owner t m) owner (t + 1) newLog := by
  have raised := h.raise (by omega : reached + 1 ≤ t + 1)
    (fun u some => by have := acks u some; omega)
  intro s n earlier counted
  by_cases same : s = t
  · subst same
    rw [History.recordAck_self] at counted
    refine Or.inl ?_
    rcases le_max_iff.mp counted with before | now
    · rcases raised s n (by omega) before with held | ⟨u, lo, hi, _⟩
      · exact kept _ held (List.take_prefix _ _)
      · omega
    · exact (take_prefix_take_left now).trans acked
  · rw [history.recordAck_of_ne m (Or.inr same)] at counted
    rcases raised s n earlier counted with held | lost
    · by_cases started : (history.termLog s).take n <+: history.startLog t
      · exact Or.inl (kept _ held (started.trans start))
      · exact Or.inr ⟨t, by omega, by omega, opened, started⟩
    · exact Or.inr lost

variable (term) in
/-- The obligations of a voting history over a population. Votes are for standing candidates
at least as up to date as the voter and retain what the voter acknowledged; a winner
started from the log it stood with and has a majority of retaining voters.
-/
structure History.Legal (population : Finset N) (history : History N E) : Prop where
  logs : history.LogsLegal term
  acks : history.AcksLegal
  ballot : ∀ {v t c log}, history.vote v t = some (c, log) → history.Matched term log ∧ log ≠ []
  candidate
    : ∀ {v t c log}, history.vote v t = some (c, log)
      → ∃ own, history.vote c t = some (c, own) ∧ UpToDate term own log
  retained
    : ∀ {v t c log}, history.vote v t = some (c, log) → history.leader t = none
      → RetainedUntil history v t log
  winner : ∀ {t l}, history.leader t = some l → history.vote l t = some (l, history.startLog t)
  quorum
    : ∀ {t l}, history.leader t = some l
      → ∃ voters, Majority population voters
          ∧ ∀ v ∈ voters, ∃ log, history.vote v t = some (l, log)
              ∧ RetainedUntil history v t log

variable {population : Finset N} {part : List E} {u : Nat}

theorem History.Legal.initial {root : E} (own : term root = 0)
    : (History.initial root : History N E).Legal term population where
  logs := .initial own
  acks := by simp [AcksLegal, History.initial]
  ballot := by simp [History.initial]
  candidate := by simp [History.initial]
  retained := by simp [History.initial]
  winner := by simp [History.initial]
  quorum := by simp [History.initial]

theorem UpToDate.refl (log : List E) : UpToDate term log log := Or.inr ⟨rfl, le_rfl⟩

/-- A history that records only more in term logs and acknowledgements stays legal, as long
as no voter acknowledged anything before a term it voted in.
-/
theorem History.Legal.extend (legal : history.Legal term population)
    (later : history.Extends next) (logs : next.LogsLegal term) (acks : next.AcksLegal)
    (vote : next.vote = history.vote) (leader : next.leader = history.leader)
    (same
      : ∀ v u, (history.vote v u).isSome → ∀ t, t < u → next.ack v t = history.ack v t)
    : next.Legal term population where
  logs := logs
  acks := acks
  ballot := fun voted => by
    rw [vote] at voted
    exact ⟨(legal.ballot voted).1.extend later, (legal.ballot voted).2⟩
  candidate := fun voted => by
    rw [vote] at voted ⊢
    exact legal.candidate voted
  retained := fun voted unwon => by
    rw [vote] at voted
    rw [leader] at unwon
    exact (legal.retained voted unwon).extend later legal.acks (same _ _ (by simp [voted]))
  winner := fun won => by
    rw [leader] at won
    rw [vote, later.startLog (Or.inr (by simp [won]))]
    exact legal.winner won
  quorum := fun won => by
    rw [leader] at won
    obtain ⟨voters, majority, voted⟩ := legal.quorum won
    refine ⟨voters, majority, fun v inVoters => ?_⟩
    obtain ⟨log, ballot, retained⟩ := voted v inVoters
    exact ⟨log, by rw [vote]; exact ballot,
      retained.extend later legal.acks (same _ _ (by simp [ballot]))⟩

/-- A winner's entry appended to its term's log. -/
theorem History.Legal.recordTermLog (legal : history.Legal term population) {e : E}
    (opened : history.Opened t) (own : term e = t)
    : (history.recordTermLog t (history.termLog t ++ [e])).Legal term population := by
  obtain ⟨later, logs⟩ := legal.logs.recordTermLog opened own
  exact legal.extend later logs (legal.acks.extend later rfl) rfl rfl (fun _ _ _ _ _ => rfl)

/-- An acknowledgement within an opened term that its node has not voted beyond. -/
theorem History.Legal.recordAck [DecidableEq N] (legal : history.Legal term population)
    (opened : history.Opened t) (bound : n ≤ (history.termLog t).length)
    (voted : ∀ u, (history.vote v u).isSome → u ≤ t)
    : (history.recordAck v t n).Legal term population := by
  have later : history.Extends (history.recordAck v t n) :=
    ⟨id, id, fun _ => rfl, fun _ => prefix_rfl, history.ack_le_recordAck v t n⟩
  have logs : (history.recordAck v t n).LogsLegal term :=
    ⟨legal.logs.start, legal.logs.own, legal.logs.matched⟩
  refine legal.extend later logs (legal.acks.recordAck opened bound) rfl rfl ?_
  intro other u ballot s before
  refine history.recordAck_of_ne n ?_
  by_contra same
  simp only [not_or, not_not] at same
  have := voted u (same.1 ▸ ballot)
  omega

/-- A first vote for the voter itself or for a standing candidate that is up to date. -/
theorem History.Legal.recordVote [DecidableEq N] (legal : history.Legal term population) {c : N}
    (fresh : history.vote v t = none) (matched : history.Matched term log) (nonempty : log ≠ [])
    (candidate : c = v ∨ ∃ own, history.vote c t = some (c, own) ∧ UpToDate term own log)
    (retained : history.leader t = none → RetainedUntil history v t log)
    : (history.recordVote v t c log).Legal term population := by
  have keeps {w : N} {u : Nat} {b : N × List E} (voted : history.vote w u = some b)
      : (history.recordVote v t c log).vote w u = some b :=
    History.recordVote_keeps fresh c log voted
  have split {w d : N} {u : Nat} {other : List E}
      (voted : (history.recordVote v t c log).vote w u = some (d, other))
      : (w = v ∧ u = t ∧ d = c ∧ other = log) ∨ history.vote w u = some (d, other) := by
    by_cases same : w = v ∧ u = t
    · obtain ⟨rfl, rfl⟩ := same
      simp only [History.recordVote_self, Option.some.injEq, Prod.mk.injEq] at voted
      exact Or.inl ⟨rfl, rfl, voted.1.symm, voted.2.symm⟩
    · rw [history.recordVote_of_ne c log (by tauto)] at voted
      exact Or.inr voted
  refine ⟨⟨legal.logs.start, legal.logs.own, legal.logs.matched⟩, legal.acks, ?_, ?_, ?_, ?_, ?_⟩
  · intro w u d other voted
    rcases split voted with ⟨rfl, rfl, rfl, rfl⟩ | before
    · exact ⟨matched, nonempty⟩
    · exact legal.ballot before
  · intro w u d other voted
    rcases split voted with ⟨rfl, rfl, rfl, rfl⟩ | before
    · rcases candidate with rfl | ⟨own, standing, newer⟩
      · exact ⟨other, voted, UpToDate.refl other⟩
      · exact ⟨own, keeps standing, newer⟩
    · obtain ⟨own, standing, newer⟩ := legal.candidate before
      exact ⟨own, keeps standing, newer⟩
  · intro w u d other voted unwon
    rcases split voted with ⟨rfl, rfl, rfl, rfl⟩ | before
    · exact retained unwon
    · exact legal.retained before unwon
  · exact fun won => keeps (legal.winner won)
  · intro u l won
    obtain ⟨voters, majority, voted⟩ := legal.quorum won
    refine ⟨voters, majority, fun w inVoters => ?_⟩
    obtain ⟨other, ballot, held⟩ := voted w inVoters
    exact ⟨other, keeps ballot, held⟩

/-- The first winner of a term, elected by a majority of that term's votes. -/
theorem History.Legal.recordLeader (legal : history.Legal term population) {l : N}
    {voters : Finset N} (closed : ¬history.Opened t) (earlier : ∀ e ∈ log, term e < t)
    (own : history.vote l t = some (l, log)) (majority : Majority population voters)
    (voted : ∀ v ∈ voters, ∃ other, history.vote v t = some (l, other))
    : (history.recordLeader t l log).Legal term population := by
  obtain ⟨later, logs⟩ := legal.logs.recordLeader l closed (legal.ballot own).1 earlier
  have unwon : history.leader t = none := by
    by_contra won
    exact closed (Or.inr (Option.isSome_iff_ne_none.mpr won))
  have extend {v : N} {u : Nat} {other : List E} (held : RetainedUntil history v u other)
      : RetainedUntil (history.recordLeader t l log) v u other :=
    held.extend later legal.acks (fun _ _ => rfl)
  refine ⟨logs, legal.acks.extend later rfl, ?_, legal.candidate, ?_, ?_, ?_⟩
  · exact fun ballot => ⟨(legal.ballot ballot).1.extend later, (legal.ballot ballot).2⟩
  · intro v u c other ballot none
    have before : history.leader u = Option.none := by
      cases won : history.leader u with
      | none => rfl
      | some winner =>
          rw [later.leader won] at none
          cases none
    exact extend (legal.retained ballot before)
  · intro u w won
    by_cases same : u = t
    · subst same
      simp only [History.recordLeader, Function.update_self, Option.some.injEq] at won ⊢
      exact won ▸ own
    · simp only [History.recordLeader, Function.update_of_ne same] at won ⊢
      exact legal.winner won
  · intro u w won
    by_cases same : u = t
    · subst same
      simp only [History.recordLeader, Function.update_self, Option.some.injEq] at won
      refine ⟨voters, majority, fun v inVoters => ?_⟩
      obtain ⟨other, ballot⟩ := voted v inVoters
      exact ⟨other, won ▸ ballot, extend (legal.retained ballot unwon)⟩
    · simp only [History.recordLeader, Function.update_of_ne same] at won
      obtain ⟨voters, majority, voted⟩ := legal.quorum won
      refine ⟨voters, majority, fun v inVoters => ?_⟩
      obtain ⟨other, ballot, held⟩ := voted v inVoters
      exact ⟨other, ballot, extend held⟩

variable (term) in
/-- A prefix of a term's log is committed once a majority acknowledged it and it ends with
an entry of that very term.
-/
def History.Committed (history : History N E) (population : Finset N) (t n : Nat) : Prop :=
  n ≤ (history.termLog t).length
  ∧ (∃ e, (history.termLog t)[n - 1]? = some e ∧ term e = t)
  ∧ history.Opened t ∧ 0 < n
  ∧ ∃ ackers, Majority population ackers ∧ ∀ v ∈ ackers, n ≤ history.ack v t

/-- An up-to-date candidate inherits a prefix that ends in term `t`. Either both logs end in
one term and the longer extends the shorter, or the candidate's last term started from a
log that already had the prefix.
-/
theorem UpToDate.inherits {candidate voter : List E} (newer : UpToDate term candidate voter)
    (legal : history.LogsLegal term) (candidateMatched : history.Matched term candidate)
    (voterMatched : history.Matched term voter) (held : part <+: voter)
    (ends : ∃ e, part[part.length - 1]? = some e ∧ term e = t)
    (later
      : t < lastTerm term candidate
        → part <+: history.startLog (lastTerm term candidate))
    : part <+: candidate := by
  obtain ⟨e, found, rfl⟩ := ends
  have voterFound := getElem?_of_below held found
  have voterNonempty : voter ≠ [] := by
    rintro rfl
    simp at voterFound
  have bound := voterMatched.term_le_lastTerm legal voterFound
  have candidateNonempty : candidate ≠ [] := by
    rintro rfl
    rcases newer with lt | ⟨_, le⟩
    · simp [lastTerm] at lt
    · exact voterNonempty (length_eq_zero_iff.mp (by simpa using le))
  obtain ⟨opened, below⟩ := candidateMatched.last candidateNonempty
  rcases newer with lt | ⟨same, length⟩
  · have inherited := later (by omega)
    have last : candidate[candidate.length - 1]? = some (candidate.getLast candidateNonempty) := by
      rw [← List.getLast?_eq_getElem?, List.getLast?_eq_some_getLast candidateNonempty]
    have lastTermEq : lastTerm term candidate = term (candidate.getLast candidateNonempty) := by
      simp [lastTerm, List.getLast?_eq_some_getLast candidateNonempty]
    have beyond : (history.startLog (lastTerm term candidate)).length ≤ candidate.length - 1 := by
      rcases legal.own opened (getElem?_of_below below last) with ⟨_, earlier⟩ | ⟨le, _⟩
      · omega
      · exact le
    exact inherited.trans
      (prefix_of_prefix_length_le (legal.start opened) below (by omega))
  · have voterBelow := (voterMatched.last voterNonempty).2
    rw [same] at voterBelow
    exact held.trans (prefix_of_prefix_length_le voterBelow below length)

/-- Leader completeness: every later winner starts from a log with the committed prefix.
Witness: strong induction on the winner's term. The two majorities share a voter, which
retained the prefix because no term in between was opened without it.
-/
theorem History.Legal.complete [DecidableEq N] (legal : history.Legal term population)
    (committed : history.Committed term population t n) (later : t < u) (opened : history.Opened u)
    : (history.termLog t).take n <+: history.startLog u := by
  induction u using Nat.strong_induction_on with
  | _ u ih =>
      obtain ⟨bound, ⟨e, found, own⟩, tOpened, positive, ackers, ackMajority, acked⟩ := committed
      obtain ⟨winner, won⟩ : ∃ winner, history.leader u = some winner := by
        rcases opened with zero | some
        · omega
        · exact Option.isSome_iff_exists.mp some
      obtain ⟨voters, voteMajority, voted⟩ := legal.quorum won
      obtain ⟨shared, inAckers, inVoters⟩ := ackMajority.meet voteMajority
      obtain ⟨log, vote, retained⟩ := voted shared inVoters
      have held : (history.termLog t).take n <+: log := by
        rcases retained t n later (acked shared inAckers) with held | ⟨mid, lo, hi, midOpened, lost⟩
        · exact held
        · exact absurd (ih mid hi lo midOpened) lost
      have winnerVote := legal.winner won
      have startMatched := (legal.ballot winnerVote).1
      have newer : UpToDate term (history.startLog u) log := by
        obtain ⟨standing, ballot, newer⟩ := legal.candidate vote
        rw [winnerVote] at ballot
        simp only [Option.some.injEq, Prod.mk.injEq, true_and] at ballot
        exact ballot ▸ newer
      refine newer.inherits legal.logs startMatched (legal.ballot vote).1 held ⟨e, ?_, own⟩ ?_
      · rw [length_take, Nat.min_eq_left bound, List.getElem?_take_of_lt (by omega)]
        exact found
      · intro beyond
        have nonempty : history.startLog u ≠ [] := by
          intro empty
          simp [empty, lastTerm] at beyond
        obtain ⟨lastOpened, _⟩ := startMatched.last nonempty
        refine ih _ ?_ beyond lastOpened
        have last : (history.startLog u)[(history.startLog u).length - 1]?
            = some ((history.startLog u).getLast nonempty) := by
          rw [← List.getLast?_eq_getElem?, List.getLast?_eq_some_getLast nonempty]
        have length := length_pos_of_ne_nil nonempty
        have uOpened : history.Opened u := Or.inr (by simp [won])
        rcases legal.logs.own uOpened
            (getElem?_of_below (legal.logs.start uOpened) last) with ⟨_, lt⟩ | ⟨le, _⟩
        · simpa [lastTerm, List.getLast?_eq_some_getLast nonempty] using lt
        · omega

/-- A committed prefix lies on the log of its own and of every later opened term. -/
theorem History.Legal.committed_below [DecidableEq N] (legal : history.Legal term population)
    (committed : history.Committed term population t n) (later : t ≤ u) (opened : history.Opened u)
    : (history.termLog t).take n <+: history.termLog u := by
  rcases Nat.lt_or_eq_of_le later with lt | rfl
  · exact (legal.complete committed lt opened).trans (legal.logs.start opened)
  · exact take_prefix _ _

/-- Any two committed prefixes are comparable, by completeness for the later term. -/
theorem History.Legal.committed_comparable [DecidableEq N] (legal : history.Legal term population)
    {m : Nat} (left : history.Committed term population t n)
    (right : history.Committed term population u m)
    : (history.termLog t).take n <+: (history.termLog u).take m
      ∨ (history.termLog u).take m <+: (history.termLog t).take n := by
  rcases Nat.le_total t u with le | le
  · exact prefix_or_prefix_of_prefix
      (legal.committed_below left le right.2.2.1) (List.take_prefix _ _)
  · exact prefix_or_prefix_of_prefix
      (List.take_prefix _ _) (legal.committed_below right le left.2.2.1)

/-- A committed prefix stays committed. -/
theorem History.Committed.extend (h : history.Committed term population t n)
    (later : history.Extends next)
    : next.Committed term population t n := by
  obtain ⟨bound, ⟨e, found, own⟩, opened, positive, ackers, majority, acked⟩ := h
  have grown := later.termLog opened
  exact ⟨bound.trans grown.length_le, ⟨e, getElem?_of_below grown found, own⟩,
    later.opened opened, positive, ackers, majority,
    fun v member => (acked v member).trans (later.ack v t)⟩

variable (term) in
/-- Part of a log that is covered by a prefix committed in some term up to the given one. -/
def History.Durable (history : History N E) (population : Finset N) (t : Nat) (part : List E)
    : Prop :=
  part = []
  ∨ ∃ u n, u ≤ t ∧ history.Committed term population u n
      ∧ part <+: (history.termLog u).take n

theorem History.Durable.extend (h : history.Durable term population t part)
    (later : history.Extends next)
    : next.Durable term population t part := by
  rcases h with empty | ⟨u, n, le, committed, below⟩
  · exact Or.inl empty
  · refine Or.inr ⟨u, n, le, committed.extend later, ?_⟩
    obtain ⟨rest, same⟩ := later.termLog committed.2.2.1
    rwa [← same, take_append_of_le_length committed.1]

theorem History.Durable.mono {whole : List E} (h : history.Durable term population t whole)
    (le : t ≤ u) (below : part <+: whole)
    : history.Durable term population u part := by
  rcases h with rfl | ⟨s, n, early, committed, covered⟩
  · exact Or.inl (prefix_nil.mp below)
  · exact Or.inr ⟨s, n, early.trans le, committed, below.trans covered⟩

/-- A durable part lies on the log of every opened term from then on. -/
theorem History.Durable.onTermLog [DecidableEq N] (h : history.Durable term population t part)
    (legal : history.Legal term population) (le : t ≤ u) (opened : history.Opened u)
    : part <+: history.termLog u := by
  rcases h with rfl | ⟨s, n, early, committed, below⟩
  · exact nil_prefix
  · exact below.trans (legal.committed_below committed (early.trans le) opened)

/-- Any two durable parts are comparable: so are the committed prefixes that cover them. -/
theorem History.Durable.comparable [DecidableEq N] {left right : List E}
    (hl : history.Durable term population t left) (hr : history.Durable term population u right)
    (legal : history.Legal term population)
    : left <+: right ∨ right <+: left := by
  rcases hl with rfl | ⟨s, n, _, leftCommitted, leftBelow⟩
  · exact Or.inl nil_prefix
  rcases hr with rfl | ⟨r, m, _, rightCommitted, rightBelow⟩
  · exact Or.inr nil_prefix
  rcases legal.committed_comparable leftCommitted rightCommitted with below | below
  · exact prefix_or_prefix_of_prefix (leftBelow.trans below) rightBelow
  · exact prefix_or_prefix_of_prefix leftBelow (rightBelow.trans below)

end Replication
