import Goulette.Library.OffsetReader
import Goulette.Storage.FragmentRuns

/-! A consumer that reads a topic by offset while messages are written and fragments expire. A
journal tells which of the numbered writes the listed fragments hold.
-/

namespace Goulette.Storage

open Goulette.Go ByteFrames FileStore Runs OffsetReader List

structure WriteEvent where
  number : Nat
  entry : MessageEntry
deriving DecidableEq, Repr

/-- The store with the events behind the topic's fragments and the state of the consumer:
`journal` holds the events of each listed fragment, `expired` those of the fragments that went.
-/
structure Consumption where
  fm : FragmentManager
  journal : List (List WriteEvent)
  count : Nat
  expired : List WriteEvent
  offset : UInt64
  messages : List MessageEntry
  events : List WriteEvent

inductive ConsumerAction
  | writeMessage (topic : GoString) (messageID : UInt64) (payload : Bytes)
  | cleanupExpiredFragments
  | readMessages (limit : Int64)

namespace Consumption

def start (fm : FragmentManager) : Consumption :=
  { fm, journal := [], count := 0, expired := [], offset := 0, messages := [], events := [] }

def log (state : Consumption) : List WriteEvent := state.journal.flatten

/-- A write to the topic goes to a new fragment or to the last one. -/
def record (state : Consumption) (topic : GoString) (event : WriteEvent)
    : List (List WriteEvent) :=
  if state.fm.needsFragment topic then state.journal ++ [[event]]
  else state.journal.dropLast ++ [state.journal.getLastD [] ++ [event]]

def chapters (state : Consumption) (topic : GoString) : List (Fragment × List WriteEvent) :=
  (state.fm.listed topic).zip state.journal

/-- One step at a time of the clock. -/
def step (topic : GoString) (state : Consumption) : Int × ConsumerAction → Consumption
  | (now, .writeMessage written messageID payload) =>
      if written = topic then
        { state with
          fm := state.fm.writeMessage now written messageID payload
          journal :=
            state.record topic
              { number := state.count, entry := newEntry now messageID payload }
          count := state.count + 1 }
      else { state with fm := state.fm.writeMessage now written messageID payload }
  | (now, .cleanupExpiredFragments) =>
      if state.fm.ttl ≤ 0 then state
      else
        { state with
          fm := state.fm.cleanupExpiredFragments now
          journal :=
            ((state.chapters topic).filter (fun chapter => !state.fm.expired now chapter.1)).map
              Prod.snd
          expired :=
            state.expired
              ++ ((state.chapters topic).filter
                (fun chapter => state.fm.expired now chapter.1)).flatMap Prod.snd }
  -- the consumer moves on by what it receives; its events are the next ones of the log
  | (_, .readMessages limit) =>
      let batch := state.fm.readMessages topic state.offset limit
      { state with
        offset := state.offset + UInt64.ofNat batch.length
        messages := state.messages ++ batch
        events := state.events ++ (state.log.drop state.offset.toNat).take batch.length }

/-- A fragment that is created gets a file of its own, and a payload fits its size field. -/
def RotatesFresh (state : Consumption) : Int × ConsumerAction → Prop
  | (now, .writeMessage written messageID payload) =>
      state.fm.CreatesFresh (now, .writeMessage written messageID payload)
  | _ => True

instance (state : Consumption) : DecidablePred state.RotatesFresh := fun call => by
  unfold Consumption.RotatesFresh
  split <;> infer_instance

/-- Fragments are created afresh and the events can be counted; an expiry pass takes no fragment
that holds one of the messages in front of the consumer's offset.
-/
def KeepsPassed (topic : GoString) (state : Consumption) : Int × ConsumerAction → Prop
  | (now, .writeMessage written messageID payload) =>
      state.RotatesFresh (now, .writeMessage written messageID payload)
      ∧ state.count + 1 < 2 ^ 64
  | (now, .cleanupExpiredFragments) =>
      0 < state.fm.ttl
      → PassedKept (state.fm.expired now) (fun fragment => fragment.messageCount.toNat)
          state.offset.toNat (state.fm.listed topic)
  | (_, .readMessages _) => True

instance (topic : GoString) (state : Consumption)
    : DecidablePred (state.KeepsPassed topic) := fun action => by
  unfold Consumption.KeepsPassed
  split <;> infer_instance

/-- The consumer received writes, each once and in the order of the writes, and every write
before the last of them that it did not receive was in a fragment that expired.
-/
structure Consistent (state : Consumption) : Prop where
  received : state.messages = state.events.map WriteEvent.entry
  ordered : state.events.Pairwise (fun early late => early.number < late.number)
  complete
    : ∀ number < state.count,
        (∃ later ∈ state.events, number < later.number)
        → number ∉ state.events.map WriteEvent.number
        → number ∈ state.expired.map WriteEvent.number

end Consumption

/-! The journal follows the archive. -/

def Behind (bucket : Bucket) (events : List WriteEvent) : Prop :=
  bucket.messages = events.map WriteEvent.entry

variable {journal : List (List WriteEvent)}

theorem written_eq {archive : Archive} {topic : GoString}
    (behind : List.Forall₂ Behind (archive.buckets topic) journal)
    : archive.written topic = journal.flatten.map WriteEvent.entry := by
  unfold Archive.written
  generalize archive.buckets topic = buckets at behind
  induction behind with
  | nil => rfl
  | cons first _ ih =>
      rw [map_cons, flatten_cons, ih, first, flatten_cons, map_append]

/-- Numbers that increase below a count are no more than the count. -/
theorem length_le_of_increasing {events : List WriteEvent} {count : Nat}
    (ordered : events.Pairwise (fun early late => early.number < late.number))
    (counted : ∀ event ∈ events, event.number < count)
    : events.length ≤ count := by
  have distinct : (events.map WriteEvent.number).Nodup :=
    pairwise_map.mpr (ordered.imp Nat.ne_of_lt)
  have below : events.map WriteEvent.number ⊆ List.range count := by
    intro number member
    obtain ⟨event, here, rfl⟩ := mem_map.mp member
    exact mem_range.mpr (counted event here)
  have length := (subperm_of_subset distinct below).length_le
  rwa [length_map, length_range] at length

/-- What holds of the store, the journal and the consumer in every state of a run. -/
structure Tracked (topic : GoString) (state : Consumption) (archive : Archive) : Prop where
  refines : Refines state.fm archive
  behind : List.Forall₂ Behind (archive.buckets topic) state.journal
  ordered : state.log.Pairwise (fun early late => early.number < late.number)
  counted : ∀ event ∈ state.log, event.number < state.count
  accounted
    : ∀ number < state.count,
        number ∈ state.log.map WriteEvent.number
        ∨ number ∈ state.expired.map WriteEvent.number
  inStep : InStep state.log { offset := state.offset.toNat, received := state.events }
  received : state.messages = state.events.map WriteEvent.entry
  small : state.count < 2 ^ 64

namespace Tracked

variable {topic : GoString} {state : Consumption} {archive : Archive} {fm : FragmentManager}
  {now : Int}

/-- A consumer in step misses nothing but what expired. -/
theorem consistent (h : Tracked topic state archive) : state.Consistent where
  received := h.received
  ordered := by
    have prefixed := h.ordered.sublist (take_sublist state.offset.toNat state.log)
    rwa [← h.inStep.received] at prefixed
  complete := by
    rintro number below ⟨later, got, earlier⟩ missing
    refine (h.accounted number below).resolve_left (fun logged => missing ?_)
    obtain ⟨event, member, rfl⟩ := mem_map.mp logged
    exact mem_map_of_mem
      (h.inStep.complete (fun _ _ => Nat.lt_asymm) h.ordered got earlier member)

theorem start (refines : Refines fm archive) (empty : archive.buckets topic = [])
    : Tracked topic (.start fm) archive where
  refines := refines
  behind := by
    rw [empty]
    exact .nil
  ordered := .nil
  counted := fun _ member => absurd member not_mem_nil
  accounted := fun _ below => absurd below (Nat.not_lt_zero _)
  inStep := InStep.start []
  received := rfl
  small := Nat.two_pow_pos 64

section

variable (h : Tracked topic state archive)
include h

/-- A new event comes last in the log. -/
theorem append {next : Archive} (entry : MessageEntry) (refines : Refines fm next)
    (behind : List.Forall₂ Behind (next.buckets topic) journal)
    (log : journal.flatten = state.log ++ [{ number := state.count, entry }])
    (small : state.count + 1 < 2 ^ 64)
    : Tracked topic { state with fm, journal, count := state.count + 1 } next where
  refines := refines
  behind := behind
  ordered := by
    simp only [Consumption.log, log]
    exact pairwise_append.mpr ⟨h.ordered, pairwise_singleton _ _,
      fun early member => forall_mem_singleton.mpr (h.counted early member)⟩
  counted := by
    simp only [Consumption.log, log]
    refine forall_mem_append.mpr ⟨fun event old => ?_, forall_mem_singleton.mpr ?_⟩
    · exact Nat.lt_succ_of_lt (h.counted event old)
    · exact Nat.lt_succ_self _
  accounted := by
    simp only [Consumption.log, log, map_append, mem_append]
    intro number below
    rcases Nat.lt_succ_iff_lt_or_eq.mp below with old | rfl
    · exact (h.accounted number old).imp_left Or.inl
    · exact Or.inl (Or.inr mem_cons_self)
  inStep := by
    simp only [Consumption.log, log]
    exact h.inStep.append _
  received := h.received
  small := small

theorem writeMessage {messageID : UInt64} {payload : Bytes}
    (keeps : state.KeepsPassed topic (now, .writeMessage topic messageID payload))
    : Tracked topic (state.step topic (now, .writeMessage topic messageID payload))
        (archive.write now topic (newEntry now messageID payload)) := by
  obtain ⟨⟨fits, fresh⟩, small⟩ := keeps
  have refines := h.refines.writeMessage fresh now messageID fits
  let event : WriteEvent := { number := state.count, entry := newEntry now messageID payload }
  simp only [Consumption.step, if_true]
  rcases h.refines.needsFragment_cases topic now with
    ⟨needs, _, rolls⟩ | ⟨room, _, stays, before, bucket, last⟩
  · have journal : state.record topic event = state.journal ++ [[event]] := by
      rw [Consumption.record, if_pos needs]
    rw [journal]
    refine h.append event.entry refines ?_ (by simp [Consumption.log, event]) small
    rw [archive.write_of_roll rolls, Archive.set_self]
    exact rel_append h.behind (.cons rfl .nil)
  · have behind := h.behind
    rw [last] at behind
    obtain ⟨earlier, events, split, front, back⟩ := forall₂_concat behind
    have journal : state.record topic event = earlier ++ [events ++ [event]] := by
      simp [Consumption.record, room, split]
    rw [journal]
    refine h.append event.entry refines ?_ (by simp [Consumption.log, split, event]) small
    rw [archive.write_of_last stays last, Archive.set_self]
    refine rel_append front (.cons ?_ .nil)
    simp only [Behind, map_append, back.symm]
    rfl

theorem writeMessage_other {other : GoString} (different : other ≠ topic) {messageID : UInt64}
    {payload : Bytes} (keeps : state.KeepsPassed topic (now, .writeMessage other messageID payload))
    : Tracked topic (state.step topic (now, .writeMessage other messageID payload))
        (archive.write now other (newEntry now messageID payload)) := by
  obtain ⟨⟨fits, fresh⟩, _⟩ := keeps
  have buckets
      : (archive.write now other (newEntry now messageID payload)).buckets topic
        = archive.buckets topic := by
    rcases h.refines.needsFragment_cases other now with
      ⟨_, _, rolls⟩ | ⟨_, _, stays, before, bucket, last⟩
    · rw [archive.write_of_roll rolls, Archive.set_of_ne _ different.symm]
    · rw [archive.write_of_last stays last, Archive.set_of_ne _ different.symm]
  simp only [Consumption.step, if_neg different]
  exact { h with
    refines := h.refines.writeMessage fresh now messageID fits
    behind := by
      rw [buckets]
      exact h.behind }

/-- A read hands the consumer the next events of the log. -/
theorem readMessages (now : Int) (limit : Int64)
    : Tracked topic (state.step topic (now, .readMessages limit)) archive := by
  let count := (state.offset + limit.toUInt64).toNat - state.offset.toNat
  have batch
      : state.fm.readMessages topic state.offset limit
        = ((state.log.drop state.offset.toNat).take count).map WriteEvent.entry := by
    rw [h.refines.readMessages_window, written_eq h.behind, window, ← map_take,
      ← map_drop, drop_take]
    rfl
  have taken
      : (state.log.drop state.offset.toNat).take
            (state.fm.readMessages topic state.offset limit).length
        = (state.log.drop state.offset.toNat).take count := by
    rw [batch, length_map, length_take, ← take_eq_take_min]
  have stepped := h.inStep.read count
  have length := length_le_of_increasing h.ordered h.counted
  have bound := stepped.offset
  simp only [Reader.read] at stepped bound
  have offset
      : (state.offset
          + UInt64.ofNat (state.fm.readMessages topic state.offset limit).length).toNat
        = state.offset.toNat
          + ((state.log.drop state.offset.toNat).take count).length := by
    have small := h.small
    have few
        : ((state.log.drop state.offset.toNat).take count).length % 2 ^ 64
          = ((state.log.drop state.offset.toNat).take count).length :=
      Nat.mod_eq_of_lt (by omega)
    rw [batch, length_map, UInt64.toNat_add, UInt64.toNat_ofNat', few]
    exact Nat.mod_eq_of_lt (by omega)
  exact { h with
    inStep := by
      simp only [Consumption.step, offset, taken]
      exact stepped
    received := by
      simp only [Consumption.step, taken]
      rw [h.received, batch, map_append] }

end

/-- The fragments and their events, as far as an expiry pass looks at them: it keeps the buckets
of the chapters it keeps, and each fragment counts its events.
-/
theorem chapters_eq (refines : Refines fm archive) {listed : List Fragment} {buckets : List Bucket}
    (held : List.Forall₂ (FragmentHolds fm topic) listed buckets)
    (behind : List.Forall₂ Behind buckets journal)
    : (listed.zip journal).map Prod.snd = journal
      ∧ List.Forall₂ Behind (buckets.filter (fun bucket => !archive.expired now bucket))
          (((listed.zip journal).filter (fun chapter => !fm.expired now chapter.1)).map Prod.snd)
      ∧ ∀ offset,
          PassedKept (fm.expired now) (fun fragment => fragment.messageCount.toNat) offset listed
          → PassedKept (fun chapter => fm.expired now chapter.1)
              (fun chapter => chapter.2.length) offset (listed.zip journal) := by
  induction held generalizing journal with
  | nil =>
      cases behind
      exact ⟨rfl, .nil, fun _ _ => trivial⟩
  | @cons fragment bucket listed buckets first _ ih =>
      obtain ⟨events, rest, own, others, rfl⟩ := forall₂_cons_left_iff.mp behind
      obtain ⟨same, young, passed⟩ := ih others
      have flag : archive.expired now bucket = fm.expired now fragment := by
        rw [Archive.expired, FragmentManager.expired, first.createdAt, refines.ttl]
      have size : fragment.messageCount.toNat = events.length := by
        rw [first.messageCount, own, length_map]
        rfl
      refine ⟨by rw [zip_cons_cons, map_cons, same], ?_, ?_⟩
      · cases goes : fm.expired now fragment with
        | true =>
            rw [zip_cons_cons, filter_cons_of_neg (by simp [flag, goes]),
              filter_cons_of_neg (by simp [goes])]
            exact young
        | false =>
            rw [zip_cons_cons, filter_cons_of_pos (by simp [flag, goes]),
              filter_cons_of_pos (by simp [goes]), map_cons]
            exact .cons own young
      · rintro offset ⟨now, later⟩
        simp only [size] at now later
        exact ⟨now, passed _ later⟩

theorem cleanupExpiredFragments (h : Tracked topic state archive)
    (keeps : state.KeepsPassed topic (now, .cleanupExpiredFragments))
    : Tracked topic (state.step topic (now, .cleanupExpiredFragments)) (archive.expire now) := by
  have refines := h.refines.cleanupExpiredFragments now
  have ttl := h.refines.ttl
  by_cases never : state.fm.ttl ≤ 0
  · simp only [Consumption.step, if_pos never]
    rw [ttl] at never
    rw [Archive.expire, if_pos never]
    exact h
  · have sure : archive.ttl = state.fm.ttl := ttl.symm
    obtain ⟨same, young, passed⟩ := chapters_eq h.refines (h.refines.held topic) h.behind
    -- the expired fragments hold nothing in front of the offset, which therefore stays in place
    have kept := (passed state.offset.toNat (keeps (by omega))).take
    have log : (state.chapters topic).flatMap Prod.snd = state.log := by
      rw [flatMap_def, Consumption.chapters, same]
      rfl
    have sublist
        : (((state.chapters topic).filter
            (fun chapter => !state.fm.expired now chapter.1)).map Prod.snd).flatten.Sublist
          state.log := by
      rw [← log, flatMap_def]
      exact (filter_sublist.map _).flatten
    simp only [Consumption.step, if_neg never]
    exact { h with
      refines := refines
      behind := by
        rw [Archive.expire, if_neg (by omega)]
        exact young
      ordered := h.ordered.sublist sublist
      counted := fun event member => h.counted event (sublist.subset member)
      accounted := by
        intro number below
        rcases h.accounted number below with logged | gone
        · obtain ⟨event, member, rfl⟩ := mem_map.mp logged
          rw [← log] at member
          rcases mem_filter_or_filter (fun chapter => state.fm.expired now chapter.1) member with
            stays | leaves
          · rw [flatMap_def] at stays
            exact Or.inl (mem_map_of_mem stays)
          · exact Or.inr (mem_map_of_mem (mem_append_right _ leaves))
        · rw [map_append]
          exact Or.inr (mem_append_left _ gone)
      inStep := by
        apply h.inStep.drop
        rw [flatMap_def] at kept
        simp only [← log]
        exact kept }

theorem step (h : Tracked topic state archive) {action : Int × ConsumerAction}
    (keeps : state.KeepsPassed topic action)
    : ∃ next, Tracked topic (state.step topic action) next := by
  obtain ⟨now, action⟩ := action
  cases action with
  | writeMessage written messageID payload =>
      by_cases here : written = topic
      · subst here
        exact ⟨_, h.writeMessage keeps⟩
      · exact ⟨_, h.writeMessage_other here keeps⟩
  | cleanupExpiredFragments => exact ⟨_, h.cleanupExpiredFragments keeps⟩
  | readMessages limit => exact ⟨_, h.readMessages now limit⟩

end Tracked

/-- Whatever is written when, a consumer that starts at offset zero gets the messages of the
topic in order and misses only expired ones, in every run in which no fragment expires that
holds a message it has passed.
-/
theorem consistent_of_keepsPassed (disk : Disk GoString) (baseDir : GoString)
    (maxSize maxMessages ttl : Int) (topic : GoString) {actions : List (Int × ConsumerAction)}
    (keeps
      : AllSteps (Consumption.step topic) (Consumption.KeepsPassed topic)
          (.start (.newFragmentManager disk baseDir maxSize maxMessages ttl)) actions)
    : (actions.foldl (Consumption.step topic)
        (.start (.newFragmentManager disk baseDir maxSize maxMessages ttl))).Consistent := by
  have keep (state : Consumption) (action : Int × ConsumerAction)
      (allowed : state.KeepsPassed topic action) (before : ∃ archive, Tracked topic state archive)
      : ∃ archive, Tracked topic (state.step topic action) archive := by
    obtain ⟨archive, tracked⟩ := before
    exact tracked.step allowed
  obtain ⟨archive, tracked⟩ := keeps.invariant keep
    ⟨_, Tracked.start (Refines.new disk baseDir maxSize maxMessages ttl) rfl⟩
  exact tracked.consistent

/-- Two messages a fragment and ten nanoseconds to live. -/
def shortLived : Consumption :=
  .start (.newFragmentManager .empty (lit "data") 1000 2 10)

/-- Three messages, the first two in a fragment that expires, and a fourth one; the consumer
reads at the end, and before the expiry as far as it is told to.
-/
def expiringReads (early : List (Int × ConsumerAction)) : List (Int × ConsumerAction) :=
  [
    (0, .writeMessage (lit "t") 1 [1]),
    (0, .writeMessage (lit "t") 2 [2]),
    (5, .writeMessage (lit "t") 3 [3])
  ] ++ early ++ [
    (12, .cleanupExpiredFragments),
    (12, .writeMessage (lit "t") 4 [4]),
    (12, .readMessages 10)
  ]

/-- A consumer that has read nothing yet misses what expired. -/
theorem consistent_expiringReads
    : AllSteps (Consumption.step (lit "t")) (Consumption.KeepsPassed (lit "t")) shortLived
        (expiringReads [])
      ∧ ((expiringReads []).foldl (Consumption.step (lit "t")) shortLived).Consistent
      ∧ ((expiringReads []).foldl (Consumption.step (lit "t")) shortLived).messages.map
          MessageEntry.messageID
        = [3, 4] := by
  have keeps
      : AllSteps (Consumption.step (lit "t")) (Consumption.KeepsPassed (lit "t")) shortLived
          (expiringReads []) := by
    decide +kernel
  exact ⟨keeps, consistent_of_keepsPassed .empty (lit "data") 1000 2 10 (lit "t") keeps,
    by decide +kernel⟩

/-- A consumer that has read one message finds the fourth where the second was: it misses the
third, whose fragment has not expired.
-/
theorem not_consistent_expiringReads
    : AllSteps (Consumption.step (lit "t")) Consumption.RotatesFresh shortLived
        (expiringReads [(6, .readMessages 1)])
      ∧ ((expiringReads [(6, .readMessages 1)]).foldl (Consumption.step (lit "t"))
          shortLived).messages.map MessageEntry.messageID
        = [1, 4]
      ∧ ¬((expiringReads [(6, .readMessages 1)]).foldl (Consumption.step (lit "t"))
          shortLived).Consistent := by
  refine ⟨by decide +kernel, by decide +kernel, fun consistent => ?_⟩
  have missed := consistent.complete 2 (by decide +kernel) (by decide +kernel)
    (by decide +kernel)
  revert missed
  decide +kernel

end Goulette.Storage
