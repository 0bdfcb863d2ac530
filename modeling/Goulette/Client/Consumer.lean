import Goulette.Broker.Server

/-! The consumer of `client/consumer.go`. The `break` behind a failed `Recv` leaves the `select`
around it and not the loop, and an ended stream answers every further `Recv` with an error.
-/

namespace Goulette.Client

open Goulette.Go Goulette.Storage Goulette.Broker List

/-- Where the consumer is: at the outer `select`, in `WaitForSlot`, before `PullMessage`, in
`restartConsuming`, at the inner `select`, in `Recv`, or out.
-/
inductive ConsumerPhase
  | outer
  | slot
  | pull
  | restart
  | inner
  | recv
  | returned
deriving DecidableEq, Repr

/-- In front of a stream: the outer loop up to `PullMessage`. -/
def ConsumerPhase.outside : ConsumerPhase → Bool
  | .outer | .slot | .pull | .restart => true
  | .inner | .recv | .returned => false

structure PullStream where
  messages : List Message
  ended : Bool
deriving DecidableEq, Repr

/-- `received` lists what was handed to the handler; no code reads it. -/
structure Consumer where
  topic : GoString
  windowSize : Int
  window : Finset UInt64
  stopped : Bool
  phase : ConsumerPhase
  currentOffset : UInt64
  stream : PullStream
  received : List Message

/-- What happens next. An event that does not fit the phase of the consumer changes nothing. -/
inductive ConsumerEvent
  | stopConsuming
  | handled (messageID : UInt64)
  | select
  | waitForSlot
  | opened
  | refused (error : GoError)
  | located (found : Bool)
  | received
  | broken
deriving DecidableEq, Repr

namespace Consumer

def start (topic : GoString) (offset : UInt64) (windowSize : Int) : Consumer where
  topic
  windowSize
  window := ∅
  stopped := false
  phase := .outer
  currentOffset := offset
  stream := { messages := [], ended := false }
  received := []

def request (consumer : Consumer) : PullRequest where
  topic := consumer.topic
  offset := consumer.currentOffset
  batchSize := 10

def openStream (consumer : Consumer) (server : BrokerServer) : PullStream where
  messages :=
    match server.pullMessage consumer.request with
    -- a stream that the broker refuses to fill ends at its first `Recv`
    | .error _ => []
    | .ok messages => messages
  ended := false

/-- A message goes to the window and to its handler, and the offset moves behind it. -/
def handOver (consumer : Consumer) (message : Message) (rest : List Message) : Consumer :=
  { consumer with
    phase := .inner
    window := insert message.messageID consumer.window
    currentOffset := message.offset + 1
    stream := { consumer.stream with messages := rest }
    received := consumer.received ++ [message] }

def failRecv (consumer : Consumer) : Consumer :=
  { consumer with phase := .inner, stream := { consumer.stream with ended := true } }

def step (consumer : Consumer) (server : BrokerServer) : ConsumerEvent → Consumer
  | .stopConsuming => { consumer with stopped := true }
  | .handled messageID => { consumer with window := consumer.window.erase messageID }
  | .select =>
      match consumer.phase with
      | .outer => { consumer with phase := if consumer.stopped then .returned else .slot }
      | .inner => { consumer with phase := if consumer.stopped then .returned else .recv }
      | _ => consumer
  | .waitForSlot =>
      if consumer.phase = .slot ∧ consumer.window.card < consumer.windowSize then
        { consumer with phase := .pull }
      else consumer
  | .opened =>
      if consumer.phase = .pull then
        { consumer with phase := .inner, stream := consumer.openStream server }
      else consumer
  | .refused error =>
      if consumer.phase = .pull then
        { consumer with
          phase := if error = lit "Topic已被移除: " ++ consumer.topic then .restart else .outer }
      else consumer
  | .located found =>
      if consumer.phase = .restart then
        { consumer with phase := if found then .outer else .returned }
      else consumer
  | .received =>
      if consumer.phase = .recv then
        if consumer.stream.ended then consumer.failRecv
        else
          match consumer.stream.messages with
          | [] => consumer.failRecv
          | message :: rest => consumer.handOver message rest
      else consumer
  | .broken => if consumer.phase = .recv then consumer.failRecv else consumer

inductive Rpc
  | pullMessage (offset : UInt64)
  | getTopicLeader
deriving DecidableEq, Repr

def rpc? (consumer : Consumer) : ConsumerEvent → Option Rpc
  | .opened | .refused _ =>
      if consumer.phase = .pull then some (.pullMessage consumer.currentOffset) else none
  | .located _ => if consumer.phase = .restart then some .getTopicLeader else none
  | _ => none

def endsStream (consumer : Consumer) (event : ConsumerEvent) : Bool :=
  consumer.phase = .recv && !consumer.stream.ended
    && (event = .broken || (event = .received && consumer.stream.messages.isEmpty))

end Consumer

abbrev ConsumerRun := Nat → BrokerServer × ConsumerEvent

namespace ConsumerRun

def before (run : ConsumerRun) (first : Consumer) : Nat → Consumer
  | 0 => first
  | n + 1 => (run.before first n).step (run n).1 (run n).2

def rpc? (run : ConsumerRun) (first : Consumer) (n : Nat) : Option Consumer.Rpc :=
  (run.before first n).rpc? (run n).2

def endsStream (run : ConsumerRun) (first : Consumer) (n : Nat) : Bool :=
  (run.before first n).endsStream (run n).2

/-- The first `select` behind a step meets the stop signal. -/
def StoppedAfter (run : ConsumerRun) (first : Consumer) (n : Nat) : Prop :=
  ∃ m, n < m
    ∧ (run m).2 = .select
    ∧ (∀ k, n < k → k < m → (run k).2 ≠ .select)
    ∧ (run.before first m).stopped

/-- The brokers serve a topic whose content grows by appends. -/
structure Serves (run : ConsumerRun) (topic : GoString) (contents : Nat → List MessageEntry)
    : Prop where
  reads
    : ∀ n offset,
        (run n).1.fragmentMgr.readMessages topic offset 10
        = ((contents n).drop offset.toNat).take 10
  grows : ∀ n, contents n <+: contents (n + 1)

/-- After every end of a stream the next call, unless the consumer is stopped first, pulls at the
starting offset plus the number of received messages; and these are the topic's messages from there
on.
-/
structure ReadsOn (run : ConsumerRun) (first : Consumer) (contents : Nat → List MessageEntry)
    : Prop where
  pulls
    : ∀ n, run.endsStream first n
        → run.StoppedAfter first n
          ∨ ∃ m, n < m
            ∧ run.rpc? first m
              = some (.pullMessage
                  (first.currentOffset + UInt64.ofNat (run.before first m).received.length))
            ∧ ∀ k, n < k → k < m → run.rpc? first k = none
  handed
    : ∀ n, (run.before first n).received
        = BrokerServer.sendMessages first.topic first.currentOffset
            (((contents n).drop first.currentOffset.toNat).take
              (run.before first n).received.length)

end ConsumerRun

namespace Consumer

variable {consumer : Consumer} {server : BrokerServer} {event : ConsumerEvent}

/-- The stream has ended, and the consumer does not come back to the outer loop. -/
structure Drained (consumer : Consumer) : Prop where
  ended : consumer.stream.ended = true
  inside : consumer.phase.outside = false

theorem Drained.phase_ne (h : consumer.Drained) {phase : ConsumerPhase} (outside : phase.outside)
    : consumer.phase ≠ phase := by
  rintro rfl
  rw [h.inside] at outside
  cases outside

theorem drained_of_endsStream (ends : consumer.endsStream event = true)
    : (consumer.step server event).Drained := by
  simp only [endsStream, Bool.and_eq_true, Bool.or_eq_true, decide_eq_true_eq] at ends
  obtain ⟨⟨receiving, _⟩, rfl | ⟨rfl, none⟩⟩ := ends
  · rw [step, if_pos receiving]
    exact ⟨rfl, rfl⟩
  · rw [step, if_pos receiving, isEmpty_iff.mp none]
    split
    · exact ⟨rfl, rfl⟩
    · exact ⟨rfl, rfl⟩

/-- No event leads out of the inner loop but the stop signal. -/
theorem Drained.step (h : consumer.Drained) (server : BrokerServer) (event : ConsumerEvent)
    : (consumer.step server event).Drained := by
  cases event with
  | stopConsuming | handled => exact ⟨h.ended, h.inside⟩
  | select =>
      rw [Consumer.step]
      split
      · next here => exact absurd here (h.phase_ne rfl)
      · refine ⟨h.ended, ?_⟩
        cases consumer.stopped with
        | false => rfl
        | true => rfl
      · exact h
  | waitForSlot =>
      rw [Consumer.step, if_neg (fun ready => h.phase_ne rfl ready.1)]
      exact h
  | opened | refused | located =>
      rw [Consumer.step, if_neg (h.phase_ne rfl)]
      exact h
  | received =>
      rw [Consumer.step]
      split
      · rw [if_pos h.ended]
        exact ⟨rfl, rfl⟩
      · exact h
  | broken =>
      rw [Consumer.step]
      split
      · exact ⟨rfl, rfl⟩
      · exact h

theorem Drained.rpc?_eq_none (h : consumer.Drained) (event : ConsumerEvent)
    : consumer.rpc? event = none := by
  cases event with
  | opened | refused | located => exact if_neg (h.phase_ne rfl)
  | _ => rfl

end Consumer

namespace ConsumerRun

section

variable {run : ConsumerRun} {first : Consumer} {n m : Nat}
  (ends : run.endsStream first n = true) (later : n < m)
include ends later

/-- By induction on the steps behind the end of a stream. -/
theorem drained_after_end : (run.before first m).Drained := by
  induction m, later using Nat.le_induction with
  | base => exact Consumer.drained_of_endsStream ends
  | succ m _ ih => exact ih.step (run m).1 (run m).2

/-- After the end of a stream there is no call at all. -/
theorem rpc?_after_end : run.rpc? first m = none :=
  (drained_after_end ends later).rpc?_eq_none (run m).2

/-- No second stream ends. -/
theorem endsStream_after_end : run.endsStream first m = false := by
  have ended := (drained_after_end ends later).ended
  simp only [endsStream, Consumer.endsStream, ended, Bool.not_true, Bool.and_false, Bool.false_and]

end

/-- Only `StopConsuming` gives the signal, by induction on the steps. -/
theorem not_stopped_before {run : ConsumerRun} (never : ∀ n, (run n).2 ≠ .stopConsuming)
    {first : Consumer} (fresh : first.stopped = false) (n : Nat)
    : (run.before first n).stopped = false := by
  induction n with
  | zero => exact fresh
  | succ n ih =>
      have other := never n
      rw [before]
      generalize (run n).2 = event at other ⊢
      cases event with
      | stopConsuming => exact absurd rfl other
      | handled messageID => exact ih
      | select | waitForSlot | opened | refused error | located found | broken =>
          rw [Consumer.step]
          split <;> exact ih
      | received =>
          rw [Consumer.step]
          split
          · split
            · exact ih
            · split <;> exact ih
          · exact ih

end ConsumerRun

section Messages

variable {topic : GoString}

theorem length_sendMessages (topic : GoString) (offset : UInt64) (entries : List MessageEntry)
    : (BrokerServer.sendMessages topic offset entries).length = entries.length := by
  induction entries generalizing offset with
  | nil => rfl
  | cons entry rest ih => rw [BrokerServer.sendMessages, length_cons, ih, length_cons]

theorem take_sendMessages (topic : GoString) (offset : UInt64) (entries : List MessageEntry)
    (count : Nat)
    : (BrokerServer.sendMessages topic offset entries).take count
      = BrokerServer.sendMessages topic offset (entries.take count) := by
  induction entries generalizing offset count with
  | nil => rw [BrokerServer.sendMessages, take_nil, take_nil, BrokerServer.sendMessages]
  | cons entry rest ih =>
      cases count with
      | zero => rfl
      | succ count =>
          rw [BrokerServer.sendMessages, take_succ_cons, ih, take_succ_cons,
            BrokerServer.sendMessages]

theorem offset_of_split {offset : UInt64} {entries : List MessageEntry} {front back : List Message}
    {message : Message}
    (split : front ++ message :: back = BrokerServer.sendMessages topic offset entries)
    : message.offset = offset + UInt64.ofNat front.length := by
  induction front generalizing offset entries with
  | nil =>
      cases entries with
      | nil => cases split
      | cons entry rest =>
          obtain ⟨rfl, _⟩ := List.cons.inj split
          exact (UInt64.add_zero offset).symm
  | cons other front ih =>
      cases entries with
      | nil => cases split
      | cons entry rest =>
          obtain ⟨_, later⟩ := List.cons.inj split
          rw [ih later, length_cons, Nat.add_comm, UInt64.ofNat_add, ← UInt64.add_assoc]
          rfl

end Messages

namespace Consumer

/-- Before the first stream nothing has been received; then the received messages and those to come
are a part of the topic's content from the starting offset on.
-/
structure Reading (first : Consumer) (content : List MessageEntry) (consumer : Consumer)
    : Prop where
  topic : consumer.topic = first.topic
  offset
    : consumer.currentOffset = first.currentOffset + UInt64.ofNat consumer.received.length
  batch
    : ∃ batch, batch <+: content.drop first.currentOffset.toNat
        ∧ batch.length ≤ 10
        ∧ consumer.received ++ consumer.stream.messages
          = BrokerServer.sendMessages first.topic first.currentOffset batch
  none : consumer.phase.outside = true → consumer.received = []

namespace Reading

variable {first consumer : Consumer} {content : List MessageEntry} {server : BrokerServer}

theorem start (topic : GoString) (offset : UInt64) (windowSize : Int) (content : List MessageEntry)
    : Reading (.start topic offset windowSize) content (.start topic offset windowSize) where
  topic := rfl
  offset := (UInt64.add_zero offset).symm
  batch := ⟨[], nil_prefix, Nat.zero_le _, rfl⟩
  none := fun _ => rfl

section

variable (h : Reading first content consumer)
include h

theorem grow {more : List MessageEntry} (grows : content <+: more)
    : Reading first more consumer where
  topic := h.topic
  offset := h.offset
  batch := by
    obtain ⟨batch, part, few, sent⟩ := h.batch
    exact ⟨batch, part.trans (grows.drop _), few, sent⟩
  none := h.none

theorem move {phase : ConsumerPhase} (same : phase.outside = true → consumer.phase.outside = true)
    : Reading first content { consumer with phase } where
  topic := h.topic
  offset := h.offset
  batch := h.batch
  none := fun outside => h.none (same outside)

/-- A stream is opened while nothing has been received. -/
theorem openStream (pulling : consumer.phase = .pull)
    (reads
      : server.fragmentMgr.readMessages first.topic first.currentOffset 10
        = (content.drop first.currentOffset.toNat).take 10)
    : Reading first content
        { consumer with phase := .inner, stream := consumer.openStream server } where
  topic := h.topic
  offset := h.offset
  batch := by
    have nothing := h.none (pulling ▸ rfl)
    have start : consumer.currentOffset = first.currentOffset := by
      rw [h.offset, nothing]
      exact UInt64.add_zero _
    simp only [nothing, nil_append, Consumer.openStream, BrokerServer.pullMessage, request,
      h.topic, start]
    split
    · exact ⟨[], nil_prefix, Nat.zero_le _, rfl⟩
    · next messages answered =>
        split at answered
        · cases answered
        · split at answered
          · cases answered
          · cases answered
            exact ⟨_, take_prefix 10 _, length_take_le 10 _, congrArg _ reads⟩
  none := nofun

theorem handOver {message : Message} {rest : List Message}
    (next : consumer.stream.messages = message :: rest)
    : Reading first content (consumer.handOver message rest) where
  topic := h.topic
  offset := by
    obtain ⟨batch, _, _, sent⟩ := h.batch
    rw [next] at sent
    simp only [Consumer.handOver, offset_of_split sent, length_append, length_singleton,
      UInt64.ofNat_add, UInt64.add_assoc]
    rfl
  batch := by
    obtain ⟨batch, part, few, sent⟩ := h.batch
    refine ⟨batch, part, few, ?_⟩
    rw [← sent, next]
    simp [Consumer.handOver]
  none := nofun

theorem failRecv
    : Reading first content consumer.failRecv where
  topic := h.topic
  offset := h.offset
  batch := h.batch
  none := nofun

theorem step
    (reads
      : server.fragmentMgr.readMessages first.topic first.currentOffset 10
        = (content.drop first.currentOffset.toNat).take 10)
    (event : ConsumerEvent)
    : Reading first content (consumer.step server event) := by
  cases event with
  | stopConsuming | handled => exact ⟨h.topic, h.offset, h.batch, h.none⟩
  | select =>
      rw [Consumer.step]
      split
      · next here => exact h.move (fun _ => here ▸ rfl)
      · refine h.move (fun outside => ?_)
        cases stopped : consumer.stopped with
        | false | true => simp [stopped, ConsumerPhase.outside] at outside
      · exact h
  | waitForSlot =>
      rw [Consumer.step]
      split
      · next ready => exact h.move (fun _ => ready.1 ▸ rfl)
      · exact h
  | opened =>
      rw [Consumer.step]
      split
      · next pulling => exact h.openStream pulling reads
      · exact h
  | refused error =>
      rw [Consumer.step]
      split
      · next pulling => exact h.move (fun _ => pulling ▸ rfl)
      · exact h
  | located found =>
      rw [Consumer.step]
      split
      · next restarting => exact h.move (fun _ => restarting ▸ rfl)
      · exact h
  | received =>
      rw [Consumer.step]
      split
      · split
        · exact h.failRecv
        · split
          · exact h.failRecv
          · next next => exact h.handOver next
      · exact h
  | broken =>
      rw [Consumer.step]
      split
      · exact h.failRecv
      · exact h

end

theorem length_received_le {batch : List MessageEntry}
    (sent
      : consumer.received ++ consumer.stream.messages
        = BrokerServer.sendMessages first.topic first.currentOffset batch)
    : consumer.received.length ≤ batch.length := by
  have lengths := congrArg List.length sent
  rw [length_sendMessages, length_append] at lengths
  omega

/-- There is no second batch. -/
theorem length_received_le_ten (h : Reading first content consumer)
    : consumer.received.length ≤ 10 := by
  obtain ⟨batch, _, few, sent⟩ := h.batch
  exact (length_received_le sent).trans few

theorem received_eq (h : Reading first content consumer)
    : consumer.received
      = BrokerServer.sendMessages first.topic first.currentOffset
          ((content.drop first.currentOffset.toNat).take consumer.received.length) := by
  obtain ⟨batch, ⟨rest, split⟩, _, sent⟩ := h.batch
  rw [← split, take_append_of_le_length (length_received_le sent), ← take_sendMessages, ← sent,
    take_left]

end Reading

end Consumer

namespace ConsumerRun

variable {run : ConsumerRun} {topic : GoString} {contents : Nat → List MessageEntry}

theorem reading (serves : run.Serves topic contents) (offset : UInt64) (windowSize : Int) (n : Nat)
    : Consumer.Reading (.start topic offset windowSize) (contents n)
        (run.before (.start topic offset windowSize) n) := by
  induction n with
  | zero => exact .start topic offset windowSize (contents 0)
  | succ n ih => exact (ih.step (serves.reads n offset) (run n).2).grow (serves.grows n)

/-- The consumer reads on exactly if it is stopped behind every end of a stream. -/
theorem readsOn_iff (serves : run.Serves topic contents) (offset : UInt64) (windowSize : Int)
    : run.ReadsOn (.start topic offset windowSize) contents
      ↔ ∀ n, run.endsStream (.start topic offset windowSize) n
          → run.StoppedAfter (.start topic offset windowSize) n := by
  constructor
  · intro reads n ends
    rcases reads.pulls n ends with stopped | ⟨m, later, pull, _⟩
    · exact stopped
    · rw [rpc?_after_end ends later] at pull
      cases pull
  · intro stopped
    exact ⟨fun n ends => Or.inl (stopped n ends),
      fun n => (reading serves offset windowSize n).received_eq⟩

theorem Serves.of_appendOnly (disk : FileStore.Disk GoString) (baseDir : GoString)
    (maxSize maxMessages ttl : Int) {history : Nat → List (Int × FragmentCall)}
    (stored
      : ∀ n, (run n).1.fragmentMgr
          = (history n).foldl FragmentManager.step
              (.newFragmentManager disk baseDir maxSize maxMessages ttl))
    (grows : ∀ n, history n <+: history (n + 1))
    (appendOnly : ∀ n, ∀ call ∈ history n, call.2.AppendOnly)
    (few : ∀ n, (writesTo topic (history n)).length ≤ 2 ^ 63)
    : run.Serves topic
        (fun n => ((history n).foldl Archive.step (.empty maxSize maxMessages ttl)).written
          topic) where
  reads := by
    intro n offset
    have refines := Refines.appendOnly disk baseDir maxSize maxMessages ttl (appendOnly n)
    have room := few n
    rw [← written_empty maxSize maxMessages ttl (appendOnly n) topic, length_map] at room
    rw [stored, refines.readMessages topic room offset (by decide)]
    rfl
  grows := by
    intro n
    obtain ⟨more, split⟩ := grows n
    have later : ∀ call ∈ more, call.2.AppendOnly := fun call member =>
      appendOnly (n + 1) call (split ▸ mem_append_right _ member)
    obtain ⟨added, all, _⟩ := written_run ((history n).foldl Archive.step _) later topic
    simp only [← split, foldl_append]
    exact ⟨added, all.symm⟩

def elevenWrites : List (Int × FragmentCall) :=
  (List.range 11).map (fun i => (0, .writeMessage (lit "t") (UInt64.ofNat i) [7]))

def elevenServer : BrokerServer :=
  { (BrokerServer.fresh (lit "b") (lit "data") .empty [] 0).setTopicRole (lit "t") .leader []
      (lit "b:1") with
    fragmentMgr := elevenWrites.foldl FragmentManager.step
      (.newFragmentManager .empty (lit "data") 1000 100 0) }

def elevenContents : List MessageEntry :=
  (elevenWrites.foldl Archive.step (.empty 1000 100 0)).written (lit "t")

/-- A consumer that pulls, and then receives again and again; it may be stopped at some step. -/
def pullOnce (stop : Option Nat) : ConsumerRun := fun n =>
  (elevenServer,
    if stop = some n then .stopConsuming
    else if n = 0 then .select
    else if n = 1 then .waitForSlot
    else if n = 2 then .opened
    else if n % 2 = 1 then .select
    else .received)

theorem serves_pullOnce (stop : Option Nat)
    : (pullOnce stop).Serves (lit "t") (fun _ => elevenContents) :=
  @Serves.of_appendOnly (pullOnce stop) (lit "t") .empty (lit "data") 1000 100 0
    (fun _ => elevenWrites) (fun _ => rfl) (fun _ => prefix_rfl) (fun _ => by decide +kernel)
    (fun _ => by decide +kernel)

/-- The stop signal is there when the consumer comes back to its `select`. -/
theorem stoppedAfter_pullOnce : (pullOnce (some 25)).StoppedAfter (.start (lit "t") 0 100) 24 := by
  refine ⟨27, by decide, rfl, fun k after before => ?_, by decide +kernel⟩
  obtain rfl | rfl : k = 25 ∨ k = 26 := by omega
  · decide
  · decide

theorem readsOn_pullOnce
    : (pullOnce (some 25)).endsStream (.start (lit "t") 0 100) 24 = true
      ∧ (pullOnce (some 25)).ReadsOn (.start (lit "t") 0 100) (fun _ => elevenContents) := by
  have ends : (pullOnce (some 25)).endsStream (.start (lit "t") 0 100) 24 = true := by
    decide +kernel
  have none : ∀ n < 24, (pullOnce (some 25)).endsStream (.start (lit "t") 0 100) n = false := by
    decide +kernel
  refine ⟨ends, (readsOn_iff (serves_pullOnce (some 25)) 0 100).mpr (fun n again => ?_)⟩
  rcases Nat.lt_trichotomy n 24 with early | rfl | late
  · exact absurd ((none n early).symm.trans again) Bool.false_ne_true
  · exact stoppedAfter_pullOnce
  · exact absurd ((endsStream_after_end ends late).symm.trans again) Bool.false_ne_true

/-- The stream of ten messages ends, and the eleventh is never asked for. -/
theorem not_readsOn_pullOnce
    : elevenContents.length = 11
      ∧ (pullOnce none).endsStream (.start (lit "t") 0 100) 24 = true
      ∧ (∀ n, ((pullOnce none).before (.start (lit "t") 0 100) n).received.length ≤ 10)
      ∧ ¬(pullOnce none).ReadsOn (.start (lit "t") 0 100) (fun _ => elevenContents) := by
  have ends : (pullOnce none).endsStream (.start (lit "t") 0 100) 24 = true := by decide +kernel
  refine ⟨by decide +kernel, ends,
    fun n => (reading (serves_pullOnce none) 0 100 n).length_received_le_ten, fun reads => ?_⟩
  rcases reads.pulls 24 ends with ⟨m, _, _, _, stopped⟩ | ⟨m, later, pull, _⟩
  · have never (n : Nat) : (pullOnce none n).2 ≠ .stopConsuming := by
      simp only [pullOnce, reduceCtorEq, if_false]
      split_ifs <;> decide
    rw [not_stopped_before never rfl] at stopped
    cases stopped
  · rw [rpc?_after_end ends later] at pull
    cases pull

end ConsumerRun

end Goulette.Client
