import Goulette.Storage.FragmentRuns

/-! Concurrent calls of `WriteMessage` and `CreateFragment`. A write looks at the topic's list, may
create a fragment, and appends to the fragment it holds; each of these is one step.
-/

namespace Goulette.Storage

open Goulette.Go ByteFrames FileStore Runs List

variable {i : Nat} {payload : Bytes} {fm : FragmentManager} {archive : Archive}

/-- The part of `WriteMessage` under the lock of the fragment it holds. Fragments are only added
behind the others, so that a place in the topic's list stands for the pointer.
-/
def FragmentManager.appendAt (fm : FragmentManager) (now : Int) (topic : GoString) (index : Nat)
    (messageID : UInt64) (payload : Bytes)
    : FragmentManager :=
  match (fm.listed topic)[index]? with
  | none => fm
  | some fragment =>
      let entry := newEntry now messageID payload
      let written := fm.disk.write fragment.file entry.encode
      { fm with
        fragments :=
          fm.fragments.insert topic
            ((fm.listed topic).set index
              { fragment with
                size := fragment.size + (8 + 8 + 4 + payload.length)
                messageCount := fragment.messageCount + 1
                file := written.2 })
        disk := written.1 }

inductive WriterCall
  | createFragment (topic : GoString)
  | writeMessage (topic : GoString) (messageID : UInt64) (payload : Bytes)
deriving DecidableEq, Repr

/-- How far a call has come: it is about to look at the list, about to create a fragment, about
to append to the fragment at a place of the list, or it has returned.
-/
inductive Phase
  | called
  | opening
  | holding (index : Nat)
  | returned
deriving DecidableEq, Repr

structure Writer where
  call : WriterCall
  phase : Phase
deriving DecidableEq, Repr

/-- The next step of a call at a time of the clock. -/
def Writer.advance (fm : FragmentManager) (now : Int) (writer : Writer)
    : FragmentManager × Writer :=
  match writer.call, writer.phase with
  | _, .returned => (fm, writer)
  | .createFragment topic, _ =>
      ((fm.createFragment now topic).1, { writer with phase := .returned })
  | .writeMessage topic _ _, .called =>
      (fm,
        { writer with
          phase :=
            if fm.needsFragment topic then .opening
            else .holding ((fm.listed topic).length - 1) })
  | .writeMessage topic _ _, .opening =>
      ((fm.createFragment now topic).1,
        { writer with phase := .holding (fm.listed topic).length })
  | .writeMessage topic messageID payload, .holding index =>
      (fm.appendAt now topic index messageID payload, { writer with phase := .returned })

structure WriterPool where
  fm : FragmentManager
  writers : List Writer

namespace WriterPool

def start (fm : FragmentManager) (calls : List WriterCall) : WriterPool :=
  { fm, writers := calls.map (fun call => { call, phase := .called }) }

def step (pool : WriterPool) (turn : Int × Nat) : WriterPool :=
  match pool.writers[turn.2]? with
  | none => pool
  | some writer =>
      { fm := (writer.advance pool.fm turn.1).1
        writers := pool.writers.set turn.2 (writer.advance pool.fm turn.1).2 }

end WriterPool

def WriterCall.message (topic : GoString) : WriterCall → Option (UInt64 × Bytes)
  | .createFragment _ => none
  | .writeMessage written messageID payload =>
      if written = topic then some (messageID, payload) else none

def WriterCall.Plain : WriterCall → Prop
  | .createFragment topic => PlainName topic
  | .writeMessage topic _ payload => PlainName topic ∧ payload.length < 2 ^ 32

instance : DecidablePred WriterCall.Plain := fun call => by
  unfold WriterCall.Plain
  split <;> infer_instance

/-- A call that makes its three steps in a row is a call of the sequential store. -/
theorem writeMessage_eq_appendAt (fm : FragmentManager) (now : Int) (topic : GoString)
    (messageID : UInt64) (payload : Bytes)
    : fm.writeMessage now topic messageID payload
      = (fm.getCurrentFragment now topic).1.appendAt now topic
          (((fm.getCurrentFragment now topic).1.listed topic).length - 1) messageID payload := by
  obtain ⟨before, last⟩ := fm.getCurrentFragment_last now topic
  simp [FragmentManager.writeMessage, FragmentManager.appendAt, last, newEntry]

/-- A list around the element at a place. -/
theorem split_at {A : Type} {items : List A} {item : A} (found : items[i]? = some item)
    : ∃ front back,
        items = front ++ item :: back
        ∧ front.length = i
        ∧ ∀ other, items.set i other = front ++ other :: back := by
  obtain ⟨inside, rfl⟩ := List.getElem?_eq_some_iff.mp found
  refine ⟨items.take i, items.drop (i + 1), ?_, ?_, ?_⟩
  · rw [← drop_eq_getElem_cons inside, take_append_drop]
  · rw [length_take]
    omega
  · exact fun other => set_eq_take_append_cons_drop.trans (if_pos inside)

section Append

variable {fm : FragmentManager} {archive : Archive} {topic : GoString} {index : Nat}
  {fragment : Fragment}

theorem appendAt_listed (found : (fm.listed topic)[index]? = some fragment) (now : Int)
    (messageID : UInt64) (payload : Bytes)
    : (fm.appendAt now topic index messageID payload).listed
      = Function.update fm.listed topic
          ((fm.listed topic).set index
            { fragment with
              size := fragment.size + (8 + 8 + 4 + payload.length)
              messageCount := fragment.messageCount + 1
              file :=
                (fm.disk.write fragment.file (newEntry now messageID payload).encode).2 }) := by
  apply FragmentManager.listed_of_insert
  simp only [FragmentManager.appendAt, found]

theorem Refines.appendAt (h : Refines fm archive)
    (found : (fm.listed topic)[index]? = some fragment) (now : Int) (messageID : UInt64)
    (small : payload.length < 2 ^ 32)
    : Refines (fm.appendAt now topic index messageID payload)
        (archive.pushAt topic index (newEntry now messageID payload)) := by
  obtain ⟨before, after, split, rfl, set⟩ := split_at found
  refine h.pushAt split (newEntry_valid now messageID small) ?_ ?_ ?_
  · simp only [FragmentManager.appendAt, found, set]
    rfl
  · simp only [FragmentManager.appendAt, found]
  · simp only [FragmentManager.appendAt, found]
    exact ⟨rfl, rfl, rfl, rfl⟩

theorem flatMap_messages_eq_nil {fragments : List Fragment} {buckets : List Bucket}
    (held : List.Forall₂ (FragmentHolds fm topic) fragments buckets)
    (empty : ∀ fragment ∈ fragments, fragment.messageCount = 0)
    : buckets.flatMap Bucket.messages = [] := by
  induction held with
  | nil => rfl
  | cons holds _ ih =>
      have count := holds.messageCount
      rw [empty _ mem_cons_self] at count
      have nothing := eq_nil_of_length_eq_zero (Int.natCast_eq_zero.mp count.symm)
      rw [flatMap_cons, nothing, nil_append]
      exact ih (fun later member => empty later (mem_cons_of_mem _ member))

/-- An append puts its message between the readable ones, and behind them all if the fragments
behind are empty.
-/
theorem Refines.written_pushAt (h : Refines fm archive)
    (found : (fm.listed topic)[index]? = some fragment) (entry : MessageEntry)
    : ∃ front back,
        archive.written topic = front ++ back
        ∧ (archive.pushAt topic index entry).written topic = front ++ entry :: back
        ∧ ((∀ later ∈ (fm.listed topic).drop (index + 1), later.messageCount = 0)
          → back = []) := by
  obtain ⟨before, after, split, rfl, _⟩ := split_at found
  have held := h.held topic
  rw [split] at held
  obtain ⟨front, bucket, back, buckets, length, _, _, late⟩ := forall₂_middle held
  obtain ⟨whole, pushed⟩ := archive.written_pushAt buckets entry
  rw [length] at pushed
  refine ⟨_, _, whole, pushed, ?_⟩
  intro empty
  have behind : (fm.listed topic).drop (before.length + 1) = after := by
    rw [split, drop_length_add_append, drop_one, tail_cons]
  rw [behind] at empty
  exact flatMap_messages_eq_nil late empty

theorem Numbered.appendAt (h : Numbered fm)
    (found : (fm.listed topic)[index]? = some fragment) (now : Int) (messageID : UInt64)
    (payload : Bytes)
    : Numbered (fm.appendAt now topic index messageID payload) := by
  obtain ⟨before, after, split, rfl, set⟩ := split_at found
  have numbered := h.numbered topic
  have path := h.path topic
  have plain := h.plain topic (by rw [split]; simp)
  have listed := appendAt_listed found now messageID payload
  rw [set] at listed
  rw [split] at numbered path
  refine h.update ?_ listed ?_ ?_ (fun _ => plain)
  · simp only [FragmentManager.appendAt, found]
  · simpa using numbered
  · intro other member
    rcases mem_append.mp member with old | new
    · exact path other (mem_append_left _ old)
    · rcases mem_cons.mp new with rfl | new
      · exact path fragment (mem_append_right _ mem_cons_self)
      · exact path other (mem_append_right _ (mem_cons_of_mem _ new))

end Append

def Writer.stored (topic : GoString) (writer : Writer) : Option (UInt64 × Bytes) :=
  if writer.phase = .returned then writer.call.message topic else none

def Writer.Holding (fm : FragmentManager) (writer : Writer) : Prop :=
  match writer.call, writer.phase with
  | .writeMessage topic _ _, .holding index => index < (fm.listed topic).length
  | _, _ => True

/-- Where a call appends, the fragments behind hold no message. -/
def Writer.AppendsLast (fm : FragmentManager) (writer : Writer) : Prop :=
  match writer.call, writer.phase with
  | .writeMessage topic _ _, .holding index =>
      ∀ fragment ∈ (fm.listed topic).drop (index + 1), fragment.messageCount = 0
  | _, _ => True

instance (fm : FragmentManager) : DecidablePred (Writer.AppendsLast fm) := fun value => by
  unfold Writer.AppendsLast
  split <;> infer_instance

namespace WriterPool

def AppendsLast (pool : WriterPool) (turn : Int × Nat) : Prop :=
  ∀ writer ∈ pool.writers[turn.2]?, writer.AppendsLast pool.fm

instance (pool : WriterPool) : DecidablePred pool.AppendsLast := fun _ =>
  inferInstanceAs (Decidable (∀ writer ∈ _, _))

/-- The store holds the messages of the calls that have returned, each once. -/
structure Sound (pool : WriterPool) (archive : Archive) : Prop where
  numbered : Numbered pool.fm
  refines : Refines pool.fm archive
  plain : ∀ writer ∈ pool.writers, writer.call.Plain
  holding : ∀ writer ∈ pool.writers, writer.Holding pool.fm
  stored
    : ∀ topic,
        ((archive.written topic).map MessageEntry.pair).Perm
          (pool.writers.filterMap (Writer.stored topic))

namespace Sound

variable {pool : WriterPool} {archive : Archive}

theorem start (disk : Disk GoString) (baseDir : GoString) (maxSize maxMessages ttl : Int)
    {calls : List WriterCall} (plain : ∀ call ∈ calls, call.Plain)
    : Sound (.start (.newFragmentManager disk baseDir maxSize maxMessages ttl) calls)
        (.empty maxSize maxMessages ttl) where
  numbered := Numbered.new disk baseDir maxSize maxMessages ttl
  refines := Refines.new disk baseDir maxSize maxMessages ttl
  plain := by
    intro writer member
    obtain ⟨call, called, rfl⟩ := mem_map.mp member
    exact plain call called
  holding := by
    intro writer member
    obtain ⟨call, _, rfl⟩ := mem_map.mp member
    cases call <;> trivial
  stored := by
    intro topic
    have none
        : calls.filterMap (Writer.stored topic ∘ fun call => { call, phase := .called }) = [] :=
      filterMap_eq_nil_iff.mpr (fun _ _ => rfl)
    rw [WriterPool.start, filterMap_map, none]
    exact .nil

variable {writer : Writer}

/-- A call keeps its fragment as long as no list gets shorter. -/
theorem holding_mono {next : FragmentManager} (h : writer.Holding fm)
    (grows : ∀ topic, (fm.listed topic).length ≤ (next.listed topic).length)
    : writer.Holding next := by
  obtain ⟨call, phase⟩ := writer
  cases call with
  | createFragment topic => trivial
  | writeMessage topic messageID payload =>
      cases phase with
      | holding index => exact Nat.lt_of_lt_of_le h (grows topic)
      | _ => trivial

variable {next : Writer}

section

variable (h : Sound pool archive) (found : pool.writers[i]? = some writer)
include h found

/-- A step of one call, seen from the pool: the store has grown, and the message of the call
has been stored if the call returns with it.
-/
theorem advance {grown : Archive} (numbered : Numbered fm) (refines : Refines fm grown)
    (grows : ∀ topic, (pool.fm.listed topic).length ≤ (fm.listed topic).length)
    (call : next.call = writer.call) (holding : next.Holding fm)
    (stored
      : ∀ topic,
          ((grown.written topic).map MessageEntry.pair).Perm
            ((archive.written topic).map MessageEntry.pair ++ (next.stored topic).toList))
    (unstored : ∀ topic, writer.stored topic = none)
    : Sound { fm, writers := pool.writers.set i next } grown where
  numbered := numbered
  refines := refines
  plain := by
    intro other member
    rcases mem_or_eq_of_mem_set member with old | rfl
    · exact h.plain other old
    · rw [call]
      exact h.plain writer (mem_of_getElem? found)
  holding := by
    intro other member
    rcases mem_or_eq_of_mem_set member with old | rfl
    · exact holding_mono (h.holding other old) grows
    · exact holding
  stored := by
    intro topic
    obtain ⟨front, back, split, _, set⟩ := split_at found
    -- the writer had stored nothing yet, so only its new state adds to the messages
    have before := h.stored topic
    rw [split, filterMap_append, filterMap_cons_none (unstored topic)] at before
    have after
        : (front ++ next :: back).filterMap (Writer.stored topic)
          = front.filterMap (Writer.stored topic)
            ++ ((next.stored topic).toList ++ back.filterMap (Writer.stored topic)) := by
      rw [filterMap_append, filterMap_cons]
      cases next.stored topic <;> rfl
    rw [set, after]
    refine (stored topic).trans ((before.append_right _).trans ?_)
    rw [append_assoc]
    exact perm_append_comm.append_left _

/-- A call that has returned does nothing. -/
theorem idle
    : Sound { fm := pool.fm, writers := pool.writers.set i writer } archive := by
  obtain ⟨front, back, split, _, set⟩ := split_at found
  rw [set, ← split]
  exact h

theorem look (call : next.call = writer.call) (holding : next.Holding pool.fm)
    (unstored : ∀ topic, writer.stored topic = none) (nothing : ∀ topic, next.stored topic = none)
    : Sound { fm := pool.fm, writers := pool.writers.set i next } archive := by
  refine h.advance found h.numbered h.refines (fun _ => le_rfl) call holding ?_ unstored
  intro topic
  rw [nothing, Option.toList_none, append_nil]

theorem create {topic : GoString} (plain : PlainName topic) (now : Int)
    (call : next.call = writer.call) (holding : next.Holding (pool.fm.createFragment now topic).1)
    (unstored : ∀ topic, writer.stored topic = none) (nothing : ∀ topic, next.stored topic = none)
    : Sound
        { fm := (pool.fm.createFragment now topic).1, writers := pool.writers.set i next }
        (archive.create now topic) := by
  refine h.advance found (h.numbered.createFragment plain now)
    (h.refines.createFragment (h.numbered.freshPath plain) now) ?_ call holding ?_ unstored
  · intro other
    rw [pool.fm.createFragment_listed]
    by_cases here : other = topic
    · subst here
      simp
    · rw [Function.update_of_ne here]
  · intro other
    rw [archive.written_create, nothing, Option.toList_none, append_nil]

end

section Append

variable {i index : Nat} {topic : GoString} {messageID : UInt64} {payload : Bytes}
  (h : Sound pool archive)
  (found : pool.writers[i]? = some ⟨.writeMessage topic messageID payload, .holding index⟩)
include h found

/-- An append adds its message once to its topic. -/
theorem append (now : Int)
    : Sound
        { fm := pool.fm.appendAt now topic index messageID payload
          writers := pool.writers.set i ⟨.writeMessage topic messageID payload, .returned⟩ }
        (archive.pushAt topic index (newEntry now messageID payload)) := by
  have member := mem_of_getElem? found
  have held := List.getElem?_eq_getElem (h.holding _ member)
  refine h.advance found (h.numbered.appendAt held now messageID payload)
    (h.refines.appendAt held now messageID (h.plain _ member).2) ?_ rfl trivial ?_ (fun _ => rfl)
  · intro other
    rw [appendAt_listed held]
    by_cases here : other = topic
    · subst here
      simp
    · rw [Function.update_of_ne here]
  · intro other
    by_cases here : other = topic
    · subst here
      obtain ⟨front, back, whole, pushed, _⟩ :=
        h.refines.written_pushAt held (newEntry now messageID payload)
      have own
          : (Writer.stored other ⟨.writeMessage other messageID payload, .returned⟩).toList
            = [(newEntry now messageID payload).pair] := by
        simp [Writer.stored, WriterCall.message, MessageEntry.pair, newEntry]
      rw [pushed, whole, own, map_append, map_append, map_cons, append_assoc]
      exact (perm_append_singleton _ _).symm.append_left _
    · rw [Archive.pushAt, archive.written_set_of_ne here]
      simp [Writer.stored, WriterCall.message, Ne.symm here]

/-- Where the fragments behind are empty, what could be read before comes first. -/
theorem append_extends
    (behind : ∀ later ∈ (pool.fm.listed topic).drop (index + 1), later.messageCount = 0) (now : Int)
    (other : GoString)
    : archive.written other
      <+: (archive.pushAt topic index (newEntry now messageID payload)).written other := by
  have held := List.getElem?_eq_getElem (h.holding _ (mem_of_getElem? found))
  by_cases here : other = topic
  · subst here
    obtain ⟨front, back, whole, pushed, empty⟩ :=
      h.refines.written_pushAt held (newEntry now messageID payload)
    rw [pushed, whole, empty behind, append_nil]
    exact prefix_append front _
  · rw [Archive.pushAt, archive.written_set_of_ne here]

end Append

/-- A call that needs no new fragment finds the topic's last one. -/
theorem holding_called (fm : FragmentManager) (topic : GoString) (messageID : UInt64)
    (payload : Bytes)
    : Writer.Holding fm
        ⟨.writeMessage topic messageID payload,
          if fm.needsFragment topic then .opening
          else .holding ((fm.listed topic).length - 1)⟩ := by
  cases needs : fm.needsFragment topic with
  | true => trivial
  | false =>
      have listed : fm.listed topic ≠ [] := by
        intro none
        simp [FragmentManager.needsFragment, none] at needs
      exact Nat.sub_lt (length_pos_of_ne_nil listed) Nat.one_pos

/-- A step keeps the pool sound. What could be read before stays in front if the call appends
behind all messages.
-/
theorem step (h : Sound pool archive) (turn : Int × Nat)
    : ∃ grown,
        Sound (pool.step turn) grown
        ∧ (pool.AppendsLast turn → ∀ topic, archive.written topic <+: grown.written topic) := by
  obtain ⟨now, i⟩ := turn
  cases found : pool.writers[i]? with
  | none =>
      rw [WriterPool.step, found]
      exact ⟨archive, h, fun _ topic => prefix_rfl⟩
  | some writer =>
      have member := mem_of_getElem? found
      obtain ⟨call, phase⟩ := writer
      have plain := h.plain _ member
      have created (topic other : GoString)
          : archive.written other <+: (archive.create now topic).written other := by
        rw [archive.written_create]
      simp only [WriterPool.step, found, WriterPool.AppendsLast, Option.mem_some_iff,
        forall_eq']
      cases call with
      | createFragment topic =>
          cases phase with
          | returned => exact ⟨archive, h.idle found, fun _ topic => prefix_rfl⟩
          | _ =>
              exact ⟨_, h.create found plain now rfl trivial (fun _ => rfl) (fun _ => rfl),
                fun _ => created topic⟩
      | writeMessage topic messageID payload =>
          cases phase with
          | returned => exact ⟨archive, h.idle found, fun _ topic => prefix_rfl⟩
          | called =>
              refine ⟨archive, h.look found rfl ?_ (fun _ => rfl) ?_, fun _ _ => prefix_rfl⟩
              · exact holding_called pool.fm topic messageID payload
              · intro other
                simp only [Writer.advance, Writer.stored]
                split <;> simp_all
          | opening =>
              -- the new fragment is the one the call holds from here on
              refine ⟨_, h.create found plain.1 now rfl ?_ (fun _ => rfl) (fun _ => rfl),
                fun _ => created topic⟩
              simp [Writer.advance, Writer.Holding, pool.fm.createFragment_listed]
          | holding index =>
              exact ⟨_, h.append found now, fun last => h.append_extends found last now⟩

end Sound

end WriterPool

def Extends (earlier later : FragmentManager) : Prop :=
  ∀ topic limit, earlier.readMessages topic 0 limit <+: later.readMessages topic 0 limit

theorem Refines.reads_extend {next : FragmentManager} {grown : Archive}
    (before : Refines fm archive) (after : Refines next grown)
    (longer : ∀ topic, archive.written topic <+: grown.written topic)
    : Extends fm next := by
  intro topic limit
  rw [before.readMessages_window, after.readMessages_window]
  exact ((longer topic).take _).drop _

namespace WriterPool

/-- The states visited so far: each extends those before it. -/
def Growing (pool : WriterPool) (past : List WriterPool) : Prop :=
  (∃ archive, Sound pool archive)
  ∧ past.Pairwise (fun earlier later => Extends earlier.fm later.fm)
  ∧ ∀ earlier ∈ past, Extends earlier.fm pool.fm

theorem Growing.step {pool : WriterPool} {past : List WriterPool} {turn : Int × Nat}
    (h : Growing pool past) (last : pool.AppendsLast turn)
    : Growing (pool.step turn) (past ++ [pool.step turn]) := by
  obtain ⟨⟨archive, sound⟩, ordered, below⟩ := h
  obtain ⟨grown, next, longer⟩ := sound.step turn
  have one : Extends pool.fm (pool.step turn).fm :=
    sound.refines.reads_extend next.refines (longer last)
  have all (earlier : WriterPool) (member : earlier ∈ past)
      : Extends earlier.fm (pool.step turn).fm :=
    fun topic limit => (below earlier member topic limit).trans (one topic limit)
  refine ⟨⟨grown, next⟩, ?_, ?_⟩
  · exact pairwise_append.mpr ⟨ordered, pairwise_singleton ..,
      fun earlier member => forall_mem_singleton.mpr (all earlier member)⟩
  · exact forall_mem_append.mpr ⟨all, forall_mem_singleton.mpr (fun _ _ => prefix_rfl)⟩

theorem step_calls (pool : WriterPool) (turn : Int × Nat)
    : (pool.step turn).writers.map Writer.call = pool.writers.map Writer.call := by
  unfold WriterPool.step
  cases found : pool.writers[turn.2]? with
  | none => rfl
  | some writer =>
      obtain ⟨front, back, split, _, set⟩ := split_at found
      have same : (writer.advance pool.fm turn.1).2.call = writer.call := by
        unfold Writer.advance
        split <;> rfl
      change (pool.writers.set turn.2 _).map Writer.call = _
      rw [set, split, map_append, map_append, map_cons, map_cons, same]

theorem run_calls (fm : FragmentManager) (calls : List WriterCall) (turns : List (Int × Nat))
    : (turns.foldl step (start fm calls)).writers.map Writer.call = calls := by
  have begin : (start fm calls).writers.map Writer.call = calls := by
    rw [start, map_map]
    exact map_id calls
  refine List.foldlRecOn (motive := fun pool => pool.writers.map Writer.call = calls) turns step
    begin ?_
  intro pool same turn _
  exact (pool.step_calls turn).trans same

theorem Sound.run {pool : WriterPool} (h : Sound pool archive) (turns : List (Int × Nat))
    : ∃ grown, Sound (turns.foldl WriterPool.step pool) grown := by
  refine List.foldlRecOn (motive := fun pool => ∃ archive, Sound pool archive) turns
    WriterPool.step ⟨archive, h⟩ ?_
  rintro pool ⟨archive, sound⟩ turn _
  obtain ⟨grown, next, _⟩ := sound.step turn
  exact ⟨grown, next⟩

theorem filterMap_stored {writers : List Writer} (topic : GoString)
    (returned : ∀ writer ∈ writers, writer.phase = .returned)
    : writers.filterMap (Writer.stored topic)
      = (writers.map Writer.call).filterMap (WriterCall.message topic) := by
  rw [filterMap_map]
  refine filterMap_congr ?_
  intro writer member
  simp only [Writer.stored, returned writer member, if_true, Function.comp_apply]

end WriterPool

/-- In every interleaving whose appends find only empty fragments behind their own, a later
state extends every earlier one.
-/
theorem extends_of_appendsLast (disk : Disk GoString) (baseDir : GoString)
    (maxSize maxMessages ttl : Int) {calls : List WriterCall}
    (plain : ∀ call ∈ calls, call.Plain) {turns : List (Int × Nat)}
    (last
      : AllSteps WriterPool.step WriterPool.AppendsLast
          (.start (.newFragmentManager disk baseDir maxSize maxMessages ttl) calls) turns)
    : (turns.scanl WriterPool.step
        (.start (.newFragmentManager disk baseDir maxSize maxMessages ttl) calls)).Pairwise
        (fun earlier later => Extends earlier.fm later.fm) := by
  have begin := WriterPool.Sound.start disk baseDir maxSize maxMessages ttl plain
  have growing := last.visited (fun pool past turn allowed before =>
    @WriterPool.Growing.step pool past turn before allowed)
    ⟨⟨_, begin⟩, pairwise_singleton .., by simp [Extends]⟩
  exact growing.2.1

def twoWriters : WriterPool :=
  .start (.newFragmentManager .empty (lit "data") 1000 1000 0)
    [.writeMessage (lit "t") 1 [1], .writeMessage (lit "t") 2 [2]]

/-- Both calls look and create a fragment of their own; then they append in the given order. -/
def bothCreate (first second : Nat) : List (Int × Nat) :=
  [(0, 0), (0, 1), (0, 0), (0, 1), (0, first), (0, second)]

/-- The call with the first fragment appends first. -/
theorem extends_bothCreate
    : AllSteps WriterPool.step WriterPool.AppendsLast twoWriters (bothCreate 0 1)
      ∧ ((bothCreate 0 1).scanl WriterPool.step twoWriters).Pairwise
          (fun earlier later => Extends earlier.fm later.fm) := by
  have last : AllSteps WriterPool.step WriterPool.AppendsLast twoWriters (bothCreate 0 1) := by
    decide +kernel
  exact ⟨last, extends_of_appendsLast .empty (lit "data") 1000 1000 0 (by decide) last⟩

/-- The call with the second fragment appends first, and its message moves from offset 0 to
offset 1 when the other call appends.
-/
theorem not_extends_bothCreate
    : ((bothCreate 1 0).scanl WriterPool.step twoWriters).map
          (fun pool => (pool.fm.readMessages (lit "t") 0 2).map MessageEntry.messageID)
        = [[], [], [], [], [], [2], [1, 2]]
      ∧ ¬((bothCreate 1 0).scanl WriterPool.step twoWriters).Pairwise
          (fun earlier later => Extends earlier.fm later.fm) := by
  have reads
      : ((bothCreate 1 0).scanl WriterPool.step twoWriters).map
          (fun pool => (pool.fm.readMessages (lit "t") 0 2).map MessageEntry.messageID)
        = [[], [], [], [], [], [2], [1, 2]] := by
    decide +kernel
  refine ⟨reads, fun ordered => ?_⟩
  have prefixes := pairwise_map.mpr
    (ordered.imp (fun grows => (grows (lit "t") 2).map MessageEntry.messageID))
  rw [reads] at prefixes
  revert prefixes
  decide

/-- When all calls have returned, the fragments of a topic are numbered from 0 and reading them
gives the messages of its calls, each once.
-/
theorem readMessages_perm_of_returned (disk : Disk GoString) (baseDir : GoString)
    (maxSize maxMessages ttl : Int) {calls : List WriterCall}
    (plain : ∀ call ∈ calls, call.Plain) {turns : List (Int × Nat)} {pool : WriterPool}
    (run
      : turns.foldl WriterPool.step
          (.start (.newFragmentManager disk baseDir maxSize maxMessages ttl) calls)
        = pool)
    (returned : ∀ writer ∈ pool.writers, writer.phase = .returned)
    (topic : GoString) {total : Int64}
    (counts : total.toInt = (calls.filterMap (WriterCall.message topic)).length)
    : (pool.fm.listed topic).map Fragment.id = List.range (pool.fm.listed topic).length
      ∧ ((pool.fm.readMessages topic 0 total).map MessageEntry.pair).Perm
          (calls.filterMap (WriterCall.message topic)) := by
  obtain ⟨archive, sound⟩ :=
    (WriterPool.Sound.start disk baseDir maxSize maxMessages ttl plain).run turns
  rw [run] at sound
  have made := WriterPool.run_calls (.newFragmentManager disk baseDir maxSize maxMessages ttl)
    calls turns
  rw [run] at made
  have stored := sound.stored topic
  rw [WriterPool.filterMap_stored topic returned, made] at stored
  have length := stored.length_eq
  rw [length_map] at length
  have nonneg : 0 ≤ total := Int64.le_iff_toInt_le.mpr (by simp [counts])
  have few : (archive.written topic).length ≤ 2 ^ 63 := by
    have := total.toInt_lt
    omega
  refine ⟨sound.numbered.numbered topic, ?_⟩
  rw [sound.refines.readMessages topic few 0 nonneg, counts, Int.toNat_natCast, ← length]
  simpa using stored

/-- No message is lost where their order changes. -/
theorem readMessages_perm_bothCreate
    : ((((bothCreate 1 0).foldl WriterPool.step twoWriters).fm.readMessages (lit "t") 0 2).map
        MessageEntry.pair).Perm
        [(1, [1]), (2, [2])] :=
  (@readMessages_perm_of_returned .empty (lit "data") 1000 1000 0
    [.writeMessage (lit "t") 1 [1], .writeMessage (lit "t") 2 [2]] (by decide) (bothCreate 1 0)
    _ rfl (by decide +kernel) (lit "t") 2 (by decide)).2

/-- The first read of a file whose first message does not fit its size field. -/
theorem readFragment_oversized (long : payload.length = 2 ^ 32) (now : Int) (messageID : UInt64)
    : (readFragment 0 1 0 [] (newEntry now messageID payload).encode).2
      = [{ messageID, timestamp := unix now, payloadSize := 0, payload := [] }] := by
  have cut
      : (newEntry now messageID payload).encode
        = MessageEntry.encode
            { messageID, timestamp := unix now, payloadSize := 0, payload := [] }
          ++ payload := by
    simp [newEntry, MessageEntry.encode, long]
  have found := @readMessage_encode ⟨messageID, unix now, 0, []⟩ rfl payload
  rw [cut, readFragment, if_neg (by decide), found]
  simp only
  -- the loop stops behind the first message
  rw [readFragment, if_pos (by decide)]
  rfl

/-- A payload of 2^32 bytes, the first of its topic, is read back as an empty one. -/
theorem readMessages_oversized {topic : GoString} {fragment : Fragment} (h : Refines fm archive)
    (only : fm.listed topic = [fragment]) (empty : fragment.messageCount = 0)
    (long : payload.length = 2 ^ 32) (now : Int) (messageID : UInt64)
    : (fm.appendAt now topic 0 messageID payload).readMessages topic 0 1
      = [{ messageID, timestamp := unix now, payloadSize := 0, payload := [] }] := by
  have found : (fm.listed topic)[0]? = some fragment := by rw [only]; rfl
  have held := h.held topic
  rw [only] at held
  obtain ⟨bucket, none, holds, last, _⟩ := forall₂_cons_left_iff.mp held
  have nothing : bucket.messages = [] :=
    eq_nil_of_length_eq_zero (Int.natCast_eq_zero.mp (holds.messageCount.symm.trans empty))
  obtain ⟨header, size, content⟩ := holds.content
  rw [nothing, stream_nil, append_nil] at content
  have written := (content.write (newEntry now messageID payload).encode).read
  have disk
      : (fm.appendAt now topic 0 messageID payload).disk
        = (fm.disk.write fragment.file (newEntry now messageID payload).encode).1 := by
    simp only [FragmentManager.appendAt, found]
  have skip : 4 + 4 + 4 + fragment.topic.length + 8 = header.length := by
    rw [size, holds.ofTopic]
    omega
  rw [FragmentManager.readMessages, appendAt_listed found, Function.update_self, only,
    set_cons_zero, FragmentManager.readFragments, if_neg (by decide), disk, written]
  simp only [FragmentManager.readFragments, skip, drop_left]
  exact readFragment_oversized long now messageID

def oneWrite (payload : Bytes) : WriterPool :=
  [(0, 0), (0, 0), (0, 0)].foldl WriterPool.step
    (.start (.newFragmentManager .empty (lit "data") 1000 1000 0)
      [.writeMessage (lit "t") 1 payload])

theorem oneWrite_oversized (long : payload.length = 2 ^ 32)
    : ((oneWrite payload).fm.readMessages (lit "t") 0 1).map MessageEntry.pair = [(1, [])] := by
  have refines :=
    (Refines.new .empty (lit "data") 1000 1000 0).createFragment
      ((Numbered.new .empty (lit "data") 1000 1000 0).freshPath (by decide : PlainName (lit "t")))
      0
  have run
      : (oneWrite payload).fm
        = ((FragmentManager.newFragmentManager .empty (lit "data") 1000 1000 0).createFragment 0
            (lit "t")).1.appendAt 0 (lit "t") 0 1 payload :=
    rfl
  rw [run, readMessages_oversized refines rfl rfl long]
  rfl

/-- A payload of 2^32 bytes is lost, although its call has returned. -/
theorem not_perm_oneWrite
    : (∀ writer ∈ (oneWrite (List.replicate (2 ^ 32) 0)).writers, writer.phase = .returned)
      ∧ ¬(((oneWrite (List.replicate (2 ^ 32) 0)).fm.readMessages (lit "t") 0 1).map
            MessageEntry.pair).Perm
          [(1, List.replicate (2 ^ 32) 0)] := by
  have returned (payload : Bytes)
      : ∀ writer ∈ (oneWrite payload).writers, writer.phase = .returned := by
    intro writer member
    rw [mem_singleton.mp member]
    rfl
  refine ⟨returned _, fun same => ?_⟩
  rw [oneWrite_oversized length_replicate] at same
  have payloads := congrArg (List.map fun pair => pair.2.length) (perm_singleton.mp same)
  rw [map_singleton, map_singleton, length_replicate] at payloads
  cases payloads

end Goulette.Storage
