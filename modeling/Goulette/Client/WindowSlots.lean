import Goulette.Client.Producer

/-! The slots of the sliding window over any run of `SendMessage` calls. A ledger beside the system
notes which message IDs each call draws, adds and removes; a retry is the same call.
-/

namespace Goulette.Client

open Goulette.Go Goulette.Broker Runs List Function

/-- The IDs drawn from the counter with the call that drew them, and what each call has added
to the window and removed from it, oldest first.
-/
structure Ledger where
  drawn : List (Nat × UInt64)
  added : Nat → List UInt64
  removed : Nat → List UInt64

namespace Ledger

def empty : Ledger := { drawn := [], added := fun _ => [], removed := fun _ => [] }

def draw (ledger : Ledger) (i : Nat) (messageID : UInt64) : Ledger :=
  { ledger with drawn := ledger.drawn ++ [(i, messageID)] }

def add (ledger : Ledger) (i : Nat) (messageID : UInt64) : Ledger :=
  { ledger with added := update ledger.added i (ledger.added i ++ [messageID]) }

def remove (ledger : Ledger) (i : Nat) (messageID : UInt64) : Ledger :=
  { ledger with removed := update ledger.removed i (ledger.removed i ++ [messageID]) }

def note (ledger : Ledger) (producer : Producer) (i : Nat) : SendPhase → Ledger
  | .number _ => ledger.draw i (producer.messageCounter + 1)
  | .add _ messageID => ledger.add i messageID
  | .remove _ messageID _ => ledger.remove i messageID
  | .leader | .connect _ | .waitForSlot _ _ | .client _ _ | .send _ _ _ | .forget _
  | .returned _ _ | .panicked => ledger

def record (system : SendSystem) (ledger : Ledger) (action : SendAction) : Ledger :=
  if .panicked ∈ system.calls then ledger
  else
    match action with
    | .start => ledger
    | .advance i _ =>
        match system.calls[i]? with
        | none => ledger
        | some phase => ledger.note system.producer i phase

def ofRun (windowSize : Int) (actions : List SendAction) : Ledger :=
  follow SendSystem.step record (.new windowSize) empty actions

def drawnBy (ledger : Ledger) (i : Nat) : List UInt64 :=
  (ledger.drawn.filter (fun draw => draw.1 = i)).map Prod.snd

variable (ledger : Ledger) (i : Nat) {j : Nat} (messageID : UInt64)

theorem draw_self : (ledger.draw i messageID).drawnBy i = ledger.drawnBy i ++ [messageID] := by
  simp [draw, drawnBy]

theorem draw_other (other : j ≠ i)
    : (ledger.draw i messageID).drawnBy j = ledger.drawnBy j := by
  simp [draw, drawnBy, other.symm]

theorem add_self : (ledger.add i messageID).added i = ledger.added i ++ [messageID] :=
  update_self _ _ _

theorem add_other (other : j ≠ i) : (ledger.add i messageID).added j = ledger.added j :=
  update_of_ne other _ _

theorem remove_self
    : (ledger.remove i messageID).removed i = ledger.removed i ++ [messageID] :=
  update_self _ _ _

theorem remove_other (other : j ≠ i)
    : (ledger.remove i messageID).removed j = ledger.removed j :=
  update_of_ne other _ _

end Ledger

namespace SendPhase

def pending? : SendPhase → Option UInt64
  | .waitForSlot _ messageID => some messageID
  | .add _ messageID => some messageID
  | .leader | .connect _ | .number _ | .client _ _ | .send _ _ _ | .remove _ _ _ | .forget _
  | .returned _ _ | .panicked => none

def held? : SendPhase → Option UInt64
  | .client _ messageID => some messageID
  | .send _ _ messageID => some messageID
  | .remove _ messageID _ => some messageID
  | .leader | .connect _ | .number _ | .waitForSlot _ _ | .add _ _ | .forget _ | .returned _ _
  | .panicked => none

end SendPhase

inductive SlotTransfer (producer : Producer) (phase : SendPhase) (new : Producer)
    (next : SendPhase)
    : Prop
  | keeps (counter : new.messageCounter = producer.messageCounter)
      (window : new.window.window = producer.window.window)
      (pending : next.pending? = phase.pending?) (held : next.held? = phase.held?)
      (noted : ∀ ledger i, Ledger.note ledger producer i phase = ledger)
  | panics (messageID : UInt64) (counter : new.messageCounter = producer.messageCounter)
      (window : new.window.window = producer.window.window)
      (pending : phase.pending? = none) (held : phase.held? = some messageID)
      (panicked : next = .panicked)
      (noted : ∀ ledger i, Ledger.note ledger producer i phase = ledger)
  | draws (counter : new.messageCounter = producer.messageCounter + 1)
      (window : new.window.window = producer.window.window)
      (idle : phase.pending? = none ∧ phase.held? = none)
      (pending : next.pending? = some (producer.messageCounter + 1)) (held : next.held? = none)
      (noted
        : ∀ ledger i,
            Ledger.note ledger producer i phase = ledger.draw i (producer.messageCounter + 1))
  | adds (messageID : UInt64) (counter : new.messageCounter = producer.messageCounter)
      (window : new.window.window = insert messageID producer.window.window)
      (before : phase.pending? = some messageID ∧ phase.held? = none)
      (after : next.pending? = none ∧ next.held? = some messageID)
      (noted : ∀ ledger i, Ledger.note ledger producer i phase = ledger.add i messageID)
  | removes (messageID : UInt64) (counter : new.messageCounter = producer.messageCounter)
      (window : new.window.window = producer.window.window.erase messageID)
      (before : phase.pending? = none ∧ phase.held? = some messageID)
      (after : next.pending? = none ∧ next.held? = none)
      (noted : ∀ ledger i, Ledger.note ledger producer i phase = ledger.remove i messageID)

theorem Producer.connect_counter (producer : Producer) (brokerAddress : GoString)
    (dial : Option GoError)
    : (producer.connect brokerAddress dial).1.messageCounter = producer.messageCounter := by
  simp only [connect]
  split
  · rfl
  · cases dial <;> rfl

theorem Producer.sendMessage_slotTransfer (producer : Producer) (answer : Answer)
    (phase : SendPhase)
    : SlotTransfer producer phase (producer.sendMessage answer phase).1
        (producer.sendMessage answer phase).2 := by
  cases phase with
  | leader =>
      simp only [sendMessage]
      split
      · exact .keeps rfl rfl rfl rfl (fun _ _ => rfl)
      · split <;> exact .keeps rfl rfl rfl rfl (fun _ _ => rfl)
  | connect leaderAddress =>
      have window := producer.connect_window leaderAddress answer.dial
      have counter := producer.connect_counter leaderAddress answer.dial
      simp only [sendMessage]
      split
      · next after err connected =>
          rw [connected] at window counter
          exact .keeps counter (congrArg SlidingWindow.window window) rfl rfl (fun _ _ => rfl)
      · next after connected =>
          rw [connected] at window counter
          exact .keeps counter (congrArg SlidingWindow.window window) rfl rfl (fun _ _ => rfl)
  | number leaderAddress => exact .draws rfl rfl ⟨rfl, rfl⟩ rfl rfl (fun _ _ => rfl)
  | waitForSlot leaderAddress messageID =>
      simp only [sendMessage]
      split <;> exact .keeps rfl rfl rfl rfl (fun _ _ => rfl)
  | add leaderAddress messageID =>
      exact .adds messageID rfl rfl ⟨rfl, rfl⟩ ⟨rfl, rfl⟩ (fun _ _ => rfl)
  | send client leaderAddress messageID =>
      cases client with
      | none => exact .panics messageID rfl rfl rfl rfl rfl (fun _ _ => rfl)
      | some client => exact .keeps rfl rfl rfl rfl (fun _ _ => rfl)
  | remove leaderAddress messageID verdict =>
      refine .removes messageID rfl rfl ⟨rfl, rfl⟩ ?_ (fun _ _ => rfl)
      cases verdict <;> exact ⟨rfl, rfl⟩
  | _ => exact .keeps rfl rfl rfl rfl (fun _ _ => rfl)

/-! How system and ledger agree. -/

namespace SendSystem

variable {system : SendSystem} {ledger : Ledger}

/-- An invariant of system and ledger is one of the regions. -/
theorem step_record_induct {holds : SendSystem → Ledger → Prop} {action : SendAction}
    (h : holds system ledger)
    (start : holds { system with calls := system.calls ++ [.leader] } ledger)
    (advance
      : ∀ i answer phase,
          .panicked ∉ system.calls
          → system.calls[i]? = some phase
          → holds {
              producer := (system.producer.sendMessage answer phase).1
              calls := system.calls.set i (system.producer.sendMessage answer phase).2 }
              (ledger.note system.producer i phase))
    : holds (system.step action) (ledger.record system action) := by
  simp only [step, Ledger.record]
  split
  · exact h
  next running =>
    cases action with
    | start => exact start
    | advance i answer =>
        simp only
        cases found : system.calls[i]? with
        | none => exact h
        | some phase => exact advance i answer phase running found

def of (system : SendSystem) (project : SendPhase → Option UInt64) (i : Nat) : List UInt64 :=
  ((system.calls[i]?).bind project).toList

variable {project : SendPhase → Option UInt64} {phase next : SendPhase} {i : Nat}

theorem of_found (found : system.calls[i]? = some phase)
    : system.of project i = (project phase).toList := by
  rw [of, found, Option.bind_some]

theorem of_set_self (found : system.calls[i]? = some phase) (producer : Producer)
    : SendSystem.of { producer, calls := system.calls.set i next } project i
      = (project next).toList := by
  obtain ⟨inside, _⟩ := List.getElem?_eq_some_iff.mp found
  exact of_found (List.getElem?_set_self inside)

theorem of_set_other {j : Nat} (other : j ≠ i) (producer : Producer)
    : SendSystem.of { producer, calls := system.calls.set i next } project j
      = system.of project j := by
  rw [of, of, List.getElem?_set_ne other.symm]

theorem of_set_same (found : system.calls[i]? = some phase) (same : project next = project phase)
    (producer : Producer) (j : Nat)
    : SendSystem.of { producer, calls := system.calls.set i next } project j
      = system.of project j := by
  by_cases own : j = i
  · rw [own, of_set_self found, of_found found, same]
  · exact of_set_other own producer

theorem of_append (nothing : project next = none) (producer : Producer) (j : Nat)
    : SendSystem.of { producer, calls := system.calls ++ [next] } project j
      = system.of project j := by
  rcases Nat.lt_trichotomy j system.calls.length with before | here | after
  · rw [of, of, List.getElem?_append_left before]
  · have absent : system.calls[j]? = none := List.getElem?_eq_none here.ge
    rw [of, of, absent, here, List.getElem?_concat_length, Option.bind_some, nothing]
    rfl
  · have beyond : (system.calls ++ [next]).length ≤ j := by
      rw [length_append, length_singleton]
      omega
    rw [of, of, List.getElem?_eq_none beyond, List.getElem?_eq_none (Nat.le_of_lt after)]

/-- The ledger agrees with the system. A call that ended the process has kept its last ID. -/
structure Agrees (system : SendSystem) (ledger : Ledger) : Prop where
  counter : system.producer.messageCounter = UInt64.ofNat ledger.drawn.length
  numbers
    : ledger.drawn.map Prod.snd
      = (List.range ledger.drawn.length).map (fun k => UInt64.ofNat (k + 1))
  drawn : ∀ i, ledger.drawnBy i = ledger.added i ++ system.of SendPhase.pending? i
  held
    : ∀ i, ledger.added i = ledger.removed i ++ system.of SendPhase.held? i
        ∨ (system.calls[i]? = some .panicked
          ∧ ∃ messageID, ledger.added i = ledger.removed i ++ [messageID])
  window
    : (ledger.drawn.map Prod.snd).Nodup
      → ∀ messageID,
          messageID ∈ system.producer.window.window
          ↔ ∃ i, messageID ∈ ledger.added i ∧ messageID ∉ ledger.removed i

namespace Agrees

variable {messageID : UInt64}

section

variable (h : Agrees system ledger)
include h

theorem removed_below (i : Nat)
    : ledger.removed i <+: ledger.added i := by
  rcases h.held i with balance | ⟨_, messageID, balance⟩ <;> rw [balance]
  · exact prefix_append _ _
  · exact prefix_append _ _

theorem mem_drawn {i : Nat} (added : messageID ∈ ledger.added i)
    : (i, messageID) ∈ ledger.drawn := by
  have drawn : messageID ∈ ledger.drawnBy i := by
    rw [h.drawn i]
    exact mem_append_left _ added
  rw [Ledger.drawnBy, mem_map] at drawn
  obtain ⟨⟨call, id⟩, member, rfl⟩ := drawn
  rw [mem_filter] at member
  obtain rfl : call = i := by simpa using member.2
  exact member.1

/-- An ID that was drawn once belongs to one call. -/
theorem call_unique (distinct : (ledger.drawn.map Prod.snd).Nodup) {i j : Nat}
    (left : messageID ∈ ledger.added i) (right : messageID ∈ ledger.added j)
    : i = j := by
  have same := inj_on_of_nodup_map distinct (h.mem_drawn left) (h.mem_drawn right) rfl
  exact congrArg Prod.fst same

theorem balance (running : .panicked ∉ system.calls) (i : Nat)
    : ledger.added i = ledger.removed i ++ system.of SendPhase.held? i := by
  rcases h.held i with balance | ⟨panicked, _⟩
  · exact balance
  · exact absurd (mem_of_getElem? panicked) running

end

variable {producer : Producer}

section

variable (h : Agrees system ledger) (running : .panicked ∉ system.calls)
  (found : system.calls[i]? = some phase)
  (counter : producer.messageCounter = system.producer.messageCounter)
  (window : producer.window.window = system.producer.window.window)
include h running found counter window

/-- A region that leaves the ledger alone. -/
theorem keeps (pending : next.pending? = phase.pending?) (held : next.held? = phase.held?)
    : Agrees { producer, calls := system.calls.set i next } ledger where
  counter := counter.trans h.counter
  numbers := h.numbers
  drawn := fun j => by rw [of_set_same found pending]; exact h.drawn j
  held := fun j => by rw [of_set_same found held]; exact Or.inl (h.balance running j)
  window := fun distinct messageID => by rw [window]; exact h.window distinct messageID

/-- A call on a nil client keeps its ID in the window for ever. -/
theorem panics (pending : phase.pending? = none) (held : phase.held? = some messageID)
    : Agrees { producer, calls := system.calls.set i .panicked } ledger where
  counter := counter.trans h.counter
  numbers := h.numbers
  drawn := fun j => by
    have same : SendPhase.panicked.pending? = phase.pending? := pending.symm
    rw [of_set_same found same]
    exact h.drawn j
  held := fun j => by
    by_cases own : j = i
    · subst own
      obtain ⟨inside, _⟩ := List.getElem?_eq_some_iff.mp found
      have balance := h.balance running j
      rw [of_found found, held] at balance
      exact Or.inr ⟨List.getElem?_set_self inside, messageID, balance⟩
    · rw [of_set_other own]
      exact Or.inl (h.balance running j)
  window := fun distinct messageID => by rw [window]; exact h.window distinct messageID

end

/-- A new ID is drawn. -/
theorem draws (h : Agrees system ledger) (running : .panicked ∉ system.calls)
    (found : system.calls[i]? = some phase)
    (counter : producer.messageCounter = system.producer.messageCounter + 1)
    (window : producer.window.window = system.producer.window.window)
    (idle : phase.pending? = none ∧ phase.held? = none)
    (pending : next.pending? = some (system.producer.messageCounter + 1))
    (held : next.held? = none)
    : Agrees { producer, calls := system.calls.set i next }
        (ledger.draw i (system.producer.messageCounter + 1)) := by
  have number
      : system.producer.messageCounter + 1 = UInt64.ofNat (ledger.drawn.length + 1) := by
    rw [h.counter, UInt64.ofNat_add]
    rfl
  have length
      : (ledger.draw i (system.producer.messageCounter + 1)).drawn.length
        = ledger.drawn.length + 1 := length_append
  refine ⟨?_, ?_, ?_, ?_, ?_⟩
  · rw [length, counter, number]
  · rw [length, range_succ, map_append, ← h.numbers, Ledger.draw, map_append,
      number]
    rfl
  · intro j
    by_cases own : j = i
    · subst own
      have before := h.drawn j
      rw [of_found found, idle.1, Option.toList_none, append_nil] at before
      rw [Ledger.draw_self, before, of_set_self found, pending]
      rfl
    · rw [Ledger.draw_other _ _ _ own, of_set_other own]
      exact h.drawn j
  · intro j
    rw [of_set_same found (held.trans idle.2.symm)]
    exact Or.inl (h.balance running j)
  · intro distinct messageID
    rw [Ledger.draw, map_append] at distinct
    rw [window]
    exact h.window distinct.of_append_left messageID

/-- The pending ID of a call is not among those it has added, if no ID was drawn twice. -/
theorem pending_new (h : Agrees system ledger) (distinct : (ledger.drawn.map Prod.snd).Nodup)
    (found : system.calls[i]? = some phase) (pending : phase.pending? = some messageID)
    : messageID ∉ ledger.added i := by
  have nodup : (ledger.drawnBy i).Nodup := distinct.sublist (filter_sublist.map _)
  rw [h.drawn i, of_found found, pending] at nodup
  intro added
  exact (disjoint_of_nodup_append nodup) added (mem_singleton_self messageID)

section

variable (h : Agrees system ledger) (running : .panicked ∉ system.calls)
  (found : system.calls[i]? = some phase)
  (counter : producer.messageCounter = system.producer.messageCounter)
include h running found counter

theorem adds (window : producer.window.window = insert messageID system.producer.window.window)
    (before : phase.pending? = some messageID ∧ phase.held? = none)
    (after : next.pending? = none ∧ next.held? = some messageID)
    : Agrees { producer, calls := system.calls.set i next } (ledger.add i messageID) := by
  refine ⟨counter.trans h.counter, h.numbers, ?_, ?_, ?_⟩
  · intro j
    have drawn : (ledger.add i messageID).drawnBy j = _ := h.drawn j
    rw [drawn]
    by_cases own : j = i
    · subst own
      rw [of_found found, before.1, of_set_self found, after.1, Ledger.add_self]
      simp
    · rw [of_set_other own, Ledger.add_other _ _ _ own]
  · intro j
    refine Or.inl ?_
    have balance := h.balance running j
    by_cases own : j = i
    · subst own
      rw [of_found found, before.2, Option.toList_none, append_nil] at balance
      rw [of_set_self found, after.2, Ledger.add_self, balance]
      rfl
    · rw [of_set_other own, Ledger.add_other _ _ _ own]
      exact balance
  · intro distinct other
    have fresh := h.pending_new distinct found before.1
    rw [window, Finset.mem_insert, h.window distinct other]
    constructor
    · rintro (rfl | ⟨j, added, kept⟩)
      · refine ⟨i, ?_, fun removed => fresh ((h.removed_below i).subset removed)⟩
        rw [Ledger.add_self]
        exact mem_append_right _ (mem_singleton_self _)
      · refine ⟨j, ?_, kept⟩
        by_cases own : j = i
        · subst own
          rw [Ledger.add_self]
          exact mem_append_left _ added
        · rwa [Ledger.add_other _ _ _ own]
    · rintro ⟨j, added, kept⟩
      by_cases own : j = i
      · subst own
        rw [Ledger.add_self, mem_append, mem_singleton] at added
        exact added.symm.imp_right (fun old => ⟨j, old, kept⟩)
      · rw [Ledger.add_other _ _ _ own] at added
        exact Or.inr ⟨j, added, kept⟩

theorem removes (window : producer.window.window = system.producer.window.window.erase messageID)
    (before : phase.pending? = none ∧ phase.held? = some messageID)
    (after : next.pending? = none ∧ next.held? = none)
    : Agrees { producer, calls := system.calls.set i next } (ledger.remove i messageID) := by
  have held : ledger.added i = ledger.removed i ++ [messageID] := by
    have balance := h.balance running i
    rwa [of_found found, before.2] at balance
  refine ⟨counter.trans h.counter, h.numbers, ?_, ?_, ?_⟩
  · intro j
    rw [of_set_same found (after.1.trans before.1.symm)]
    exact h.drawn j
  · intro j
    refine Or.inl ?_
    by_cases own : j = i
    · subst own
      rw [of_set_self found, after.2, Ledger.remove_self, Option.toList_none, append_nil]
      exact held
    · rw [of_set_other own, Ledger.remove_other _ _ _ own]
      exact h.balance running j
  · intro distinct other
    rw [window, Finset.mem_erase, h.window distinct other]
    constructor
    · rintro ⟨different, j, added, kept⟩
      refine ⟨j, added, ?_⟩
      by_cases own : j = i
      · subst own
        rw [Ledger.remove_self, mem_append, mem_singleton]
        exact fun removed => removed.elim kept different
      · rwa [Ledger.remove_other _ _ _ own]
    · rintro ⟨j, added, kept⟩
      by_cases own : j = i
      · subst own
        rw [Ledger.remove_self, mem_append, mem_singleton, not_or] at kept
        exact ⟨kept.2, j, added, kept.1⟩
      · rw [Ledger.remove_other _ _ _ own] at kept
        refine ⟨?_, j, added, kept⟩
        -- the removed ID is one of call `i`, and no other call has it
        rintro rfl
        refine own (h.call_unique distinct added ?_)
        rw [held]
        exact mem_append_right _ (mem_singleton_self _)

end

theorem step (h : Agrees system ledger) (action : SendAction)
    : Agrees (system.step action) (ledger.record system action) := by
  refine step_record_induct h ?_ (fun i answer phase running found => ?_)
  · refine ⟨h.counter, h.numbers, fun j => ?_, fun j => ?_, h.window⟩
    · rw [of_append rfl]
      exact h.drawn j
    · rw [of_append rfl]
      rcases h.held j with balance | ⟨panicked, kept⟩
      · exact Or.inl balance
      · obtain ⟨inside, _⟩ := List.getElem?_eq_some_iff.mp panicked
        exact Or.inr ⟨by rw [List.getElem?_append_left inside]; exact panicked, kept⟩
  · cases system.producer.sendMessage_slotTransfer answer phase with
    | keeps counter window pending held noted =>
        rw [noted]
        exact h.keeps running found counter window pending held
    | panics messageID counter window pending held panicked noted =>
        rw [noted, panicked]
        exact h.panics running found counter window pending held
    | draws counter window idle pending held noted =>
        rw [noted]
        exact h.draws running found counter window idle pending held
    | adds messageID counter window before after noted =>
        rw [noted]
        exact h.adds running found counter window before after
    | removes messageID counter window before after noted =>
        rw [noted]
        exact h.removes running found counter window before after

/-- Fewer draws than there are IDs are all different. -/
theorem distinct (h : Agrees system ledger) (room : ledger.drawn.length < 2 ^ 64)
    : (ledger.drawn.map Prod.snd).Nodup := by
  rw [h.numbers]
  refine nodup_range.map_on (fun left leftMember right rightMember same => ?_)
  rw [mem_range] at leftMember rightMember
  have equal := congrArg UInt64.toNat same
  simp only [UInt64.toNat_ofNat'] at equal
  omega

end Agrees

/-- A call that has returned has removed every ID that it has added; a call removes only its own
IDs, each after it has added it. As long as the IDs have not come round, no two calls have an ID
in common, and the window holds exactly the IDs that their calls have added and not removed.
-/
structure SlotsReleased (system : SendSystem) (ledger : Ledger) : Prop where
  returned
    : ∀ i messageID err,
        system.calls[i]? = some (.returned messageID err) → ledger.added i = ledger.removed i
  own : ∀ i, ledger.removed i <+: ledger.added i
  apart
    : ledger.drawn.length < 2 ^ 64
      → ∀ i j messageID, messageID ∈ ledger.added i → messageID ∈ ledger.added j → i = j
  window
    : ledger.drawn.length < 2 ^ 64
      → ∀ messageID,
          messageID ∈ system.producer.window.window
          ↔ ∃ i, messageID ∈ ledger.added i ∧ messageID ∉ ledger.removed i

/-- Over every run of calls, whatever the network answers, no slot of the window leaks. -/
theorem slotsReleased (windowSize : Int) (actions : List SendAction)
    : SlotsReleased (actions.foldl SendSystem.step (new windowSize))
        (Ledger.ofRun windowSize actions) := by
  have start : Agrees (new windowSize) Ledger.empty := by
    refine ⟨rfl, rfl, fun _ => rfl, fun _ => Or.inl rfl, fun _ messageID => ?_⟩
    simp [new, Producer.newProducer, SlidingWindow.newSlidingWindow, Ledger.empty]
  have free : AllSteps SendSystem.step (fun _ _ => True) (new windowSize) actions :=
    AllSteps.of_forall (fun _ _ => trivial) _ actions
  have keep (system : SendSystem) (ledger : Ledger) (action : SendAction) (_ : True)
      (h : Agrees system ledger)
      : Agrees (system.step action) (Ledger.record system ledger action) := h.step action
  have agrees : Agrees (actions.foldl SendSystem.step (new windowSize))
      (Ledger.ofRun windowSize actions) :=
    free.simulation keep start
  refine ⟨fun i messageID err found => ?_, agrees.removed_below,
    fun room i j messageID => agrees.call_unique (agrees.distinct room),
    fun room => agrees.window (agrees.distinct room)⟩
  rcases agrees.held i with balance | ⟨panicked, _⟩
  · rw [of_found found] at balance
    simpa [SendPhase.held?] using balance
  · cases found.symm.trans panicked

end SendSystem

end Goulette.Client
