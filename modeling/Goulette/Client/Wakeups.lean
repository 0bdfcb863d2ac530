import Goulette.Client.WindowSlots

/-! The condition variable of the sliding window, `client/producer.go`. A call that finds no slot
sleeps in `cond.Wait` until the `Signal` behind a later `Remove` wakes it, and then tests again.
-/

namespace Goulette.Client

open Goulette.Go Runs List

namespace SendPhase

def removes : SendPhase → Bool
  | .remove _ _ _ => true
  | .leader | .connect _ | .number _ | .waitForSlot _ _ | .add _ _ | .client _ _ | .send _ _ _
  | .forget _ | .returned _ _ | .panicked => false

/-- The call has an ID that it has not removed yet. -/
def engaged (phase : SendPhase) : Bool := phase.pending?.isSome || phase.held?.isSome

end SendPhase

namespace Producer

variable (producer : Producer) (answer : Answer) (phase : SendPhase)

theorem sendMessage_size
    : (producer.sendMessage answer phase).1.window.size = producer.window.size := by
  cases producer.sendMessage_slotEffect answer phase with
  | keep window => rw [window]
  | pass waits free window => rw [window]
  | add messageID window => rw [window]; rfl
  | remove messageID window => rw [window]; rfl

/-- Only a `Remove` gives an ID up. -/
theorem sendMessage_engaged (silent : phase.removes = false) (engaged : phase.engaged = true)
    (running : (producer.sendMessage answer phase).2 ≠ .panicked)
    : (producer.sendMessage answer phase).2.engaged = true := by
  cases phase with
  | remove leaderAddress messageID verdict => cases silent
  | waitForSlot leaderAddress messageID =>
      simp only [sendMessage]
      split <;> rfl
  | send client leaderAddress messageID =>
      cases client with
      | none => exact absurd rfl running
      | some client => rfl
  | add leaderAddress messageID => rfl
  | client leaderAddress messageID => rfl
  | leader | connect _ | number _ | forget _ | returned _ _ | panicked => cases engaged

end Producer

/-- A call and whether it sleeps. -/
structure WaitingCall where
  phase : SendPhase
  asleep : Bool

def WaitingCall.panicked (call : WaitingCall) : Bool := call.phase = .panicked

/-- The call will test for a slot or remove its ID without being woken. -/
def WaitingCall.busy (call : WaitingCall) : Bool := !call.asleep && call.phase.engaged

def SleepersWait (calls : List WaitingCall) : Prop :=
  ∀ call ∈ calls, call.asleep = true → call.phase.waiting = true

def heldIDs (calls : List WaitingCall) : List UInt64 :=
  calls.filterMap (fun call => call.phase.held?)

/-- The IDs in the window are those of calls that have added them. -/
def SlotsHeld (producer : Producer) (calls : List WaitingCall) : Prop :=
  ∀ messageID ∈ producer.window.window, messageID ∈ heldIDs calls

structure WaitSystem where
  producer : Producer
  calls : List WaitingCall

/-- A region that calls `Signal` wakes the call `woken`. -/
inductive WaitAction
  | start
  | advance (call : Nat) (answer : Answer) (woken : Nat)

namespace WaitSystem

def new (windowSize : Int) : WaitSystem := { producer := .newProducer windowSize, calls := [] }

/-- `Signal` wakes some sleeping call if there is one; another choice is none. -/
def signal (calls : List WaitingCall) (woken : Nat) : Option (List WaitingCall) :=
  if calls.any WaitingCall.asleep then
    match calls[woken]? with
    | some ⟨phase, true⟩ => some (calls.set woken ⟨phase, false⟩)
    | some ⟨_, false⟩ | none => none
  else some calls

/-- The next region of a call that is awake. -/
def advance (state : WaitSystem) (i : Nat) (answer : Answer) (woken : Nat) (phase : SendPhase)
    : WaitSystem :=
  if phase.waiting && !state.producer.window.slotFree then
    { state with calls := state.calls.set i ⟨phase, true⟩ }
  else
    let result := state.producer.sendMessage answer phase
    let calls := state.calls.set i ⟨result.2, false⟩
    if phase.removes then
      ((signal calls woken).map (fun calls => { producer := result.1, calls })).getD state
    else { producer := result.1, calls }

/-- After a panic there is no process any more. -/
def step (state : WaitSystem) (action : WaitAction) : WaitSystem :=
  if state.calls.any WaitingCall.panicked then state
  else
    match action with
    | .start => { state with calls := state.calls ++ [⟨.leader, false⟩] }
    | .advance i answer woken =>
        match state.calls[i]? with
        | none => state
        | some call => if call.asleep then state else state.advance i answer woken call.phase

/-- While a call sleeps, as many calls as the window has slots are busy, so that somebody will
wake it.
-/
structure Attended (windowSize : Int) (state : WaitSystem) : Prop where
  size : state.producer.window.size = windowSize
  waiting : SleepersWait state.calls
  held : SlotsHeld state.producer state.calls
  busy
    : state.calls.any WaitingCall.asleep = true
      → windowSize ≤ state.calls.countP WaitingCall.busy

variable {state : WaitSystem} {i woken : Nat} {phase next : SendPhase} {answer : Answer}
  {producer after : Producer} {calls : List WaitingCall} {asleep : Bool} {windowSize : Int}

/-- The owners of the slots of a full window are busy. -/
theorem busy_of_full (waiting : SleepersWait calls) (held : SlotsHeld producer calls)
    (full : producer.window.slotFree = false)
    : producer.window.size ≤ calls.countP WaitingCall.busy := by
  have owned : producer.window.window.card ≤ (heldIDs calls).length :=
    (Finset.card_le_card (fun messageID member => mem_toFinset.mpr (held messageID member)))
      |>.trans (toFinset_card_le _)
  rw [heldIDs, length_filterMap_eq_countP] at owned
  have awake : calls.countP (fun call => call.phase.held?.isSome)
      ≤ calls.countP WaitingCall.busy := by
    refine countP_mono_left (fun call member holds => ?_)
    cases asleep : call.asleep with
    | false => simp [WaitingCall.busy, SendPhase.engaged, asleep, holds]
    | true =>
        have waits := waiting call member asleep
        cases phase : call.phase <;> simp_all [SendPhase.waiting, SendPhase.held?]
  have full : ¬(producer.window.window.card : Int) < producer.window.size :=
    of_decide_eq_false full
  omega

theorem heldIDs_set (found : calls[i]? = some ⟨phase, asleep⟩) (other : Bool)
    : heldIDs (calls.set i ⟨phase, other⟩) = heldIDs calls :=
  Pool.filterMap_set_same found rfl

/-- A call goes to sleep only while every slot has an owner that is awake. -/
theorem Attended.sleep (h : Attended windowSize state)
    (found : state.calls[i]? = some ⟨phase, false⟩) (waits : phase.waiting = true)
    (full : state.producer.window.slotFree = false)
    : Attended windowSize { state with calls := state.calls.set i ⟨phase, true⟩ } := by
  have waiting : SleepersWait (state.calls.set i ⟨phase, true⟩) := by
    intro call member asleep
    rcases Pool.mem_set found member with rfl | old
    · exact waits
    · exact h.waiting call old asleep
  have held : SlotsHeld state.producer (state.calls.set i ⟨phase, true⟩) := by
    rw [SlotsHeld, heldIDs_set found]
    exact h.held
  exact ⟨h.size, waiting, held, fun _ => h.size ▸ busy_of_full waiting held full⟩

theorem mem_heldIDs_cons {call : WaitingCall} {messageID : UInt64}
    : messageID ∈ heldIDs (call :: calls)
      ↔ call.phase.held? = some messageID ∨ messageID ∈ heldIDs calls := by
  simp [heldIDs, mem_filterMap]

theorem Attended.move_held (h : Attended windowSize state)
    (found : state.calls[i]? = some ⟨phase, false⟩) (running : next ≠ .panicked)
    (transfer : SlotTransfer state.producer phase after next)
    : SlotsHeld after (state.calls.set i ⟨next, false⟩) := by
  intro messageID member
  obtain ⟨others, listed, replaced⟩ := Pool.exists_others found
  have old (inside : messageID ∈ state.producer.window.window)
      : phase.held? = some messageID ∨ messageID ∈ heldIDs others :=
    mem_heldIDs_cons.mp ((listed.filterMap _).mem_iff.mp (h.held messageID inside))
  refine ((replaced _).filterMap _).mem_iff.mpr (mem_heldIDs_cons.mpr ?_)
  show next.held? = some messageID ∨ messageID ∈ heldIDs others
  cases transfer with
  | keeps counter window pending held noted =>
      rw [held]
      exact old (window ▸ member)
  | panics id counter window pending held panicked noted => exact absurd panicked running
  | draws counter window idle pending held noted =>
      rw [held, ← idle.2]
      exact old (window ▸ member)
  | adds id counter window idle owns noted =>
      rw [window, Finset.mem_insert] at member
      rcases member with rfl | inside
      · exact Or.inl owns.2
      · exact Or.inr ((old inside).resolve_left (by simp [idle.2]))
  | removes id counter window owns idle noted =>
      rw [window, Finset.mem_erase] at member
      exact Or.inr ((old member.2).resolve_left (by simpa [owns.2] using member.1.symm))

theorem asleep_before {call : WaitingCall} (found : calls[i]? = some ⟨phase, asleep⟩)
    (member : call ∈ calls.set i ⟨next, false⟩) (sleeps : call.asleep = true)
    : call ∈ calls := by
  rcases Pool.mem_set found member with rfl | old
  · cases sleeps
  · exact old

/-- `Signal` makes up for a slot that was given up. -/
theorem attended_signal {signalled : List WaitingCall} (size : producer.window.size = windowSize)
    (waiting : SleepersWait calls) (held : SlotsHeld producer calls)
    (bound
      : calls.any WaitingCall.asleep = true → windowSize ≤ calls.countP WaitingCall.busy + 1)
    (woke : signal calls woken = some signalled)
    : Attended windowSize ⟨producer, signalled⟩ := by
  rw [signal] at woke
  split at woke
  · next sleeps =>
      split at woke
      · next phase place =>
          cases woke
          have waits := waiting _ (mem_of_getElem? place) rfl
          have engaged : phase.engaged = true := by
            cases phase <;> first | rfl | cases waits
          have counted := Pool.countP_set place WaitingCall.busy ⟨phase, false⟩
          have bound := bound sleeps
          refine ⟨size, fun call member asleep =>
            waiting call (asleep_before place member asleep) asleep,
            by rw [SlotsHeld, heldIDs_set place]; exact held, fun _ => ?_⟩
          simp only [WaitingCall.busy, engaged, Bool.not_true, Bool.not_false, Bool.true_and,
            Bool.false_and, Bool.toNat_true, Bool.toNat_false] at counted
          show windowSize ≤ ((calls.set woken ⟨phase, false⟩).countP _ : Nat)
          omega
      · cases woke
      · cases woke
  · next awake =>
      cases woke
      exact ⟨size, waiting, held, fun sleeps => absurd sleeps awake⟩

theorem Attended.advance (h : Attended windowSize state)
    (found : state.calls[i]? = some ⟨phase, false⟩)
    : Attended windowSize (state.advance i answer woken phase)
      ∨ (state.advance i answer woken phase).calls.any WaitingCall.panicked = true := by
  rw [WaitSystem.advance]
  split
  · next sleeps =>
      rw [Bool.and_eq_true, Bool.not_eq_true'] at sleeps
      exact Or.inl (h.sleep found sleeps.1 sleeps.2)
  -- a call on a nil client ends the process
  by_cases panics : (state.producer.sendMessage answer phase).2 = .panicked
  · have silent : phase.removes = false := by
      cases phase with
      | remove leaderAddress messageID verdict => cases verdict <;> cases panics
      | _ => rfl
    simp only [silent, Bool.false_eq_true, if_false, panics]
    obtain ⟨inside, _⟩ := List.getElem?_eq_some_iff.mp found
    exact Or.inr (any_eq_true.mpr ⟨_, mem_set inside _, rfl⟩)
  refine Or.inl ?_
  have held := h.move_held found panics (state.producer.sendMessage_slotTransfer answer phase)
  have size := (state.producer.sendMessage_size answer phase).trans h.size
  have kept := state.producer.sendMessage_engaged answer phase
  simp only
  generalize state.producer.sendMessage answer phase = result at *
  have waiting : SleepersWait (state.calls.set i ⟨result.2, false⟩) :=
    fun call member sleeps => h.waiting call (asleep_before found member sleeps) sleeps
  -- the count of busy calls changes by what this call gains or gives up
  have bound (sleeps : (state.calls.set i ⟨result.2, false⟩).any WaitingCall.asleep = true)
      : windowSize + result.2.engaged.toNat
        ≤ (state.calls.set i ⟨result.2, false⟩).countP WaitingCall.busy
          + phase.engaged.toNat := by
    obtain ⟨call, member, asleep⟩ := any_eq_true.mp sleeps
    have old := h.busy
      (any_eq_true.mpr ⟨call, asleep_before found member asleep, asleep⟩)
    have counted := Pool.countP_set found WaitingCall.busy ⟨result.2, false⟩
    simp only [WaitingCall.busy, Bool.not_false, Bool.true_and] at counted
    omega
  -- a `Remove` gives an ID up, and its `Signal` makes another call busy
  split
  · cases woke : signal (state.calls.set i ⟨result.2, false⟩) woken with
    | none => exact h
    | some calls =>
        refine attended_signal size waiting held (fun sleeps => ?_) woke
        have bound := bound sleeps
        have one := phase.engaged.toNat_le
        omega
  · next silent =>
      refine ⟨size, waiting, held, fun sleeps => ?_⟩
      have bound := bound sleeps
      show windowSize ≤ ((state.calls.set i ⟨result.2, false⟩).countP _ : Nat)
      cases owns : phase.engaged with
      | false =>
          rw [owns, Bool.toNat_false] at bound
          omega
      | true =>
          rw [owns, kept (Bool.eq_false_iff.mpr silent) owns panics] at bound
          omega

theorem Attended.start (h : Attended windowSize state)
    : Attended windowSize { state with calls := state.calls ++ [⟨.leader, false⟩] } := by
  refine ⟨h.size, ?_, fun messageID member => ?_, fun sleeps => ?_⟩
  · simp only [SleepersWait, forall_mem_append, forall_mem_singleton]
    exact ⟨h.waiting, fun sleeps => absurd sleeps Bool.false_ne_true⟩
  · rw [heldIDs, filterMap_append]
    exact mem_append_left _ (h.held messageID member)
  · have idle : [(⟨.leader, false⟩ : WaitingCall)].countP WaitingCall.busy = 0 := rfl
    rw [any_append, Bool.or_eq_true] at sleeps
    rw [countP_append, idle]
    exact h.busy (sleeps.resolve_right Bool.false_ne_true)

theorem Attended.step (h : Attended windowSize state) (action : WaitAction)
    : Attended windowSize (state.step action)
      ∨ (state.step action).calls.any WaitingCall.panicked = true := by
  unfold WaitSystem.step
  split
  · exact Or.inl h
  cases action with
  | start => exact Or.inl h.start
  | advance i answer woken =>
      simp only
      split
      · exact Or.inl h
      next call found =>
        obtain ⟨phase, asleep⟩ := call
        split
        · exact Or.inl h
        next awake =>
          obtain rfl : asleep = false := Bool.eq_false_iff.mpr awake
          exact h.advance found

/-- Whatever the network answers and whomever `Signal` wakes, the calls that sleep are attended as
long as the process has not panicked: while one sleeps, another one is on its way to a `Signal`.
-/
theorem sleepers_attended {windowSize : Int} (slots : 1 ≤ windowSize) (actions : List WaitAction)
    : (Attended windowSize (actions.foldl step (new windowSize))
        ∧ ((actions.foldl step (new windowSize)).calls.any WaitingCall.asleep = true
          → (actions.foldl step (new windowSize)).calls.any WaitingCall.busy = true))
      ∨ (actions.foldl step (new windowSize)).calls.any WaitingCall.panicked = true := by
  have start : Attended windowSize (new windowSize) := by
    refine ⟨rfl, fun _ member => absurd member not_mem_nil, ?_,
      fun sleeps => absurd sleeps Bool.false_ne_true⟩
    simp [SlotsHeld, new, Producer.newProducer, SlidingWindow.newSlidingWindow]
  have keep (state : WaitSystem) (action : WaitAction) (_ : True)
      (h : Attended windowSize state ∨ state.calls.any WaitingCall.panicked = true)
      : Attended windowSize (state.step action)
        ∨ (state.step action).calls.any WaitingCall.panicked = true := by
    rcases h with attended | panicked
    · exact attended.step action
    · unfold WaitSystem.step
      rw [if_pos panicked]
      exact Or.inr panicked
  rcases AllSteps.invariant keep (Or.inl start)
    (AllSteps.of_forall (fun _ _ => trivial) _ actions) with attended | panicked
  · refine Or.inl ⟨attended, fun sleeps => ?_⟩
    have enough := attended.busy sleeps
    exact any_eq_true.mpr (countP_pos_iff.mp (by omega))
  · exact Or.inr panicked

/-- The second call tests for a slot while the first one has the only one. -/
def secondSleeps : List WaitAction :=
  [.start, .start] ++ (List.range 9).map
    (fun turn => .advance (turn / 5) (SendSystem.answered .success) 0)

theorem sleepers_attended_secondSleeps
    : (secondSleeps.foldl step (new 1)).calls.map WaitingCall.asleep = [false, true]
      ∧ (secondSleeps.foldl step (new 1)).calls.any WaitingCall.busy = true := by
  refine ⟨by decide +kernel, ?_⟩
  rcases sleepers_attended (le_refl 1) secondSleeps with ⟨_, attended⟩ | panicked
  · exact attended (by decide +kernel)
  · revert panicked
    decide +kernel

end WaitSystem

end Goulette.Client
