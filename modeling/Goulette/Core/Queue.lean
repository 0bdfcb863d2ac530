import Goulette.Core.MessageLog
import Goulette.Library.Pool

/-! `Push` and `Pull` of `broker/core/core.go` over the channels of the topics, in any order. -/

namespace Goulette.Core

open Goulette.Go ByteFrames

structure Box where
  id : UInt64
  data : Bytes
deriving DecidableEq

/-- A call looks its channel up after `Push` has logged the message and before it sends or
receives. A nil channel blocks it for ever, also if the topic is registered later.
-/
inductive QueueCall
  | pushing (topic : GoString) (data : Bytes)
  | logged (topic : GoString) (box : Box)
  | sending (topic : GoString) (box : Box)
  | pushed (topic : GoString) (box : Box)
  | pulling (topic : GoString)
  | receiving (topic : GoString)
  | pulled (topic : GoString) (box : Box)
  | blocked
deriving DecidableEq

def QueueCall.pushed? : QueueCall → Option (GoString × Box)
  | .pushed topic box => some (topic, box)
  | _ => none

def QueueCall.pulled? : QueueCall → Option (GoString × Box)
  | .pulled topic box => some (topic, box)
  | _ => none

/-- The boxes that went into channels and out of them are recorded in their order. -/
structure QueueSystem where
  bufferSize : Nat
  wt : Writer
  topic2ch : GoMap GoString (List Box)
  calls : List QueueCall
  sent : List (GoString × Box)
  received : List (GoString × Box)

inductive QueueAction
  | registerTopic (topic : GoString)
  | push (topic : GoString) (data : Bytes)
  | pull (topic : GoString)
  | advance (call : Nat) (now : Int64)
  | meet (sender receiver : Nat)

namespace QueueSystem

def maxLogFileSize : Int64 := 1024 * 1024 * 512

def isTopicExist (core : QueueSystem) (topic : GoString) : Bool :=
  (core.topic2ch.lookup topic).isSome

def waiting (topic2ch : GoMap GoString (List Box)) (topic : GoString) : List Box :=
  (topic2ch.lookup topic).getD []

/-- The next phase of a call, with what it puts into a channel or takes out of it. -/
def move (core : QueueSystem) (i : Nat) (next : QueueCall) : QueueSystem :=
  { core with
    calls := core.calls.set i next
    sent := core.sent ++ next.pushed?.toList
    received := core.received ++ next.pulled?.toList }

def advance (core : QueueSystem) (i : Nat) (now : Int64) : QueueSystem :=
  match core.calls[i]? with
  | some (.pushing topic data) =>
      let (wt, id) := core.wt.write maxLogFileSize { topic, data, now }
      -- an error of the log is ignored, and the message then has the number 0
      { core with wt }.move i (.logged topic ⟨id.toOption.getD 0, data⟩)
  | some (.logged topic box) =>
      core.move i (if core.isTopicExist topic then .sending topic box else .blocked)
  | some (.sending topic box) =>
      let boxes := waiting core.topic2ch topic
      if boxes.length < core.bufferSize then
        { core with topic2ch := core.topic2ch.insert topic (boxes ++ [box]) }.move i
          (.pushed topic box)
      else core
  | some (.pulling topic) =>
      core.move i (if core.isTopicExist topic then .receiving topic else .blocked)
  | some (.receiving topic) =>
      match waiting core.topic2ch topic with
      | box :: rest =>
          { core with topic2ch := core.topic2ch.insert topic rest }.move i (.pulled topic box)
      | [] => core
  | _ => core

def step (core : QueueSystem) : QueueAction → QueueSystem
  | .registerTopic topic =>
      if core.isTopicExist topic then core
      else { core with topic2ch := core.topic2ch.insert topic [] }
  | .push topic data => { core with calls := core.calls ++ [.pushing topic data] }
  | .pull topic => { core with calls := core.calls ++ [.pulling topic] }
  | .advance i now => core.advance i now
  -- while nothing waits, a sender and a receiver meet without the buffer
  | .meet sender receiver =>
      match core.calls[sender]?, core.calls[receiver]? with
      | some (.sending topic box), some (.receiving other) =>
          if topic = other ∧ waiting core.topic2ch topic = [] then
            (core.move sender (.pushed topic box)).move receiver (.pulled topic box)
          else core
      | _, _ => core

def on (topic : GoString) (passed : List (GoString × Box)) : List Box :=
  passed.filterMap (fun entry => if entry.1 = topic then some entry.2 else none)

/-- The pushes and the pulls that have returned account for each box once. -/
structure Accounted (calls : List QueueCall) (sent received : List (GoString × Box)) : Prop where
  pushes : (calls.filterMap QueueCall.pushed?).Perm sent
  pulls : (calls.filterMap QueueCall.pulled?).Perm received

/-- Every topic is a queue: what was pushed is what was pulled and what waits, in this order. -/
structure Queued (core : QueueSystem) : Prop where
  accounted : Accounted core.calls core.sent core.received
  order : ∀ topic, on topic core.sent = on topic core.received ++ waiting core.topic2ch topic
  room : ∀ topic, (waiting core.topic2ch topic).length ≤ core.bufferSize

variable {core : QueueSystem} {i : Nat} {call next : QueueCall} {topic : GoString}
  {calls : List QueueCall} {sent received : List (GoString × Box)}

theorem waiting_insert (topic2ch : GoMap GoString (List Box)) (boxes : List Box) (other : GoString)
    : waiting (topic2ch.insert topic boxes) other
      = if topic = other then boxes else waiting topic2ch other := by
  by_cases same : topic = other
  · subst same
    simp [waiting]
  · simp [waiting, same, AList.lookup_insert_ne (Ne.symm same)]

/-- A call that gets a result adds it to those of the others. -/
theorem perm_set {result : QueueCall → Option (GoString × Box)} {passed : List (GoString × Box)}
    (h : (calls.filterMap result).Perm passed) (found : calls[i]? = some call)
    (running : result call = none) (next : QueueCall)
    : ((calls.set i next).filterMap result).Perm (passed ++ (result next).toList) := by
  cases value : result next with
  | none =>
      rw [Pool.filterMap_set_same found (value.trans running.symm), Option.toList_none,
        List.append_nil]
      exact h
  | some entry =>
      exact ((Pool.filterMap_set_some found running value).trans (h.cons entry)).trans
        (List.perm_append_singleton entry passed).symm

theorem Accounted.move (h : Accounted calls sent received) (found : calls[i]? = some call)
    (running : call.pushed? = none ∧ call.pulled? = none) (next : QueueCall)
    : Accounted (calls.set i next) (sent ++ next.pushed?.toList)
        (received ++ next.pulled?.toList) :=
  ⟨perm_set h.pushes found running.1 next, perm_set h.pulls found running.2 next⟩

theorem Accounted.begin (h : Accounted calls sent received)
    (running : call.pushed? = none ∧ call.pulled? = none)
    : Accounted (calls ++ [call]) sent received := by
  constructor
  · simpa [running.1] using h.pushes
  · simpa [running.2] using h.pulls

/-- A call that moves on puts at the end of a channel or takes from its front. -/
theorem Queued.move (h : core.Queued) (found : core.calls[i]? = some call)
    (running : call.pushed? = none ∧ call.pulled? = none) (wt : Writer)
    (topic2ch : GoMap GoString (List Box)) (next : QueueCall)
    (flow
      : ∀ topic, waiting core.topic2ch topic ++ on topic next.pushed?.toList
          = on topic next.pulled?.toList ++ waiting topic2ch topic)
    (room : ∀ topic, (waiting topic2ch topic).length ≤ core.bufferSize)
    : ({ core with wt, topic2ch }.move i next).Queued := by
  refine ⟨h.accounted.move found running next, fun topic => ?_, room⟩
  have order := h.order topic
  simp only [on] at order flow
  simp only [QueueSystem.move, on, List.filterMap_append, order, List.append_assoc, flow]

theorem Queued.look (h : core.Queued) (found : core.calls[i]? = some call)
    (running : call.pushed? = none ∧ call.pulled? = none) (wt : Writer)
    (goesOn : next.pushed? = none ∧ next.pulled? = none)
    : ({ core with wt }.move i next).Queued :=
  h.move found running wt core.topic2ch next (by simp [goesOn, on]) h.room

theorem Queued.advance (h : core.Queued) (i : Nat) (now : Int64) : (core.advance i now).Queued := by
  have room := h.room
  unfold QueueSystem.advance
  split
  · next found => exact h.look found ⟨rfl, rfl⟩ _ ⟨rfl, rfl⟩
  · next found =>
      refine h.look found ⟨rfl, rfl⟩ core.wt ?_
      split <;> exact ⟨rfl, rfl⟩
  · next topic box found =>
      dsimp only
      split
      · next fits =>
          refine h.move found ⟨rfl, rfl⟩ core.wt _ _ ?_ ?_ <;> intro other <;>
            rw [waiting_insert] <;> by_cases same : topic = other
          · simp [QueueCall.pushed?, QueueCall.pulled?, on, ← same]
          · simp [QueueCall.pushed?, QueueCall.pulled?, on, same]
          · simpa [same] using fits
          · simpa [same] using room other
      · exact h
  · next found =>
      refine h.look found ⟨rfl, rfl⟩ core.wt ?_
      split <;> exact ⟨rfl, rfl⟩
  · next topic found =>
      split
      · next box rest first =>
          refine h.move found ⟨rfl, rfl⟩ core.wt _ _ ?_ ?_ <;> intro other <;>
            rw [waiting_insert] <;> by_cases same : topic = other
          · simp [QueueCall.pushed?, QueueCall.pulled?, on, ← same, first]
          · simp [QueueCall.pushed?, QueueCall.pulled?, on, same]
          · have old := room topic
            rw [first] at old
            simpa [same] using Nat.le_of_succ_le old
          · simpa [same] using room other
      · exact h
  · exact h

theorem Queued.step (h : core.Queued) (action : QueueAction) : (core.step action).Queued := by
  cases action with
  | registerTopic topic =>
      simp only [QueueSystem.step]
      split
      · exact h
      · next unknown =>
          have none : core.topic2ch.lookup topic = none := by simpa [isTopicExist] using unknown
          have same : waiting (core.topic2ch.insert topic []) = waiting core.topic2ch := by
            funext other
            rw [waiting_insert]
            split
            · next here => rw [← here, waiting, none, Option.getD_none]
            · rfl
          exact ⟨h.accounted, same ▸ h.order, same ▸ h.room⟩
  | push | pull => exact ⟨h.accounted.begin ⟨rfl, rfl⟩, h.order, h.room⟩
  | advance i now => exact h.advance i now
  | meet sender receiver =>
      simp only [QueueSystem.step]
      split
      · next topic box other sending receiving =>
          split
          · next meets =>
              obtain ⟨rfl, empty⟩ := meets
              have apart : sender ≠ receiver := by
                rintro rfl
                cases sending.symm.trans receiving
              have still
                  : (core.calls.set sender (.pushed topic box))[receiver]?
                    = some (.receiving topic) := by
                rw [List.getElem?_set_ne apart, receiving]
              -- the box goes in and out at once: the buffer stays empty
              refine ⟨(h.accounted.move sending ⟨rfl, rfl⟩ _).move still ⟨rfl, rfl⟩ _, ?_, h.room⟩
              intro other
              have order := h.order other
              simp only [on] at order
              simp only [QueueSystem.move, on, QueueCall.pushed?, QueueCall.pulled?,
                List.filterMap_append, order]
              by_cases same : topic = other
              · simp [← same, empty]
              · simp [same]
          · exact h
      · exact h

end QueueSystem

end Goulette.Core
