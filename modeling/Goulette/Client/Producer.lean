import Mathlib.Data.Finset.Card
import Goulette.Broker.Server
import Goulette.Library.Pool

/-! Concurrent calls of `SendMessage` on one producer, `client/producer.go`. Every region under a
lock is one step, and so is the lookup of a client, which takes none.
-/

namespace Goulette.Client

open Goulette.Go Goulette.Broker Runs List

structure SlidingWindow where
  size : Int
  window : Finset UInt64

namespace SlidingWindow

def newSlidingWindow (size : Int) : SlidingWindow := { size, window := ∅ }

def slotFree (sw : SlidingWindow) : Bool := (sw.window.card : Int) < sw.size

def add (sw : SlidingWindow) (messageID : UInt64) : SlidingWindow :=
  { sw with window := insert messageID sw.window }

def remove (sw : SlidingWindow) (messageID : UInt64) : SlidingWindow :=
  { sw with window := sw.window.erase messageID }

theorem card_add_le (sw : SlidingWindow) (messageID : UInt64)
    : (sw.add messageID).window.card ≤ sw.window.card + 1 :=
  Finset.card_insert_le messageID sw.window

theorem card_remove_le (sw : SlidingWindow) (messageID : UInt64)
    : (sw.remove messageID).window.card ≤ sw.window.card :=
  Finset.card_erase_le

end SlidingWindow

structure BrokerServiceClient where
  address : GoString
deriving DecidableEq

structure Producer where
  brokerClients : GoMap GoString BrokerServiceClient
  messageCounter : UInt64
  window : SlidingWindow

inductive LeaderReply
  | undialled (err : GoError)
  | failed (err : GoError)
  | noLeader
  | leader (address : GoString)
deriving DecidableEq

inductive StreamReply
  | uncreated (err : GoError)
  | unsent (err : GoError)
  | unreceived (err : GoError)
  | response (resp : MessageResponse)
deriving DecidableEq

/-- What the network says to a step; each step uses what it asks for. -/
structure Answer where
  leader : LeaderReply
  dial : Option GoError
  stream : StreamReply
deriving DecidableEq

inductive Verdict
  | failed (err : GoError)
  | retry
  | sent
deriving DecidableEq

/-- What a call does next, or how it ended. -/
inductive SendPhase
  | leader
  | connect (leaderAddress : GoString)
  | number (leaderAddress : GoString)
  | waitForSlot (leaderAddress : GoString) (messageID : UInt64)
  | add (leaderAddress : GoString) (messageID : UInt64)
  | client (leaderAddress : GoString) (messageID : UInt64)
  | send (client : Option BrokerServiceClient) (leaderAddress : GoString) (messageID : UInt64)
  | remove (leaderAddress : GoString) (messageID : UInt64) (verdict : Verdict)
  | forget (leaderAddress : GoString)
  | returned (messageID : UInt64) (err : Option GoError)
  | panicked
deriving DecidableEq

namespace Producer

def newProducer (windowSize : Int) : Producer where
  brokerClients := ∅
  messageCounter := 0
  window := .newSlidingWindow windowSize

def connect (producer : Producer) (brokerAddress : GoString) (dial : Option GoError)
    : Producer × Option GoError :=
  if (producer.brokerClients.lookup brokerAddress).isSome then (producer, none)
  else
    match dial with
    | some err => (producer, some (lit "连接Broker失败: " ++ err))
    | none =>
        ({ producer with
            brokerClients := producer.brokerClients.insert brokerAddress ⟨brokerAddress⟩ },
          none)

def getTopicLeader : LeaderReply → Except GoError GoString
  | .undialled err => .error (lit "连接Sentinel失败: " ++ err)
  | .failed err => .error (lit "获取Topic Leader失败: " ++ err)
  | .noLeader => .error (lit "没有可用的Topic Leader")
  | .leader address => .ok address

def verdict : StreamReply → Verdict
  | .uncreated err => .failed (lit "创建发送流失败: " ++ err)
  | .unsent err => .failed (lit "发送消息失败: " ++ err)
  | .unreceived err => .failed (lit "接收响应失败: " ++ err)
  | .response resp =>
      if resp.status = .retry then .retry
      else if resp.status ≠ .success then .failed (lit "发送消息失败: " ++ resp.errorMessage)
      else .sent

/-- The next region of a call of `SendMessage`. -/
def sendMessage (producer : Producer) (answer : Answer) : SendPhase → Producer × SendPhase
  | .leader =>
      match getTopicLeader answer.leader with
      | .error err => (producer, .returned 0 (some err))
      | .ok leaderAddress =>
          if leaderAddress = [] then
            (producer, .returned 0 (some (lit "没有可用的Topic Leader")))
          else (producer, .connect leaderAddress)
  | .connect leaderAddress =>
      match producer.connect leaderAddress answer.dial with
      | (producer, some err) =>
          (producer, .returned 0 (some (lit "连接Leader Broker失败: " ++ err)))
      | (producer, none) => (producer, .number leaderAddress)
  | .number leaderAddress =>
      let messageID := producer.messageCounter + 1
      ({ producer with messageCounter := messageID }, .waitForSlot leaderAddress messageID)
  | .waitForSlot leaderAddress messageID =>
      if producer.window.slotFree then (producer, .add leaderAddress messageID)
      else (producer, .waitForSlot leaderAddress messageID)
  | .add leaderAddress messageID =>
      ({ producer with window := producer.window.add messageID }, .client leaderAddress messageID)
  | .client leaderAddress messageID =>
      (producer, .send (producer.brokerClients.lookup leaderAddress) leaderAddress messageID)
  -- a call on a nil client ends the process
  | .send none _ _ => (producer, .panicked)
  | .send (some _) leaderAddress messageID =>
      (producer, .remove leaderAddress messageID (verdict answer.stream))
  | .remove leaderAddress messageID verdict =>
      ({ producer with window := producer.window.remove messageID },
        match verdict with
        | .failed err => .returned 0 (some err)
        | .retry => .forget leaderAddress
        | .sent => .returned messageID none)
  -- a retry begins from the start
  | .forget leaderAddress =>
      ({ producer with brokerClients := producer.brokerClients.erase leaderAddress }, .leader)
  | .returned messageID err => (producer, .returned messageID err)
  | .panicked => (producer, .panicked)

end Producer

structure SendSystem where
  producer : Producer
  calls : List SendPhase

inductive SendAction
  | start
  | advance (call : Nat) (answer : Answer)
deriving DecidableEq

namespace SendSystem

def new (windowSize : Int) : SendSystem where
  producer := .newProducer windowSize
  calls := []

def step (system : SendSystem) (action : SendAction) : SendSystem :=
  -- after a panic there is no process any more
  if .panicked ∈ system.calls then system
  else
    match action with
    | .start => { system with calls := system.calls ++ [.leader] }
    | .advance i answer =>
        match system.calls[i]? with
        | none => system
        | some phase =>
            let result := system.producer.sendMessage answer phase
            { producer := result.1, calls := system.calls.set i result.2 }

def moved? (system : SendSystem) : SendAction → Option SendPhase
  | .start => none
  | .advance i _ => system.calls[i]?

/-- An invariant of the calls is one of the regions. -/
theorem step_induct {holds : SendSystem → Prop} {system : SendSystem} {action : SendAction}
    (h : holds system)
    (start : holds { system with calls := system.calls ++ [.leader] })
    (advance
      : ∀ i answer phase,
          system.calls[i]? = some phase
          → action = .advance i answer
          → holds {
              producer := (system.producer.sendMessage answer phase).1
              calls := system.calls.set i (system.producer.sendMessage answer phase).2 })
    : holds (system.step action) := by
  simp only [step]
  split
  · exact h
  cases action with
  | start => exact start
  | advance i answer =>
      simp only
      split
      · exact h
      · next phase found => exact advance i answer phase found rfl

end SendSystem

namespace SendPhase

def adding : SendPhase → Bool
  | .add _ _ => true
  | _ => false

def waiting : SendPhase → Bool
  | .waitForSlot _ _ => true
  | _ => false

end SendPhase

namespace Producer

variable {producer new : Producer} {answer : Answer} {phase next : SendPhase}

inductive SlotEffect (producer : Producer) (phase : SendPhase) (new : Producer) (next : SendPhase)
    : Prop
  | keep (window : new.window = producer.window) (before : phase.adding = false)
      (after : next.adding = false)
  | pass (waits : phase.waiting = true) (free : producer.window.slotFree = true)
      (window : new.window = producer.window) (before : phase.adding = false)
  | add (messageID : UInt64) (window : new.window = producer.window.add messageID)
      (before : phase.adding = true) (after : next.adding = false)
  | remove (messageID : UInt64) (window : new.window = producer.window.remove messageID)
      (before : phase.adding = false) (after : next.adding = false)

theorem connect_window (producer : Producer) (brokerAddress : GoString) (dial : Option GoError)
    : (producer.connect brokerAddress dial).1.window = producer.window := by
  simp only [connect]
  split
  · rfl
  · cases dial <;> rfl

theorem sendMessage_slotEffect (producer : Producer) (answer : Answer) (phase : SendPhase)
    : producer.SlotEffect phase (producer.sendMessage answer phase).1
        (producer.sendMessage answer phase).2 := by
  cases phase with
  | leader =>
      simp only [sendMessage]
      split
      · exact .keep rfl rfl rfl
      · split
        · exact .keep rfl rfl rfl
        · exact .keep rfl rfl rfl
  | connect leaderAddress =>
      have window := producer.connect_window leaderAddress answer.dial
      simp only [sendMessage]
      split
      · next after err connected => exact .keep (by rw [connected] at window; exact window) rfl rfl
      · next after connected => exact .keep (by rw [connected] at window; exact window) rfl rfl
  | waitForSlot leaderAddress messageID =>
      simp only [sendMessage]
      split
      · next free => exact .pass rfl free rfl rfl
      · exact .keep rfl rfl rfl
  | add leaderAddress messageID => exact .add messageID rfl rfl rfl
  | send client leaderAddress messageID => cases client <;> exact .keep rfl rfl rfl
  | remove leaderAddress messageID verdict =>
      refine .remove messageID rfl rfl ?_
      cases verdict <;> rfl
  | _ => exact .keep rfl rfl rfl

end Producer

namespace SendSystem

variable {system : SendSystem} {action : SendAction} {windowSize : Int}

/-- The slots that are taken and those that calls have found free and will take. -/
def claimed (system : SendSystem) : Nat :=
  system.producer.window.window.card + system.calls.countP SendPhase.adding

/-- A call that waits for a slot does not pass because of one that another call will take. -/
def leavesSlots (system : SendSystem) (action : SendAction) : Bool :=
  (system.moved? action).all
    (fun phase =>
      !(phase.waiting && system.producer.window.slotFree)
        || (system.claimed : Int) < system.producer.window.size)

structure Bounded (windowSize : Int) (system : SendSystem) : Prop where
  size : system.producer.window.size = windowSize
  claimed : (system.claimed : Int) ≤ windowSize

theorem Bounded.step (h : Bounded windowSize system) (leaves : system.leavesSlots action = true)
    : Bounded windowSize (system.step action) := by
  refine step_induct h ⟨h.size, ?_⟩ (fun i answer phase found same => ?_)
  · rw [SendSystem.claimed, countP_append]
    exact h.claimed
  subst same
  obtain ⟨others, before, after⟩ := Pool.exists_others found
  have bound := h.claimed
  rw [SendSystem.claimed, before.countP_eq, countP_cons] at bound
  have counted := (after (system.producer.sendMessage answer phase).2).countP_eq SendPhase.adding
  rw [countP_cons] at counted
  cases system.producer.sendMessage_slotEffect answer phase with
  | keep window notBefore notAfter =>
      refine ⟨by rw [window]; exact h.size, ?_⟩
      rw [notBefore] at bound
      rwa [SendSystem.claimed, counted, window, notAfter]
  | pass waits free window notBefore =>
      -- the slot is not one that another call will take
      refine ⟨by rw [window]; exact h.size, ?_⟩
      simp only [leavesSlots, moved?, found, Option.all_some, waits, free, Bool.and_self,
        Bool.not_true, Bool.false_or, decide_eq_true_eq, h.size] at leaves
      rw [SendSystem.claimed, before.countP_eq, countP_cons, notBefore,
        if_neg Bool.false_ne_true] at leaves
      rw [SendSystem.claimed, counted, window]
      split
      · omega
      · omega
  | add messageID window isBefore notAfter =>
      refine ⟨by rw [window]; exact h.size, ?_⟩
      have grows := system.producer.window.card_add_le messageID
      rw [isBefore, if_pos rfl] at bound
      rw [SendSystem.claimed, counted, window, notAfter, if_neg Bool.false_ne_true]
      omega
  | remove messageID window notBefore notAfter =>
      refine ⟨by rw [window]; exact h.size, ?_⟩
      have shrinks := system.producer.window.card_remove_le messageID
      rw [notBefore] at bound
      rw [SendSystem.claimed, counted, window, notAfter]
      omega

/-- In every run in which nobody passes because of a slot that another call will take, the window
has at most as many message IDs as slots.
-/
theorem window_le_of_leavesSlots (positive : 1 ≤ windowSize) {actions : List SendAction}
    (leaves
      : AllSteps step (fun system action => system.leavesSlots action = true) (new windowSize)
          actions)
    : ∀ visited ∈ actions.scanl step (new windowSize),
        (visited.producer.window.window.card : Int) ≤ windowSize := by
  have empty : (new windowSize).claimed = 0 := rfl
  have start : Bounded windowSize (new windowSize) := ⟨rfl, by rw [empty]; omega⟩
  have bounded := leaves.always (fun system action leaves h => h.step leaves) start
  intro visited member
  have claimed := (bounded visited member).claimed
  rw [SendSystem.claimed] at claimed
  omega

def answered (status : ResponseStatus) : Answer where
  leader := .leader (lit "h:1")
  dial := none
  stream := .response { messageID := 0, status, errorMessage := [] }

def moves (call count : Nat) (status : ResponseStatus) : List SendAction :=
  List.replicate count (.advance call (answered status))

/-- The second call waits until the first one has returned. -/
def oneAfterTheOther : List SendAction :=
  [.start, .start] ++ moves 0 5 .success ++ moves 1 5 .success ++ moves 0 3 .success
    ++ moves 1 2 .success

theorem window_le_oneAfterTheOther
    : (oneAfterTheOther.foldl step (new 1)).calls = [.returned 1 none, .client (lit "h:1") 2]
      ∧ ∀ visited ∈ oneAfterTheOther.scanl step (new 1),
          (visited.producer.window.window.card : Int) ≤ 1 :=
  ⟨by decide +kernel, window_le_of_leavesSlots (by decide) (by decide +kernel)⟩

/-- Both calls have waited for the one slot before either of them takes it. -/
def bothPass : List SendAction :=
  [.start, .start] ++ moves 0 4 .success ++ moves 1 5 .success ++ moves 0 1 .success

theorem window_gt_bothPass
    : ¬∀ visited ∈ bothPass.scanl step (new 1),
        (visited.producer.window.window.card : Int) ≤ 1 := by
  intro bounded
  exact absurd (bounded _ (foldl_mem_scanl step _ _)) (by decide +kernel)

end SendSystem

namespace SendPhase

/-- The address to which a call has connected, until it looks up the client. -/
def connected? : SendPhase → Option GoString
  | .number leaderAddress => some leaderAddress
  | .waitForSlot leaderAddress _ => some leaderAddress
  | .add leaderAddress _ => some leaderAddress
  | .client leaderAddress _ => some leaderAddress
  | _ => none

def looksUp? : SendPhase → Option GoString
  | .client leaderAddress _ => some leaderAddress
  | _ => none

def forgets? : SendPhase → Option GoString
  | .forget leaderAddress => some leaderAddress
  | _ => none

def nilClient : SendPhase → Bool
  | .send none _ _ => true
  | .panicked => true
  | _ => false

theorem connected_of_looksUp {phase : SendPhase} {address : GoString}
    (looksUp : phase.looksUp? = some address)
    : phase.connected? = some address := by
  cases phase with
  | client leaderAddress messageID => exact looksUp
  | _ => cases looksUp

end SendPhase

namespace Producer

/-- What a region does to the clients: nothing, it makes sure that there is one, or it deletes
one.
-/
inductive ClientEffect (producer : Producer) (phase : SendPhase) (new : Producer)
    (next : SendPhase)
    : Prop
  | keep (clients : new.brokerClients = producer.brokerClients)
      (connected : next.connected? = none ∨ next.connected? = phase.connected?)
  | connect (address : GoString) (connected : next.connected? = some address)
      (present : (new.brokerClients.lookup address).isSome)
      (others
        : ∀ other, (producer.brokerClients.lookup other).isSome
          → (new.brokerClients.lookup other).isSome)
  | forget (address : GoString) (forgets : phase.forgets? = some address)
      (clients : new.brokerClients = producer.brokerClients.erase address)
      (connected : next.connected? = none)

/-- After `Connect` has returned without an error there is a client. -/
theorem connect_clients (producer : Producer) (brokerAddress : GoString) (dial : Option GoError)
    : ((producer.connect brokerAddress dial).2 = none
        → ((producer.connect brokerAddress dial).1.brokerClients.lookup brokerAddress).isSome)
      ∧ ((producer.connect brokerAddress dial).2 ≠ none
        → (producer.connect brokerAddress dial).1 = producer)
      ∧ ∀ other, (producer.brokerClients.lookup other).isSome
        → ((producer.connect brokerAddress dial).1.brokerClients.lookup other).isSome := by
  simp only [connect]
  split
  · next present => exact ⟨fun _ => present, fun _ => rfl, fun _ known => known⟩
  · cases dial with
    | some err =>
        exact ⟨fun fine => absurd fine (Option.some_ne_none _), fun _ => rfl,
          fun _ known => known⟩
    | none =>
        refine ⟨fun _ => by rw [AList.lookup_insert]; rfl, fun failed => absurd rfl failed, ?_⟩
        intro other known
        by_cases same : other = brokerAddress
        · rw [same, AList.lookup_insert]
          rfl
        · rwa [AList.lookup_insert_ne same]

theorem sendMessage_clientEffect (producer : Producer) (answer : Answer) (phase : SendPhase)
    : producer.ClientEffect phase (producer.sendMessage answer phase).1
        (producer.sendMessage answer phase).2 := by
  cases phase with
  | leader =>
      simp only [sendMessage]
      split
      · exact .keep rfl (Or.inl rfl)
      · split
        · exact .keep rfl (Or.inl rfl)
        · exact .keep rfl (Or.inl rfl)
  | connect leaderAddress =>
      obtain ⟨present, unchanged, others⟩ := producer.connect_clients leaderAddress answer.dial
      simp only [sendMessage]
      split
      · next after err connected =>
          rw [connected] at unchanged
          exact .keep (congrArg brokerClients (unchanged (Option.some_ne_none err))) (Or.inl rfl)
      · next after connected =>
          rw [connected] at present others
          exact .connect leaderAddress rfl (present rfl) others
  | number | add => exact .keep rfl (Or.inr rfl)
  | waitForSlot leaderAddress messageID =>
      simp only [sendMessage]
      split
      · exact .keep rfl (Or.inr rfl)
      · exact .keep rfl (Or.inr rfl)
  | send client leaderAddress messageID => cases client <;> exact .keep rfl (Or.inl rfl)
  | remove leaderAddress messageID verdict =>
      refine .keep rfl (Or.inl ?_)
      cases verdict <;> rfl
  | forget leaderAddress => exact .forget leaderAddress rfl rfl rfl
  | _ => exact .keep rfl (Or.inl rfl)

theorem nilClient_sendMessage {producer : Producer} {answer : Answer} {phase : SendPhase}
    (isNil : (producer.sendMessage answer phase).2.nilClient = true)
    : phase.nilClient = true
      ∨ ∃ address,
          phase.looksUp? = some address
          ∧ producer.brokerClients.lookup address = none := by
  cases phase with
  | leader =>
      simp only [sendMessage] at isNil
      split at isNil
      · cases isNil
      · split at isNil
        · cases isNil
        · cases isNil
  | connect | waitForSlot =>
      simp only [sendMessage] at isNil
      split at isNil
      · cases isNil
      · cases isNil
  | client leaderAddress messageID =>
      refine Or.inr ⟨leaderAddress, rfl, ?_⟩
      cases found : producer.brokerClients.lookup leaderAddress with
      | none => rfl
      | some client =>
          simp only [sendMessage, found] at isNil
          cases isNil
  | send client leaderAddress messageID =>
      cases client with
      | none => exact Or.inl rfl
      | some client => cases isNil
  | remove leaderAddress messageID verdict => cases verdict <;> cases isNil
  | panicked => exact Or.inl rfl
  | _ => cases isNil

end Producer

namespace SendSystem

variable {system : SendSystem} {action : SendAction}

def findsClient (system : SendSystem) (action : SendAction) : Bool :=
  ((system.moved? action).bind SendPhase.looksUp?).all
    (fun address => (system.producer.brokerClients.lookup address).isSome)

/-- A call does not delete a client to which another call has connected and that it will look up. -/
def keepsOthers (system : SendSystem) (action : SendAction) : Bool :=
  ((system.moved? action).bind SendPhase.forgets?).all
    (fun address => system.calls.all (fun phase => phase.connected? ≠ some address))

/-- Whoever has connected will find a client, and nobody has a nil client. -/
structure Connected (system : SendSystem) : Prop where
  present
    : ∀ phase ∈ system.calls, ∀ address ∈ phase.connected?,
        (system.producer.brokerClients.lookup address).isSome
  noNil : ∀ phase ∈ system.calls, phase.nilClient = false

theorem Connected.findsClient (h : Connected system) (action : SendAction)
    : system.findsClient action = true := by
  rw [SendSystem.findsClient, Option.all_eq_true]
  intro address found
  obtain ⟨phase, moved, looksUp⟩ := Option.bind_eq_some_iff.mp found
  cases action with
  | start => cases moved
  | advance i answer =>
      exact h.present phase (mem_of_getElem? moved) address
        (SendPhase.connected_of_looksUp looksUp)

theorem Connected.step (h : Connected system) (keeps : system.keepsOthers action = true)
    : Connected (system.step action) := by
  refine step_induct h ?_ (fun i answer phase found same => ?_)
  · exact ⟨forall_mem_append.mpr
        ⟨h.present, forall_mem_singleton.mpr (by simp [SendPhase.connected?])⟩,
      forall_mem_append.mpr ⟨h.noNil, forall_mem_singleton.mpr rfl⟩⟩
  subst same
  have member := mem_of_getElem? found
  constructor
  · intro other after address connected
    rcases Pool.mem_set found after with rfl | old
    · cases system.producer.sendMessage_clientEffect answer phase with
      | keep clients same =>
          rw [clients]
          rcases same with none | same
          · rw [none] at connected
            cases connected
          · exact h.present phase member address (same ▸ connected)
      | connect own isOwn present others =>
          rw [isOwn, Option.mem_some_iff] at connected
          exact connected ▸ present
      | forget gone forgets clients none =>
          rw [none] at connected
          cases connected
    · have present := h.present other old address connected
      cases system.producer.sendMessage_clientEffect answer phase with
      | keep clients same => rwa [clients]
      | connect own isOwn _ others => exact others address present
      | forget gone forgets clients none =>
          -- the condition: the other call has connected to another address
          rw [keepsOthers, moved?, found, Option.bind_some, forgets, Option.all_some,
            all_eq_true] at keeps
          have different : address ≠ gone := by
            rintro rfl
            exact of_decide_eq_true (keeps other old) connected
          rwa [clients, AList.lookup_erase_ne different]
  · intro other after
    rcases Pool.mem_set found after with rfl | old
    · refine Bool.eq_false_iff.mpr (fun isNil => ?_)
      rcases Producer.nilClient_sendMessage isNil with already | ⟨address, looksUp, missing⟩
      · rw [h.noNil phase member] at already
        cases already
      · have present := h.present phase member address (SendPhase.connected_of_looksUp looksUp)
        rw [missing] at present
        cases present
    · exact h.noNil other old

/-- In every run in which no call deletes a client that another call has connected to and not looked
up yet, every lookup finds a client, and no call is made on a nil one.
-/
theorem findsClient_of_keepsOthers {windowSize : Int} {actions : List SendAction}
    (keeps
      : AllSteps step (fun system action => system.keepsOthers action = true) (new windowSize)
          actions)
    : AllSteps step (fun system action => system.findsClient action = true) (new windowSize)
          actions
      ∧ ∀ visited ∈ actions.scanl step (new windowSize),
          ∀ phase ∈ visited.calls, phase.nilClient = false := by
  have start : Connected (new windowSize) := {
    present := fun phase member => by cases member
    noNil := fun phase member => by cases member
  }
  have keep (system : SendSystem) (action : SendAction)
      (keeps : system.keepsOthers action = true) (h : Connected system)
      : Connected (system.step action) := h.step keeps
  refine ⟨keeps.gives keep (fun system action _ h => h.findsClient action) start, ?_⟩
  intro visited member
  exact (keeps.always keep start visited member).noNil

/-- The first call is told to retry, deletes the client and connects again; the second call comes
after that.
-/
def retriesBefore : List SendAction :=
  .start :: moves 0 9 .retry ++ .start :: moves 1 8 .success ++ moves 0 8 .success

theorem findsClient_retriesBefore
    : (retriesBefore.foldl step (new 4)).calls = [.returned 3 none, .returned 2 none]
      ∧ AllSteps step (fun system action => system.findsClient action = true) (new 4)
          retriesBefore :=
  ⟨by decide +kernel, (findsClient_of_keepsOthers (by decide +kernel)).1⟩

/-- The second call has connected before the first one, told to retry, deletes the client. -/
def retriesBetween : List SendAction :=
  .start :: moves 0 8 .retry ++ .start :: moves 1 3 .success ++ moves 0 1 .retry
    ++ moves 1 4 .success

theorem not_findsClient_retriesBetween
    : ¬AllSteps step (fun system action => system.findsClient action = true) (new 4)
          retriesBetween
      ∧ .panicked ∈ (retriesBetween.foldl step (new 4)).calls := by
  decide +kernel

end SendSystem

end Goulette.Client
