import Goulette.Broker.Deliveries

/-! A group of brokers that hold the same topics, each with a message counter of its own, which
entries applied for another broker do not move on.
-/

namespace Goulette.Broker

open Goulette.Go Goulette.Raft Goulette.Storage ByteFrames Runs List Function

/-- A broker between two of its starts. -/
structure Process where
  broker : GoString
  restarts : Nat
deriving DecidableEq, Repr

structure Answer where
  process : Process
  topic : GoString
  messageID : UInt64
  payload : Bytes
deriving DecidableEq, Repr

/-- The brokers of a group by name, how often each has been restarted, and the messages answered
with success so far.
-/
structure ReplicaGroup where
  servers : GoString → BrokerServer
  restarts : GoString → Nat
  answers : List Answer

structure GroupAction where
  broker : GoString
  now : Int
  action : BrokerAction

/-- No two messages of one topic carry the same ID. -/
def UniqueIDs (answers : List Answer) : Prop :=
  answers.Pairwise (fun early late =>
    early.topic = late.topic → early.messageID ≠ late.messageID)

instance : DecidablePred UniqueIDs := fun answers =>
  inferInstanceAs (Decidable (answers.Pairwise _))

namespace ReplicaGroup

def new (servers : GoString → BrokerServer) : ReplicaGroup :=
  { servers, restarts := fun _ => 0, answers := [] }

def process (group : ReplicaGroup) (broker : GoString) : Process :=
  { broker, restarts := group.restarts broker }

def answer? (group : ReplicaGroup) (event : GroupAction) : Option Answer :=
  match event.action with
  | .processMessage request =>
      match (group.servers event.broker).processMessage event.now request with
      | none => none
      | some result =>
          if result.2.status = .success then
            some {
              process := group.process event.broker
              topic := request.topic
              messageID := result.2.messageID
              payload := request.payload
            }
          else none
  | _ => none

def step (dataDir : GoString → GlobDirectory Nat) (group : ReplicaGroup) (event : GroupAction)
    : ReplicaGroup where
  servers :=
    update group.servers event.broker
      ((group.servers event.broker).step (dataDir event.broker) (event.now, event.action))
  restarts :=
    match event.action with
    | .restart => update group.restarts event.broker (group.restarts event.broker + 1)
    | _ => group.restarts
  answers := group.answers ++ (group.answer? event).toList

/-- A broker that knows a topic and has the role leader for it takes a message only with a
counter that does not wrap and has reached every ID that other processes gave to the topic.
-/
def CounterAhead (group : ReplicaGroup) (event : GroupAction) : Prop :=
  match event.action with
  | .processMessage request =>
      (group.servers event.broker).hasTopic request.topic
      → (group.servers event.broker).raftManager.isLeader request.topic
      → (group.servers event.broker).messageCounter.toNat + 1 < 2 ^ 64
        ∧ ∀ answer ∈ group.answers,
            answer.topic = request.topic
            → answer.process ≠ group.process event.broker
            → answer.messageID ≤ (group.servers event.broker).messageCounter
  | _ => True

instance (group : ReplicaGroup) : DecidablePred group.CounterAhead := fun value => by
  unfold ReplicaGroup.CounterAhead
  split <;> infer_instance

/-- The answers carry unique IDs, and the counter of every process has reached its own. -/
structure Identified (group : ReplicaGroup) : Prop where
  past : ∀ answer ∈ group.answers,
    answer.process.restarts ≤ group.restarts answer.process.broker
  counted : ∀ answer ∈ group.answers,
    answer.process = group.process answer.process.broker
    → answer.messageID ≤ (group.servers answer.process.broker).messageCounter
  unique : UniqueIDs group.answers

namespace Identified

variable {group : ReplicaGroup}

theorem new (servers : GoString → BrokerServer) : (ReplicaGroup.new servers).Identified where
  past := by simp [ReplicaGroup.new]
  counted := by simp [ReplicaGroup.new]
  unique := .nil

variable (h : group.Identified)
include h

/-- A step without an answer that does not turn the counter back. -/
theorem idle {broker : GoString} {server : BrokerServer}
    (onward : (group.servers broker).messageCounter ≤ server.messageCounter)
    : Identified { group with servers := update group.servers broker server } where
  past := h.past
  counted := by
    intro answer member own
    have before := h.counted answer member own
    by_cases here : answer.process.broker = broker
    · rw [here] at before ⊢
      simp only [update_self]
      exact UInt64.le_trans before onward
    · simp only [update_of_ne here]
      exact before
  unique := h.unique

/-- The answers of a broker that restarts are those of an earlier process from then on. -/
theorem restart (broker : GoString) (server : BrokerServer)
    : Identified
        { group with
          servers := update group.servers broker server
          restarts := update group.restarts broker (group.restarts broker + 1) } where
  past := by
    intro answer member
    have before := h.past answer member
    by_cases here : answer.process.broker = broker
    · rw [here] at before ⊢
      simp only [update_self]
      omega
    · simp only [update_of_ne here]
      exact before
  counted := by
    intro answer member own
    have before := h.past answer member
    by_cases here : answer.process.broker = broker
    · have restarts := congrArg Process.restarts own
      rw [here] at before restarts
      simp only [process, update_self] at restarts
      omega
    · simp only [update_of_ne here]
      apply h.counted answer member
      rw [own]
      simp only [process, update_of_ne here]
  unique := h.unique

/-- A new answer takes the ID right after the counter. -/
theorem answered {broker topic : GoString} {payload : Bytes} {server : BrokerServer}
    (small : (group.servers broker).messageCounter.toNat + 1 < 2 ^ 64)
    (counter : server.messageCounter = (group.servers broker).messageCounter + 1)
    (ahead
      : ∀ answer ∈ group.answers,
          answer.topic = topic
          → answer.process ≠ group.process broker
          → answer.messageID ≤ (group.servers broker).messageCounter)
    : Identified
        { group with
          servers := update group.servers broker server
          answers := group.answers ++ [{
            process := group.process broker
            topic
            messageID := (group.servers broker).messageCounter + 1
            payload }] } := by
  have above := Delivered.counter_lt small
  have kept : Identified { group with servers := update group.servers broker server } :=
    h.idle (by rw [counter]; exact UInt64.le_of_lt above)
  refine ⟨?_, ?_, ?_⟩
  · exact forall_mem_append.mpr ⟨h.past, forall_mem_singleton.mpr (Nat.le_refl _)⟩
  · refine forall_mem_append.mpr ⟨kept.counted, forall_mem_singleton.mpr (fun _ => ?_)⟩
    simp only [process, update_self, counter]
    exact UInt64.le_refl _
  · refine pairwise_append.mpr ⟨h.unique, pairwise_singleton _ _,
      fun early old => forall_mem_singleton.mpr (fun sameTopic => ?_)⟩
    have reached : early.messageID ≤ (group.servers broker).messageCounter := by
      -- an own answer is behind the counter anyway, one of another process by the condition
      by_cases own : early.process = group.process broker
      · have name : early.process.broker = broker := congrArg Process.broker own
        rw [← name] at own ⊢
        exact h.counted early old own
      · exact ahead early old sameTopic own
    exact UInt64.ne_of_lt (UInt64.lt_of_le_of_lt reached above)

variable (dataDir : GoString → GlobDirectory Nat)

theorem unanswered {event : GroupAction} (none : group.answer? event = none)
    (restarts : (group.step dataDir event).restarts = group.restarts)
    (onward
      : (group.servers event.broker).messageCounter
        ≤ ((group.servers event.broker).step (dataDir event.broker)
            (event.now, event.action)).messageCounter)
    : (group.step dataDir event).Identified := by
  have kept := h.idle onward
  simp only [ReplicaGroup.step] at restarts
  simp only [ReplicaGroup.step, none, restarts, Option.toList_none, append_nil]
  exact kept

theorem processMessage {broker : GoString} {now : Int} {request : MessageRequest}
    (ahead : group.CounterAhead ⟨broker, now, .processMessage request⟩)
    : (group.step dataDir ⟨broker, now, .processMessage request⟩).Identified := by
  have failed {server : BrokerServer} {response : MessageResponse}
      (done
        : (group.servers broker).processMessage now request = some (server, response))
      (status : response.status ≠ .success)
      (onward : (group.servers broker).messageCounter ≤ server.messageCounter)
      : (group.step dataDir ⟨broker, now, .processMessage request⟩).Identified := by
    apply h.unanswered dataDir
    · simp only [answer?, done, status, if_false]
    · rfl
    · simpa only [BrokerServer.step, done] using onward
  rcases (group.servers broker).processMessage_cases now request with
    ⟨response, status, done⟩ | ⟨_, done⟩
    | ⟨wal, _, known, leads, refused | ⟨_, _, refused | ⟨_, done⟩⟩⟩
  · exact failed done (by simp [status]) (UInt64.le_refl _)
  · apply h.unanswered dataDir
    · simp only [answer?, done]
    · rfl
    · simp only [BrokerServer.step, done]
      exact UInt64.le_refl _
  · obtain ⟨response, _, status, _, done⟩ := refused
    exact failed done (by simp [status])
      (UInt64.le_of_lt (Delivered.counter_lt (ahead known leads).1))
  · obtain ⟨response, _, status, _, done⟩ := refused
    exact failed done (by simp [status])
      (UInt64.le_of_lt (Delivered.counter_lt (ahead known leads).1))
  · obtain ⟨small, reached⟩ := ahead known leads
    simp only [ReplicaGroup.step, BrokerServer.step, answer?, done, if_true, Option.toList_some]
    exact h.answered small rfl reached

theorem step {event : GroupAction} (ahead : group.CounterAhead event)
    : (group.step dataDir event).Identified := by
  obtain ⟨broker, now, action⟩ := event
  cases action with
  | processMessage request => exact h.processMessage dataDir ahead
  | setTopicRole topic role followers leaderAddress =>
      exact h.unanswered dataDir rfl rfl (UInt64.le_refl _)
  | removeTopic topic reason =>
      apply h.unanswered dataDir rfl rfl
      simp only [BrokerServer.step, BrokerServer.removeTopic]
      cases (group.servers broker).hasTopic topic with
      | false => exact UInt64.le_refl _
      | true =>
          cases (group.servers broker).wal.writeRemoveTopic (unix now) topic reason with
          | none | some => exact UInt64.le_refl _
  | startElection topic => exact h.unanswered dataDir rfl rfl (UInt64.le_refl _)
  | raftRequest topic messageType payload =>
      apply h.unanswered dataDir rfl rfl
      simp only [BrokerServer.step, BrokerServer.handleRaftRequest]
      split
      · exact UInt64.le_refl _
      · split <;> exact UInt64.le_refl _
  | restart =>
      simp only [ReplicaGroup.step, answer?, Option.toList_none, append_nil]
      exact h.restart broker _

end Identified

end ReplicaGroup

open ReplicaGroup

/-- In every run in which no broker takes a message with a counter behind the IDs that others
gave to its topic, all IDs of a topic differ, whatever moves between the brokers.
-/
theorem uniqueIDs_of_counterAhead (dataDir : GoString → GlobDirectory Nat)
    (servers : GoString → BrokerServer) {events : List GroupAction}
    (ahead : AllSteps (step dataDir) CounterAhead (.new servers) events)
    : UniqueIDs (events.foldl (step dataDir) (.new servers)).answers :=
  (ahead.invariant (fun _ _ allowed identified => identified.step dataDir allowed)
    (Identified.new servers)).unique

def leads (topic broker follower : GoString) (payloads : List Bytes) : List GroupAction :=
  [
    ⟨broker, 0, .setTopicRole (topic) .leader [follower] broker⟩,
    ⟨follower, 0, .setTopicRole (topic) .follower [] broker⟩,
    ⟨broker, 0, .startElection (topic)⟩,
    ⟨broker, 0, .raftRequest (topic) .requestVoteResponse
      (RequestVoteResponse.marshal { term := 1, voteGranted := true })⟩
  ] ++ payloads.map (fun payload =>
    ⟨broker, 0, .processMessage { topic, payload, messageID := 0 }⟩)

def replicated (leader : GoString) : AppendEntriesRequest Command :=
  {
    term := 1
    leaderID := leader
    prevLogIndex := 0
    prevLogTerm := 0
    entries := [
      initialEntry,
      { term := 1, index := 1,
        command := some (.message
          { topic := lit "t", messageID := 1, payload := [7], timestamp := 0 }) },
      { term := 1, index := 2,
        command := some (.message
          { topic := lit "t", messageID := 2, payload := [8], timestamp := 0 }) }
    ]
    leaderCommit := 2
  }

def served7and8 : List GroupAction :=
  leads (lit "t") (lit "a") (lit "b") [[7], [8]]
    ++ [
      ⟨lit "a", 0, .raftRequest (lit "t") .appendEntriesResponse
        (AppendEntriesResponse.marshal { term := 1, success := true })⟩,
      ⟨lit "b", 0, .raftRequest (lit "t") .appendEntries (replicated (lit "a")).marshal⟩
    ]

/-- Then broker b leads the topic and takes a message. -/
def failover : List GroupAction :=
  served7and8 ++ leads (lit "t") (lit "b") (lit "a") [[9]]

/-- Broker b has numbered three messages of another topic before. -/
def failoverAhead : List GroupAction :=
  leads (lit "u") (lit "b") (lit "a") [[1], [2], [3]] ++ failover

def brokers (broker : GoString) : BrokerServer :=
  .newBrokerServer broker dataDir .empty [] 0

def afterwards (events : List GroupAction) : ReplicaGroup :=
  events.foldl (step (fun _ => dataDir)) (.new brokers)

def appliedBy (group : ReplicaGroup) (broker : GoString) : Option Nat :=
  ((group.servers broker).raftManager.clusters.lookup (lit "t")).map (·.raftNode.lastApplied)

/-- A new leader that is ahead goes on with fresh IDs. -/
theorem uniqueIDs_failoverAhead
    : AllSteps (step (fun _ => dataDir)) CounterAhead (.new brokers) failoverAhead
      ∧ UniqueIDs (afterwards failoverAhead).answers := by
  have ahead
      : AllSteps (step (fun _ => dataDir)) CounterAhead (.new brokers) failoverAhead := by
    decide +kernel
  exact ⟨ahead, uniqueIDs_of_counterAhead _ brokers ahead⟩

/-- Both brokers have applied the message [7], but the new leader counts from one again: the
messages [7] and [9] have the same ID.
-/
theorem not_uniqueIDs_failover
    : appliedBy (afterwards served7and8) (lit "a") = some 2
      ∧ appliedBy (afterwards served7and8) (lit "b") = some 2
      ∧ (afterwards failover).answers
        = [⟨⟨lit "a", 0⟩, lit "t", 1, [7]⟩, ⟨⟨lit "a", 0⟩, lit "t", 2, [8]⟩,
            ⟨⟨lit "b", 0⟩, lit "t", 1, [9]⟩]
      ∧ ¬UniqueIDs (afterwards failover).answers := by
  have answers
      : (afterwards failover).answers
        = [⟨⟨lit "a", 0⟩, lit "t", 1, [7]⟩, ⟨⟨lit "a", 0⟩, lit "t", 2, [8]⟩,
            ⟨⟨lit "b", 0⟩, lit "t", 1, [9]⟩] := by
    decide +kernel
  rw [answers]
  exact ⟨by decide +kernel, by decide +kernel, rfl, by decide +kernel⟩

end Goulette.Broker
