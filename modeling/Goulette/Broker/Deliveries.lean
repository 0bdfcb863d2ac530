import Goulette.Broker.Server

/-! Messages answered with success are in the fragment store, once each and in the order of the
answers as long as no message is applied: the leader's node would write it a second time.
-/

namespace Goulette.Broker

open Goulette.Go Goulette.Raft Goulette.Storage ByteFrames FileStore Runs List Function

/-- The fragment store holds exactly the answered messages, whose IDs increase and do not
exceed the counter.
-/
structure Stored (fm : FragmentManager) (counter : UInt64) (answered : Answered) : Prop where
  numbered : Numbered fm
  archived
    : ∃ archive, Refines fm archive
        ∧ ∀ topic, (archive.written topic).map MessageEntry.pair = answered topic
  counted : ∀ topic, ∀ message ∈ answered topic, message.1 ≤ counter
  increasing : ∀ topic, (answered topic).Pairwise (fun early late => early.1 < late.1)

namespace Stored

variable {fm : FragmentManager} {counter : UInt64} {answered : Answered}

theorem new (disk : Disk GoString) (baseDir : GoString) (maxSize maxMessages ttl : Int)
    (counter : UInt64)
    : Stored (.newFragmentManager disk baseDir maxSize maxMessages ttl) counter (fun _ => []) where
  numbered := Numbered.new disk baseDir maxSize maxMessages ttl
  archived := ⟨_, Refines.new disk baseDir maxSize maxMessages ttl, fun _ => rfl⟩
  counted := fun _ _ member => absurd member not_mem_nil
  increasing := fun _ => .nil

variable (h : Stored fm counter answered)
include h

theorem raise {larger : UInt64} (above : counter ≤ larger)
    : Stored fm larger answered :=
  { h with
    counted := fun topic message member =>
      UInt64.le_trans (h.counted topic message member) above }

theorem writeMessage {topic : GoString} (plain : PlainName topic) {payload : Bytes}
    (small : payload.length < 2 ^ 32) {messageID : UInt64} (above : counter < messageID) (now : Int)
    : Stored (fm.writeMessage now topic messageID payload) messageID
        (update answered topic (answered topic ++ [(messageID, payload)])) where
  numbered := h.numbered.writeMessage plain now messageID payload
  archived := by
    obtain ⟨archive, refines, same⟩ := h.archived
    refine ⟨_, refines.writeMessage (fun _ => h.numbered.freshPath plain) now messageID small, ?_⟩
    intro other
    rw [archive.written_write]
    by_cases here : other = topic
    · subst here
      simp [same, newEntry, MessageEntry.pair]
    · simp [here, same]
  counted := by
    have before (other : GoString) : ∀ message ∈ answered other, message.1 ≤ messageID :=
      fun message old => UInt64.le_trans (h.counted other message old) (UInt64.le_of_lt above)
    exact (forall_update_iff answered (fun _ pairs => ∀ message ∈ pairs, message.1 ≤ messageID)).mpr
      ⟨forall_mem_append.mpr ⟨before topic, forall_mem_singleton.mpr (UInt64.le_refl _)⟩,
        fun other _ => before other⟩
  increasing := by
    refine (forall_update_iff _ (fun _ => List.Pairwise _)).mpr
      ⟨pairwise_append.mpr ⟨h.increasing topic, pairwise_singleton _ _, fun early old => ?_⟩,
        fun other _ => h.increasing other⟩
    exact forall_mem_singleton.mpr (UInt64.lt_of_le_of_lt (h.counted topic early old) above)

theorem closeTopic (topic : GoString)
    : Stored (fm.closeTopic topic) counter (update answered topic []) where
  numbered := h.numbered.closeTopic topic
  archived := by
    obtain ⟨archive, refines, same⟩ := h.archived
    refine ⟨_, refines.closeTopic topic, ?_⟩
    intro other
    by_cases here : other = topic
    · subst here
      simp [Archive.written]
    · rw [archive.written_set_of_ne here, update_of_ne here]
      exact same other
  counted := (forall_update_iff answered
      (fun _ pairs => ∀ message ∈ pairs, message.1 ≤ counter)).mpr
    ⟨forall_mem_nil _, fun other _ => h.counted other⟩
  increasing := (forall_update_iff _ (fun _ => List.Pairwise _)).mpr
    ⟨.nil, fun other _ => h.increasing other⟩

theorem readMessages (topic : GoString) {limit : Int64}
    (all : ((answered topic).length : Int) ≤ limit.toInt)
    : (fm.readMessages topic 0 limit).map MessageEntry.pair = answered topic := by
  obtain ⟨archive, refines, same⟩ := h.archived
  have count : (archive.written topic).length = (answered topic).length := by
    rw [← same topic, length_map]
  rw [refines.liveFragmentsIntact.reads topic limit (by omega)]
  exact same topic

end Stored

def storedTotal (fm : FragmentManager) (topic : GoString) : Int :=
  ((fm.listed topic).map Fragment.messageCount).sum

theorem Stored.total {fm : FragmentManager} {counter : UInt64} {answered : Answered}
    (h : Stored fm counter answered) (topic : GoString)
    : storedTotal fm topic = (answered topic).length := by
  obtain ⟨archive, refines, same⟩ := h.archived
  rw [← same topic, length_map, storedTotal, refines.liveFragmentsIntact.counts topic,
    Archive.written, length_flatten, map_map]
  induction archive.buckets topic with
  | nil => rfl
  | cons bucket rest ih => simp [ih]

/-- Every message answered with success is read exactly once. -/
def ExactlyOnce (server : BrokerServer) (answered : Answered) : Prop :=
  ∀ topic (limit : Int64), storedTotal server.fragmentMgr topic ≤ limit.toInt
    → ∀ message ∈ answered topic,
        ((server.fragmentMgr.readMessages topic 0 limit).map MessageEntry.pair).count message = 1

theorem Stored.exactlyOnce {server : BrokerServer} {answered : Answered}
    (h : Stored server.fragmentMgr server.messageCounter answered)
    : ExactlyOnce server answered := by
  intro topic limit all message member
  rw [h.total topic] at all
  rw [h.readMessages topic all]
  refine count_eq_one_of_mem ((h.increasing topic).imp ?_) member
  intro early late before same
  rw [same] at before
  exact UInt64.lt_irrefl _ before

def BrokerAction.Serves : BrokerAction → Prop
  | .setTopicRole .. => True
  | .processMessage _ => True
  | .startElection _ => True
  | .raftRequest .. => True
  | .removeTopic .. => False
  | .restart => False

instance : DecidablePred BrokerAction.Serves := fun call => by
  unfold BrokerAction.Serves
  split <;> infer_instance

/-- The topic's Raft node would apply no message on a request. -/
def BrokerServer.AppliesNoMessage (server : BrokerServer) (topic : GoString)
    (messageType : RaftMessageType) (payload : Json)
    : Prop :=
  match deserializeRaftMessage messageType payload, server.raftManager.clusters.lookup topic with
  | .ok message, some cluster => cluster.raftNode.AppliesNoMessage message
  | _, _ => True

instance (server : BrokerServer) (topic : GoString) (messageType : RaftMessageType)
    (payload : Json)
    : Decidable (server.AppliesNoMessage topic messageType payload) := by
  unfold BrokerServer.AppliesNoMessage
  split <;> infer_instance

/-- A message has a plain topic, a payload that fits and a number that does not wrap, and the
Raft nodes apply no message.
-/
def BrokerServer.WritesOnce (server : BrokerServer) : Int × BrokerAction → Prop
  | (_, .processMessage request) =>
      PlainName request.topic
      ∧ request.payload.length < 2 ^ 32
      ∧ server.messageCounter.toNat + 1 < 2 ^ 64
  | (_, .raftRequest topic messageType payload) =>
      server.AppliesNoMessage topic messageType payload
  | _ => True

instance (server : BrokerServer) : DecidablePred server.WritesOnce := fun call => by
  unfold BrokerServer.WritesOnce
  split <;> infer_instance

structure Delivered (server : BrokerServer) (answered : Answered) : Prop where
  stored : Stored server.fragmentMgr server.messageCounter answered
  caughtUp : server.raftManager.CaughtUp

namespace Delivered

variable {server : BrokerServer} {answered : Answered}

theorem counter_lt (bound : server.messageCounter.toNat + 1 < 2 ^ 64)
    : server.messageCounter < server.messageCounter + 1 := by
  rw [UInt64.lt_iff_toNat_lt, UInt64.toNat_add, UInt64.toNat_one, Nat.mod_eq_of_lt bound]
  exact Nat.lt_succ_self _

variable (h : Delivered server answered)
include h

/-- A message is answered with success exactly when it is written. -/
theorem processMessage (dataDir : GlobDirectory Nat) {now : Int} {request : MessageRequest}
    (once : server.WritesOnce (now, .processMessage request))
    : Delivered (server.step dataDir (now, .processMessage request))
        (server.record answered (now, .processMessage request)) := by
  obtain ⟨plain, small, bound⟩ := once
  have above := counter_lt bound
  simp only [BrokerServer.step, BrokerServer.record]
  rcases server.processMessage_cases now request with
    ⟨response, status, done⟩ | ⟨_, done⟩ | ⟨wal, _, _, _, refused | ⟨raftManager, proposed, stored⟩⟩
  · simp only [done, status]
    exact h
  · simp only [done]
    exact h
  · obtain ⟨response, _, status, _, done⟩ := refused
    simp only [done, status]
    exact ⟨h.stored.raise (UInt64.le_of_lt above), h.caughtUp⟩
  rcases stored with ⟨response, _, status, _, done⟩ | ⟨_, done⟩
  · simp only [done, status]
    exact ⟨h.stored.raise (UInt64.le_of_lt above), h.caughtUp.proposeMessage proposed⟩
  · simp only [done, if_true]
    exact ⟨h.stored.writeMessage plain small above now, h.caughtUp.proposeMessage proposed⟩

theorem handleRaftRequest {topic : GoString} {messageType : RaftMessageType} {payload : Json}
    (quiet : server.AppliesNoMessage topic messageType payload) (now : Int)
    : Delivered (server.handleRaftRequest now topic messageType payload) answered := by
  unfold BrokerServer.handleRaftRequest
  cases decoded : deserializeRaftMessage messageType payload with
  | error failure => exact h
  | ok message =>
      simp only
      cases done : server.raftManager.handleRaftMessage topic message with
      | error failure => exact h
      | ok handled =>
          have none : ∀ command ∈ handled.applied, commandWrite command = none := by
            refine RaftManager.handleRaftMessage_applied h.caughtUp decoded ?_ done
            intro cluster found
            rwa [BrokerServer.AppliesNoMessage, decoded, found] at quiet
          simp only [foldl_createApplyFunc none]
          exact ⟨h.stored, h.caughtUp.handleRaftMessage done⟩

theorem step (dataDir : GlobDirectory Nat) {action : Int × BrokerAction} (serves : action.2.Serves)
    (once : server.WritesOnce action)
    : Delivered (server.step dataDir action) (server.record answered action) := by
  obtain ⟨now, action⟩ := action
  cases action with
  | setTopicRole topic role followers leaderAddress =>
      exact ⟨h.stored, h.caughtUp.setTopicRole topic role followers leaderAddress⟩
  | processMessage request => exact h.processMessage dataDir once
  | startElection topic => exact ⟨h.stored, h.caughtUp.startElection topic⟩
  | raftRequest topic messageType payload => exact h.handleRaftRequest once now
  | removeTopic | restart => exact serves.elim

end Delivered

/-- A broker that starts without a log has nothing to replay. -/
theorem newBrokerServer_empty {dataDir : GlobDirectory Nat}
    (literal : hasMeta dataDir.path = false) (brokerID : GoString) (disk : Disk GoString)
    (now : Int)
    : BrokerServer.newBrokerServer brokerID dataDir disk [] now
      = BrokerServer.fresh brokerID dataDir.path disk [] now := by
  have files
      : (BrokerServer.fresh brokerID dataDir.path disk [] now).wal.files
        = [((now / 1000000000).toNat, walHeader)] := rfl
  have header
      : replayFile (BrokerServer.replayEntry now)
          (BrokerServer.fresh brokerID dataDir.path disk [] now) walHeader
        = replayEntries (BrokerServer.replayEntry now)
            (BrokerServer.fresh brokerID dataDir.path disk [] now) [] :=
    replayFile_header _ []
  rw [BrokerServer.newBrokerServer, WAL.replay, dataDir.literal literal, files, foldl_cons,
    header, replayEntries_nil, foldl_nil]

/-- Exactly-once storage on a broker: whatever its Raft nodes do short of applying a message,
every message answered with success is read exactly once.
-/
theorem exactlyOnce_of_writesOnce {dataDir : GlobDirectory Nat}
    (literal : hasMeta dataDir.path = false) (brokerID : GoString) (disk : Disk GoString)
    (now : Int) {actions : List (Int × BrokerAction)}
    (serves : ∀ action ∈ actions, action.2.Serves)
    (once
      : AllSteps (BrokerServer.step dataDir) BrokerServer.WritesOnce
          (.newBrokerServer brokerID dataDir disk [] now) actions)
    : ExactlyOnce
        (actions.foldl (BrokerServer.step dataDir)
          (.newBrokerServer brokerID dataDir disk [] now))
        (follow (BrokerServer.step dataDir) BrokerServer.record
          (.newBrokerServer brokerID dataDir disk [] now) (fun _ => []) actions) := by
  have start
      : Delivered (.newBrokerServer brokerID dataDir disk [] now) (fun _ => []) := by
    rw [newBrokerServer_empty literal]
    exact ⟨Stored.new .., RaftManager.CaughtUp.new brokerID⟩
  have delivered := (once.and serves).simulation
    (fun _ _ _ allowed delivered => delivered.step dataDir allowed.2 allowed.1) start
  exact delivered.stored.exactlyOnce

/-- A broker becomes leader of a topic, wins its election with one vote, serves two messages
and receives one success.
-/
def servedBy (followers : List GoString) : List (Int × BrokerAction) :=
  [
    (0, .setTopicRole (lit "t") .leader followers []),
    (0, .startElection (lit "t")),
    (0, .raftRequest (lit "t") .requestVoteResponse
      (RequestVoteResponse.marshal { term := 1, voteGranted := true })),
    (0, .processMessage { topic := lit "t", payload := [7], messageID := 0 }),
    (0, .processMessage { topic := lit "t", payload := [8], messageID := 0 }),
    (0, .raftRequest (lit "t") .appendEntriesResponse
      (AppendEntriesResponse.marshal { term := 1, success := true }))
  ]

def dataDir : GlobDirectory Nat := .plain Nat (lit "data")

def started : BrokerServer := .newBrokerServer (lit "b") dataDir .empty [] 0

def serving (actions : List (Int × BrokerAction)) : BrokerServer :=
  actions.foldl (BrokerServer.step dataDir) started

def served (actions : List (Int × BrokerAction)) : Answered :=
  follow (BrokerServer.step dataDir) BrokerServer.record started (fun _ => []) actions

/-- With two followers a single success commits nothing. -/
theorem exactlyOnce_twoFollowers
    : (∀ action ∈ servedBy [lit "f", lit "g"], action.2.Serves)
      ∧ AllSteps (BrokerServer.step dataDir) BrokerServer.WritesOnce started
          (servedBy [lit "f", lit "g"])
      ∧ served (servedBy [lit "f", lit "g"]) (lit "t") = [(1, [7]), (2, [8])]
      ∧ ExactlyOnce (serving (servedBy [lit "f", lit "g"]))
          (served (servedBy [lit "f", lit "g"])) :=
  ⟨by decide, by decide +kernel, by decide +kernel,
    @exactlyOnce_of_writesOnce dataDir (by decide +kernel) (lit "b") .empty 0 _ (by decide)
      (by decide +kernel)⟩

/-- With one follower the success commits the first message, and applying it writes it a
second time.
-/
theorem not_exactlyOnce_oneFollower
    : served (servedBy [lit "f"]) (lit "t") = [(1, [7]), (2, [8])]
      ∧ ((serving (servedBy [lit "f"])).fragmentMgr.readMessages (lit "t") 0 3).map
          MessageEntry.pair
        = [(1, [7]), (2, [8]), (1, [7])]
      ∧ ¬ ExactlyOnce (serving (servedBy [lit "f"])) (served (servedBy [lit "f"])) := by
  have answered : served (servedBy [lit "f"]) (lit "t") = [(1, [7]), (2, [8])] := by
    decide +kernel
  have read
      : ((serving (servedBy [lit "f"])).fragmentMgr.readMessages (lit "t") 0 3).map
          MessageEntry.pair
        = [(1, [7]), (2, [8]), (1, [7])] := by
    decide +kernel
  have total
      : storedTotal (serving (servedBy [lit "f"])).fragmentMgr (lit "t")
        ≤ (3 : Int64).toInt := by
    decide +kernel
  refine ⟨answered, read, fun once => ?_⟩
  have single := once (lit "t") 3 total (1, [7]) (by rw [answered]; exact mem_cons_self)
  rw [read] at single
  exact absurd single (by decide)

end Goulette.Broker
