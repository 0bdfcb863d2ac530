import Goulette.Library.Pool
import Goulette.Raft.ManagerRuns
import Goulette.Broker.Server

/-! The tables of a broker beside those of its Raft manager. A call is a sequence of regions, each
from one lock of the manager to the next; a proposal goes with the lookup of its node, since a
role set in between only drops that node.
-/

namespace Goulette.Broker

open Goulette.Go Goulette.Raft Goulette.Storage Runs ByteFrames List Function

variable {topic : GoString}

inductive TopicRequest
  | setTopicRole (topic : GoString) (role : TopicRole) (followers : List GoString)
      (leaderAddress : GoString)
  | removeTopic (topic reason : GoString)
  | processMessage (request : MessageRequest)
  | replay (entry : WALEntry)
deriving DecidableEq

inductive TopicAnswer
  | assigned (topic : GoString)
  | removed (topic : GoString) (response : RemoveTopicResponse)
  | message (response : MessageResponse)
  | replayed
deriving DecidableEq

/-- What a call does next, or how it ended; a stuck call waits for a lock of its own. -/
inductive RoleCall
  | requested (request : TopicRequest)
  | recordRole (topic : GoString) (role : TopicRole)
  | dropCluster (topic : GoString)
  | checkLeader (request : MessageRequest)
  | noteRole (request : MessageRequest) (messageID : UInt64)
  | propose (request : MessageRequest) (messageID : UInt64)
  | countEntry (entry : WALEntry)
  | noteEntry (entry : WALEntry)
  | forgetEntry (entry : WALEntry)
  | closeEntry (entry : WALEntry)
  | stuck
  | returned (answer : TopicAnswer)
deriving DecidableEq

namespace RoleCall

def topic? : RoleCall → Option GoString
  | .requested (.setTopicRole topic _ _ _) | .requested (.removeTopic topic _) => some topic
  | .requested (.processMessage request) => some request.topic
  | .requested (.replay entry) => some entry.topic
  | .recordRole topic _ | .dropCluster topic => some topic
  | .checkLeader request | .noteRole request _ | .propose request _ => some request.topic
  | .countEntry entry | .noteEntry entry | .forgetEntry entry | .closeEntry entry =>
      some entry.topic
  | .stuck | .returned _ => none

def locks : RoleCall → Bool
  | .requested (.removeTopic _ _) | .requested (.processMessage _) => true
  | .recordRole _ _ | .countEntry _ | .forgetEntry _ => true
  | _ => false

def holds : RoleCall → Bool
  | .dropCluster _ | .checkLeader _ | .noteRole _ _ | .propose _ _ | .noteEntry _ | .stuck => true
  | _ => false

def finished : RoleCall → Bool
  | .returned _ => true
  | _ => false

/-- The role that a call will record for a topic under the server's lock. -/
def recording (topic : GoString) : RoleCall → Option TopicRole
  | .recordRole recorded role => if recorded = topic then some role else none
  | _ => none

/-- A call that changes the manager's cluster of a topic leaves those alone that have still to
record a role: it sets the same role, or there are none.
-/
def keepsApart (calls : List RoleCall) : RoleCall → Bool
  | .requested (.setTopicRole topic role _ _) =>
      calls.all (fun call => call.recording topic = none ∨ call.recording topic = some role)
  | .dropCluster topic => calls.all (fun call => call.recording topic = none)
  | _ => true

end RoleCall

namespace BrokerServer

def region (server : BrokerServer) (now : Int) : RoleCall → BrokerServer × RoleCall
  | .requested (.setTopicRole topic role followers leaderAddress) =>
      ({ server with
          raftManager := server.raftManager.setTopicRole topic role followers leaderAddress },
        .recordRole topic role)
  | .recordRole topic role =>
      ({ server with
          topics := server.topics.insert topic true
          topicRoles := server.topicRoles.insert topic role },
        .returned (.assigned topic))
  | .requested (.removeTopic topic reason) =>
      if !server.hasTopic topic then
        (server,
          .returned (.removed topic
            { success := false, errorMessage := lit "Topic不存在: " ++ topic }))
      else
        match server.wal.writeRemoveTopic (unix now) topic reason with
        | none => (server, .stuck)
        | some wal =>
            ({ server with
                wal
                topics := server.topics.erase topic
                topicRoles := server.topicRoles.erase topic
                fragmentMgr := server.fragmentMgr.closeTopic topic },
              .dropCluster topic)
  | .dropCluster topic =>
      ({ server with raftManager := server.raftManager.removeTopic topic },
        .returned (.removed topic { success := true, errorMessage := [] }))
  | .requested (.processMessage request) =>
      if !server.hasTopic request.topic then
        (server, .returned (.message (retry request (lit "Topic已被移除: " ++ request.topic))))
      else (server, .checkLeader request)
  | .checkLeader request =>
      if !server.raftManager.isLeader request.topic then
        (server,
          .returned (.message
            (retry request (lit "当前broker不是Topic " ++ request.topic ++ lit " 的leader"))))
      else
        ({ server with
            messageCounter := server.messageCounter + 1
            topics := server.topics.insert request.topic true },
          .noteRole request (server.messageCounter + 1))
  | .noteRole request messageID =>
      let noted := { server with
        topicRoles := server.topicRoles.insert request.topic
          (server.raftManager.getTopicRole request.topic) }
      match server.wal.writeMessage (unix now) request.topic messageID request.payload with
      | none => (noted, .stuck)
      | some wal => ({ noted with wal }, .propose request messageID)
  | .propose request messageID =>
      match server.raftManager.proposeMessage now request.topic messageID request.payload with
      | .error failure =>
          (server, .returned (.message (retry request (lit "Raft消息同步失败: " ++ failure))))
      | .ok raftManager =>
          let stored := server.fragmentMgr.storeMessage now request.topic messageID request.payload
          ({ server with raftManager, fragmentMgr := stored.1 },
            .returned (.message (storeResponse request messageID stored.2)))
  | .requested (.replay entry) =>
      if entry.type = 1 then
        match server.fragmentMgr.storeMessage now entry.topic entry.messageID entry.payload with
        | (_, some _) => (server, .returned .replayed)
        | (fragmentMgr, none) => ({ server with fragmentMgr }, .countEntry entry)
      else if entry.type = 2 then (server, .forgetEntry entry)
      else (server, .returned .replayed)
  | .countEntry entry =>
      ({ server with
          messageCounter :=
            if entry.messageID > server.messageCounter then entry.messageID
            else server.messageCounter
          topics := server.topics.insert entry.topic true },
        .noteEntry entry)
  | .noteEntry entry =>
      ({ server with
          topicRoles :=
            server.topicRoles.insert entry.topic (server.raftManager.getTopicRole entry.topic) },
        .returned .replayed)
  | .forgetEntry entry =>
      ({ server with
          topics := server.topics.erase entry.topic
          topicRoles := server.topicRoles.erase entry.topic },
        .closeEntry entry)
  | .closeEntry entry =>
      ({ server with fragmentMgr := server.fragmentMgr.closeTopic entry.topic },
        .returned .replayed)
  | .stuck => (server, .stuck)
  | .returned answer => (server, .returned answer)

def serve (server : BrokerServer) (now : Int) : TopicRequest → Option (BrokerServer × TopicAnswer)
  | .setTopicRole topic role followers leaderAddress =>
      some (server.setTopicRole topic role followers leaderAddress, .assigned topic)
  | .removeTopic topic reason =>
      (server.removeTopic now topic reason).map (fun result => (result.1, .removed topic result.2))
  | .processMessage request =>
      (server.processMessage now request).map (fun result => (result.1, .message result.2))
  | .replay entry => some ((replayEntry now server entry).1, .replayed)

def regions (now : Int) : Nat → BrokerServer × RoleCall → BrokerServer × RoleCall
  | 0, state => state
  | count + 1, state => regions now count (state.1.region now state.2)

def result? : BrokerServer × RoleCall → Option (BrokerServer × TopicAnswer)
  | (server, .returned answer) => some (server, answer)
  | _ => none

/-- A call whose regions nobody interrupts does what the server's own function does. -/
theorem result?_regions (server : BrokerServer) (now : Int) (request : TopicRequest)
    : result? (regions now 4 (server, .requested request)) = server.serve now request := by
  cases request with
  | setTopicRole topic role followers leaderAddress => rfl
  | removeTopic topic reason =>
      cases known : server.hasTopic topic with
      | false => simp [regions, region, result?, serve, removeTopic, known]
      | true =>
          cases logged : server.wal.writeRemoveTopic (unix now) topic reason with
          | none | some => simp [regions, region, result?, serve, removeTopic, known, logged]
  | processMessage request =>
      cases known : server.hasTopic request.topic with
      | false => simp [regions, region, result?, serve, processMessage, known]
      | true =>
          cases leads : server.raftManager.isLeader request.topic with
          | false => simp [regions, region, result?, serve, processMessage, known, leads]
          | true =>
              cases logged : server.wal.writeMessage (unix now) request.topic
                  (server.messageCounter + 1) request.payload with
              | none =>
                  simp [regions, region, result?, serve, processMessage, known, leads, logged]
              | some wal =>
                  cases proposed : server.raftManager.proposeMessage now request.topic
                      (server.messageCounter + 1) request.payload with
                  | error failure =>
                      simp [regions, region, result?, serve, processMessage, known, leads, logged,
                        proposed, logMessage]
                  | ok raftManager =>
                      simp [regions, region, result?, serve, processMessage, known, leads, logged,
                        proposed, logMessage]
  | replay entry =>
      by_cases message : entry.type = 1
      · cases failed : server.fragmentMgr.directoryError entry.topic with
        | some | none =>
            simp [regions, region, result?, serve, replayEntry, message,
              FragmentManager.storeMessage, failed]
      · by_cases removal : entry.type = 2
        · simp [regions, region, result?, serve, replayEntry, removal]
        · simp [regions, region, result?, serve, replayEntry, message, removal]

end BrokerServer

/-- The calls in the order they began, and of every topic whether the last completed `SetTopicRole`
or `RemoveTopic` was a `SetTopicRole`.
-/
structure RoleSystem where
  server : BrokerServer
  calls : List RoleCall
  lastSet : GoString → Bool

inductive RoleAction
  | start (request : TopicRequest)
  | advance (call : Nat)
  | electionTimeout (topic : GoString)
  | raftRequest (topic : GoString) (messageType : RaftMessageType) (payload : Json)

/-- What the end of a call leaves as the last completed call on its topic. -/
def RoleCall.noteEnd (lastSet : GoString → Bool) : RoleCall → GoString → Bool
  | .returned (.assigned topic) => update lastSet topic true
  | .returned (.removed topic _) => update lastSet topic false
  | _ => lastSet

namespace RoleSystem

/-- A call with a region to go waits as long as another call holds the lock it begins with. -/
def canRun (system : RoleSystem) (call : RoleCall) : Bool :=
  call.topic?.isSome && !(call.locks && system.calls.any RoleCall.holds)

def step (system : RoleSystem) : Int × RoleAction → RoleSystem
  | (_, .start request) => { system with calls := system.calls ++ [.requested request] }
  | (now, .advance i) =>
      match system.calls[i]? with
      | none => system
      | some call =>
          if system.canRun call then
            let result := system.server.region now call
            { server := result.1
              calls := system.calls.set i result.2
              lastSet := result.2.noteEnd system.lastSet }
          else system
  | (_, .electionTimeout topic) =>
      { system with
        server := { system.server with
          raftManager := system.server.raftManager.electionTimeout topic } }
  | (now, .raftRequest topic messageType payload) =>
      { system with server := system.server.handleRaftRequest now topic messageType payload }

def new (server : BrokerServer) : RoleSystem where
  server
  calls := []
  lastSet := fun _ => false

def Idle (system : RoleSystem) : Prop := ∀ call ∈ system.calls, call.finished = true

instance (system : RoleSystem) : Decidable system.Idle :=
  inferInstanceAs (Decidable (∀ call ∈ system.calls, call.finished = true))

/-- Every known topic has the manager's role, and every topic that was last set has a cluster. -/
structure Agrees (system : RoleSystem) : Prop where
  roles
    : ∀ topic, system.server.hasTopic topic
        → (system.server.topicRoles.lookup topic).getD .unspecified
          = system.server.raftManager.getTopicRole topic
  clusters
    : ∀ topic, system.lastSet topic
        → (system.server.raftManager.clusters.lookup topic).isSome

/-- The manager's cluster of a topic is neither given another role nor removed while a call has
still to record a role of the topic.
-/
def apart (system : RoleSystem) : Int × RoleAction → Bool
  | (_, .advance i) => (system.calls[i]?).all (RoleCall.keepsApart system.calls)
  | _ => true

end RoleSystem

/-- What the tables hold of a topic: is it known, the role noted for it, and its cluster's role. -/
structure TopicView where
  known : Bool
  noted : TopicRole
  assigned : Option TopicRole

def BrokerServer.view (server : BrokerServer) (topic : GoString) : TopicView where
  known := server.hasTopic topic
  noted := (server.topicRoles.lookup topic).getD .unspecified
  assigned := (server.raftManager.clusters.lookup topic).map TopicRaftCluster.role

theorem getTopicRole_eq_view (server : BrokerServer) (topic : GoString)
    : server.raftManager.getTopicRole topic = (server.view topic).assigned.getD .unspecified := by
  rw [RaftManager.getTopicRole, BrokerServer.view]
  cases server.raftManager.clusters.lookup topic with
  | none => rfl
  | some cluster => rfl

def RoleCall.writes (topic : GoString) : RoleCall → Bool
  | .recordRole recorded _ => recorded = topic
  | .noteRole request _ => request.topic = topic
  | .noteEntry entry => entry.topic = topic
  | _ => false

variable {call : RoleCall}

theorem RoleCall.topic?_of_writes (writes : call.writes topic = true)
    : call.topic? = some topic := by
  cases call with
  | recordRole | noteRole | noteEntry => exact congrArg some (of_decide_eq_true writes)
  | _ => cases writes

/-- A call that is neither about to write a role or to drop a cluster, nor the end of a call that
sets or removes a topic.
-/
def RoleCall.quiet : RoleCall → Bool
  | .recordRole _ _ | .noteRole _ _ | .noteEntry _ | .dropCluster _ => false
  | .returned (.assigned _) | .returned (.removed _ _) => false
  | _ => true

theorem RoleCall.writes_of_quiet (quiet : call.quiet = true)
    : call.writes topic = false := by
  cases call with
  | recordRole | noteRole | noteEntry => cases quiet
  | _ => rfl

theorem RoleCall.noteEnd_of_quiet (quiet : call.quiet = true) (lastSet : GoString → Bool)
    : call.noteEnd lastSet = lastSet := by
  cases call with
  | returned answer =>
      cases answer with
      | assigned | removed => cases quiet
      | message response => rfl
      | replayed => rfl
  | _ => rfl

theorem RoleCall.noteEnd_of_holds (holder : call.holds = true) (lastSet : GoString → Bool)
    : call.noteEnd lastSet = lastSet := by
  cases call with
  | returned answer => cases holder
  | _ => rfl

variable {next : RoleCall} {others : List RoleCall}

theorem RoleCall.ne_of_quiet (quiet : next.quiet = true) (loud : call.quiet = false)
    : next ≠ call :=
  fun same => Bool.false_ne_true (loud.symm.trans (same ▸ quiet))

/-- What a region does to the topic of its call. -/
inductive Moves (topic : GoString) : RoleCall → RoleCall → TopicView → TopicView → Prop
  | idle {call next view} (before : call.quiet) (after : next.quiet)
    : Moves topic call next view view
  | assign {role followers leaderAddress view}
      : Moves topic (.requested (.setTopicRole topic role followers leaderAddress))
          (.recordRole topic role) view { view with assigned := some role }
  | record {role view}
      : Moves topic (.recordRole topic role) (.returned (.assigned topic)) view
          { view with known := true, noted := role }
  | refuse {reason response view}
      : Moves topic (.requested (.removeTopic topic reason)) (.returned (.removed topic response))
          view view
  | remove {reason view}
      : Moves topic (.requested (.removeTopic topic reason)) (.dropCluster topic) view
          { view with known := false, noted := .unspecified }
  | drop {response view}
      : Moves topic (.dropCluster topic) (.returned (.removed topic response)) view
          { view with assigned := none }
  | count {call next view} (before : call.quiet) (alone : call.locks ∨ call.holds)
      (after : next.writes topic) (holder : next.holds)
      : Moves topic call next view { view with known := true }
  | note {call next view} (holder : call.holds) (after : next.quiet)
      : Moves topic call next view { view with noted := view.assigned.getD .unspecified }
  | forget {call next view} (before : call.quiet) (alone : call.locks) (after : next.quiet)
      : Moves topic call next view { view with known := false, noted := .unspecified }

/-- A region of a call on a topic: what it does to the topic, that it does nothing to others, and
who holds the lock.
-/
structure Region (topic : GoString) (call next : RoleCall) (server changed : BrokerServer)
    : Prop where
  own : Moves topic call next (server.view topic) (changed.view topic)
  others : ∀ other, other ≠ topic → changed.view other = server.view other
  about : next.topic? = some topic ∨ next.topic? = none
  holder : next.holds = true → call.locks = true ∨ call.holds = true

/-- A call that does not hold the server's lock needs no reason to hold it. -/
theorem RoleCall.free (released : next.holds = false) (holder : next.holds = true)
    : call.locks = true ∨ call.holds = true :=
  absurd (released.symm.trans holder) Bool.false_ne_true

theorem Region.idle {server changed : BrokerServer} (before : call.quiet) (after : next.quiet)
    (same : ∀ other, changed.view other = server.view other)
    (about : next.topic? = some topic ∨ next.topic? = none)
    (holder : next.holds = true → call.locks = true ∨ call.holds = true)
    : Region topic call next server changed where
  own := (same topic).symm ▸ .idle before after
  others := fun other _ => same other
  about
  holder

theorem Region.change {server changed : BrokerServer} {after : TopicView}
    (moves : Moves topic call next (server.view topic) after) (own : changed.view topic = after)
    (others : ∀ other, other ≠ topic → changed.view other = server.view other)
    (about : next.topic? = some topic ∨ next.topic? = none)
    (holder : next.holds = true → call.locks = true ∨ call.holds = true)
    : Region topic call next server changed where
  own := own ▸ moves
  others
  about
  holder

namespace BrokerServer

variable {server : BrokerServer} {now : Int} {call : RoleCall} {topic : GoString}

/-- A proposal changes no table. -/
theorem view_proposed {raftManager : RaftManager} {request : MessageRequest} {messageID : UInt64}
    (proposed
      : server.raftManager.proposeMessage now request.topic messageID request.payload
        = .ok raftManager)
    (fragmentMgr : FragmentManager) (topic : GoString)
    : { server with raftManager, fragmentMgr }.view topic = server.view topic := by
  have called := @RaftManager.CallsNode.proposeMessage server.raftManager now request.topic
    messageID request.payload
  simp only [RaftManager.step, proposed] at called
  exact congrArg (TopicView.mk _ _) (called.role topic)

theorem region_requested {request : TopicRequest}
    (own : (RoleCall.requested request).topic? = some topic)
    : Region topic (.requested request) (server.region now (.requested request)).2 server
        (server.region now (.requested request)).1 := by
  cases request with
  | setTopicRole target role followers leaderAddress =>
      cases own
      refine .change .assign ?_ (fun other apart => ?_) (Or.inl rfl) (RoleCall.free rfl)
      · simp [region, view, hasTopic, RaftManager.setTopicRole]
      · simp [region, view, hasTopic, RaftManager.setTopicRole, AList.lookup_insert_ne apart]
  | removeTopic target reason =>
      cases own
      simp only [region]
      cases server.hasTopic topic with
      | false => exact ⟨.refuse, fun _ _ => rfl, Or.inr rfl, RoleCall.free rfl⟩
      | true =>
          cases server.wal.writeRemoveTopic (unix now) topic reason with
          | none => exact .idle rfl rfl (fun _ => rfl) (Or.inr rfl) (fun _ => Or.inl rfl)
          | some wal =>
              refine .change .remove ?_ (fun other apart => ?_) (Or.inl rfl) (fun _ => Or.inl rfl)
              · simp [view, hasTopic]
              · simp [view, hasTopic, AList.lookup_erase_ne apart]
  | processMessage request =>
      simp only [region]
      cases server.hasTopic request.topic with
      | false => exact .idle rfl rfl (fun _ => rfl) (Or.inr rfl) (RoleCall.free rfl)
      | true => exact .idle rfl rfl (fun _ => rfl) (Or.inl own) (fun _ => Or.inl rfl)
  | replay entry =>
      simp only [region]
      by_cases message : entry.type = 1
      · rw [if_pos message]
        rcases server.fragmentMgr.storeMessage now entry.topic entry.messageID entry.payload with
          ⟨fragmentMgr, _ | failure⟩
        · exact .idle rfl rfl (fun _ => rfl) (Or.inl own) (RoleCall.free rfl)
        · exact .idle rfl rfl (fun _ => rfl) (Or.inr rfl) (RoleCall.free rfl)
      · rw [if_neg message]
        by_cases removal : entry.type = 2
        · rw [if_pos removal]
          exact .idle rfl rfl (fun _ => rfl) (Or.inl own) (RoleCall.free rfl)
        · rw [if_neg removal]
          exact .idle rfl rfl (fun _ => rfl) (Or.inr rfl) (RoleCall.free rfl)

theorem region_spec (server : BrokerServer) (now : Int) (own : call.topic? = some topic)
    : Region topic call (server.region now call).2 server (server.region now call).1 := by
  cases call with
  | requested request => exact region_requested own
  | recordRole target role =>
      cases own
      refine .change .record ?_ (fun other apart => ?_) (Or.inr rfl) (RoleCall.free rfl)
      · simp [region, view, hasTopic]
      · simp [region, view, hasTopic, AList.lookup_insert_ne apart]
  | dropCluster target =>
      cases own
      refine .change .drop ?_ (fun other apart => ?_) (Or.inr rfl) (RoleCall.free rfl)
      · simp [region, view, hasTopic, RaftManager.removeTopic]
      · simp [region, view, hasTopic, RaftManager.removeTopic, AList.lookup_erase_ne apart]
  | checkLeader request =>
      cases own
      simp only [region]
      cases server.raftManager.isLeader request.topic with
      | false => exact .idle rfl rfl (fun _ => rfl) (Or.inr rfl) (RoleCall.free rfl)
      | true =>
          refine .change (.count rfl (Or.inr rfl) (decide_eq_true rfl) rfl) ?_
            (fun other apart => ?_) (Or.inl rfl) (fun _ => Or.inr rfl)
          · simp [view, hasTopic]
          · simp [view, hasTopic, AList.lookup_insert_ne apart]
  | noteRole request messageID =>
      cases own
      simp only [region]
      cases server.wal.writeMessage (unix now) request.topic messageID request.payload with
      | none =>
          refine .change (.note rfl rfl) ?_ (fun other apart => ?_) (Or.inr rfl)
            (fun _ => Or.inr rfl)
          · rw [← getTopicRole_eq_view]
            simp [view, hasTopic]
          · simp [view, hasTopic, AList.lookup_insert_ne apart]
      | some wal =>
          refine .change (.note rfl rfl) ?_ (fun other apart => ?_) (Or.inl rfl)
            (fun _ => Or.inr rfl)
          · rw [← getTopicRole_eq_view]
            simp [view, hasTopic]
          · simp [view, hasTopic, AList.lookup_insert_ne apart]
  | propose request messageID =>
      simp only [region]
      cases proposed : server.raftManager.proposeMessage now request.topic messageID
          request.payload with
      | error failure => exact .idle rfl rfl (fun _ => rfl) (Or.inr rfl) (RoleCall.free rfl)
      | ok raftManager =>
          exact .idle rfl rfl (view_proposed proposed _) (Or.inr rfl) (RoleCall.free rfl)
  | countEntry entry =>
      cases own
      refine .change (.count rfl (Or.inl rfl) (decide_eq_true rfl) rfl) ?_
        (fun other apart => ?_) (Or.inl rfl) (fun _ => Or.inl rfl)
      · simp [region, view, hasTopic]
      · simp [region, view, hasTopic, AList.lookup_insert_ne apart]
  | noteEntry entry =>
      cases own
      refine .change (.note rfl rfl) ?_ (fun other apart => ?_) (Or.inr rfl) (RoleCall.free rfl)
      · rw [← getTopicRole_eq_view]
        simp [region, view, hasTopic]
      · simp [region, view, hasTopic, AList.lookup_insert_ne apart]
  | forgetEntry entry =>
      cases own
      refine .change (.forget rfl rfl rfl) ?_ (fun other apart => ?_) (Or.inl rfl)
        (RoleCall.free rfl)
      · simp [region, view, hasTopic]
      · simp [region, view, hasTopic, AList.lookup_erase_ne apart]
  | closeEntry entry => exact .idle rfl rfl (fun _ => rfl) (Or.inr rfl) (RoleCall.free rfl)
  | stuck => cases own
  | returned answer => cases own

end BrokerServer

theorem Moves.noteEnd_other {other : GoString} {view after : TopicView}
    (moves : Moves topic call next view after) (apart : other ≠ topic) (lastSet : GoString → Bool)
    : next.noteEnd lastSet other = lastSet other := by
  cases moves with
  | idle _ quiet => rw [RoleCall.noteEnd_of_quiet quiet]
  | assign => rfl
  | remove => rfl
  | count _ _ _ holder => rw [RoleCall.noteEnd_of_holds holder]
  | note _ quiet => rw [RoleCall.noteEnd_of_quiet quiet]
  | forget _ _ quiet => rw [RoleCall.noteEnd_of_quiet quiet]
  | _ => exact update_of_ne apart _ _

/-! The invariant of a topic. -/

/-- The tables of a topic fit together, up to what the calls in progress have still to write. -/
structure Settled (topic : GoString) (view : TopicView) (lastSet : Bool) (calls : List RoleCall)
    : Prop where
  recording : ∀ role, .recordRole topic role ∈ calls → view.assigned = some role
  noted
    : view.known = true
      → view.noted = view.assigned.getD .unspecified ∨ ∃ call ∈ calls, call.writes topic = true
  removing : .dropCluster topic ∈ calls → view.known = false
  held : lastSet = true → view.assigned.isSome

namespace Settled

variable {topic : GoString} {view after : TopicView} {lastSet : Bool} {call next : RoleCall}
  {calls others : List RoleCall}

theorem perm (h : Settled topic view lastSet calls) (same : calls.Perm others)
    : Settled topic view lastSet others where
  recording := fun role member => h.recording role (same.mem_iff.mpr member)
  noted := fun known => (h.noted known).imp_right
    (fun ⟨call, member, writes⟩ => ⟨call, same.mem_iff.mp member, writes⟩)
  removing := fun member => h.removing (same.mem_iff.mpr member)
  held := h.held

section Others

variable (h : Settled topic view lastSet (call :: others))
include h

theorem recording_others (role : TopicRole) (apart : next ≠ .recordRole topic role)
    (member : .recordRole topic role ∈ next :: others)
    : view.assigned = some role :=
  h.recording role (mem_cons_of_mem _ ((mem_cons.mp member).resolve_left apart.symm))

theorem removing_others (apart : next ≠ .dropCluster topic)
    (member : .dropCluster topic ∈ next :: others)
    : view.known = false :=
  h.removing (mem_cons_of_mem _ ((mem_cons.mp member).resolve_left apart.symm))

theorem noted_others (silent : call.writes topic = false) (known : view.known = true)
    : view.noted = view.assigned.getD .unspecified
      ∨ ∃ writer ∈ next :: others, writer.writes topic = true := by
  refine (h.noted known).imp_right (fun ⟨writer, member, writes⟩ => ?_)
  rcases mem_cons.mp member with rfl | later
  · exact absurd (silent.symm.trans writes) Bool.false_ne_true
  · exact ⟨writer, mem_cons_of_mem _ later, writes⟩

/-- A call on another topic does not matter. -/
theorem frame (before : call.topic? ≠ some topic) (after : next.topic? ≠ some topic)
    : Settled topic view lastSet (next :: others) where
  recording := fun role => h.recording_others role (fun same => after (same ▸ rfl))
  noted := h.noted_others
    (Bool.eq_false_iff.mpr (fun writes => before (RoleCall.topic?_of_writes writes)))
  removing := h.removing_others (fun same => after (same ▸ rfl))
  held := h.held

end Others

/-- A call that begins has written nothing. -/
theorem requested (h : Settled topic view lastSet calls) (request : TopicRequest)
    : Settled topic view lastSet (.requested request :: calls) where
  recording := fun role member => h.recording role ((mem_cons.mp member).resolve_left nofun)
  noted := fun known => (h.noted known).imp_right
    (fun ⟨call, member, writes⟩ => ⟨call, mem_cons_of_mem _ member, writes⟩)
  removing := fun member => h.removing ((mem_cons.mp member).resolve_left nofun)
  held := h.held

/-- What a call may do to its topic while others have still to record a role. -/
def Allowed (topic : GoString) (others : List RoleCall) : RoleCall → Prop
  | .requested (.setTopicRole _ role _ _) =>
      ∀ recorded, .recordRole topic recorded ∈ others → recorded = role
  | .dropCluster _ => ∀ recorded, .recordRole topic recorded ∉ others
  | _ => True

/-- Every region keeps the invariant of its topic, by the kind of the region. -/
theorem move {lastSet : GoString → Bool} (h : Settled topic view (lastSet topic) (call :: others))
    (moves : Moves topic call next view after) (allowed : Allowed topic others call)
    (alone : call.locks = true ∨ call.holds = true → ∀ other ∈ others, other.holds = false)
    : Settled topic after (next.noteEnd lastSet topic) (next :: others) := by
  have held (same : next.noteEnd lastSet = lastSet) (last : next.noteEnd lastSet topic = true)
      : view.assigned.isSome := h.held (same ▸ last)
  cases moves with
  | idle before after =>
      exact ⟨fun role => h.recording_others role (RoleCall.ne_of_quiet after rfl),
        h.noted_others (RoleCall.writes_of_quiet before),
        h.removing_others (RoleCall.ne_of_quiet after rfl),
        held (RoleCall.noteEnd_of_quiet after _)⟩
  | @assign role followers leaderAddress =>
      refine ⟨fun recorded member => ?_, fun _ => ?_, h.removing_others nofun, fun _ => rfl⟩
      · rcases mem_cons.mp member with same | later
        · cases same
          rfl
        · exact congrArg some (allowed recorded later).symm
      · exact Or.inr ⟨_, mem_cons_self, decide_eq_true rfl⟩
  | @record role =>
      have assigned := h.recording role mem_cons_self
      refine ⟨fun recorded => h.recording_others recorded nofun, fun _ => Or.inl ?_,
        fun member => ?_, fun _ => ?_⟩
      · rw [assigned]
        rfl
      · -- a removal in progress would hold the lock
        have holder := alone (Or.inl rfl) _ ((mem_cons.mp member).resolve_left nofun)
        cases holder
      · rw [assigned]
        rfl
  | refuse =>
      refine ⟨fun role => h.recording_others role nofun, h.noted_others rfl,
        h.removing_others nofun, fun last => ?_⟩
      rw [RoleCall.noteEnd, update_self] at last
      cases last
  | remove =>
      exact ⟨fun role => h.recording_others role nofun, nofun, fun _ => rfl, h.held⟩
  | drop =>
      have unknown := h.removing mem_cons_self
      refine ⟨fun role member => ?_, fun known => ?_, fun _ => unknown, fun last => ?_⟩
      · exact absurd ((mem_cons.mp member).resolve_left nofun) (allowed role)
      · rw [unknown] at known
        cases known
      · rw [RoleCall.noteEnd, update_self] at last
        cases last
  | count before locked writes holder =>
      refine ⟨fun role => h.recording_others role (fun same => ?_), fun _ => ?_, fun member => ?_,
        held (RoleCall.noteEnd_of_holds holder _)⟩
      · rw [same] at holder
        cases holder
      · exact Or.inr ⟨next, mem_cons_self, writes⟩
      · rcases mem_cons.mp member with rfl | later
        · cases writes
        · -- a removal in progress would hold the lock
          cases alone locked _ later
  | note holder after =>
      exact ⟨fun role => h.recording_others role (RoleCall.ne_of_quiet after rfl),
        fun _ => Or.inl rfl, h.removing_others (RoleCall.ne_of_quiet after rfl),
        held (RoleCall.noteEnd_of_quiet after _)⟩
  | forget before locked after =>
      exact ⟨fun role => h.recording_others role (RoleCall.ne_of_quiet after rfl), nofun,
        fun _ => rfl, held (RoleCall.noteEnd_of_quiet after _)⟩

end Settled

/-- What the Raft nodes do by themselves changes no table. -/
theorem BrokerServer.view_handleRaftRequest (server : BrokerServer) (now : Int) (target : GoString)
    (messageType : RaftMessageType) (payload : Json) (topic : GoString)
    : (server.handleRaftRequest now target messageType payload).view topic
      = server.view topic := by
  rw [BrokerServer.handleRaftRequest]
  cases deserializeRaftMessage messageType payload with
  | error failure => rfl
  | ok message =>
      simp only
      cases handled : server.raftManager.handleRaftMessage target message with
      | error failure => rfl
      | ok result =>
          cases called : message.nodeCall with
          | none =>
              -- a command is no message of the Raft protocol
              cases message <;> cases called
              unfold RaftManager.handleRaftMessage at handled
              cases found : server.raftManager.clusters.lookup target with
              | none | some => simp [found] at handled
          | some nodeCall =>
              have calls := RaftManager.CallsNode.handleRaftMessage server.raftManager target called
              simp only [handled] at calls
              exact congrArg (TopicView.mk _ _) (calls.role topic)

namespace RoleSystem

/-- At most one call holds the server's lock, and every topic is settled. -/
structure Consistent (system : RoleSystem) : Prop where
  exclusive : system.calls.countP RoleCall.holds ≤ 1
  settled
    : ∀ topic, Settled topic (system.server.view topic) (system.lastSet topic) system.calls

variable {system : RoleSystem}

/-- Who begins with the server's lock or has it is alone with it. -/
theorem alone_of_canRun (exclusive : system.calls.countP RoleCall.holds ≤ 1)
    (pool : system.calls.Perm (call :: others)) (runs : system.canRun call = true)
    (locked : call.locks = true ∨ call.holds = true)
    : ∀ other ∈ others, other.holds = false := by
  intro other member
  rcases locked with locks | holds
  · have free : system.calls.any RoleCall.holds = false := by
      simpa [canRun, locks] using (Bool.and_eq_true_iff.mp runs).2
    have inPool := pool.mem_iff.mpr (mem_cons_of_mem call member)
    exact Bool.eq_false_iff.mpr (any_eq_false.mp free other inPool)
  · rw [pool.countP_eq, countP_cons_of_pos holds] at exclusive
    have none : others.countP RoleCall.holds = 0 := by omega
    exact Bool.eq_false_iff.mpr (countP_eq_zero.mp none other member)

theorem allowed_of_keepsApart (apart : call.keepsApart system.calls = true)
    (own : call.topic? = some topic) (pool : system.calls.Perm (call :: others))
    : Settled.Allowed topic others call := by
  have recording (role : TopicRole)
      : (RoleCall.recordRole topic role).recording topic = some role := if_pos rfl
  cases call with
  | requested request =>
      cases request with
      | setTopicRole target role followers leaderAddress =>
          cases own
          intro recorded member
          have inPool := pool.mem_iff.mpr (mem_cons_of_mem _ member)
          rcases of_decide_eq_true (all_eq_true.mp apart _ inPool) with none | same
          · rw [recording] at none
            cases none
          · rw [recording] at same
            exact Option.some.inj same
      | _ => trivial
  | dropCluster target =>
      cases own
      intro recorded member
      have inPool := pool.mem_iff.mpr (mem_cons_of_mem _ member)
      have none := of_decide_eq_true (all_eq_true.mp apart _ inPool)
      rw [recording] at none
      cases none
  | _ => trivial

theorem Consistent.advance (h : system.Consistent) {now : Int} {i : Nat}
    (apart : system.apart (now, .advance i) = true)
    : (system.step (now, .advance i)).Consistent := by
  rw [step]
  cases found : system.calls[i]? with
  | none => exact h
  | some call =>
      simp only
      by_cases runs : system.canRun call = true
      · rw [if_pos runs]
        obtain ⟨topic, own⟩ := Option.isSome_iff_exists.mp (Bool.and_eq_true_iff.mp runs).1
        obtain ⟨others, pool, replaced⟩ := Pool.exists_others found
        have alone := alone_of_canRun h.exclusive pool runs
        have region := system.server.region_spec now own
        refine ⟨?_, fun other => ?_⟩
        · rw [(replaced _).countP_eq]
          by_cases holder : (system.server.region now call).2.holds = true
          · have none := countP_eq_zero.mpr (fun other member held =>
              Bool.false_ne_true ((alone (region.holder holder) other member).symm.trans held))
            rw [countP_cons_of_pos holder, none]
          · rw [countP_cons_of_neg holder]
            have before := h.exclusive
            rw [pool.countP_eq, countP_cons] at before
            omega
        · have settled := (h.settled other).perm pool
          refine Settled.perm ?_ (replaced _).symm
          by_cases same : other = topic
          · subst same
            rw [RoleSystem.apart, found] at apart
            exact settled.move region.own (allowed_of_keepsApart apart own pool) alone
          · have before : call.topic? ≠ some other := fun about =>
              same (Option.some.inj (about.symm.trans own))
            have after : (system.server.region now call).2.topic? ≠ some other := by
              intro about
              rcases region.about with here | nowhere
              · exact same (Option.some.inj (about.symm.trans here))
              · rw [nowhere] at about
                cases about
            have framed := settled.frame before after
            rw [← region.others other same,
              ← region.own.noteEnd_other same system.lastSet] at framed
            exact framed
      · rw [if_neg runs]
        exact h

/-- A step that keeps apart what has still to be recorded keeps the tables consistent. -/
theorem Consistent.step (h : system.Consistent) {action : Int × RoleAction}
    (apart : system.apart action = true)
    : (system.step action).Consistent := by
  obtain ⟨now, action⟩ := action
  cases action with
  | start request =>
      have appended := (perm_append_singleton (.requested request) system.calls).symm
      refine ⟨?_, fun topic => ((h.settled topic).requested request).perm appended⟩
      rw [RoleSystem.step, ← appended.countP_eq, countP_cons_of_neg Bool.false_ne_true]
      exact h.exclusive
  | advance i => exact h.advance apart
  | electionTimeout topic =>
      refine ⟨h.exclusive, fun other => ?_⟩
      have same :=
        (@RaftManager.CallsNode.electionTimeout system.server.raftManager topic).role other
      have settled := h.settled other
      rw [BrokerServer.view, ← same] at settled
      exact settled
  | raftRequest topic messageType payload =>
      refine ⟨h.exclusive, fun other => ?_⟩
      have same := system.server.view_handleRaftRequest now topic messageType payload other
      exact same.symm ▸ h.settled other

theorem Consistent.agrees (h : system.Consistent) (idle : system.Idle) : system.Agrees where
  roles := by
    intro topic known
    rw [getTopicRole_eq_view]
    rcases (h.settled topic).noted known with agree | ⟨call, member, writes⟩
    · exact agree
    · have about := RoleCall.topic?_of_writes writes
      have finished := idle call member
      cases call with
      | returned answer => cases about
      | _ => cases finished
  clusters := by
    intro topic last
    have held := (h.settled topic).held last
    rwa [BrokerServer.view, Option.isSome_map] at held

theorem Consistent.new (brokerID dataDir : GoString) (disk : FileStore.Disk GoString)
    (files : List (Nat × Bytes)) (now : Int)
    : (new (.fresh brokerID dataDir disk files now)).Consistent where
  exclusive := Nat.zero_le 1
  settled := fun _ => {
    recording := nofun
    noted := nofun
    removing := nofun
    held := nofun
  }

/-- In every run from a new server in which no cluster is given another role or removed while a
call has still to record a role of its topic, the tables agree whenever no call is in progress.
-/
theorem tables_agree_of_apart (brokerID dataDir : GoString) (disk : FileStore.Disk GoString)
    (files : List (Nat × Bytes)) (now : Int) {actions : List (Int × RoleAction)}
    (apart
      : AllSteps step (fun system action => system.apart action)
          (new (.fresh brokerID dataDir disk files now)) actions)
    : ∀ visited ∈ actions.scanl step (new (.fresh brokerID dataDir disk files now)),
        visited.Idle → visited.Agrees := by
  intro visited member idle
  have keep (system : RoleSystem) (action : Int × RoleAction) (allowed : system.apart action = true)
      (h : system.Consistent)
      : (system.step action).Consistent := h.step allowed
  have consistent := AllSteps.always keep (Consistent.new brokerID dataDir disk files now) apart
  exact (consistent visited member).agrees idle

def newServer : RoleSystem := new (.fresh (lit "b") (lit "data") .empty [] 0)

def setLeader : TopicRequest := .setTopicRole (lit "t") .leader [lit "f:1"] (lit "b:1")

/-- A topic is set, and set again while a message is processed; then it is removed. -/
def setTwice : List (Int × RoleAction) :=
  [(0, .start setLeader), (0, .advance 0), (0, .advance 0),
    (1, .start (.processMessage { topic := lit "t", payload := [7], messageID := 0 })),
    (1, .advance 1), (1, .start setLeader), (1, .advance 1), (1, .advance 2), (1, .advance 2),
    (1, .advance 1), (1, .advance 1), (1, .advance 2),
    (2, .start (.removeTopic (lit "t") [])), (2, .advance 3), (2, .advance 3)]

theorem tables_agree_setTwice
    : (setTwice.foldl step newServer).Idle
      ∧ ∀ visited ∈ setTwice.scanl step newServer, visited.Idle → visited.Agrees :=
  ⟨by decide +kernel,
    tables_agree_of_apart (lit "b") (lit "data") .empty [] 0 (by decide +kernel)⟩

/-- A topic is set again, and removed between the two regions of that call. -/
def removedBetween : List (Int × RoleAction) :=
  [(0, .start setLeader), (0, .advance 0), (0, .advance 0),
    (1, .start setLeader), (1, .advance 1),
    (1, .start (.removeTopic (lit "t") [])), (1, .advance 2), (1, .advance 2),
    (1, .advance 1)]

/-- The broker then has a topic that it leads, and the manager has no cluster of it. -/
theorem not_tables_agree_removedBetween
    : (removedBetween.foldl step newServer).server.hasTopic (lit "t") = true
      ∧ (removedBetween.foldl step newServer).server.topicRoles.lookup (lit "t") = some .leader
      ∧ (removedBetween.foldl step newServer).lastSet (lit "t") = true
      ∧ (removedBetween.foldl step newServer).server.raftManager.clusters.keys = []
      ∧ ¬∀ visited ∈ removedBetween.scanl step newServer, visited.Idle → visited.Agrees := by
  have known : (removedBetween.foldl step newServer).server.hasTopic (lit "t") = true := by
    decide +kernel
  refine ⟨known, by decide +kernel, by decide +kernel, by decide +kernel, fun always => ?_⟩
  have agrees := always _ (foldl_mem_scanl step newServer removedBetween) (by decide +kernel)
  exact absurd (agrees.roles (lit "t") known) (by decide +kernel)

end RoleSystem

end Goulette.Broker
