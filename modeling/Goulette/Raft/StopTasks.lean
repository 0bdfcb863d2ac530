import Goulette.Library.Pool
import Goulette.Raft.ManagerRuns

/-! The locks of the Raft manager and the tasks of its nodes. A call that changes the clusters holds
`rm.mu` while `Stop` waits for the run loop and the send tasks, which take `rm.mu` for reading.
A region that only reads is one step that needs the lock to be free of writers.
-/

namespace Goulette.Raft

open Goulette.Go Goulette.Storage Runs ByteFrames List

/-- Where the run loop is: before it looks at the stop signal, in its turn, or out. -/
inductive LoopPhase
  | top
  | inside
  | returned
deriving DecidableEq

/-- A goroutine that sends to a peer, before the manager's lock or past it. -/
structure SendThread where
  peerID : GoString
  past : Bool
deriving DecidableEq

/-- A node with its stop signal and the goroutines that its wait group counts. -/
structure LiveNode where
  topic : GoString
  node : RaftNode Command
  stopped : Bool
  loop : LoopPhase
  tasks : List SendThread

namespace LiveNode

def start (topic : GoString) (node : RaftNode Command) : LiveNode where
  topic
  node
  stopped := false
  loop := .top
  tasks := []

def spawn (live : LiveNode) (node : RaftNode Command) : LiveNode :=
  { live with
    node
    tasks := live.tasks ++ node.peerIDs.map (fun peerID => { peerID, past := false }) }

/-- Does a turn of the run loop start tasks? A leader sends heartbeats; the others start an election
if their timer fires, even if the stop signal is there too.
-/
def turnStarts (live : LiveNode) (fires : Bool) : Bool :=
  live.loop = .inside && (live.node.state = .leader || fires)

def turn (live : LiveNode) (fires : Bool) : LiveNode :=
  match live.loop with
  | .top => { live with loop := if live.stopped then .returned else .inside }
  | .inside =>
      if live.node.state = .leader then { live.spawn live.node with loop := .top }
      else if fires then { live.spawn live.node.startElection with loop := .top }
      else { live with loop := .top }
  | .returned => live

def callStarts (live : LiveNode) : NodeCall Command → Bool
  | .startElection => true
  | .propose _ => live.node.state = .leader
  | .requestVoteResponse peerID response =>
      (live.node.handleRequestVoteResponse peerID response).2
  | .requestVote _ | .appendEntries _ | .appendEntriesResponse _ _ => false

def call (live : LiveNode) (call : NodeCall Command) : LiveNode :=
  if live.callStarts call then live.spawn (live.node.call call).1
  else { live with node := (live.node.call call).1 }

def endTask (live : LiveNode) (i : Nat) : LiveNode :=
  if (live.tasks[i]?).any SendThread.past then { live with tasks := live.tasks.eraseIdx i }
  else live

def waitOver (live : LiveNode) : Bool := live.loop = .returned && live.tasks.isEmpty

def beforeLock (live : LiveNode) : Bool := live.tasks.any (fun task => !task.past)

theorem beforeLock_spawn (live : LiveNode) (node : RaftNode Command)
    : (live.spawn node).beforeLock = (live.beforeLock || !node.peerIDs.isEmpty) := by
  rw [beforeLock, beforeLock, spawn, any_append, any_map]
  cases node.peerIDs with
  | nil => rfl
  | cons first rest => rfl

theorem beforeLock_turn (live : LiveNode) (fires : Bool)
    : (live.turn fires).beforeLock
      = (live.beforeLock || (live.turnStarts fires && !live.node.peerIDs.isEmpty)) := by
  rw [turn, turnStarts]
  cases live.loop with
  | top => simp [beforeLock]
  | inside =>
      by_cases leads : live.node.state = .leader
      · simp only [leads, if_true, decide_true, Bool.true_or, Bool.true_and]
        exact live.beforeLock_spawn live.node
      · cases fires with
        | false => simp [leads, beforeLock]
        | true =>
            simp only [leads, if_true, if_false, decide_true, Bool.or_true, Bool.true_and]
            exact live.beforeLock_spawn live.node.startElection
  | returned => simp [beforeLock]

theorem beforeLock_call (live : LiveNode) (nodeCall : NodeCall Command)
    : (live.call nodeCall).beforeLock
      = (live.beforeLock || (live.callStarts nodeCall && !live.node.peerIDs.isEmpty)) := by
  have peers : (live.node.call nodeCall).1.peerIDs = live.node.peerIDs := by
    have later := RaftNode.Successor.call live.node nodeCall
    rw [RaftNode.peerIDs, RaftNode.peerIDs, later.peers, later.nodeID]
  rw [call]
  by_cases starts : live.callStarts nodeCall = true
  · rw [if_pos starts, beforeLock_spawn, peers, starts, Bool.true_and]
  · rw [if_neg starts, Bool.eq_false_iff.mpr starts, Bool.false_and, Bool.or_false]
    rfl

/-- When a task ends behind the lock, those before it stay. -/
theorem beforeLock_endTask (live : LiveNode) (i : Nat)
    : (live.endTask i).beforeLock = live.beforeLock := by
  rw [endTask]
  cases found : live.tasks[i]? with
  | none => rfl
  | some task =>
      rw [Option.any_some]
      cases past : task.past with
      | false => rfl
      | true =>
          obtain ⟨before, after, place, split, _⟩ := Pool.exists_split found
          rw [if_pos rfl, beforeLock, beforeLock, split, ← place,
            eraseIdx_append_of_length_le le_rfl]
          simp [past]

end LiveNode

/-- The manager's record of a topic, with a reference to its node. -/
structure ClusterRef where
  raftNode : Nat
  role : TopicRole
deriving DecidableEq

/-- The calls that hold the lock for writing. Closing goes through the topics in any order. -/
inductive WriteCall
  | setTopicRole (topic : GoString) (role : TopicRole) (followers : List GoString)
      (leaderAddr : GoString)
  | removeTopic (topic : GoString)
  | close (order : List GoString)
deriving DecidableEq

/-- A call that holds the lock and waits in `Stop` for a node, with the nodes to stop after it. -/
structure Writer where
  call : WriteCall
  stopping : Nat
  rest : List Nat
deriving DecidableEq

/-- The calls that read the clusters and then use a node. -/
inductive ReadCall
  | proposeMessage (now : Int) (topic : GoString) (messageID : UInt64) (payload : Bytes)
  | handleRaftMessage (topic : GoString) (message : RaftMessage)

/-- All nodes that were ever made, who holds `rm.mu` for writing, and the calls that have read their
node and not used it yet.
-/
structure ManagerSystem where
  brokerID : GoString
  clusters : GoMap GoString ClusterRef
  nodes : List LiveNode
  writer : Option Writer
  found : List (Nat × NodeCall Command)

inductive ManagerAction
  | lock (call : WriteCall)
  | waited
  | turn (node : Nat) (fires : Bool)
  | find (call : ReadCall)
  | use (call : Nat)
  | pass (node task : Nat)
  | sent (node task : Nat)

namespace ManagerSystem

def new (brokerID : GoString) : ManagerSystem where
  brokerID
  clusters := ∅
  nodes := []
  writer := none
  found := []

def toStop (system : ManagerSystem) : WriteCall → List Nat
  | .setTopicRole topic _ _ _ | .removeTopic topic =>
      ((system.clusters.lookup topic).map ClusterRef.raftNode).toList
  | .close order =>
      order.filterMap (fun topic => (system.clusters.lookup topic).map ClusterRef.raftNode)

/-- Closing meets every topic once. -/
def possible (system : ManagerSystem) : WriteCall → Bool
  | .close order => order.isPerm system.clusters.keys
  | _ => true

/-- The rest of a call after all waiting, up to the release of the lock. -/
def finish (system : ManagerSystem) : WriteCall → ManagerSystem
  | .setTopicRole topic role followers leaderAddr =>
      { system with
        nodes := system.nodes ++ [.start topic
          (newRaftNode system.brokerID (RaftManager.rolePeers role followers leaderAddr))]
        clusters := system.clusters.insert topic { raftNode := system.nodes.length, role }
        writer := none }
  | .removeTopic topic =>
      { system with clusters := system.clusters.erase topic, writer := none }
  | .close _ => { system with clusters := ∅, writer := none }

/-- The next node gets the stop signal and is waited for; after the last one the call goes on. -/
def stopNext (system : ManagerSystem) (call : WriteCall) : List Nat → ManagerSystem
  | [] => system.finish call
  | ref :: rest =>
      { system with
        nodes := system.nodes.modify ref (fun live => { live with stopped := true })
        writer := some { call, stopping := ref, rest } }

def findNode (system : ManagerSystem) : ReadCall → Option (Nat × NodeCall Command)
  | .proposeMessage now topic messageID payload =>
      match system.clusters.lookup topic with
      | none => none
      | some cluster =>
          if cluster.role ≠ .leader then none
          else
            some (cluster.raftNode,
              .propose (.message { topic, messageID, payload, timestamp := unix now }))
  | .handleRaftMessage topic message =>
      match system.clusters.lookup topic with
      | none => none
      | some cluster => message.nodeCall.map (fun call => (cluster.raftNode, call))

/-- A task at its lock: it ends if the topic or the peer is gone, and otherwise begins to send. -/
def passLock (system : ManagerSystem) (live : LiveNode) (i : Nat) : LiveNode :=
  match live.tasks[i]? with
  | none => live
  | some task =>
      if task.past then live
      else
        let knows := (system.clusters.lookup live.topic).any (fun cluster =>
          (system.nodes[cluster.raftNode]?).any (fun current =>
            (current.node.peers.lookup task.peerID).isSome))
        { live with
          tasks :=
            if knows then live.tasks.set i { task with past := true } else live.tasks.eraseIdx i }

def step (system : ManagerSystem) : ManagerAction → ManagerSystem
  | .lock call =>
      if system.writer.isNone && system.possible call then
        system.stopNext call (system.toStop call)
      else system
  | .waited =>
      match system.writer with
      | none => system
      | some writer =>
          if (system.nodes[writer.stopping]?).all LiveNode.waitOver then
            system.stopNext writer.call writer.rest
          else system
  | .turn ref fires =>
      { system with nodes := system.nodes.modify ref (fun live => live.turn fires) }
  | .find call =>
      if system.writer.isNone then
        { system with found := system.found ++ (system.findNode call).toList }
      else system
  | .use i =>
      match system.found[i]? with
      | none => system
      | some (ref, call) =>
          { system with
            nodes := system.nodes.modify ref (fun live => live.call call)
            found := system.found.eraseIdx i }
  | .pass ref i =>
      if system.writer.isNone then
        { system with nodes := system.nodes.modify ref (fun live => system.passLock live i) }
      else system
  | .sent ref i => { system with nodes := system.nodes.modify ref (fun live => live.endTask i) }

/-! The wait cycle. -/

def beforeLock (system : ManagerSystem) (ref : Nat) : Bool :=
  (system.nodes[ref]?).any LiveNode.beforeLock

def waitsFor (system : ManagerSystem) (ref : Nat) : Bool :=
  system.writer.any (fun writer => writer.stopping = ref)

/-- The call that holds the lock waits for a task that waits for the lock. -/
def deadlocked (system : ManagerSystem) : Bool :=
  system.writer.any (fun writer => system.beforeLock writer.stopping)

def stopsQuiet (system : ManagerSystem) : List Nat → Bool
  | [] => true
  | ref :: _ => !system.beforeLock ref

/-- A node is stopped only when its tasks are past the lock, and as long as it is waited for it
starts no task.
-/
def quiet (system : ManagerSystem) : ManagerAction → Bool
  | .lock call =>
      !(system.writer.isNone && system.possible call) || system.stopsQuiet (system.toStop call)
  | .waited =>
      system.writer.all (fun writer =>
        !(system.nodes[writer.stopping]?).all LiveNode.waitOver || system.stopsQuiet writer.rest)
  | .turn ref fires =>
      !system.waitsFor ref
        || (system.nodes[ref]?).all (fun live =>
            !live.turnStarts fires || live.node.peerIDs.isEmpty)
  | .use i =>
      (system.found[i]?).all (fun call =>
        !system.waitsFor call.1
          || (system.nodes[call.1]?).all (fun live =>
              !live.callStarts call.2 || live.node.peerIDs.isEmpty))
  | .find _ | .pass _ _ | .sent _ _ => true

variable {system next : ManagerSystem} {ref : Nat} {change : LiveNode → LiveNode}
  {starts : LiveNode → Bool}

/-- A change of one node closes a wait cycle if the node is waited for and starts a task. -/
theorem deadlocked_modify (system : ManagerSystem) (writer : next.writer = system.writer)
    (nodes : next.nodes = system.nodes.modify ref change)
    (grows : ∀ live, (change live).beforeLock = (live.beforeLock || starts live))
    : next.deadlocked
      = (system.deadlocked || (system.waitsFor ref && (system.nodes[ref]?).any starts)) := by
  rw [deadlocked, deadlocked, waitsFor, writer]
  cases system.writer with
  | none => rfl
  | some writer =>
      simp only [Option.any_some, beforeLock, nodes]
      by_cases same : writer.stopping = ref
      · rw [same, List.getElem?_modify_eq]
        cases system.nodes[ref]? with
        | none => simp
        | some live => simp [grows live]
      · have other : ref ≠ writer.stopping := Ne.symm same
        simp [same, other]

/-- A change that starts no task leaves things as they are. -/
theorem deadlocked_modify_same (system : ManagerSystem) (writer : next.writer = system.writer)
    (nodes : next.nodes = system.nodes.modify ref change)
    (same : ∀ live, (change live).beforeLock = live.beforeLock)
    : next.deadlocked = system.deadlocked := by
  have none (live : LiveNode) : (change live).beforeLock = (live.beforeLock || false) := by
    rw [same, Bool.or_false]
  rw [deadlocked_modify system writer nodes none]
  cases system.nodes[ref]? with
  | none => simp
  | some live => simp

theorem deadlocked_stopNext (system : ManagerSystem) (call : WriteCall) (refs : List Nat)
    : (system.stopNext call refs).deadlocked = !system.stopsQuiet refs := by
  cases refs with
  | nil => cases call <;> rfl
  | cons ref rest =>
      simp only [stopNext, deadlocked, stopsQuiet, Option.any_some, beforeLock,
        List.getElem?_modify_eq, Bool.not_not]
      cases system.nodes[ref]? with
      | none => rfl
      | some live => rfl

/-- From a state without a wait cycle a step leads to one exactly if it is not quiet. -/
theorem deadlocked_step (free : system.deadlocked = false) (action : ManagerAction)
    : (system.step action).deadlocked = !system.quiet action := by
  cases action with
  | lock call =>
      rw [step, quiet]
      by_cases enters : (system.writer.isNone && system.possible call) = true
      · rw [if_pos enters, deadlocked_stopNext, enters]
        rfl
      · rw [if_neg enters, free, Bool.eq_false_iff.mpr enters]
        rfl
  | waited =>
      rw [step, quiet]
      cases holder : system.writer with
      | none => exact free
      | some writer =>
          simp only [Option.all_some]
          by_cases ended : (system.nodes[writer.stopping]?).all LiveNode.waitOver = true
          · rw [if_pos ended, deadlocked_stopNext, ended]
            rfl
          · rw [if_neg ended, free, Bool.eq_false_iff.mpr ended]
            rfl
  | turn ref fires =>
      refine Eq.trans (deadlocked_modify system rfl rfl (fun live => live.beforeLock_turn fires)) ?_
      rw [free, quiet]
      cases system.nodes[ref]? with
      | none => simp
      | some live => simp
  | find call =>
      rw [step]
      split
      · exact free
      · exact free
  | use i =>
      rw [step, quiet]
      cases found : system.found[i]? with
      | none => exact free
      | some call =>
          refine Eq.trans
            (deadlocked_modify system rfl rfl (fun live => live.beforeLock_call call.2)) ?_
          rw [free, Option.all_some]
          cases system.nodes[call.1]? with
          | none => simp
          | some live => simp
  | pass ref i =>
      rw [step]
      by_cases unlocked : system.writer.isNone = true
      · rw [if_pos unlocked, deadlocked, Option.isNone_iff_eq_none.mp unlocked]
        rfl
      · rw [if_neg unlocked]
        exact free
  | sent ref i =>
      have same : (system.step (.sent ref i)).deadlocked = system.deadlocked :=
        deadlocked_modify_same system rfl rfl (fun live => live.beforeLock_endTask i)
      exact same.trans free

/-- A run reaches no wait cycle exactly if a node is always stopped when its tasks are past the
lock, and starts no task as long as it is waited for.
-/
theorem never_deadlocked_iff (brokerID : GoString) (actions : List ManagerAction)
    : (∀ visited ∈ actions.scanl step (new brokerID), visited.deadlocked = false)
      ↔ AllSteps step (fun system action => system.quiet action) (new brokerID) actions := by
  have exactly (system : ManagerSystem) (action : ManagerAction) (free : system.deadlocked = false)
      : (system.step action).deadlocked = false ↔ system.quiet action = true := by
    rw [deadlocked_step free, Bool.not_eq_false']
  exact AllSteps.iff_visited exactly rfl actions

def assignLead : ManagerAction :=
  .lock (.setTopicRole (lit "t") .leader [lit "f:1"] (lit "b:1"))

-- The task passes the lock before the topic is removed, and has sent before the wait is over.
example
    : AllSteps step (fun system action => system.quiet action) (new (lit "b"))
        [assignLead, .turn 0 false, .turn 0 true, .pass 0 0, .lock (.removeTopic (lit "t")),
          .turn 0 false, .sent 0 0, .waited] := by
  decide +kernel

/-- An election, and the topic is removed before the task takes the lock. -/
def removedBeforeSend : List ManagerAction :=
  [assignLead, .turn 0 false, .turn 0 true, .lock (.removeTopic (lit "t"))]

/-- The removal holds the lock and waits for the task, and the task waits for the lock. -/
theorem deadlocked_removedBeforeSend
    : (removedBeforeSend.foldl step (new (lit "b"))).writer
        = some { call := .removeTopic (lit "t"), stopping := 0, rest := [] }
      ∧ (removedBeforeSend.foldl step (new (lit "b"))).nodes.map LiveNode.tasks
        = [[{ peerID := lit "follower_0", past := false }]]
      ∧ ¬∀ visited ∈ removedBeforeSend.scanl step (new (lit "b")), visited.deadlocked = false := by
  refine ⟨by decide +kernel, by decide +kernel, fun never => ?_⟩
  have free := never _ (foldl_mem_scanl step (new (lit "b")) removedBeforeSend)
  exact absurd free (by decide +kernel)

def clusterOf (system : ManagerSystem) (topic : GoString) : Option TopicRaftCluster :=
  match system.clusters.lookup topic with
  | none => none
  | some cluster =>
      (system.nodes[cluster.raftNode]?).map
        (fun live => { raftNode := live.node, role := cluster.role })

def Refers (system : ManagerSystem) : Prop :=
  ∀ topic cluster,
    system.clusters.lookup topic = some cluster → cluster.raftNode < system.nodes.length

/-- What can happen to the cluster of a topic: it is made anew, goes, or its node gets a call. -/
inductive ClusterMoves (brokerID : GoString)
    : Option TopicRaftCluster → Option TopicRaftCluster → Prop
  | same {cluster} : ClusterMoves brokerID cluster cluster
  | set {cluster} (role : TopicRole) (followers : List GoString) (leaderAddr : GoString)
      : ClusterMoves brokerID cluster
          (some {
            raftNode := newRaftNode brokerID (RaftManager.rolePeers role followers leaderAddr)
            role
          })
  | gone {cluster} : ClusterMoves brokerID cluster none
  | call {cluster : TopicRaftCluster} (call : NodeCall Command)
      : ClusterMoves brokerID (some cluster)
          (some { cluster with raftNode := (cluster.raftNode.call call).1 })

theorem turn_node (live : LiveNode) (fires : Bool)
    : (live.turn fires).node = live.node
      ∨ ∃ call, (live.turn fires).node = (live.node.call call).1 := by
  rw [LiveNode.turn]
  cases live.loop with
  | top => exact Or.inl rfl
  | inside =>
      simp only
      split
      · exact Or.inl rfl
      · split
        · exact Or.inr ⟨.startElection, rfl⟩
        · exact Or.inl rfl
  | returned => exact Or.inl rfl

/-- A step after which clusters refer to nodes, and which did one of these things to each topic. -/
structure Moved (system next : ManagerSystem) : Prop where
  refers : next.Refers
  moves : ∀ topic, ClusterMoves system.brokerID (system.clusterOf topic) (next.clusterOf topic)

variable (h : system.Refers)
include h

theorem Refers.idle : Moved system system := ⟨h, fun _ => .same⟩

/-- A change of one node, which is at most a call on it. -/
theorem Refers.modify (clusters : next.clusters = system.clusters)
    (nodes : next.nodes = system.nodes.modify ref change)
    (calls : ∀ live, (change live).node = live.node
      ∨ ∃ call, (change live).node = (live.node.call call).1)
    : Moved system next := by
  refine ⟨fun topic cluster found => ?_, fun topic => ?_⟩
  · rw [clusters] at found
    rw [nodes, length_modify]
    exact h topic cluster found
  rw [clusterOf, clusterOf, clusters, nodes]
  cases system.clusters.lookup topic with
  | none => exact .same
  | some cluster =>
      simp only [List.getElem?_modify]
      cases system.nodes[cluster.raftNode]? with
      | none => exact .same
      | some live =>
          simp only [Option.map_eq_map, Option.map_some]
          split
          · rcases calls live with same | ⟨call, called⟩
            · rw [same]
              exact .same
            · rw [called]
              exact .call call
          · exact .same

/-- A change of one topic, perhaps with a new node. -/
theorem Refers.onTopic {topic : GoString} {made : List LiveNode}
    (nodes : next.nodes = system.nodes ++ made)
    (others : ∀ other, other ≠ topic
      → next.clusters.lookup other = system.clusters.lookup other)
    (own : ∀ cluster, next.clusters.lookup topic = some cluster
      → cluster.raftNode < next.nodes.length)
    (moves : ClusterMoves system.brokerID (system.clusterOf topic) (next.clusterOf topic))
    : Moved system next := by
  refine ⟨fun other cluster found => ?_, fun other => ?_⟩
  · by_cases same : other = topic
    · exact own cluster (same ▸ found)
    · rw [others other same] at found
      rw [nodes, length_append]
      exact Nat.lt_add_right _ (h other cluster found)
  · by_cases same : other = topic
    · exact same ▸ moves
    · have kept : next.clusterOf other = system.clusterOf other := by
        rw [clusterOf, clusterOf, others other same, nodes]
        cases found : system.clusters.lookup other with
        | none => rfl
        | some cluster => simp only [List.getElem?_append_left (h other cluster found)]
      exact kept ▸ .same

theorem Refers.stopNext (call : WriteCall) (refs : List Nat)
    : Moved system (system.stopNext call refs) := by
  cases refs with
  | cons ref rest => exact h.modify rfl rfl (fun _ => Or.inl rfl)
  | nil =>
      cases call with
      | setTopicRole topic role followers leaderAddr =>
          refine h.onTopic rfl (fun other apart => AList.lookup_insert_ne apart) ?_ ?_
          · intro cluster found
            cases (AList.lookup_insert _).symm.trans found
            simp [ManagerSystem.stopNext, finish]
          · have made
                : (system.stopNext (.setTopicRole topic role followers leaderAddr) []).clusterOf
                    topic
                  = some {
                      raftNode := newRaftNode system.brokerID
                        (RaftManager.rolePeers role followers leaderAddr)
                      role
                    } := by
              simp [ManagerSystem.stopNext, finish, clusterOf, LiveNode.start]
            exact made ▸ .set role followers leaderAddr
      | removeTopic topic =>
          refine h.onTopic (append_nil _).symm (fun other apart => AList.lookup_erase_ne apart)
            (fun cluster found => ?_) ?_
          · cases (AList.lookup_erase _ _).symm.trans found
          · have gone : (system.stopNext (.removeTopic topic) []).clusterOf topic = none := by
              simp [ManagerSystem.stopNext, finish, clusterOf]
            exact gone ▸ .gone
      | close order => exact ⟨nofun, fun _ => .gone⟩

theorem Refers.step (action : ManagerAction) : Moved system (system.step action) := by
  cases action with
  | lock call =>
      rw [ManagerSystem.step]
      split
      · exact h.stopNext call (system.toStop call)
      · exact h.idle
  | waited =>
      rw [ManagerSystem.step]
      cases system.writer with
      | none => exact h.idle
      | some writer =>
          simp only
          split
          · exact h.stopNext writer.call writer.rest
          · exact h.idle
  | turn ref fires => exact h.modify rfl rfl (fun live => turn_node live fires)
  | find call =>
      rw [ManagerSystem.step]
      split
      · exact ⟨h, fun _ => .same⟩
      · exact h.idle
  | use i =>
      rw [ManagerSystem.step]
      cases system.found[i]? with
      | none => exact h.idle
      | some found =>
          refine h.modify rfl rfl (fun live => Or.inr ⟨found.2, ?_⟩)
          rw [LiveNode.call]
          split
          · rfl
          · rfl
  | pass ref i =>
      rw [ManagerSystem.step]
      split
      · refine h.modify rfl rfl (fun live => Or.inl ?_)
        rw [passLock]
        cases live.tasks[i]? with
        | none => rfl
        | some task =>
            simp only
            split
            · rfl
            · rfl
      · exact h.idle
  | sent ref i =>
      refine h.modify rfl rfl (fun live => Or.inl ?_)
      rw [LiveNode.endTask]
      split
      · rfl
      · rfl

end ManagerSystem

end Goulette.Raft
