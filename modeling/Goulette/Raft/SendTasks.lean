import Goulette.Raft.Calls

/-! Requests that are built late: the goroutine of a request is a pending task that reads the node
only when it runs, after the step that started it has released the lock.
-/

namespace Goulette.Raft

open Goulette.Go Runs List

variable {C : Type}

/-- A goroutine that has not built its request yet. `spawned` is the term of the node when the
task was started; no code reads it.
-/
inductive SendTask
  | requestVote (src dst : GoString)
  | appendEntries (src dst : GoString) (isHeartbeat : Bool) (spawned : Nat)
deriving DecidableEq

structure TaskCluster (C : Type) where
  nodes : GoString → RaftNode C
  pending : List SendTask
  network : List (Packet C)

inductive TaskAction (C : Type)
  | startElection (id : GoString)
  | sendHeartbeat (id : GoString)
  | propose (id : GoString) (command : C)
  | send (task : SendTask)
  | deliver (packet : Packet C)

namespace TaskCluster

def init (membership : Membership) : TaskCluster C where
  nodes := fun id => newRaftNode id membership.peers
  pending := []
  network := []

def act (cluster : TaskCluster C) (id : GoString) (node : RaftNode C) (tasks : List SendTask)
    (sent : List (Packet C))
    : TaskCluster C where
  nodes := Function.update cluster.nodes id node
  pending := cluster.pending ++ tasks
  network := cluster.network ++ sent

def voteTasks (node : RaftNode C) (id : GoString) : List SendTask :=
  node.peerIDs.map (fun peerID => .requestVote id peerID)

def entryTasks (node : RaftNode C) (id : GoString) (isHeartbeat : Bool) : List SendTask :=
  node.peerIDs.map (fun peerID => .appendEntries id peerID isHeartbeat node.currentTerm)

def request (cluster : TaskCluster C) : SendTask → Packet C
  | .requestVote src dst => ⟨src, dst, .requestVote (cluster.nodes src).requestVote⟩
  | .appendEntries src dst isHeartbeat _ =>
      ⟨src, dst, .appendEntries ((cluster.nodes src).sendAppendEntries dst isHeartbeat)⟩

def receive (cluster : TaskCluster C) (src dst : GoString) : Message C → TaskCluster C
  | .requestVote request =>
      let result := (cluster.nodes dst).handleRequestVote request
      cluster.act dst result.1 []
        [{ src := dst, dst := src, message := .requestVoteResponse request result.2 }]
  -- a majority of votes starts the tasks of the first heartbeat
  | .requestVoteResponse _ response =>
      let result := (cluster.nodes dst).handleRequestVoteResponse src response
      cluster.act dst result.1 (if result.2 then entryTasks result.1 dst true else []) []
  | .appendEntries request =>
      let result := (cluster.nodes dst).handleAppendEntries request
      cluster.act dst result.1 []
        [{ src := dst, dst := src, message := .appendEntriesResponse request result.2.2 }]
  | .appendEntriesResponse _ response =>
      cluster.act dst ((cluster.nodes dst).handleAppendEntriesResponse src response).1 [] []

/-- One of the states visited so far has the node as leader of the term. -/
def Led (visited : List (TaskCluster C)) (id : GoString) (term : Nat) : Prop :=
  ∃ earlier ∈ visited,
    (earlier.nodes id).state = .leader ∧ (earlier.nodes id).currentTerm = term

instance (visited : List (TaskCluster C)) (id : GoString) (term : Nat)
    : Decidable (Led visited id term) :=
  inferInstanceAs (Decidable (∃ earlier ∈ visited, _))

/-- Every append request in flight names a leader of its term. -/
def SentByLeaders (cluster : TaskCluster C) (visited : List (TaskCluster C)) : Prop :=
  ∀ packet ∈ cluster.network, ∀ request, packet.message = .appendEntries request
    → Led visited request.leaderID request.term

/-- A task for entries runs while the node still has the term it was started in, or when the
node leads once more.
-/
def SendsInTerm (cluster : TaskCluster C) : TaskAction C → Prop
  | .send (.appendEntries src _ _ spawned) =>
      (cluster.nodes src).currentTerm = spawned ∨ (cluster.nodes src).state = .leader
  | _ => True

instance (cluster : TaskCluster C) : DecidablePred cluster.SendsInTerm := fun action => by
  unfold TaskCluster.SendsInTerm
  split <;> infer_instance

/-- Nodes know their names, pending tasks for entries were started by leaders of their term,
and entries in flight were sent by leaders of theirs.
-/
structure TasksOfLeaders (cluster : TaskCluster C) (visited : List (TaskCluster C)) : Prop where
  here : cluster ∈ visited
  named : ∀ id, (cluster.nodes id).nodeID = id
  pending : ∀ src dst isHeartbeat spawned,
    .appendEntries src dst isHeartbeat spawned ∈ cluster.pending → Led visited src spawned
  sent : cluster.SentByLeaders visited

theorem Led.later {visited : List (TaskCluster C)} {id : GoString} {term : Nat}
    (h : Led visited id term) (next : TaskCluster C)
    : Led (visited ++ [next]) id term := by
  obtain ⟨earlier, member, leads⟩ := h
  exact ⟨earlier, mem_append_left _ member, leads⟩

namespace TasksOfLeaders

variable {cluster : TaskCluster C} {visited : List (TaskCluster C)}

theorem init (membership : Membership)
    : (TaskCluster.init membership : TaskCluster C).TasksOfLeaders
        [TaskCluster.init membership] where
  here := mem_singleton_self _
  named := fun _ => rfl
  pending := fun _ _ _ _ member => absurd member not_mem_nil
  sent := fun _ member => absurd member not_mem_nil

/-- An action that is not enabled. -/
theorem stay (h : cluster.TasksOfLeaders visited)
    : cluster.TasksOfLeaders (visited ++ [cluster]) where
  here := mem_append_left _ h.here
  named := h.named
  pending := fun src dst isHeartbeat spawned member =>
    (h.pending src dst isHeartbeat spawned member).later cluster
  sent := fun packet member request message => (h.sent packet member request message).later cluster

/-- A call on one node that starts tasks for entries only as leader and answers with
responses.
-/
theorem act (h : cluster.TasksOfLeaders visited) {id : GoString} {node : RaftNode C}
    (name : node.nodeID = (cluster.nodes id).nodeID) {tasks : List SendTask}
    (started
      : ∀ src dst isHeartbeat spawned, .appendEntries src dst isHeartbeat spawned ∈ tasks
          → src = id ∧ node.state = .leader ∧ node.currentTerm = spawned)
    {sent : List (Packet C)}
    (answers : ∀ packet ∈ sent, ∀ request, packet.message ≠ .appendEntries request)
    : (cluster.act id node tasks sent).TasksOfLeaders
        (visited ++ [cluster.act id node tasks sent]) where
  here := mem_append_right _ (mem_singleton_self _)
  named := (Function.forall_update_iff cluster.nodes (fun other node => node.nodeID = other)).mpr
    ⟨name.trans (h.named id), fun other _ => h.named other⟩
  pending := by
    intro src dst isHeartbeat spawned member
    rcases mem_append.mp member with old | new
    · exact (h.pending src dst isHeartbeat spawned old).later _
    · obtain ⟨rfl, leads, term⟩ := started src dst isHeartbeat spawned new
      refine ⟨_, mem_append_right _ (mem_singleton_self _), ?_⟩
      simpa [TaskCluster.act] using ⟨leads, term⟩
  sent := by
    intro packet member request message
    rcases mem_append.mp member with old | new
    · exact (h.sent packet old request message).later _
    · exact absurd message (answers packet new request)

theorem entryTasks_started {node : RaftNode C} {id : GoString} {isHeartbeat : Bool}
    (leads : node.state = .leader)
    : ∀ src dst heartbeat spawned,
        .appendEntries src dst heartbeat spawned ∈ entryTasks node id isHeartbeat
        → src = id ∧ node.state = .leader ∧ node.currentTerm = spawned := by
  intro src dst heartbeat spawned member
  obtain ⟨peerID, _, same⟩ := mem_map.mp member
  cases same
  exact ⟨rfl, leads, rfl⟩

/-- A task runs: its request carries the node's own name and present term. -/
theorem send (h : cluster.TasksOfLeaders visited) {task : SendTask}
    (pending : task ∈ cluster.pending) (inTerm : cluster.SendsInTerm (.send task))
    : ({ cluster with
          pending := cluster.pending.erase task
          network := cluster.network ++ [cluster.request task] }
        : TaskCluster C).TasksOfLeaders
          (visited ++ [{ cluster with
            pending := cluster.pending.erase task
            network := cluster.network ++ [cluster.request task] }]) where
  here := mem_append_right _ (mem_singleton_self _)
  named := h.named
  pending := fun src dst isHeartbeat spawned member =>
    (h.pending src dst isHeartbeat spawned (mem_of_mem_erase member)).later _
  sent := by
    intro packet member request message
    refine Led.later ?_ _
    rcases mem_append.mp member with old | new
    · exact h.sent packet old request message
    · rw [mem_singleton.mp new] at message
      cases task with
      | requestVote src dst => cases message
      | appendEntries src dst isHeartbeat spawned =>
          cases message
          simp only [RaftNode.sendAppendEntries, h.named src]
          rcases inTerm with same | leads
          · rw [same]
            exact h.pending src dst isHeartbeat spawned pending
          · exact ⟨cluster, h.here, leads, rfl⟩

/-- A handler starts tasks only when it makes the node leader, and sends only responses. -/
theorem receive (h : cluster.TasksOfLeaders visited) (src dst : GoString) (message : Message C)
    : (cluster.receive src dst message).TasksOfLeaders
        (visited ++ [cluster.receive src dst message]) := by
  cases message with
  | requestVote request =>
      exact h.act (RaftNode.Successor.handleRequestVote _ request).nodeID (by simp) (by simp)
  | requestVoteResponse request response =>
      refine h.act (RaftNode.Successor.handleRequestVoteResponse _ src response).nodeID ?_
        (by simp)
      split
      · next won =>
          refine entryTasks_started ?_
          rcases (cluster.nodes dst).handleRequestVoteResponse_cases src response with
            ⟨_, handled⟩ | handled | ⟨_, _, _, _, handled⟩ | ⟨_, _, _, _, handled⟩
          · simp [handled] at won
          · simp [handled] at won
          · simp [handled] at won
          · rw [handled]
            rfl
      · simp
  | appendEntries request =>
      exact h.act (RaftNode.Successor.handleAppendEntries _ request).nodeID (by simp) (by simp)
  | appendEntriesResponse request response =>
      exact h.act (RaftNode.Successor.handleAppendEntriesResponse _ src response).nodeID (by simp)
        (by simp)

end TasksOfLeaders

variable [DecidableEq C]

/-- An action that is not enabled changes nothing. -/
def step (membership : Membership) (cluster : TaskCluster C) : TaskAction C → TaskCluster C
  -- a leader's run loop starts no election
  | .startElection id =>
      if id ∈ membership.members ∧ (cluster.nodes id).state ≠ .leader then
        let node := (cluster.nodes id).startElection
        cluster.act id node (voteTasks node id) []
      else cluster
  | .sendHeartbeat id =>
      if id ∈ membership.members ∧ (cluster.nodes id).state = .leader then
        cluster.act id (cluster.nodes id) (entryTasks (cluster.nodes id) id true) []
      else cluster
  | .propose id command =>
      if id ∈ membership.members then
        match (cluster.nodes id).propose command with
        | .error _ => cluster
        | .ok node => cluster.act id node (entryTasks node id false) []
      else cluster
  -- a task runs once
  | .send task =>
      if task ∈ cluster.pending then
        { cluster with
          pending := cluster.pending.erase task
          network := cluster.network ++ [cluster.request task] }
      else cluster
  | .deliver packet =>
      if packet ∈ cluster.network ∧ packet.dst ∈ membership.members then
        cluster.receive packet.src packet.dst packet.message
      else cluster

namespace TasksOfLeaders

variable {cluster : TaskCluster C} {visited : List (TaskCluster C)}

theorem step (h : cluster.TasksOfLeaders visited) (membership : Membership)
    {action : TaskAction C} (inTerm : cluster.SendsInTerm action)
    : (cluster.step membership action).TasksOfLeaders
        (visited ++ [cluster.step membership action]) := by
  cases action with
  | startElection id =>
      simp only [TaskCluster.step]
      split
      · refine h.act ?_ ?_ ?_
        · rfl
        · simp [voteTasks]
        · simp
      · exact h.stay
  | sendHeartbeat id =>
      simp only [TaskCluster.step]
      split
      · next leads => exact h.act rfl (entryTasks_started leads.2) (by simp)
      · exact h.stay
  | propose id command =>
      simp only [TaskCluster.step]
      split
      · cases proposed : (cluster.nodes id).propose command with
        | error failure => exact h.stay
        | ok node =>
            refine h.act (RaftNode.Successor.propose _ proposed).nodeID
              (entryTasks_started ?_) (by simp)
            obtain ⟨leads, rfl⟩ := RaftNode.propose_ok proposed
            exact leads
      · exact h.stay
  | send task =>
      simp only [TaskCluster.step]
      split
      · next pending => exact h.send pending inTerm
      · exact h.stay
  | deliver packet =>
      simp only [TaskCluster.step]
      split
      · exact h.receive packet.src packet.dst packet.message
      · exact h.stay

end TasksOfLeaders

/-- In every run whose tasks for entries run in the term they were started in, or when the
node leads once more, every append request in flight was sent by a leader of its term.
-/
theorem sentByLeaders (membership : Membership) {actions : List (TaskAction C)}
    (steps : AllSteps (step membership) SendsInTerm (init membership) actions)
    : (actions.foldl (step membership) (init membership)).SentByLeaders
        (actions.scanl (step membership) (init membership)) := by
  have tasks
      : (actions.foldl (step membership) (init membership)).TasksOfLeaders
          (actions.scanl (step membership) (init membership)) :=
    AllSteps.visited (fun cluster visited action inTerm h => h.step membership inTerm)
      (.init membership) steps
  exact tasks.sent

def electedWithTasks : List (TaskAction Nat) :=
  [
    .startElection [1],
    .send (.requestVote [1] [2]),
    .deliver ⟨[1], [2], .requestVote firstBallot⟩,
    .deliver ⟨[1], [2], .requestVote firstBallot⟩,
    .deliver ⟨[2], [1], .requestVoteResponse firstBallot { term := 1, voteGranted := true }⟩
  ]

def electedSends : List (TaskAction Nat) :=
  electedWithTasks ++ [.send (.appendEntries [1] [2] true 1)]

theorem sentByLeaders_elected
    : AllSteps (step trio) SendsInTerm (init trio) electedSends
      ∧ (electedSends.foldl (step trio) (init trio)).SentByLeaders
          (electedSends.scanl (step trio) (init trio)) := by
  have inTerm : AllSteps (step trio) SendsInTerm (init trio) electedSends := by decide +kernel
  exact ⟨inTerm, sentByLeaders trio inTerm⟩

/-- Node 3 stands in term 2, and node 1 hears of it before its task runs. -/
def deposedSends : List (TaskAction Nat) :=
  electedWithTasks
    ++ [
      .startElection [3],
      .startElection [3],
      .send (.requestVote [3] [1]),
      .deliver ⟨[3], [1], .requestVote ⟨2, [3], 0, 0⟩⟩,
      .send (.appendEntries [1] [2] true 1)
    ]

/-- Node 1 sends a heartbeat of term 2, which it never led. -/
theorem not_sentByLeaders_deposed
    : ¬(deposedSends.foldl (step trio) (init trio)).SentByLeaders
        (deposedSends.scanl (step trio) (init trio)) := by
  intro sent
  have led := sent ⟨[1], [2], .appendEntries ⟨2, [1], 0, 0, [], 0⟩⟩ (by decide +kernel) _ rfl
  exact absurd led (by decide +kernel)

end TaskCluster

end Goulette.Raft
