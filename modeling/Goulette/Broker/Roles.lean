import Goulette.Broker.Server
import Goulette.Raft.ManagerRuns

/-! The two leadership tests of a message: the role that the sentinel assigned, asked before the log
is written, and the state of the topic's Raft node, asked after it.
-/

namespace Goulette.Broker

open Goulette.Go Goulette.Raft Runs

/-- No broker with this manager logs a message that the Raft node then refuses. -/
def LogsOnlyAccepted (raftManager : RaftManager) : Prop :=
  ∀ (server : BrokerServer) (now : Int) (request : MessageRequest) next response,
    server.raftManager = raftManager
    → server.processMessage now request = some (next, response)
    → response.status = .retry
    → next.wal = server.wal

theorem logsOnlyAccepted_of_rolesAgree {raftManager : RaftManager} (h : raftManager.RolesAgree)
    : LogsOnlyAccepted raftManager := by
  rintro server now request next response rfl processed refused
  rcases server.processMessage_cases now request with
    ⟨_, _, away⟩ | ⟨_, full⟩ | ⟨wal, _, _, leads, outcome⟩
  · rw [away] at processed
    cases processed
    rfl
  · rw [full] at processed
    cases processed
  · -- the role test passed, so the node leads and accepts the proposal
    obtain ⟨cluster, found, elected⟩ := (h request.topic).mp leads
    have assigned : cluster.role = .leader := by
      simpa [RaftManager.isLeader, found] using leads
    obtain ⟨accepted, proposed⟩ :=
      (server.raftManager.proposeMessage_ok_iff now request.topic (server.messageCounter + 1)
        request.payload).mpr ⟨cluster, found, assigned, elected⟩
    rcases outcome with ⟨_, _, _, failed, _⟩ | ⟨_, _, ⟨_, _, status, _, failed⟩ | ⟨_, stored⟩⟩
    · rw [failed] at proposed
      cases proposed
    · rw [failed] at processed
      cases processed
      cases status.symm.trans refused
    · rw [stored] at processed
      cases processed
      cases refused

/-- From agreement on, role and leadership agree throughout a run, and no message is logged
and then refused, exactly when every step keeps to the assigned roles.
-/
theorem leadership_agrees_iff {raftManager : RaftManager} (start : raftManager.RolesAgree)
    (calls : List ManagerCall)
    : (∀ visited ∈ calls.scanl RaftManager.step raftManager,
        visited.RolesAgree ∧ LogsOnlyAccepted visited)
      ↔ AllSteps RaftManager.step RaftManager.KeepsRoles raftManager calls := by
  have accepted (visited : RaftManager)
      : visited.RolesAgree ∧ LogsOnlyAccepted visited ↔ visited.RolesAgree :=
    ⟨And.left, fun agrees => ⟨agrees, logsOnlyAccepted_of_rolesAgree agrees⟩⟩
  simp only [accepted]
  exact AllSteps.iff_visited (fun state call agrees => agrees.step_iff call) start calls

def assignLeader : ManagerCall :=
  .setTopicRole (lit "topic") .leader [lit "follower:1"] (lit "broker:1")

def electedLeader : RaftManager :=
  [assignLeader, .electionTimeout (lit "topic"),
    .raftRequest {
      topic := lit "topic"
      fromPeerID := lit "follower"
      messageType := .requestVoteResponse
      payload := RequestVoteResponse.marshal ⟨1, true⟩
    }].foldl RaftManager.step (.newRaftManager (lit "broker"))

theorem rolesAgree_electedLeader : electedLeader.RolesAgree := by
  rw [RaftManager.rolesAgree_iff_clusters]
  intro topic cluster found
  have keys : electedLeader.clusters.keys = [lit "topic"] := by decide +kernel
  have member : topic ∈ electedLeader.clusters := by
    rw [← AList.lookup_isSome, found]
    rfl
  rw [AList.mem_keys, keys, List.mem_singleton] at member
  subst member
  cases found
  exact ⟨fun _ => rfl, fun _ => rfl⟩

def servesAndFollows : List ManagerCall :=
  [.proposeMessage 0 (lit "topic") 1 [7],
    .setTopicRole (lit "other") .follower [] (lit "leader:1"),
    .electionTimeout (lit "other"),
    .removeTopic (lit "other")]

theorem leadership_agrees_servesAndFollows
    : electedLeader.RolesAgree
      ∧ AllSteps RaftManager.step RaftManager.KeepsRoles electedLeader servesAndFollows
      ∧ ∀ visited ∈ servesAndFollows.scanl RaftManager.step electedLeader,
          visited.RolesAgree ∧ LogsOnlyAccepted visited := by
  have kept
      : AllSteps RaftManager.step RaftManager.KeepsRoles electedLeader servesAndFollows := by
    decide +kernel
  exact ⟨rolesAgree_electedLeader, kept,
    (leadership_agrees_iff rolesAgree_electedLeader servesAndFollows).mpr kept⟩

/-- Right after the assignment the role is leader but the node is a follower. -/
theorem not_leadership_agrees_assigned
    : ¬∀ visited ∈ [assignLeader].scanl RaftManager.step (.newRaftManager (lit "broker")),
        visited.RolesAgree ∧ LogsOnlyAccepted visited := by
  intro agrees
  have assigned := (agrees _ (List.mem_cons_of_mem _ List.mem_cons_self)).1 (lit "topic")
  obtain ⟨cluster, found, elected⟩ := assigned.mp rfl
  cases found
  cases elected

end Goulette.Broker
