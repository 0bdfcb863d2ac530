import Goulette.Raft.Calls

/-! The replica group of a topic as `SetTopicRole` configures it. The leader lists its followers as
`follower_0`, `follower_1`, … and not itself; a follower lists only `leader`.
-/

namespace Goulette.Raft

open Goulette.Go List

namespace RaftManager

theorem followerID_injective : Function.Injective followerID := by
  intro i j same
  exact decimal_injective (append_cancel_left same)

/-- The followers get the numbers from `start` on, in front of the names listed before. -/
theorem keys_foldl_followers (followers : List GoString) (start : Nat)
    (peers : GoMap GoString GoString) (fresh : ∀ i, start ≤ i → followerID i ∉ peers)
    : ((followers.zipIdx start).foldl
        (fun peers follower => peers.insert (followerID follower.2) follower.1) peers).keys
      = ((List.range' start followers.length).map followerID).reverse ++ peers.keys := by
  induction followers generalizing start peers with
  | nil => rfl
  | cons follower rest ih =>
      have later
          : ∀ i, start + 1 ≤ i → followerID i ∉ peers.insert (followerID start) follower := by
        intro i above member
        rcases (AList.mem_insert peers).mp member with same | known
        · have := followerID_injective same
          omega
        · exact fresh i (by omega) known
      have front
          : (peers.insert (followerID start) follower).keys = followerID start :: peers.keys := by
        rw [AList.keys, AList.entries_insert_of_notMem (fresh start le_rfl)]
        rfl
      rw [zipIdx_cons, foldl_cons, ih (start + 1) _ later, front, length_cons,
        List.range'_succ, map_cons, reverse_cons, append_assoc]
      rfl

theorem keys_rolePeers_leader (followers : List GoString) (leaderAddr : GoString)
    : (rolePeers .leader followers leaderAddr).keys
      = ((List.range followers.length).map followerID).reverse := by
  have keys := keys_foldl_followers followers 0 ∅ (fun i _ => AList.notMem_empty _)
  rwa [AList.keys_empty, append_nil, ← range_eq_range'] at keys

end RaftManager

open RaftManager

structure ReplicaGroup where
  brokerID : GoString
  followers : List GoString
  leaderAddr : GoString
  other : brokerID ∉ rolePeers .leader followers leaderAddr

namespace ReplicaGroup

variable (group : ReplicaGroup)

def peers : GoMap GoString GoString := rolePeers .leader group.followers group.leaderAddr

def brokers : Finset GoString := insert group.brokerID group.peers.keys.toFinset

theorem length_peers : group.peers.keys.length = group.followers.length := by
  rw [peers, keys_rolePeers_leader, length_reverse, length_map, length_range]

theorem card_brokers : group.brokers.card = group.followers.length + 1 := by
  have absent : group.brokerID ∉ group.peers.keys.toFinset := by
    rw [mem_toFinset]
    exact group.other
  rw [brokers, Finset.card_insert_of_notMem absent,
    toFinset_card_of_nodup group.peers.keys_nodup, group.length_peers]

structure Node where
  state : RaftNode Command
  nodeID : state.nodeID = group.brokerID
  peers : state.peers = group.peers

def Node.new : group.Node where
  state := newRaftNode group.brokerID group.peers
  nodeID := rfl
  peers := rfl

def Node.call {group : ReplicaGroup} (node : group.Node) (call : NodeCall Command)
    : group.Node where
  state := (node.state.call call).1
  nodeID := (RaftNode.Successor.call node.state call).nodeID.trans node.nodeID
  peers := (RaftNode.Successor.call node.state call).peers.trans node.peers

end ReplicaGroup

namespace RaftNode

variable {C : Type}

/-- The leader and the followers that the commit test counts for a position. -/
def commitQuorum (node : RaftNode C) (index : Nat) : Finset GoString :=
  insert node.nodeID
    (node.peerIDs.filter (fun peerID => node.matchIndex peerID ≥ index)).toFinset

theorem card_commitQuorum (node : RaftNode C) (index : Nat)
    : (node.commitQuorum index).card = node.matchCount index := by
  have unique : (node.peerIDs.filter (fun peerID => node.matchIndex peerID ≥ index)).Nodup :=
    (node.peers.keys_nodup.filter _).filter _
  have absent
      : node.nodeID
        ∉ (node.peerIDs.filter (fun peerID => node.matchIndex peerID ≥ index)).toFinset := by
    simp [peerIDs]
  rw [commitQuorum, Finset.card_insert_of_notMem absent, toFinset_card_of_nodup unique,
    matchCount, Nat.add_comm]

theorem commitQuorum_subset (node : RaftNode C) (index : Nat)
    : node.commitQuorum index ⊆ insert node.nodeID node.peers.keys.toFinset := by
  refine Finset.insert_subset_insert _ ?_
  intro peerID member
  rw [mem_toFinset] at member ⊢
  exact mem_of_mem_filter (mem_of_mem_filter member)

end RaftNode

namespace ReplicaGroup

/-- The sets of brokers on whose word a node acts: those counted at a position that the commit
loop tests with success, and the voters in `votes` when a response makes the node leader.
-/
inductive Quorum (group : ReplicaGroup) (node : group.Node) : Finset GoString → Prop
  | commit (index : Nat) (above : node.state.commitIndex < index)
      (inside : index ≤ node.state.getLastLogIndex) (passed : node.state.commits index)
      : Quorum group node (node.state.commitQuorum index)
  | election (peerID : GoString) (response : RequestVoteResponse)
      (won : (node.state.handleRequestVoteResponse peerID response).2)
      (voters
        : (node.state.handleRequestVoteResponse peerID response).1.votes ⊆ group.brokers)
      : Quorum group node (node.state.handleRequestVoteResponse peerID response).1.votes

/-- Every quorum is a strict majority of the group, so any two have a common member. -/
structure QuorumsMeet (group : ReplicaGroup) : Prop where
  majority : ∀ node members, group.Quorum node members
    → Replication.Majority group.brokers members
  meet : ∀ node other left right, group.Quorum node left → group.Quorum other right
    → ∃ broker, broker ∈ left ∧ broker ∈ right

/-- More than half of the listed peers were counted, the node itself included. -/
theorem Quorum.counted {group : ReplicaGroup} {node : group.Node} {members : Finset GoString}
    (quorum : group.Quorum node members)
    : members ⊆ group.brokers ∧ group.followers.length < 2 * members.card := by
  cases quorum with
  | commit index above inside passed =>
      have passing : node.state.matchCount index > node.state.peers.keys.length / 2 := by
        simp only [RaftNode.commits, Bool.and_eq_true, decide_eq_true_eq] at passed
        exact passed.2
      rw [node.peers, group.length_peers] at passing
      have known := node.state.commitQuorum_subset index
      rw [node.nodeID, node.peers] at known
      refine ⟨known, ?_⟩
      rw [RaftNode.card_commitQuorum]
      omega
  | election peerID response won voters =>
      refine ⟨voters, ?_⟩
      rcases node.state.handleRequestVoteResponse_cases peerID response with
        ⟨_, handled⟩ | handled | ⟨_, _, _, _, handled⟩ | ⟨_, _, _, passing, handled⟩
      · rw [handled] at won
        cases won
      · rw [handled] at won
        cases won
      · rw [handled] at won
        cases won
      · rw [node.peers, group.length_peers] at passing
        rw [handled]
        exact passing

def Node.matchedBy (group : ReplicaGroup) (matched : Finset GoString) : group.Node where
  state :=
    { currentTerm := 1, votedFor := group.brokerID
      log := [⟨1, 0, none⟩, ⟨1, 1, none⟩]
      commitIndex := 0, lastApplied := 0, nextIndex := fun _ => 1
      matchIndex := fun peerID => if peerID ∈ matched then 1 else 0
      nodeID := group.brokerID, state := .leader, leaderID := group.brokerID
      votes := ∅, peers := group.peers }
  nodeID := rfl
  peers := rfl

theorem Node.matchCount_matchedBy (group : ReplicaGroup) {matched : Finset GoString}
    (known : matched ⊆ group.peers.keys.toFinset)
    : (Node.matchedBy group matched).state.matchCount 1 = matched.card + 1 := by
  have others : (Node.matchedBy group matched).state.peerIDs = group.peers.keys := by
    refine filter_eq_self.mpr (fun peerID member => decide_eq_true ?_)
    rintro rfl
    exact group.other member
  have counted
      : (group.peers.keys.filter
          (fun peerID => (Node.matchedBy group matched).state.matchIndex peerID ≥ 1)).toFinset
        = matched := by
    ext peerID
    have reads
        : (Node.matchedBy group matched).state.matchIndex peerID ≥ 1 ↔ peerID ∈ matched := by
      by_cases member : peerID ∈ matched <;> simp [Node.matchedBy, member]
    rw [mem_toFinset, mem_filter, decide_eq_true_eq, reads]
    exact ⟨And.right, fun member => ⟨mem_toFinset.mp (known member), member⟩⟩
  rw [RaftNode.matchCount, others,
    ← toFinset_card_of_nodup (group.peers.keys_nodup.filter _), counted, Nat.add_comm]

/-- Half of the followers, rounded down, and the leader pass the commit test. -/
theorem exists_smallQuorum (group : ReplicaGroup)
    : ∃ node members, group.Quorum node members
        ∧ members.card = group.followers.length / 2 + 1 := by
  have half : group.followers.length / 2 ≤ group.peers.keys.toFinset.card := by
    rw [toFinset_card_of_nodup group.peers.keys_nodup, group.length_peers]
    exact Nat.div_le_self _ _
  obtain ⟨matched, known, size⟩ := Finset.exists_subset_card_eq half
  have count := Node.matchCount_matchedBy group known
  rw [size] at count
  have passed : (Node.matchedBy group matched).state.commits 1 = true := by
    have length
        : (Node.matchedBy group matched).state.peers.keys.length = group.followers.length :=
      group.length_peers
    rw [RaftNode.commits, count, length, Bool.and_eq_true, decide_eq_true_eq]
    exact ⟨rfl, Nat.lt_succ_self _⟩
  exact ⟨Node.matchedBy group matched, _, .commit 1 Nat.one_pos le_rfl passed,
    (RaftNode.card_commitQuorum _ 1).trans count⟩

/-- The tests are majority tests exactly when the number of followers is even. -/
theorem quorumsMeet_iff (group : ReplicaGroup)
    : group.QuorumsMeet ↔ group.followers.length % 2 = 0 := by
  constructor
  · intro quorums
    obtain ⟨node, members, quorum, size⟩ := group.exists_smallQuorum
    have majority := (quorums.majority node members quorum).2
    rw [group.card_brokers, size] at majority
    omega
  · intro even
    have majority
        : ∀ node members, group.Quorum node members
            → Replication.Majority group.brokers members := by
      intro node members quorum
      obtain ⟨known, counted⟩ := quorum.counted
      refine ⟨known, ?_⟩
      rw [group.card_brokers]
      omega
    exact {
      majority
      meet := fun node other left right first second =>
        (majority node left first).meet (majority other right second)
    }

def oneFollower : ReplicaGroup where
  brokerID := lit "broker"
  followers := [lit "follower:1"]
  leaderAddr := lit "broker:1"
  other := by decide +kernel

/-- The broker has won its election and proposed twice; now the follower's answer to the first
heartbeat is counted.
-/
def soleLeader : oneFollower.Node :=
  let proposal (id : UInt64) : Command :=
    .message { topic := lit "topic", messageID := id, payload := [], timestamp := 0 }
  let elected := ([.startElection, .requestVoteResponse (lit "peer") ⟨1, true⟩,
    .propose (proposal 1), .propose (proposal 2)] : List (NodeCall Command)).foldl Node.call
      (Node.new oneFollower)
  { state := elected.state.countSuccess (lit "peer")
    nodeID := elected.nodeID
    peers := elected.peers }

/-- With one follower the leader alone commits its first proposal. -/
theorem not_quorumsMeet_oneFollower : ¬oneFollower.QuorumsMeet := by
  intro quorums
  have alone : soleLeader.state.commitQuorum 2 = {lit "broker"} := by decide +kernel
  have quorum : oneFollower.Quorum soleLeader (soleLeader.state.commitQuorum 2) :=
    .commit 2 (by decide +kernel) (by decide +kernel) (by decide +kernel)
  have majority := (quorums.majority soleLeader _ quorum).2
  rw [alone] at majority
  exact absurd majority (by decide +kernel)

end ReplicaGroup

/-! Responses between the brokers of a group. -/

namespace RaftManager

/-- The topic's node as `SetTopicRole` configured it; calls on the node keep this. -/
def Configured (rm : RaftManager) (topic : GoString) (role : TopicRole)
    (followers : List GoString) (leaderAddr : GoString)
    : Prop :=
  ∃ cluster, rm.clusters.lookup topic = some cluster ∧ cluster.role = role
    ∧ cluster.raftNode.nodeID = rm.brokerID
    ∧ cluster.raftNode.peers = rolePeers role followers leaderAddr

theorem Configured.setTopicRole (rm : RaftManager) (topic : GoString) (role : TopicRole)
    (followers : List GoString) (leaderAddr : GoString)
    : (rm.setTopicRole topic role followers leaderAddr).Configured topic role followers
        leaderAddr :=
  ⟨_, AList.lookup_insert _, rfl, rfl, rfl⟩

/-- The names that the code answers to and credits are in no configured peers map. -/
theorem not_mem_rolePeers {name : GoString} (unlisted : name ≠ lit "leader")
    (unnumbered : ∀ i, name ≠ followerID i) (role : TopicRole) (followers : List GoString)
    (leaderAddr : GoString)
    : name ∉ rolePeers role followers leaderAddr := by
  intro listed
  cases role with
  | leader =>
      rw [AList.mem_keys, keys_rolePeers_leader, mem_reverse, mem_map] at listed
      obtain ⟨i, _, same⟩ := listed
      exact unnumbered i same.symm
  | follower =>
      rcases (AList.mem_insert _).mp listed with same | empty
      · exact unlisted same
      · exact AList.notMem_empty _ empty
  | unspecified => exact AList.notMem_empty _ listed

/-- A follower's name starts with an `f`. -/
theorem ne_followerID {first : UInt8} {rest : GoString} (other : first ≠ 102) (i : Nat)
    : first :: rest ≠ followerID i := by
  intro same
  exact other (List.cons.inj same).1

section

variable (role : TopicRole) (followers : List GoString) (leaderAddr : GoString)

theorem voter_not_mem_rolePeers
    : lit "voter" ∉ rolePeers role followers leaderAddr :=
  not_mem_rolePeers (by decide +kernel) (ne_followerID (by decide)) role followers leaderAddr

theorem appender_not_mem_rolePeers
    : lit "appender" ∉ rolePeers role followers leaderAddr :=
  not_mem_rolePeers (by decide +kernel) (ne_followerID (by decide)) role followers leaderAddr

theorem peer_not_mem_rolePeers
    : lit "peer" ∉ rolePeers role followers leaderAddr :=
  not_mem_rolePeers (by decide +kernel) (ne_followerID (by decide)) role followers leaderAddr

end

/-- Handling a request sends its response, if any, nowhere. -/
theorem Configured.response_unsent {rm : RaftManager} {topic leaderAddr : GoString}
    {role : TopicRole} {followers : List GoString}
    (configured : rm.Configured topic role followers leaderAddr) {message : RaftMessage}
    {handled : Handled} (done : rm.handleRaftMessage topic message = .ok handled)
    : ∀ delivery, handled.response ≠ some (.ok delivery) := by
  obtain ⟨cluster, found, _, _, peers⟩ := configured
  have unsent
      : ∀ (name : GoString) (response : RaftMessage),
          name ∉ rolePeers role followers leaderAddr
          → ∀ delivery, some (sendRaftResponse cluster name response) ≠ some (.ok delivery) := by
    intro name response absent delivery
    rw [sendRaftResponse, peers, AList.lookup_eq_none.mpr absent]
    simp
  simp only [handleRaftMessage, found] at done
  cases message with
  | requestVote request =>
      cases done
      exact unsent _ _ (voter_not_mem_rolePeers role followers leaderAddr)
  | requestVoteResponse | appendEntriesResponse =>
      cases done
      exact fun _ sent => by cases sent
  | appendEntries request =>
      cases done
      exact unsent _ _ (appender_not_mem_rolePeers role followers leaderAddr)
  | command proposal => cases done

/-- A response counted for the peer of a given name. -/
def Credits (rm : RaftManager) (topic : GoString) (peerID : GoString) (response : RaftMessage)
    : Prop :=
  ∃ cluster handled, rm.clusters.lookup topic = some cluster
    ∧ rm.handleRaftMessage topic response = .ok handled
    ∧ match response with
      | .requestVoteResponse response =>
          handled.manager
            = rm.setNode topic cluster
                (cluster.raftNode.handleRequestVoteResponse peerID response).1
      | .appendEntriesResponse response =>
          handled.manager
            = rm.setNode topic cluster
                (cluster.raftNode.handleAppendEntriesResponse peerID response).1
      | _ => False

/-- The response of a handled request goes to the requester's address, and the requester
counts it for the peer that has the responder's address.
-/
def Answered (requester : RaftManager) (topic requesterAddr responderAddr : GoString)
    (handled : Handled)
    : Prop :=
  ∃ response cluster peerID, handled.response = some (.ok (requesterAddr, response))
    ∧ requester.clusters.lookup topic = some cluster
    ∧ cluster.raftNode.peers.lookup peerID = some responderAddr
    ∧ requester.Credits topic peerID response

theorem Configured.credits_unlisted {rm : RaftManager} {topic leaderAddr : GoString}
    {role : TopicRole} {followers : List GoString}
    (configured : rm.Configured topic role followers leaderAddr)
    : ∃ cluster, rm.clusters.lookup topic = some cluster
        ∧ lit "peer" ∉ cluster.raftNode.peers
        ∧ (∀ response, rm.Credits topic (lit "peer") (.requestVoteResponse response))
        ∧ ∀ response, rm.Credits topic (lit "peer") (.appendEntriesResponse response) := by
  obtain ⟨cluster, found, _, _, peers⟩ := configured
  refine ⟨cluster, found, ?_, fun response => ?_, fun response => ?_⟩
  · rw [peers]
    exact peer_not_mem_rolePeers role followers leaderAddr
  · let result := cluster.raftNode.handleRequestVoteResponse (lit "peer") response
    refine ⟨cluster, ⟨rm.setNode topic cluster result.1, [], none⟩, found, ?_, rfl⟩
    simp only [handleRaftMessage, found, result]
  · let result := cluster.raftNode.handleAppendEntriesResponse (lit "peer") response
    refine ⟨cluster, ⟨rm.setNode topic cluster result.1, result.2, none⟩, found, ?_, rfl⟩
    simp only [handleRaftMessage, found, result]

/-- No request between configured brokers is answered: its response is sent nowhere, and if it
came it would be credited to an unlisted peer.
-/
theorem responses_lost {requester responder : RaftManager} {topic leaderAddr : GoString}
    {role other : TopicRole} {followers : List GoString}
    (sender : requester.Configured topic role followers leaderAddr)
    (receiver : responder.Configured topic other followers leaderAddr)
    {peerID requesterAddr responderAddr : GoString} {message : RaftMessage}
    {request : RaftRequest}
    (sent : requester.createSendFunc topic peerID message = .ok (responderAddr, request))
    {handled : Handled} (done : (responder.handleRaftRequest request).1 = some handled)
    : ¬Answered requester topic requesterAddr responderAddr handled
      ∧ ∃ cluster, requester.clusters.lookup topic = some cluster
          ∧ lit "peer" ∉ cluster.raftNode.peers
          ∧ (∀ response, requester.Credits topic (lit "peer") (.requestVoteResponse response))
          ∧ ∀ response,
              requester.Credits topic (lit "peer") (.appendEntriesResponse response) := by
  have named : request.topic = topic := by
    unfold createSendFunc at sent
    split at sent
    · cases sent
    · split at sent
      · cases sent
      · cases sent
        rfl
  refine ⟨?_, sender.credits_unlisted⟩
  rintro ⟨response, cluster, name, delivered, _⟩
  unfold handleRaftRequest at done
  split at done
  · cases done
  · next decoded =>
      split at done
      · cases done
      · next result =>
          cases done
          rw [named] at result
          exact receiver.response_unsent result _ delivered

def electing : RaftManager :=
  ((newRaftManager (lit "broker")).setTopicRole (lit "topic") .leader [lit "follower:1"]
    (lit "broker:1")).startElection (lit "topic")

def following : RaftManager :=
  (newRaftManager (lit "other")).setTopicRole (lit "topic") .follower [lit "follower:1"]
    (lit "broker:1")

def ballot : RaftRequest where
  topic := lit "topic"
  fromPeerID := lit "broker"
  messageType := .requestVote
  payload := RequestVoteRequest.marshal ⟨1, lit "broker", 0, 0⟩

theorem ballot_sent
    : electing.createSendFunc (lit "topic") (lit "follower_0")
        (.requestVote ⟨1, lit "broker", 0, 0⟩)
      = .ok (lit "follower:1", ballot) := rfl

theorem ballot_handled : ∃ handled, (following.handleRaftRequest ballot).1 = some handled :=
  Option.isSome_iff_exists.mp (by decide +kernel)

/-- The vote of a follower, and where it would be counted. -/
theorem responses_lost_ballot
    : ∃ handled cluster, (following.handleRaftRequest ballot).1 = some handled
        ∧ ¬Answered electing (lit "topic") (lit "broker:1") (lit "follower:1") handled
        ∧ electing.clusters.lookup (lit "topic") = some cluster
        ∧ lit "peer" ∉ cluster.raftNode.peers
        ∧ ∀ response,
            electing.Credits (lit "topic") (lit "peer") (.requestVoteResponse response) := by
  obtain ⟨handled, done⟩ := ballot_handled
  have sender
      : electing.Configured (lit "topic") .leader [lit "follower:1"] (lit "broker:1") :=
    ⟨_, rfl, rfl, rfl, rfl⟩
  obtain ⟨unanswered, cluster, found, unlisted, votes, _⟩ :=
    responses_lost sender (Configured.setTopicRole _ _ .follower _ _) ballot_sent done
  exact ⟨handled, cluster, done, unanswered, found, unlisted, votes⟩

/-- The follower grants the vote, but its response is lost at the unknown peer `voter`. -/
theorem not_answered_ballot
    : ∃ handled, (following.handleRaftRequest ballot).1 = some handled
        ∧ ¬Answered electing (lit "topic") (lit "broker:1") (lit "follower:1") handled := by
  obtain ⟨handled, done⟩ := ballot_handled
  refine ⟨handled, done, ?_⟩
  rintro ⟨response, _, _, delivered, _⟩
  have lost
      : ((following.handleRaftRequest ballot).1.bind Handled.response).any Except.toBool
        = false := by
    decide +kernel
  rw [done, Option.bind_some, delivered] at lost
  cases lost

end RaftManager

end Goulette.Raft
