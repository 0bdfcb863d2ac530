import Goulette.Sentinel.Recovery

/-! The hash ring after any history of joins and leaves. Without collisions of checksums it does not
remember that history.
-/

namespace Goulette.Sentinel

open Goulette.Go OwnedSlots Rounds Runs

variable {other : HashRing}

namespace HashRing

def change (ring : HashRing) : Change GoString → HashRing
  | .come node => ring.addNode node
  | .go node => ring.removeNode node

def ringAfter (replicas : Nat) (calls : List (Change GoString)) : HashRing :=
  calls.foldl change (newHashRing replicas)

def presentAfter (calls : List (Change GoString)) : List GoString :=
  calls.foldl Change.present []

def ProperCalls (calls : List (Change GoString)) : Prop :=
  AllSteps Change.present (fun nodes call => call.Proper nodes) [] calls

instance (calls : List (Change GoString)) : Decidable (ProperCalls calls) :=
  AllSteps.decidable _ _ _ _

def used (calls : List (Change GoString)) : List GoString := calls.map Change.who

structure Represents (replicas : Nat) (nodes : List GoString) (ring : HashRing) : Prop where
  copies : ring.replicas = replicas
  sorted : ring.nodes.Pairwise (· ≤ ·)
  holds : Holds (slots replicas) nodes ring.nodes ring.nodeMap
  only : Only (slots replicas) nodes ring.nodeMap

variable {replicas : Nat} {nodes : List GoString} {ring : HashRing} {node : GoString}

theorem CollisionFree.mono {others : List GoString} (collisionFree : CollisionFree replicas nodes)
    (fewer : ∀ node ∈ others, node ∈ nodes)
    : CollisionFree replicas others :=
  fun left inLeft right inRight =>
    collisionFree left (fewer left inLeft) right (fewer right inRight)

theorem Represents.virtualHashes (h : Represents replicas nodes ring)
    : ring.virtualHashes = slots replicas := by
  funext node
  rw [HashRing.virtualHashes, h.copies, slots]

theorem Represents.empty (replicas : Nat) : Represents replicas [] (newHashRing replicas) where
  copies := rfl
  sorted := List.Pairwise.nil
  holds := Holds.empty _
  only := fun _ _ => rfl

theorem Represents.addNode (h : Represents replicas nodes ring)
    (apart : ∀ other ∈ nodes, ∀ slot ∈ slots replicas other, slot ∉ slots replicas node)
    : Represents replicas (node :: nodes) (ring.addNode node) where
  copies := h.copies
  sorted := List.pairwise_insertionSort (· ≤ ·) _
  holds := by
    simp only [HashRing.addNode, h.virtualHashes]
    exact h.holds.add apart (List.perm_insertionSort _ _)
  only := by
    simp only [HashRing.addNode, h.virtualHashes]
    exact h.only.add node

theorem Represents.removeNode (h : Represents replicas nodes ring) (unique : nodes.Nodup)
    (apart
      : ∀ other ∈ nodes, other ≠ node
        → ∀ slot ∈ slots replicas other, slot ∉ slots replicas node)
    : Represents replicas ((Change.go node).present nodes) (ring.removeNode node) where
  copies := h.copies
  sorted := by
    simp only [HashRing.removeNode, ← List.diff_eq_foldl]
    exact h.sorted.sublist (List.diff_sublist _ _)
  holds := by
    simp only [HashRing.removeNode, h.virtualHashes]
    exact h.holds.remove unique apart
  only := by
    simp only [HashRing.removeNode, h.virtualHashes]
    exact h.only.remove node

/-- A ring in the middle of a history that names the given nodes. -/
structure Grown (replicas : Nat) (named nodes : List GoString) (ring : HashRing) : Prop where
  represents : Represents replicas nodes ring
  unique : nodes.Nodup
  named : ∀ node ∈ nodes, node ∈ named

theorem Grown.change {named : List GoString} (collisionFree : CollisionFree replicas named)
    (h : Grown replicas named nodes ring) (call : Change GoString) (proper : call.Proper nodes)
    (known : call.who ∈ named)
    : Grown replicas named (call.present nodes) (ring.change call) where
  represents := by
    cases call with
    | come node =>
        refine h.represents.addNode (fun other member => ?_)
        have different : other ≠ node := fun same => proper (same ▸ member)
        exact collisionFree.apart (h.named other member) known different
    | go node =>
        refine h.represents.removeNode h.unique (fun other member different => ?_)
        exact collisionFree.apart (h.named other member) known different
  unique := Change.nodup_present h.unique proper
  named := by
    intro node member
    rcases Change.subset_present member with before | rfl
    · exact h.named node before
    · exact known

/-- After proper calls the ring holds the nodes that remain, by induction on the calls. -/
theorem grown_ringAfter {calls : List (Change GoString)} (proper : ProperCalls calls)
    (collisionFree : CollisionFree replicas (used calls))
    : Grown replicas (used calls) (presentAfter calls) (ringAfter replicas calls) := by
  have start : Grown replicas (used calls) [] (newHashRing replicas) :=
    { represents := Represents.empty replicas, unique := List.nodup_nil, named := by simp }
  have steps := proper.and (fun call member => List.mem_map_of_mem (f := Change.who) member)
  have grown : Grown replicas (used calls) _ _ :=
    AllSteps.simulation
      (fun nodes ring call allowed h => h.change collisionFree call allowed.1 allowed.2) start steps
  rwa [follow_eq_foldl] at grown

structure Same (ring other : HashRing) : Prop where
  nodes : ring.nodes = other.nodes
  nodeMap : ∀ slot, ring.nodeMap.lookup slot = other.nodeMap.lookup slot

/-- The present nodes determine the ring. -/
theorem Represents.same {others : List GoString} (h : Represents replicas nodes ring)
    (hOther : Represents replicas others other) (perm : nodes.Perm others)
    : Same ring other where
  nodes := by
    have slotsPerm := (h.holds.taken.trans (perm.flatMap_right _)).trans hOther.holds.taken.symm
    refine slotsPerm.eq_of_pairwise (fun _ _ _ _ below above => ?_) h.sorted hOther.sorted
    exact UInt32.le_antisymm below above
  nodeMap := h.holds.lookup_eq h.only hOther.holds hOther.only perm

section

variable (same : Same ring other)
include same

theorem Same.nodeAt (position : Nat)
    : ring.nodeAt position = other.nodeAt position := by
  rw [HashRing.nodeAt, HashRing.nodeAt, same.nodes, same.nodeMap]

theorem Same.getNodeIter (key : GoString)
    : ring.getNodeIter key = other.getNodeIter key := by
  rw [HashRing.getNodeIter, HashRing.getNodeIter, same.nodes]

theorem Same.next (iter : NodeIterator)
    : iter.next ring = iter.next other := by
  simp only [NodeIterator.next, NodeIterator.distance?, same.nodes, same.nodeAt]

theorem Same.getNode (key : GoString)
    : ring.getNode key = other.getNode key := by
  rw [HashRing.getNode, HashRing.getNode, same.getNodeIter, same.next]

theorem Same.collect (count : Nat) (iter : NodeIterator)
    : iter.collect ring count = iter.collect other count := by
  induction count generalizing iter with
  | zero => rfl
  | succ count ih => simp only [NodeIterator.collect, same.next, ih]

theorem Same.getNodes (key : GoString) (count : Int)
    : ring.getNodes key count = other.getNodes key count := by
  simp only [HashRing.getNodes, same.nodes, same.getNodeIter, same.collect]

end

/-- Different nodes added one after the other are proper calls. -/
theorem properCalls_map_come {order : List GoString} (unique : order.Nodup)
    : ProperCalls (order.map Change.come)
      ∧ presentAfter (order.map Change.come) = order.reverse := by
  have general (before : List GoString) (apart : (order ++ before).Nodup)
      : AllSteps Change.present (fun nodes call => call.Proper nodes) before
          (order.map Change.come)
        ∧ (order.map Change.come).foldl Change.present before = order.reverse ++ before := by
    clear unique
    induction order generalizing before with
    | nil => exact ⟨trivial, rfl⟩
    | cons node rest ih =>
        rw [List.cons_append, List.nodup_cons, List.mem_append, not_or] at apart
        have later := ih (node :: before) (by
          rw [List.nodup_middle, List.nodup_cons, List.mem_append, not_or]
          exact apart)
        refine ⟨⟨apart.1.2, later.1⟩, ?_⟩
        rw [List.map_cons, List.foldl_cons, List.reverse_cons, List.append_assoc]
        exact later.2
  have all := general [] (by simpa using unique)
  exact ⟨all.1, by rw [presentAfter, all.2, List.append_nil]⟩

theorem Represents.perm {others : List GoString} (h : Represents replicas nodes ring)
    (perm : nodes.Perm others)
    : Represents replicas others ring where
  copies := h.copies
  sorted := h.sorted
  holds := {
    taken := h.holds.taken.trans (perm.flatMap_right _)
    owner := fun node member => h.holds.owner node (perm.mem_iff.mpr member)
  }
  only := fun slot free => h.only slot (fun node member => free node (perm.mem_iff.mp member))

/-- A ring built from a list of different nodes holds these nodes. -/
theorem represents_fresh {order : List GoString} (unique : order.Nodup)
    (collisionFree : CollisionFree replicas order)
    : Represents replicas order (order.foldl HashRing.addNode (newHashRing replicas)) := by
  obtain ⟨proper, present⟩ := properCalls_map_come unique
  have same : used (order.map Change.come) = order := by
    rw [used, List.map_map]
    exact List.map_id order
  have represents := (grown_ringAfter proper (same ▸ collisionFree)).represents
  rw [present, ringAfter, List.foldl_map] at represents
  exact represents.perm (List.reverse_perm order)

/-- The ring after any proper calls is the ring built afresh from the remaining nodes in any
order, and the answers depend on the set of remaining nodes only.
-/
theorem ring_history_independent {calls : List (Change GoString)} (proper : ProperCalls calls)
    (collisionFree : CollisionFree replicas (used calls))
    : (∀ order : List GoString,
        order.Perm (presentAfter calls)
        → (ringAfter replicas calls).nodes
            = (order.foldl HashRing.addNode (newHashRing replicas)).nodes
          ∧ ∀ slot, (ringAfter replicas calls).nodeMap.lookup slot
              = (order.foldl HashRing.addNode (newHashRing replicas)).nodeMap.lookup slot)
      ∧ ∀ others : List (Change GoString),
          ProperCalls others
          → CollisionFree replicas (used others)
          → (∀ node, node ∈ presentAfter others ↔ node ∈ presentAfter calls)
          → ∀ key,
              (ringAfter replicas others).getNode key = (ringAfter replicas calls).getNode key
              ∧ ∀ count, (ringAfter replicas others).getNodes key count
                  = (ringAfter replicas calls).getNodes key count := by
  have grown := grown_ringAfter proper collisionFree
  constructor
  · intro order perm
    have fresh := represents_fresh (perm.nodup_iff.mpr grown.unique)
      (collisionFree.mono (fun node member => grown.named node (perm.mem_iff.mp member)))
    have same := grown.represents.same fresh perm.symm
    exact ⟨same.nodes, same.nodeMap⟩
  · intro others properOthers othersFree members key
    have grownToo := grown_ringAfter properOthers othersFree
    have perm := (List.perm_ext_iff_of_nodup grownToo.unique grown.unique).mpr members
    have same := grownToo.represents.same grown.represents perm
    exact ⟨same.getNode key, same.getNodes key⟩

def joinsAndLeaves : List (Change GoString) :=
  [.come (lit "a"), .come (lit "b"), .go (lit "a"), .come (lit "c"), .come (lit "a")]

theorem ring_history_independent_joinsAndLeaves
    : (ringAfter 3 joinsAndLeaves).nodes
        = ([lit "b", lit "a", lit "c"].foldl HashRing.addNode (newHashRing 3)).nodes
      ∧ (ringAfter 3 [.come (lit "b"), .come (lit "c"), .come (lit "a")]).getNode (lit "topic")
        = (ringAfter 3 joinsAndLeaves).getNode (lit "topic") := by
  have independent := @ring_history_independent 3 joinsAndLeaves (by decide +kernel)
    (by decide +kernel)
  refine ⟨(independent.1 _ (by decide +kernel)).1, ?_⟩
  exact (independent.2 _ (by decide +kernel) (by decide +kernel) (by
    have sets
        : presentAfter [.come (lit "b"), .come (lit "c"), .come (lit "a")]
          = [lit "a", lit "c", lit "b"] ∧ presentAfter joinsAndLeaves
          = [lit "a", lit "c", lit "b"] := by decide +kernel
    rw [sets.1, sets.2]
    exact fun _ => Iff.rfl) (lit "topic")).1

end HashRing

/-! What an iterator enumerates. -/

/-- On a condition that stays true once it is true, the search between two bounds finds where
it becomes true.
-/
theorem searchBetween_spec {found : Nat → Bool} {low high : Nat} (ordered : low ≤ high)
    (stays : ∀ i j, i ≤ j → j < high → found i = true → found j = true)
    : low ≤ searchBetween found low high
      ∧ searchBetween found low high ≤ high
      ∧ (∀ i, low ≤ i → i < searchBetween found low high → found i = false)
      ∧ ∀ i, searchBetween found low high ≤ i → i < high → found i = true := by
  fun_induction searchBetween found low high with
  | case1 low high inside middle here ih =>
      have bound : middle < high := by omega
      obtain ⟨atLeast, atMost, before, after⟩ :=
        ih (by omega) (fun i j below jBound => stays i j below (by omega))
      refine ⟨atLeast, by omega, before, fun i beyond iBound => ?_⟩
      by_cases left : i < middle
      · exact after i beyond left
      · exact stays middle i (by omega) iBound here
  | case2 low high inside middle here ih =>
      have bound : middle < high := by omega
      obtain ⟨atLeast, atMost, before, after⟩ := ih (by omega) stays
      refine ⟨by omega, atMost, fun i atLow below => ?_, after⟩
      by_cases left : i ≤ middle
      · have absent : found i ≠ true := fun yes => here (stays i middle left bound yes)
        simpa using absent
      · exact before i (by omega) below
  | case3 low high outside =>
      exact ⟨le_refl _, ordered, fun i atLow below => by omega, fun i beyond bound => by omega⟩

namespace NodeIterator

variable {ring : HashRing} {iter : NodeIterator}

/-- An iterator returns the first occurrences of the names that are still to come, by
induction on their number.
-/
theorem enumerate_eq {passed rest : List GoString}
    (inside : 0 < ring.nodes.length → iter.startIdx < ring.nodes.length)
    (on : iter.On ring passed rest)
    : iter.enumerate ring = firsts iter.seen rest := by
  induction size : rest.length using Nat.strong_induction_on
    generalizing iter passed rest with
  | _ bound ih =>
      rw [enumerate]
      split
      · next none => rw [firsts_of_subset (on.seen_of_none none)]
      · next i found =>
          obtain ⟨skipped, later, rfl, returns⟩ := on.next inside found
          rw [firsts_append_cons returns.passedOver returns.new, ← returns.seen]
          simp only
          split
          · -- the error stands beside the last name of the round
            next error => rw [returns.error (by rw [error]; simp)]; rfl
          · have shorter : later.length < bound := by
              rw [← size]
              simp only [List.length_append, List.length_cons]
              omega
            rw [ih later.length shorter (returns.startIdx ▸ inside) returns.on rfl]

end NodeIterator

namespace HashRing

variable {replicas : Nat} {nodes : List GoString} {ring : HashRing} {node : GoString}

def enumeration (ring : HashRing) (key : GoString) : List GoString :=
  (ring.getNodeIter key).enumerate ring

def met (ring : HashRing) (key : GoString) : List GoString :=
  (around (fun slot => hash key ≤ slot) ring.nodes).map ring.owner

section

variable (sorted : ring.nodes.Pairwise (· ≤ ·)) (key : GoString)
include sorted

/-- The positions whose checksum is at least that of the key come last. -/
theorem search_spec
    : ∃ cut ≤ ring.nodes.length,
        search ring.nodes.length (fun i => ring.nodes.getD i 0 ≥ hash key) = cut
        ∧ ring.nodes.rotate cut = around (fun slot => hash key ≤ slot) ring.nodes := by
  have stays (i j : Nat) (below : i ≤ j) (bound : j < ring.nodes.length)
      (yes : decide (ring.nodes.getD i 0 ≥ hash key) = true)
      : decide (ring.nodes.getD j 0 ≥ hash key) = true := by
    rw [decide_eq_true_eq] at yes ⊢
    rcases Nat.lt_or_eq_of_le below with less | rfl
    · have order := List.pairwise_iff_getElem.mp sorted i j (by omega) bound less
      rw [getD_of_lt bound]
      rw [getD_of_lt (by omega)] at yes
      exact UInt32.le_trans yes order
    · exact yes
  obtain ⟨_, atMost, before, after⟩ := searchBetween_spec (Nat.zero_le _) stays
  refine ⟨_, atMost, rfl, rotate_eq_around 0 atMost (fun i => before i (Nat.zero_le i)) after⟩

/-- The round of the iterator goes around the checksum of the key. -/
theorem oneRound_getNodeIter
    : oneRound ring.nodeAt ring.nodes.length (ring.getNodeIter key).startIdx = ring.met key := by
  obtain ⟨cut, atMost, found, turned⟩ := search_spec sorted key
  rw [oneRound_nodeAt, met, ← turned]
  simp only [getNodeIter, found]
  by_cases whole : cut = ring.nodes.length
  · rw [if_pos whole, whole, List.rotate_zero, List.rotate_length]
  · rw [if_neg whole]

/-- A new iterator has the whole round to go. -/
theorem on_getNodeIter
    : (ring.getNodeIter key).On ring [] (ring.met key) := by
  rw [← oneRound_getNodeIter sorted key]
  exact Along.begin _ _ _

/-- The iterator for a key enumerates the first occurrences on the round. -/
theorem enumeration_eq
    : ring.enumeration key = firsts [] (ring.met key) :=
  NodeIterator.enumerate_eq (ring.startIdx_lt key) (on_getNodeIter sorted key)

end

theorem getNode_eq_head (ring : HashRing) (key : GoString)
    : ring.getNode key = (ring.enumeration key).headD [] := by
  rw [getNode, enumeration, NodeIterator.enumerate]
  split
  · next none => simp only [NodeIterator.next, none, List.headD_nil]
  · simp only
    split
    · rfl
    · rfl

theorem Same.enumeration (same : Same ring other) (sorted : ring.nodes.Pairwise (· ≤ ·))
    (key : GoString)
    : ring.enumeration key = other.enumeration key := by
  have owners : ring.owner = other.owner := by
    funext slot
    rw [owner, owner, same.nodeMap]
  rw [enumeration_eq sorted, enumeration_eq (same.nodes ▸ sorted), met, met, same.nodes, owners]

def namedNodes (ring : HashRing) (key : GoString) : List GoString :=
  (ring.enumeration key).takeWhile (fun name => name ≠ [])

section

variable (h : Represents replicas nodes ring)
  (joined : Represents replicas (node :: nodes) (ring.addNode node)) (absent : node ∉ nodes)
include h joined absent

/-- A node that joins has the new positions, and nobody else loses one. -/
theorem Represents.owner_addNode
    : (∀ slot ∈ slots replicas node, (ring.addNode node).owner slot = node)
      ∧ ∀ slot ∈ ring.nodes,
          (ring.addNode node).owner slot = ring.owner slot ∧ ring.owner slot ≠ node := by
  constructor
  · intro slot belongs
    rw [owner, joined.holds.owner node List.mem_cons_self slot belongs, Option.getD_some]
  · intro slot member
    obtain ⟨other, known, belongs, found⟩ := h.holds.lookup member
    rw [owner, owner, found, joined.holds.owner other (List.mem_cons_of_mem _ known) slot belongs,
      Option.getD_some]
    exact ⟨rfl, fun same => absent (same ▸ known)⟩

/-- Without the positions of the new node the ring is the one before. -/
theorem Represents.nodes_addNode
    : (ring.addNode node).nodes.filter (fun slot => (ring.addNode node).owner slot ≠ node)
      = ring.nodes := by
  obtain ⟨own, others⟩ := h.owner_addNode joined absent
  have kept
      : ring.nodes.filter (fun slot => (ring.addNode node).owner slot ≠ node) = ring.nodes := by
    refine List.filter_eq_self.mpr (fun slot member => ?_)
    rw [(others slot member).1]
    exact decide_eq_true (others slot member).2
  have dropped
      : (slots replicas node).filter (fun slot => (ring.addNode node).owner slot ≠ node)
        = [] := by
    refine List.filter_eq_nil_iff.mpr (fun slot member => ?_)
    simp [own slot member]
  have all : (ring.addNode node).nodes.Perm (ring.nodes ++ slots replicas node) :=
    h.virtualHashes ▸ ring.perm_addNode node
  have perm := all.filter (fun slot => (ring.addNode node).owner slot ≠ node)
  rw [List.filter_append, kept, dropped, List.append_nil] at perm
  refine perm.eq_of_pairwise (fun _ _ _ _ below above => ?_) (joined.sorted.filter _) h.sorted
  exact UInt32.le_antisymm below above

/-- A round meets the same nodes as before, with the new node between them. -/
theorem Represents.met_addNode (key : GoString)
    : ((ring.addNode node).met key).filter (fun name => name ≠ node) = ring.met key := by
  have positions := h.nodes_addNode joined absent
  rw [met, List.filter_map, met]
  change List.map _ (List.filter
    (fun slot => decide ((ring.addNode node).owner slot ≠ node)) _) = _
  rw [← around_filter, positions]
  refine List.map_congr_left (fun slot member => ?_)
  have there : slot ∈ ring.nodes := by
    rcases List.mem_append.mp member with front | back
    · exact List.mem_of_mem_filter front
    · exact List.mem_of_mem_filter back
  exact ((h.owner_addNode joined absent).2 slot there).1

end

/-- A node that joins changes neither the order of the other nodes nor, once it leaves again,
anything at all; a key stays with its node or goes to the new one.
-/
theorem enumeration_addNode {calls : List (Change GoString)} (proper : ProperCalls calls)
    (absent : node ∉ presentAfter calls) (nonempty : node ≠ [])
    (collisionFree : CollisionFree replicas (node :: used calls)) (key : GoString)
    : (((ringAfter replicas calls).addNode node).enumeration key).filter (fun name => name ≠ node)
          = (ringAfter replicas calls).enumeration key
      ∧ (((ringAfter replicas calls).addNode node).namedNodes key).filter (fun name => name ≠ node)
          = (ringAfter replicas calls).namedNodes key
      ∧ (((ringAfter replicas calls).addNode node).removeNode node).enumeration key
          = (ringAfter replicas calls).enumeration key
      ∧ (((ringAfter replicas calls).addNode node).getNode key
            = (ringAfter replicas calls).getNode key
          ∨ ((ringAfter replicas calls).addNode node).getNode key = node) := by
  have fewer := collisionFree.mono (fun other member => List.mem_cons_of_mem node member)
  have grown : Grown replicas (node :: used calls) _ _ :=
    { represents := (grown_ringAfter proper fewer).represents
      unique := (grown_ringAfter proper fewer).unique
      named := fun other member =>
        List.mem_cons_of_mem _ ((grown_ringAfter proper fewer).named other member) }
  have joined
      : Grown replicas (node :: used calls) (node :: presentAfter calls)
          ((ringAfter replicas calls).addNode node) :=
    grown.change collisionFree (.come node) absent List.mem_cons_self
  have left
      : Grown replicas (node :: used calls) ((Change.go node).present (node :: presentAfter calls))
          (((ringAfter replicas calls).addNode node).removeNode node) :=
    joined.change collisionFree (.go node) List.mem_cons_self List.mem_cons_self
  rw [Change.present_go_cons] at left
  have others
      : (((ringAfter replicas calls).addNode node).enumeration key).filter
          (fun name => name ≠ node)
        = (ringAfter replicas calls).enumeration key := by
    rw [enumeration_eq joined.represents.sorted, enumeration_eq grown.represents.sorted,
      ← firsts_filter, grown.represents.met_addNode joined.represents absent]
  refine ⟨others, ?_, ?_, ?_⟩
  · rw [namedNodes, namedNodes, ← others, takeWhile_filter]
    intro name empty
    have same : name = [] := by simpa using empty
    rw [same]
    exact decide_eq_true nonempty.symm
  · have same := left.represents.same grown.represents (List.Perm.refl _)
    exact same.enumeration left.represents.sorted key
  · rw [getNode_eq_head, getNode_eq_head, ← others]
    cases enumerated : ((ringAfter replicas calls).addNode node).enumeration key with
    | nil => exact Or.inl rfl
    | cons first rest =>
        by_cases new : first = node
        · exact Or.inr new
        · refine Or.inl ?_
          rw [List.filter_cons_of_pos (by simpa using new), List.headD_cons, List.headD_cons]

theorem enumeration_addNode_d
    : (((ringAfter 3 joinsAndLeaves).addNode (lit "d")).enumeration (lit "topic")).filter
          (fun name => name ≠ lit "d")
        = (ringAfter 3 joinsAndLeaves).enumeration (lit "topic")
      ∧ (ringAfter 3 joinsAndLeaves).enumeration (lit "topic") = [lit "a", lit "c", lit "b"] :=
  ⟨(@enumeration_addNode 3 (lit "d") joinsAndLeaves (by decide +kernel) (by decide +kernel)
      (by decide +kernel) (by decide +kernel) (lit "topic")).1,
    by decide +kernel⟩

end HashRing

end Goulette.Sentinel
