import Goulette.Sentinel.RingOrder

/-! An iterator whose ring changes between the calls of `Next`. The error at the start position may
come too early: virtual nodes came before it, or went before the start or the current position.
-/

namespace Goulette.Sentinel

open Goulette.Go OwnedSlots Rounds Runs List

def NodeIterator.lookedAt (ring : HashRing) (iter : NodeIterator) : List Nat :=
  match iter.distance? ring with
  | none =>
      (List.range ring.nodes.length).map (fun i => (iter.currIdx + i) % ring.nodes.length)
  | some distance =>
      (List.range (distance + 1)).map (fun i => (iter.currIdx + i) % ring.nodes.length)

/-- An iterator on its way, its ring and the nodes on it, what it has returned and who was on the
ring all the time since before the first call. It ends with an empty name or an error.
-/
structure Walk where
  ring : HashRing
  nodes : List GoString
  iter : NodeIterator
  returned : List GoString
  stayed : List GoString
  ended : Bool

inductive WalkAction
  | change (call : Change GoString)
  | next

def WalkAction.node? : WalkAction → Option GoString
  | .change call => some call.who
  | .next => none

namespace Walk

def start (replicas : Nat) (calls : List (Change GoString)) (key : GoString) : Walk where
  ring := HashRing.ringAfter replicas calls
  nodes := HashRing.presentAfter calls
  iter := (HashRing.ringAfter replicas calls).getNodeIter key
  returned := []
  stayed := HashRing.presentAfter calls
  ended := false

def change (walk : Walk) (call : Change GoString) : Walk :=
  { walk with
    ring := walk.ring.change call
    nodes := call.present walk.nodes
    -- before the first call everyone on the ring counts as staying
    stayed :=
      if walk.iter.started then
        walk.stayed.filter (fun node => node ∈ call.present walk.nodes)
      else call.present walk.nodes }

def next (walk : Walk) : Walk :=
  let result := walk.iter.next walk.ring
  if result.1 = ([], none) then { walk with iter := result.2, ended := true }
  else
    { walk with
      iter := result.2
      returned := walk.returned ++ [result.1.1]
      ended := result.1.2.isSome }

def step (walk : Walk) (action : WalkAction) : Walk :=
  -- what happens after the end does not matter any more
  if walk.ended then walk
  else
    match action with
    | .change call => walk.change call
    | .next => walk.next

def Proper (walk : Walk) : WalkAction → Prop
  | .change call => call.Proper walk.nodes
  | .next => True

/-- No virtual node comes before the start position of the iterator, none goes before the start or
the current position, and no node has an empty name when the next one is asked for.
-/
def Steady (walk : Walk) : WalkAction → Prop
  | .change (.come node) =>
      ∀ slot ∈ HashRing.slots walk.ring.replicas node,
        ∀ before ∈ walk.ring.nodes.take walk.iter.startIdx, before < slot
  | .change (.go node) =>
      ∀ before ∈ walk.ring.nodes.take (max walk.iter.startIdx walk.iter.currIdx),
        before ∉ HashRing.slots walk.ring.replicas node
  | .next => [] ∉ walk.nodes

instance (walk : Walk) : DecidablePred walk.Proper
  | .change call => inferInstanceAs (Decidable (call.Proper walk.nodes))
  | .next => .isTrue trivial

-- positions are finitely many, and the lists are much shorter than all of them
instance (walk : Walk) : DecidablePred walk.Steady
  | .change (.come node) =>
      @List.decidableBAll _ _
        (fun slot => List.decidableBAll (· < slot) (walk.ring.nodes.take walk.iter.startIdx))
        (HashRing.slots walk.ring.replicas node)
  | .change (.go node) =>
      List.decidableBAll (· ∉ HashRing.slots walk.ring.replicas node)
        (walk.ring.nodes.take (max walk.iter.startIdx walk.iter.currIdx))
  | .next => inferInstanceAs (Decidable ([] ∉ walk.nodes))

/-- No node is returned twice, no position is out of range, and in the end everyone who stayed has
been returned.
-/
structure Tolerates (walk : Walk) : Prop where
  once : walk.returned.Nodup
  inRange : ∀ position ∈ walk.iter.lookedAt walk.ring, position < walk.ring.nodes.length
  complete : walk.ended = true → ∀ node ∈ walk.stayed, node ∈ walk.returned

/-- A walk that has not ended: what the iterator has gone over, it has returned, or it is not among
those who stayed.
-/
structure Sound (replicas : Nat) (named : List GoString) (walk : Walk) : Prop where
  grown : HashRing.Grown replicas named walk.nodes walk.ring
  startInside : walk.iter.startIdx ≤ walk.ring.nodes.length
  currInside : walk.iter.currIdx ≤ walk.ring.nodes.length
  unstarted
    : walk.iter.started = false
      → walk.iter.currIdx = walk.iter.startIdx ∧ walk.iter.seen = []
  seen : walk.iter.seen = walk.returned.reverse
  stayed : ∀ node ∈ walk.stayed, node ∈ walk.nodes
  gone
    : walk.iter.started = true
      → ∀ i slot,
          Gone walk.iter.startIdx walk.iter.currIdx i
          → walk.ring.nodes[i]? = some slot
          → walk.ring.owner slot ∈ walk.iter.seen ∨ walk.ring.owner slot ∉ walk.stayed

/-- What holds in every state of a run: up to the end a sound walk, from then on a complete one. -/
structure Kept (replicas : Nat) (named : List GoString) (walk : Walk) : Prop where
  once : walk.returned.Nodup
  complete : walk.ended = true → ∀ node ∈ walk.stayed, node ∈ walk.returned
  sound : walk.ended = false → Sound replicas named walk

end Walk

namespace HashRing

variable {replicas : Nat} {nodes others : List GoString} {ring other : HashRing} {node : GoString}
  {slot : UInt32} (h : Represents replicas nodes ring)
include h

/-- A position belongs to the same node on every ring that has this node. -/
theorem Represents.owner_eq (hOther : Represents replicas others other)
    (within : ∀ node ∈ others, node ∈ nodes) (member : slot ∈ other.nodes)
    : ring.owner slot = other.owner slot := by
  obtain ⟨node, known, belongs, found⟩ := hOther.holds.lookup member
  rw [owner, owner, found, h.holds.owner node (within node known) slot belongs]

/-- Positions before a cut stay when the new ones come behind them. -/
theorem Represents.take_addNode {cut : Nat} (inside : cut ≤ ring.nodes.length)
    (behind : ∀ slot ∈ slots replicas node, ∀ before ∈ ring.nodes.take cut, before < slot)
    : (ring.addNode node).nodes.take cut = ring.nodes.take cut := by
  have length : (ring.nodes.take cut).length = cut := by
    rw [length_take]
    exact Nat.min_eq_left inside
  have parts := ring.nodes.take_append_drop cut
  have sorted := h.sorted
  rw [← parts, pairwise_append] at sorted
  have merged
      : (ring.addNode node).nodes
        = ring.nodes.take cut
          ++ (ring.nodes.drop cut ++ slots replicas node).insertionSort (· ≤ ·) := by
    have perm
        : (ring.addNode node).nodes.Perm
            (ring.nodes.take cut
              ++ (ring.nodes.drop cut ++ slots replicas node).insertionSort (· ≤ ·)) := by
      refine (ring.perm_addNode node).trans ?_
      rw [h.virtualHashes]
      nth_rewrite 1 [← parts]
      rw [append_assoc]
      exact ((perm_insertionSort _ _).symm).append_left _
    refine perm.eq_of_pairwise (fun _ _ _ _ below above => UInt32.le_antisymm below above)
      (pairwise_insertionSort (· ≤ ·) _) ?_
    refine pairwise_append.mpr
      ⟨sorted.1, pairwise_insertionSort (· ≤ ·) _, fun before front later back => ?_⟩
    rcases mem_append.mp ((perm_insertionSort _ _).mem_iff.mp back) with old | new
    · exact sorted.2.2 before front later old
    · exact UInt32.le_of_lt (behind later new before front)
  rw [merged, take_append_of_le_length (Nat.le_of_eq length.symm),
    take_of_length_le (Nat.le_of_eq length)]

/-- A node takes its positions along. -/
theorem Represents.nodes_removeNode (unique : ring.nodes.Nodup)
    : ring.nodes.filter (fun slot => slot ∉ slots replicas node)
      = (ring.removeNode node).nodes := by
  simp only [HashRing.removeNode, h.virtualHashes, ← diff_eq_foldl, unique.sdiff_eq_filter]

/-- Positions before a cut stay when none of them goes. -/
theorem Represents.take_removeNode (unique : ring.nodes.Nodup) {cut : Nat}
    (inside : cut ≤ ring.nodes.length)
    (stay : ∀ before ∈ ring.nodes.take cut, before ∉ slots replicas node)
    : (ring.removeNode node).nodes.take cut = ring.nodes.take cut := by
  have length : (ring.nodes.take cut).length = cut := by
    rw [length_take]
    exact Nat.min_eq_left inside
  have kept
      : (ring.nodes.take cut).filter (fun slot => slot ∉ slots replicas node)
        = ring.nodes.take cut :=
    filter_eq_self.mpr (fun slot member => decide_eq_true (stay slot member))
  rw [← h.nodes_removeNode unique]
  nth_rewrite 1 [← ring.nodes.take_append_drop cut]
  rw [filter_append, kept, take_append_of_le_length (Nat.le_of_eq length.symm),
    take_of_length_le (Nat.le_of_eq length)]

end HashRing

namespace Walk

variable {replicas : Nat} {named : List GoString} {walk : Walk} {node : GoString}

theorem mem_stayed_change {call : Change GoString} (started : walk.iter.started = true)
    (member : node ∈ (walk.change call).stayed)
    : node ∈ walk.stayed := by
  simp only [change, if_pos started] at member
  exact mem_of_mem_filter member

theorem mem_present_of_stayed_change {call : Change GoString}
    (member : node ∈ (walk.change call).stayed)
    : node ∈ call.present walk.nodes := by
  simp only [change] at member
  split at member
  · exact of_decide_eq_true (mem_filter.mp member).2
  · exact member

variable (h : Sound replicas named walk) (collisionFree : HashRing.CollisionFree replicas named)
include h collisionFree

/-- A node comes and takes positions behind the start position. -/
theorem Sound.come (proper : (Change.come node).Proper walk.nodes) (known : node ∈ named)
    (steady : walk.Steady (.change (.come node)))
    : Sound replicas named (walk.change (.come node)) where
  grown := h.grown.change collisionFree _ proper known
  startInside := by
    refine Nat.le_trans h.startInside ?_
    rw [change, HashRing.change, HashRing.length_addNode]
    exact Nat.le_add_right _ _
  currInside := by
    refine Nat.le_trans h.currInside ?_
    rw [change, HashRing.change, HashRing.length_addNode]
    exact Nat.le_add_right _ _
  unstarted := h.unstarted
  seen := h.seen
  stayed := fun _ => mem_present_of_stayed_change
  gone := by
    intro started i slot gone found
    have old := h.grown.represents
    have joined := h.grown.change collisionFree _ proper known
    by_cases own : (walk.ring.addNode node).owner slot = node
    · -- the new node was not there before the first call
      refine Or.inr (fun member => ?_)
      rw [show (walk.change (.come node)).ring.owner slot = node from own] at member
      exact proper (h.stayed node (mem_stayed_change started member))
    · rw [Steady, old.copies] at steady
      have same := old.take_addNode h.startInside steady
      obtain ⟨j, before, there⟩ :=
        gone.grow (old.nodes_addNode joined.represents proper)
          (joined.represents.nodup_nodes (collisionFree.mono joined.named) joined.unique)
          same found (decide_eq_true own)
      have owner := joined.represents.owner_eq old (fun _ => mem_cons_of_mem _)
        (mem_of_getElem? there)
      rw [show (walk.change (.come node)).ring.owner slot = walk.ring.owner slot from owner]
      exact (h.gone started j slot before there).imp_right
        (fun absent member => absent (mem_stayed_change started member))

/-- A node goes that has no position before the start or the current position. -/
theorem Sound.go (proper : (Change.go node).Proper walk.nodes) (known : node ∈ named)
    (steady : walk.Steady (.change (.go node)))
    : Sound replicas named (walk.change (.go node)) := by
  have old := h.grown.represents
  have left := h.grown.change collisionFree _ proper known
  have unique := old.nodup_nodes (collisionFree.mono h.grown.named) h.grown.unique
  have inside := Nat.max_le.mpr ⟨h.startInside, h.currInside⟩
  rw [Steady, old.copies] at steady
  have same := old.take_removeNode unique inside steady
  have enough
      : max walk.iter.startIdx walk.iter.currIdx ≤ (walk.ring.removeNode node).nodes.length := by
    have lengths := congrArg List.length same
    rw [length_take, length_take, Nat.min_eq_left inside] at lengths
    omega
  exact {
    grown := left
    startInside := Nat.le_trans (Nat.le_max_left _ _) enough
    currInside := Nat.le_trans (Nat.le_max_right _ _) enough
    unstarted := h.unstarted
    seen := h.seen
    stayed := fun _ => mem_present_of_stayed_change
    gone := by
      intro started i slot gone found
      obtain ⟨j, before, there⟩ :=
        gone.shrink (old.nodes_removeNode unique) same (Nat.le_max_left _ _)
          (Nat.le_max_right _ _) found
      have owner := old.owner_eq left.represents
        (fun _ member => (Change.subset_present member).elim id (fun same => same ▸ proper))
        (mem_of_getElem? found)
      rw [show (walk.change (.go node)).ring.owner slot = walk.ring.owner slot from owner.symm]
      exact (h.gone started j slot before there).imp_right
        (fun absent member => absent (mem_stayed_change started member))
  }

end Walk

namespace NodeIterator

variable {ring : HashRing} {iter : NodeIterator} {distance : Nat}

theorem lookedAt_lt {position : Nat} (looked : position ∈ iter.lookedAt ring)
    : position < ring.nodes.length := by
  rw [lookedAt] at looked
  split at looked
  · obtain ⟨i, member, rfl⟩ := mem_map.mp looked
    exact Nat.mod_lt _ (Nat.zero_lt_of_lt (mem_range.mp member))
  · next distance found =>
      obtain ⟨i, _, rfl⟩ := mem_map.mp looked
      have inside := mem_range.mp (mem_of_find?_eq_some found)
      exact Nat.mod_lt _ (Nat.zero_lt_of_lt inside)

theorem nodeAt_of_getElem? {i : Nat} {slot : UInt32} (found : ring.nodes[i]? = some slot)
    : ring.nodeAt i = ring.owner slot := by
  rw [HashRing.nodeAt, HashRing.owner, getD_eq_getElem?_getD, found, Option.getD_some]

/-- Without an unseen node all nodes on the ring were returned. -/
theorem seen_of_distance?_none (atMost : iter.currIdx ≤ ring.nodes.length)
    (none : iter.distance? ring = none) {i : Nat} {slot : UInt32}
    (found : ring.nodes[i]? = some slot)
    : ring.owner slot ∈ iter.seen := by
  obtain ⟨j, less, there, _⟩ := exists_ahead atMost (List.getElem?_eq_some_iff.mp found).1
  have seen := List.find?_eq_none.mp none j (mem_range.mpr less)
  rw [decide_eq_true_eq, not_not, there, nodeAt_of_getElem? found] at seen
  exact seen

end NodeIterator

namespace Walk

variable {replicas : Nat} {named : List GoString} {walk : Walk} {node : GoString}
  {distance : Nat}

/-- Everyone on the ring has a position there. -/
theorem Sound.exists_slot (h : Sound replicas named walk) (some : 1 ≤ replicas)
    (member : node ∈ walk.nodes)
    : ∃ (i : Nat) (slot : UInt32),
        walk.ring.nodes[i]? = Option.some slot ∧ walk.ring.owner slot = node := by
  have own : HashRing.hash (HashRing.virtualNode node 0) ∈ HashRing.slots replicas node :=
    mem_map.mpr ⟨0, mem_range.mpr some, rfl⟩
  have taken := h.grown.represents.holds.taken.mem_iff.mpr
    (mem_flatMap.mpr ⟨node, member, own⟩)
  obtain ⟨i, there⟩ := mem_iff_getElem?.mp taken
  refine ⟨i, _, there, ?_⟩
  rw [HashRing.owner, h.grown.represents.holds.owner node member _ own, Option.getD_some]

/-- After a call the iterator has gone over what it had gone over before and what it passed. -/
theorem Sound.gone_next (h : Sound replicas named walk)
    (found : walk.iter.distance? walk.ring = some distance) {i : Nat} {slot : UInt32}
    (gone
      : Gone walk.iter.startIdx
          (((walk.iter.currIdx + distance) % walk.ring.nodes.length + 1)
            % walk.ring.nodes.length) i)
    (there : walk.ring.nodes[i]? = some slot)
    : walk.ring.owner slot
          ∈ walk.ring.nodeAt ((walk.iter.currIdx + distance) % walk.ring.nodes.length)
              :: walk.iter.seen
      ∨ walk.ring.owner slot ∉ walk.stayed := by
  obtain ⟨less, passed, _⟩ := NodeIterator.distance?_some found
  have inside := (List.getElem?_eq_some_iff.mp there).1
  have onTheWay (j : Nat) (near : j ≤ distance)
      (place : (walk.iter.currIdx + j) % walk.ring.nodes.length = i)
      : walk.ring.owner slot
          ∈ walk.ring.nodeAt ((walk.iter.currIdx + distance) % walk.ring.nodes.length)
              :: walk.iter.seen := by
    rw [← NodeIterator.nodeAt_of_getElem? there, ← place]
    rcases Nat.lt_or_eq_of_le near with before | rfl
    · exact mem_cons_of_mem _ (passed j before)
    · exact mem_cons_self
  cases started : walk.iter.started with
  | true =>
      rcases gone.step h.currInside less inside with ⟨_, before⟩ | ⟨j, near, place⟩
      · exact (h.gone started i slot before there).imp_left (mem_cons_of_mem _)
      · exact Or.inl (onTheWay j near place)
  | false =>
      rw [(h.unstarted started).1] at gone onTheWay ⊢
      obtain ⟨j, near, place⟩ :=
        (gone.step h.startInside less inside).resolve_left (fun again => again.1 rfl)
      exact Or.inl (onTheWay j near place)

/-- A call that finds a node returns it, and ends the walk if it is back at the start. -/
theorem next_of_distance (found : walk.iter.distance? walk.ring = some distance)
    (nonempty : walk.ring.nodeAt ((walk.iter.currIdx + distance) % walk.ring.nodes.length) ≠ [])
    : walk.next
      = { walk with
          iter := { walk.iter with
            seen := walk.ring.nodeAt ((walk.iter.currIdx + distance) % walk.ring.nodes.length)
              :: walk.iter.seen
            currIdx := ((walk.iter.currIdx + distance) % walk.ring.nodes.length + 1)
              % walk.ring.nodes.length
            started := true }
          returned := walk.returned
            ++ [walk.ring.nodeAt ((walk.iter.currIdx + distance) % walk.ring.nodes.length)]
          ended := decide (walk.iter.started
            ∧ ((walk.iter.currIdx + distance) % walk.ring.nodes.length + 1)
              % walk.ring.nodes.length = walk.iter.startIdx) } := by
  simp only [next, NodeIterator.next, found]
  split
  · next back =>
      rw [if_neg (fun empty => nonempty (congrArg Prod.fst empty)), decide_eq_true back, back.1]
      rfl
  · next notBack =>
      rw [if_neg (fun empty => nonempty (congrArg Prod.fst empty)), decide_eq_false notBack]
      rfl

section

variable (h : Kept replicas named walk) (some : 1 ≤ replicas)
include h some

/-- A call that finds nothing ends a walk that has returned everyone. -/
theorem Kept.next_nothing (goesOn : walk.ended = false)
    (nothing : walk.iter.distance? walk.ring = none)
    : Kept replicas named walk.next := by
  have sound := h.sound goesOn
  have result : walk.iter.next walk.ring = (([], none), walk.iter) := by
    rw [NodeIterator.next, nothing]
  simp only [next, result, if_true]
  refine { once := h.once, complete := fun _ node member => ?_, sound := by simp }
  obtain ⟨i, slot, there, owned⟩ := sound.exists_slot some (sound.stayed node member)
  have seen := NodeIterator.seen_of_distance?_none sound.currInside nothing there
  rwa [owned, sound.seen, mem_reverse] at seen

/-- A call that finds a node returns it. At the start position everything has been gone over. -/
theorem Kept.next_found (goesOn : walk.ended = false) (full : [] ∉ walk.nodes)
    (found : walk.iter.distance? walk.ring = Option.some distance)
    : Kept replicas named walk.next := by
  have sound := h.sound goesOn
  obtain ⟨less, _, new⟩ := NodeIterator.distance?_some found
  have gone := fun i slot => @Sound.gone_next replicas named walk distance sound found i slot
  have position := Nat.mod_lt (walk.iter.currIdx + distance) (Nat.zero_lt_of_lt less)
  have after := Nat.mod_lt ((walk.iter.currIdx + distance) % walk.ring.nodes.length + 1)
    (Nat.zero_lt_of_lt less)
  have nonempty := sound.grown.represents.nodeAt_ne_nil
    (fun node member same => full (same ▸ member)) position
  rw [next_of_distance found nonempty]
  generalize walk.ring.nodeAt _ = node at *
  generalize ((walk.iter.currIdx + distance) % walk.ring.nodes.length + 1)
    % walk.ring.nodes.length = position at *
  have seen : node :: walk.iter.seen = (walk.returned ++ [node]).reverse := by
    rw [sound.seen, reverse_append, reverse_singleton, singleton_append]
  refine { once := ?_, complete := fun ended other member => ?_, sound := fun _ => ?_ }
  · rw [sound.seen, mem_reverse] at new
    exact (perm_append_singleton node walk.returned).nodup_iff.mpr
      (nodup_cons.mpr ⟨new, h.once⟩)
  · obtain ⟨i, slot, there, owned⟩ := sound.exists_slot some (sound.stayed other member)
    rcases gone i slot ((of_decide_eq_true ended).2 ▸ Gone.all _ i) there with here | absent
    · rwa [owned, seen, mem_reverse] at here
    · exact absurd (owned ▸ member) absent
  · exact {
      grown := sound.grown
      startInside := sound.startInside
      currInside := Nat.le_of_lt after
      unstarted := by simp
      seen := seen
      stayed := sound.stayed
      gone := fun _ => gone
    }

theorem Kept.next (goesOn : walk.ended = false) (full : [] ∉ walk.nodes)
    : Kept replicas named walk.next := by
  cases found : walk.iter.distance? walk.ring with
  | none => exact h.next_nothing some goesOn found
  | some distance => exact h.next_found some goesOn full found

theorem Kept.step (collisionFree : HashRing.CollisionFree replicas named) {action : WalkAction}
    (proper : walk.Proper action) (steady : walk.Steady action)
    (known : ∀ node ∈ action.node?, node ∈ named)
    : Kept replicas named (walk.step action) := by
  cases goesOn : walk.ended with
  | true => simpa only [Walk.step, goesOn, if_true] using h
  | false =>
      simp only [Walk.step, goesOn, Bool.false_eq_true, if_false]
      cases action with
      | next => exact h.next some goesOn steady
      | change call =>
          refine { once := h.once, complete := ?_, sound := fun _ => ?_ }
          · exact fun ended => absurd (goesOn.symm.trans ended) Bool.false_ne_true
          · cases call with
            | come node => exact (h.sound goesOn).come collisionFree proper (known node rfl) steady
            | go node => exact (h.sound goesOn).go collisionFree proper (known node rfl) steady

end

theorem Kept.tolerates (h : Kept replicas named walk) : walk.Tolerates where
  once := h.once
  inRange := fun _ => NodeIterator.lookedAt_lt
  complete := h.complete

theorem kept_start {calls : List (Change GoString)}
    (grown
      : HashRing.Grown replicas named (HashRing.presentAfter calls)
          (HashRing.ringAfter replicas calls))
    (key : GoString)
    : Kept replicas named (start replicas calls key) where
  once := nodup_nil
  complete := by simp [start]
  sound _ := {
    grown := grown
    startInside := HashRing.startIdx_le _ key
    currInside := HashRing.startIdx_le _ key
    unstarted := fun _ => ⟨rfl, rfl⟩
    seen := rfl
    stayed := fun _ member => member
    gone := by simp [start, HashRing.getNodeIter]
  }

/-- While nodes come and go behind the positions of the iterator, every state of the walk is
tolerable.
-/
theorem tolerates_of_steady {calls : List (Change GoString)} (proper : HashRing.ProperCalls calls)
    (some : 1 ≤ replicas) {key : GoString} {actions : List WalkAction}
    (properSteps : AllSteps step Proper (start replicas calls key) actions)
    (collisionFree
      : HashRing.CollisionFree replicas
          (HashRing.used calls ++ actions.filterMap WalkAction.node?))
    (steady : AllSteps step Steady (start replicas calls key) actions)
    : ∀ walk ∈ actions.scanl step (start replicas calls key), walk.Tolerates := by
  have fewer := collisionFree.mono (fun _ => mem_append_left _)
  have before := HashRing.grown_ringAfter proper fewer
  have grown
      : HashRing.Grown replicas (HashRing.used calls ++ actions.filterMap WalkAction.node?) _ _ :=
    { represents := before.represents
      unique := before.unique
      named := fun node member => mem_append_left _ (before.named node member) }
  have known (action : WalkAction) (member : action ∈ actions) (node : GoString)
      (names : node ∈ action.node?)
      : node ∈ HashRing.used calls ++ actions.filterMap WalkAction.node? :=
    mem_append_right _ (mem_filterMap.mpr ⟨action, member, names⟩)
  have steps := (properSteps.together steady).and known
  intro walk visited
  refine Kept.tolerates (AllSteps.always (fun state action allowed h => ?_)
    (kept_start grown key) steps walk visited)
  exact Kept.step h some collisionFree allowed.1.1 allowed.1.2 allowed.2

/-- Between the calls of `Next` one node comes behind the start position and goes again, and another
one comes.
-/
def comesBehind : List WalkAction :=
  [.next, .change (.come (lit "c")), .change (.go (lit "c")), .change (.come (lit "h")), .next]

theorem tolerates_comesBehind
    : (comesBehind.foldl step (start 1 HashRing.pairJoins (lit "t3"))).ended = true
      ∧ ∀ node ∈ (comesBehind.foldl step (start 1 HashRing.pairJoins (lit "t3"))).stayed,
          node ∈ (comesBehind.foldl step (start 1 HashRing.pairJoins (lit "t3"))).returned := by
  have ended : (comesBehind.foldl step (start 1 HashRing.pairJoins (lit "t3"))).ended = true := by
    decide +kernel
  have tolerates := @tolerates_of_steady 1 HashRing.pairJoins (by decide +kernel)
    (Nat.le_refl 1) (lit "t3") comesBehind (by decide +kernel) (by decide +kernel)
    (by decide +kernel) _ (foldl_mem_scanl step _ _)
  exact ⟨ended, tolerates.complete ended⟩

def comesBefore : List WalkAction := [.next, .change (.come (lit "d")), .next]

/-- The second call returns the new node with the error of the start position, to which the first
node of the ring has moved.
-/
theorem not_tolerates_comesBefore
    : HashRing.ProperCalls HashRing.pairJoins
      ∧ AllSteps step Proper (start 1 HashRing.pairJoins (lit "t3")) comesBefore
      ∧ HashRing.CollisionFree 1
          (HashRing.used HashRing.pairJoins ++ comesBefore.filterMap WalkAction.node?)
      ∧ ¬∀ walk ∈ comesBefore.scanl step (start 1 HashRing.pairJoins (lit "t3")),
          walk.Tolerates := by
  refine ⟨by decide +kernel, by decide +kernel, by decide +kernel, fun all => ?_⟩
  have last := all _ (foldl_mem_scanl step _ _)
  have ended : (comesBefore.foldl step (start 1 HashRing.pairJoins (lit "t3"))).ended = true := by
    decide +kernel
  have missed
      : ¬∀ node ∈ (comesBefore.foldl step (start 1 HashRing.pairJoins (lit "t3"))).stayed,
          node ∈ (comesBefore.foldl step (start 1 HashRing.pairJoins (lit "t3"))).returned := by
    decide +kernel
  exact missed (last.complete ended)

end Walk

end Goulette.Sentinel
