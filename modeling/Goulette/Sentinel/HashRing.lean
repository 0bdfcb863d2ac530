import Goulette.Go.Checked
import Goulette.Go.Path
import Goulette.Library.ByteFrames
import Goulette.Library.OwnedSlots
import Goulette.Library.Rounds
import Mathlib.Data.Finset.Card
import Mathlib.Data.List.Sort

/-! The consistent hash ring of `internal/utils/hash.go`. -/

namespace Goulette.Sentinel

open Goulette.Go ByteFrames Rounds List

/-- One bit of the reflected division by the IEEE polynomial. -/
def crc32Bit (crc : UInt32) : UInt32 :=
  if crc &&& 1 = 1 then (crc >>> 1) ^^^ 0xedb88320 else crc >>> 1

def crc32Byte (crc : UInt32) (byte : UInt8) : UInt32 :=
  Nat.iterate crc32Bit 8 (crc ^^^ byte.toUInt32)

def checksumIEEE (data : Bytes) : UInt32 := ~~~ (data.foldl crc32Byte 0xffffffff)

example : checksumIEEE (lit "123456789") = 0xcbf43926 := by decide +kernel

/-- `sort.Search`: the loop between the bounds `low` and `high`. -/
def searchBetween (found : Nat → Bool) (low high : Nat) : Nat :=
  if low < high then
    let middle := (low + high) / 2
    if found middle then searchBetween found low middle
    else searchBetween found (middle + 1) high
  else low
termination_by high - low

def search (length : Nat) (found : Nat → Bool) : Nat := searchBetween found 0 length

theorem searchBetween_le (found : Nat → Bool) {low high : Nat} (ordered : low ≤ high)
    : searchBetween found low high ≤ high := by
  fun_induction searchBetween found low high with
  | case1 low high inside middle here ih => exact (ih (by omega)).trans (by omega)
  | case2 low high inside middle here ih => exact ih (by omega)
  | case3 low high outside => exact ordered

structure HashRing where
  nodes : List UInt32
  nodeMap : GoMap UInt32 GoString
  replicas : Nat

namespace HashRing

def newHashRing (replicas : Nat) : HashRing := { nodes := [], nodeMap := ∅, replicas }

def virtualNode (node : GoString) (i : Nat) : GoString := node ++ lit ":" ++ decimal i

def hash (key : GoString) : UInt32 := checksumIEEE key

def virtualHashes (ring : HashRing) (node : GoString) : List UInt32 :=
  (List.range ring.replicas).map (fun i => hash (virtualNode node i))

def addNode (ring : HashRing) (node : GoString) : HashRing :=
  { ring with
    nodes := (ring.nodes ++ ring.virtualHashes node).insertionSort (· ≤ ·)
    nodeMap := (ring.virtualHashes node).foldl (fun map hash => map.insert hash node)
      ring.nodeMap }

def removeNode (ring : HashRing) (node : GoString) : HashRing :=
  { ring with
    -- each virtual name takes one position with its checksum off the ring
    nodes := (ring.virtualHashes node).foldl List.erase ring.nodes
    nodeMap := (ring.virtualHashes node).foldl (fun map hash => map.erase hash) ring.nodeMap }

theorem lookup_addNode (ring : HashRing) (node : GoString) (slot : UInt32)
    : (ring.addNode node).nodeMap.lookup slot
      = if slot ∈ ring.virtualHashes node then some node else ring.nodeMap.lookup slot :=
  OwnedSlots.lookup_foldl_insert _ _ _ _

theorem perm_addNode (ring : HashRing) (node : GoString)
    : (ring.addNode node).nodes.Perm (ring.nodes ++ ring.virtualHashes node) :=
  perm_insertionSort _ _

theorem length_addNode (ring : HashRing) (node : GoString)
    : (ring.addNode node).nodes.length = ring.nodes.length + ring.replicas := by
  rw [(ring.perm_addNode node).length_eq, length_append, virtualHashes, length_map,
    length_range]

/-- The node at a position; a checksum without a node reads as the empty name. -/
def nodeAt (ring : HashRing) (position : Nat) : GoString :=
  (ring.nodeMap.lookup (ring.nodes.getD position 0)).getD []

def owner (ring : HashRing) (slot : UInt32) : GoString := (ring.nodeMap.lookup slot).getD []

/-- The nodes of a round from a position on are those of the rotated checksums. -/
theorem oneRound_nodeAt (ring : HashRing) (start : Nat)
    : oneRound ring.nodeAt ring.nodes.length start
      = (ring.nodes.rotate start).map ring.owner := by
  rw [← oneRound_eq_rotate ring.nodes 0, oneRound, oneRound, map_map]
  rfl

end HashRing

structure NodeIterator where
  startIdx : Nat
  currIdx : Nat
  seen : List GoString
  started : Bool

def HashRing.getNodeIter (ring : HashRing) (key : GoString) : NodeIterator :=
  let found := search ring.nodes.length
    (fun i => ring.nodes.getD i 0 ≥ HashRing.hash key)
  let idx := if found = ring.nodes.length then 0 else found
  { startIdx := idx, currIdx := idx, seen := [], started := false }

theorem HashRing.startIdx_lt (ring : HashRing) (key : GoString)
    (positive : 0 < ring.nodes.length)
    : (ring.getNodeIter key).startIdx < ring.nodes.length := by
  obtain ⟨cut, found, atMost⟩
      : ∃ cut, search ring.nodes.length (fun i => ring.nodes.getD i 0 ≥ HashRing.hash key) = cut
          ∧ cut ≤ ring.nodes.length :=
    ⟨_, rfl, searchBetween_le _ (Nat.zero_le _)⟩
  simp only [getNodeIter, found]
  by_cases whole : cut = ring.nodes.length
  · rwa [if_pos whole]
  · rw [if_neg whole]
    omega

theorem HashRing.startIdx_le (ring : HashRing) (key : GoString)
    : (ring.getNodeIter key).startIdx ≤ ring.nodes.length := by
  simp only [getNodeIter]
  split
  · exact Nat.zero_le _
  · exact searchBetween_le _ (Nat.zero_le _)

namespace NodeIterator

/-- How far ahead of the current position the first unseen node is, within one round. -/
def distance? (ring : HashRing) (iter : NodeIterator) : Option Nat :=
  (List.range ring.nodes.length).find?
    (fun i => ring.nodeAt ((iter.currIdx + i) % ring.nodes.length) ∉ iter.seen)

variable {ring : HashRing} {iter : NodeIterator}

/-- The iterator passes nodes it has returned and stops at one that it has not. -/
theorem distance?_some {distance : Nat} (found : iter.distance? ring = some distance)
    : distance < ring.nodes.length
      ∧ (∀ j < distance, ring.nodeAt ((iter.currIdx + j) % ring.nodes.length) ∈ iter.seen)
      ∧ ring.nodeAt ((iter.currIdx + distance) % ring.nodes.length) ∉ iter.seen := by
  obtain ⟨new, inside, passed⟩ := List.find?_range_eq_some.mp found
  refine ⟨mem_range.mp inside, fun j before => ?_, of_decide_eq_true new⟩
  simpa using passed j before

/-- The next node and an error beside it when the round ends there. -/
def next (ring : HashRing) (iter : NodeIterator)
    : (GoString × Option GoError) × NodeIterator :=
  match iter.distance? ring with
  -- without an unseen node the name is empty
  | none => (([], none), iter)
  | some i =>
      let nodeIdx := (iter.currIdx + i) % ring.nodes.length
      let node := ring.nodeAt nodeIdx
      let currIdx := (nodeIdx + 1) % ring.nodes.length
      if iter.started ∧ currIdx = iter.startIdx then
        ((node, some (lit "已遍历完所有节点，再次到达开始位置")),
          { iter with seen := node :: iter.seen, currIdx })
      else
        ((node, none), { iter with seen := node :: iter.seen, currIdx, started := true })

theorem next_addNode_new {replicas : Nat} (positive : 0 < replicas) (node key : GoString)
    : ((((HashRing.newHashRing replicas).addNode node).getNodeIter key).next
        ((HashRing.newHashRing replicas).addNode node)).1 = (node, none) := by
  have perm := (HashRing.newHashRing replicas).perm_addNode node
  have length : ((HashRing.newHashRing replicas).addNode node).nodes.length = replicas := by
    rw [HashRing.length_addNode]
    exact Nat.zero_add replicas
  have only (position : Nat) (inside : position < replicas)
      : ((HashRing.newHashRing replicas).addNode node).nodeAt position = node := by
    rw [← length] at inside
    have member := perm.mem_iff.mp (getElem_mem inside)
    rw [HashRing.nodeAt, getD_of_lt inside, HashRing.lookup_addNode, if_pos, Option.getD_some]
    exact (mem_append.mp member).resolve_left not_mem_nil
  generalize (HashRing.newHashRing replicas).addNode node = ring at *
  cases found : (ring.getNodeIter key).distance? ring with
  | none =>
      have seen := List.find?_eq_none.mp found 0 (mem_range.mpr (by omega))
      simp [HashRing.getNodeIter] at seen
  | some i =>
      have inside := Nat.mod_lt ((ring.getNodeIter key).currIdx + i) positive
      simp only [next, found, length, only _ inside]
      rfl

/-- Where an iterator is on its round. -/
def On (ring : HashRing) (iter : NodeIterator) (passed rest : List GoString) : Prop :=
  Along ring.nodeAt ring.nodes.length iter.startIdx passed rest iter.seen iter.currIdx

/-- Without a distance all nodes that are still to come were returned. -/
theorem On.seen_of_none {passed rest : List GoString} (on : iter.On ring passed rest)
    (none : iter.distance? ring = none)
    : ∀ name ∈ rest, name ∈ iter.seen :=
  Along.none on (fun _ => decide_eq_true_iff) none

/-- What a call of `Next` does on the round: it skips the nodes it has returned, returns the next
one, and an error beside it only at the end of the round.
-/
structure Returns (ring : HashRing) (iter : NodeIterator) (passed skipped later : List GoString)
    : Prop where
  passedOver : ∀ name ∈ skipped, name ∈ iter.seen
  new : (iter.next ring).1.1 ∉ iter.seen
  seen : (iter.next ring).2.seen = (iter.next ring).1.1 :: iter.seen
  startIdx : (iter.next ring).2.startIdx = iter.startIdx
  error : (iter.next ring).1.2 ≠ none → later = []
  on : (iter.next ring).2.On ring (passed ++ skipped ++ [(iter.next ring).1.1]) later

theorem On.next {passed rest : List GoString} {i : Nat} (on : iter.On ring passed rest)
    (inside : 0 < ring.nodes.length → iter.startIdx < ring.nodes.length)
    (found : iter.distance? ring = some i)
    : ∃ skipped later,
        rest = skipped ++ (iter.next ring).1.1 :: later
        ∧ iter.Returns ring passed skipped later := by
  obtain ⟨skipped, later, split, skippedLength, passedOver, new⟩ :=
    Along.next on (fun _ => decide_eq_true_iff) found
  unfold On at on
  rw [split] at on
  have total := on.length
  have positive : 0 < ring.nodes.length := by
    simp only [length_append, length_cons] at total
    omega
  have taken := on.take passedOver
  have back := taken.back (inside positive) (by simp)
  rw [skippedLength] at taken back
  rw [Nat.mod_mod] at back
  refine ⟨skipped, later, ?_⟩
  by_cases ended
      : iter.started
        ∧ ((iter.currIdx + i) % ring.nodes.length + 1) % ring.nodes.length = iter.startIdx
  · simp only [NodeIterator.next, found, if_pos ended]
    refine ⟨split, passedOver, ?_, ?_, ?_, fun _ => back.mp ended.2, ?_⟩ <;>
      simp only [NodeIterator.next, found, if_pos ended, On]
    · exact new
    · exact taken
  · simp only [NodeIterator.next, found, if_neg ended]
    refine ⟨split, passedOver, ?_, ?_, ?_, ?_, ?_⟩ <;>
      simp only [NodeIterator.next, found, if_neg ended, On]
    · exact new
    · exact fun error => absurd rfl error
    · exact taken

def unseen (ring : HashRing) (iter : NodeIterator) : Finset Nat :=
  (Finset.range ring.nodes.length).filter (fun position => ring.nodeAt position ∉ iter.seen)

/-- Every call that finds an unseen node leaves fewer positions unseen. -/
theorem unseen_next_of_distance {i : Nat} (found : iter.distance? ring = some i)
    : ((iter.next ring).2.unseen ring).card < (iter.unseen ring).card := by
  obtain ⟨inside, _, fresh⟩ := distance?_some found
  have position : (iter.currIdx + i) % ring.nodes.length < ring.nodes.length :=
    Nat.mod_lt _ (Nat.zero_lt_of_lt inside)
  have fewer (seen : NodeIterator)
      (grows
        : seen.seen
          = ring.nodeAt ((iter.currIdx + i) % ring.nodes.length) :: iter.seen)
      : (seen.unseen ring).card < (iter.unseen ring).card := by
    apply Finset.card_lt_card
    refine Finset.ssubset_iff_of_subset ?_ |>.mpr
      ⟨(iter.currIdx + i) % ring.nodes.length, ?_, ?_⟩
    · intro other member
      simp only [unseen, Finset.mem_filter, grows, mem_cons, not_or] at member ⊢
      exact ⟨member.1, member.2.2⟩
    · simp only [unseen, Finset.mem_filter, Finset.mem_range]
      exact ⟨position, fresh⟩
    · simp [unseen, grows]
  simp only [next, found]
  split
  · exact fewer _ rfl
  · exact fewer _ rfl

/-- Every returned node leaves fewer positions unseen. -/
theorem unseen_next (some : (iter.next ring).1.1 ≠ [])
    : ((iter.next ring).2.unseen ring).card < (iter.unseen ring).card := by
  cases found : iter.distance? ring with
  | none =>
      simp only [next, found] at some
      exact absurd rfl some
  | some i => exact unseen_next_of_distance found

/-- The nodes that repeated calls of `Next` return until no unseen node is left or an error
stands beside a node; that node is the last one.
-/
def enumerate (ring : HashRing) (iter : NodeIterator) : List GoString :=
  match _found : iter.distance? ring with
  | none => []
  | some _ =>
      let result := iter.next ring
      match result.1.2 with
      | some _ => [result.1.1]
      | none => result.1.1 :: enumerate ring result.2
termination_by (iter.unseen ring).card
decreasing_by exact unseen_next_of_distance _found

/-- The nodes that a caller of `Next` gets up to the first empty name without an error, or up to
the node that comes with an error, which is the last one.
-/
def untilEnd (ring : HashRing) (iter : NodeIterator) : List GoString :=
  if _ended : (iter.next ring).1 = ([], none) then []
  else if _error : (iter.next ring).1.2.isSome then [(iter.next ring).1.1]
  else (iter.next ring).1.1 :: untilEnd ring (iter.next ring).2
termination_by (iter.unseen ring).card
decreasing_by
  refine unseen_next (fun empty => _ended ?_)
  exact Prod.ext empty (Option.not_isSome_iff_eq_none.mp _error)

/-- If no node has an empty name, an empty name says that no unseen node is left. -/
theorem untilEnd_eq_enumerate (named : ∀ position < ring.nodes.length, ring.nodeAt position ≠ [])
    (iter : NodeIterator)
    : iter.untilEnd ring = iter.enumerate ring := by
  fun_induction enumerate ring iter with
  | case1 iter none =>
      have empty : (iter.next ring).1 = ([], .none) := by simp only [next, none]
      rw [untilEnd, dif_pos empty]
  | case2 iter i found result failure error =>
      rw [untilEnd, dif_neg, dif_pos]
      · exact Option.isSome_of_eq_some error
      · intro ended
        cases error.symm.trans (congrArg Prod.snd ended)
  | case3 iter i found result error ih =>
      have inside := mem_range.mp (mem_of_find?_eq_some found)
      have name
          : (iter.next ring).1.1 = ring.nodeAt ((iter.currIdx + i) % ring.nodes.length) := by
        simp only [next, found]
        split
        · rfl
        · rfl
      rw [untilEnd, dif_neg, dif_neg, ih]
      · exact Option.not_isSome_iff_eq_none.mpr error
      · intro ended
        rw [ended] at name
        exact named _ (Nat.mod_lt _ (Nat.zero_lt_of_lt inside)) name.symm

def reset (iter : NodeIterator) : NodeIterator :=
  { iter with currIdx := iter.startIdx, seen := [], started := false }

theorem startIdx_next (ring : HashRing) (iter : NodeIterator)
    : (iter.next ring).2.startIdx = iter.startIdx := by
  unfold next
  split
  · rfl
  · simp only
    split
    · rfl
    · rfl

/-- However many nodes were asked for, an iterator can be reset to its beginning. -/
theorem reset_iterate_next (ring : HashRing) (count : Nat) (iter : NodeIterator)
    : (Nat.iterate (fun iter => (iter.next ring).2) count iter).reset = iter.reset := by
  induction count generalizing iter with
  | zero => rfl
  | succ count ih =>
      rw [Function.iterate_succ_apply, ih, reset, startIdx_next]
      rfl

def collect (ring : HashRing) : Nat → NodeIterator → List GoString
  | 0, _ => []
  | count + 1, iter =>
      let result := iter.next ring
      if result.1.1 = [] ∨ result.1.2 ≠ none then []
      else result.1.1 :: collect ring count result.2

end NodeIterator

namespace HashRing

def getNode (ring : HashRing) (key : GoString) : GoString :=
  ((ring.getNodeIter key).next ring).1.1

def getNodes (ring : HashRing) (key : GoString) (count : Int) : Option (List GoString) :=
  if ring.nodes.length = 0 then some []
  -- a string takes 16 bytes; a panic ends the process
  else if makes 16 count then some ((ring.getNodeIter key).collect ring count.toNat)
  else none

end HashRing

end Goulette.Sentinel
