import Mathlib.Data.List.TakeWhile
import Goulette.Sentinel.RingHistory

/-! The order in which an iterator of the hash ring returns the nodes. An error comes beside the
last node exactly if that node was not met before.
-/

namespace Goulette.Sentinel

open Goulette.Go OwnedSlots Rounds Runs List

namespace HashRing

variable {replicas : Nat} {nodes : List GoString} {ring : HashRing} {node : GoString}

def clockwise (start slot : UInt32) : Nat := (slot - start).toNat

def nearest (replicas : Nat) (key node : GoString) : Nat :=
  ((slots replicas node).map (clockwise (hash key))).min?.getD 0

theorem clockwise_of_le {start slot : UInt32} (ahead : start ≤ slot)
    : clockwise start slot = slot.toNat - start.toNat :=
  UInt32.toNat_sub_of_le slot start ahead

theorem clockwise_of_lt {start slot : UInt32} (behind : slot < start)
    : clockwise start slot = 2 ^ 32 - start.toNat + slot.toNat := by
  have less := UInt32.lt_iff_toNat_lt.mp behind
  have small := start.toNat_lt
  rw [clockwise, UInt32.toNat_sub, Nat.mod_eq_of_lt (by omega)]

/-- Different slots in order, taken around a checksum, go clockwise from it. -/
theorem pairwise_clockwise {taken : List UInt32} (sorted : taken.Pairwise (· < ·)) (start : UInt32)
    : (around (fun slot => decide (start ≤ slot)) taken).Pairwise
        (fun first later => clockwise start first < clockwise start later) := by
  rw [around, pairwise_append]
  refine ⟨?_, ?_, ?_⟩
  · refine (sorted.filter _).imp_of_mem ?_
    intro first later inFirst inLater less
    have aheadFirst : start ≤ first := by simpa using (mem_filter.mp inFirst).2
    have aheadLater : start ≤ later := by simpa using (mem_filter.mp inLater).2
    rw [clockwise_of_le aheadFirst, clockwise_of_le aheadLater]
    rw [UInt32.lt_iff_toNat_lt] at less
    rw [UInt32.le_iff_toNat_le] at aheadFirst aheadLater
    omega
  · refine (sorted.filter _).imp_of_mem ?_
    intro first later inFirst inLater less
    have behindFirst : first < start := by simpa using (mem_filter.mp inFirst).2
    have behindLater : later < start := by simpa using (mem_filter.mp inLater).2
    rw [clockwise_of_lt behindFirst, clockwise_of_lt behindLater]
    rw [UInt32.lt_iff_toNat_lt] at less
    omega
  · intro first inFirst later inLater
    have ahead : start ≤ first := by simpa using (mem_filter.mp inFirst).2
    have behind : later < start := by simpa using (mem_filter.mp inLater).2
    have small := first.toNat_lt
    have least := start.toNat_lt
    rw [clockwise_of_le ahead, clockwise_of_lt behind]
    omega

/-- One slot that comes before all slots of another node is enough to be nearer. -/
theorem nearest_lt {key other : GoString} (some : 0 < replicas) {slot : UInt32}
    (own : slot ∈ slots replicas node)
    (before
      : ∀ later ∈ slots replicas other,
          clockwise (hash key) slot < clockwise (hash key) later)
    : nearest replicas key node < nearest replicas key other := by
  have atMost : nearest replicas key node ≤ clockwise (hash key) slot := by
    unfold nearest
    cases least : ((slots replicas node).map (clockwise (hash key))).min? with
    | none =>
        rw [List.min?_eq_none_iff] at least
        rw [map_eq_nil_iff.mp least] at own
        cases own
    | some distance =>
        exact (List.min?_eq_some_iff.mp least).2 _ (mem_map_of_mem own)
  refine Nat.lt_of_le_of_lt atMost ?_
  unfold nearest
  cases least : ((slots replicas other).map (clockwise (hash key))).min? with
  | none =>
      rw [List.min?_eq_none_iff, map_eq_nil_iff, slots, map_eq_nil_iff,
        range_eq_nil] at least
      omega
  | some distance =>
      obtain ⟨later, belongs, rfl⟩ := mem_map.mp (List.min?_mem least)
      exact before later belongs

/-- Without collisions no two positions are equal. -/
theorem CollisionFree.nodup_slots (collisionFree : CollisionFree replicas nodes)
    (unique : nodes.Nodup)
    : (nodes.flatMap (slots replicas)).Nodup := by
  rw [nodup_flatMap]
  constructor
  · intro node member
    refine List.Nodup.map_on ?_ nodup_range
    intro i iBound j jBound same
    rw [mem_range] at iBound jBound
    have names := collisionFree node member node member i iBound j jBound same
    exact decimal_injective (append_cancel_left names)
  · refine unique.imp_of_mem ?_
    intro left right inLeft inRight different slot ofLeft ofRight
    exact collisionFree.apart inLeft inRight different slot ofLeft ofRight

section

variable (h : Represents replicas nodes ring)
include h

theorem Represents.nodup_nodes (collisionFree : CollisionFree replicas nodes) (unique : nodes.Nodup)
    : ring.nodes.Nodup :=
  h.holds.taken.nodup_iff.mpr (collisionFree.nodup_slots unique)

theorem Represents.strictlySorted (collisionFree : CollisionFree replicas nodes)
    (unique : nodes.Nodup)
    : ring.nodes.Pairwise (· < ·) := by
  refine (h.sorted.and (h.nodup_nodes collisionFree unique)).imp ?_
  rintro first later ⟨atMost, other⟩
  exact UInt32.lt_of_le_of_ne atMost other

/-- On a round every node is met once for each of its virtual names. -/
theorem Represents.perm_met (key : GoString)
    : (ring.met key).Perm (nodes.flatMap (fun node => List.replicate replicas node)) := by
  have owners
      : (nodes.flatMap (slots replicas)).map ring.owner
        = nodes.flatMap (fun node => List.replicate replicas node) := by
    rw [map_flatMap]
    refine flatMap_congr ?_
    intro node member
    rw [eq_replicate_iff]
    refine ⟨by rw [length_map, slots, length_map, length_range], ?_⟩
    intro name inNames
    obtain ⟨slot, belongs, rfl⟩ := mem_map.mp inNames
    rw [owner, h.holds.owner node member slot belongs, Option.getD_some]
  rw [← owners]
  exact ((perm_around _ ring.nodes).trans h.holds.taken).map _

theorem Represents.mem_met (some : 0 < replicas) {key : GoString}
    : node ∈ ring.met key ↔ node ∈ nodes := by
  rw [(h.perm_met key).mem_iff, mem_flatMap]
  constructor
  · rintro ⟨other, member, copy⟩
    rwa [eq_of_mem_replicate copy]
  · intro member
    exact ⟨node, member, mem_replicate.mpr ⟨Nat.pos_iff_ne_zero.mp some, rfl⟩⟩

section

variable (collisionFree : CollisionFree replicas nodes) (unique : nodes.Nodup) (some : 0 < replicas)
  (key : GoString)
include collisionFree unique some

/-- The order of the nodes is clockwise. -/
theorem Represents.pairwise_enumeration
    : (ring.enumeration key).Pairwise
        (fun first later => nearest replicas key first < nearest replicas key later) := by
  have ordered := pairwise_clockwise (h.strictlySorted collisionFree unique) (hash key)
  have taken := perm_around (fun slot => decide (hash key ≤ slot)) ring.nodes
  rw [enumeration_eq h.sorted key]
  refine (pairwise_firsts ordered).imp_of_mem ?_
  rintro first later - inLater ⟨slot, inRing, rfl, before⟩
  obtain ⟨other, _, belongs, found⟩ := h.holds.lookup (taken.mem_iff.mp inRing)
  have owned : ring.owner slot = other := by rw [owner, found, Option.getD_some]
  have known := (h.mem_met some).mp (mem_firsts_nil.mp inLater)
  rw [owned]
  refine nearest_lt some belongs (fun next ofLater => ?_)
  have there : next ∈ ring.nodes :=
    h.holds.taken.mem_iff.mpr (mem_flatMap.mpr ⟨later, known, ofLater⟩)
  refine before next (taken.mem_iff.mpr there) ?_
  rw [owner, h.holds.owner later known next ofLater, Option.getD_some]

/-- The iterator returns the nodes on the ring, each once. -/
theorem Represents.perm_enumeration
    : (ring.enumeration key).Perm nodes := by
  have different : (ring.enumeration key).Nodup :=
    (h.pairwise_enumeration collisionFree unique some key).imp
      (fun nearer same => by rw [same] at nearer; exact Nat.lt_irrefl _ nearer)
  refine (perm_ext_iff_of_nodup different unique).mpr (fun node => ?_)
  rw [enumeration_eq h.sorted, mem_firsts_nil, h.mem_met some]

end

theorem Represents.nodeAt_ne_nil (named : ∀ node ∈ nodes, node ≠ []) {position : Nat}
    (inside : position < ring.nodes.length)
    : ring.nodeAt position ≠ [] := by
  obtain ⟨node, member, _, found⟩ := h.holds.lookup (getElem_mem inside)
  rw [nodeAt, getD_of_lt inside, found, Option.getD_some]
  exact named node member

end

/-- A caller of `Next` gets every node once, in clockwise order from the checksum of the key by the
nearest virtual node, and gets them all again after `Reset`, however far it was.
-/
theorem untilEnd_clockwise {calls : List (Change GoString)} (proper : ProperCalls calls)
    (named : ∀ node ∈ used calls, node ≠ []) (some : 1 ≤ replicas)
    (collisionFree : CollisionFree replicas (used calls)) (key : GoString)
    : (((ringAfter replicas calls).getNodeIter key).untilEnd (ringAfter replicas calls)).Nodup
      ∧ (∀ node,
          node ∈ ((ringAfter replicas calls).getNodeIter key).untilEnd (ringAfter replicas calls)
            ↔ node ∈ presentAfter calls)
      ∧ (((ringAfter replicas calls).getNodeIter key).untilEnd
          (ringAfter replicas calls)).Pairwise
          (fun first later => nearest replicas key first < nearest replicas key later)
      ∧ ∀ count,
          (Nat.iterate (fun iter => (iter.next (ringAfter replicas calls)).2) count
            ((ringAfter replicas calls).getNodeIter key)).reset.untilEnd (ringAfter replicas calls)
          = ((ringAfter replicas calls).getNodeIter key).untilEnd (ringAfter replicas calls) := by
  have grown := grown_ringAfter proper collisionFree
  have h := grown.represents
  have read
      : ((ringAfter replicas calls).getNodeIter key).untilEnd (ringAfter replicas calls)
        = (ringAfter replicas calls).enumeration key :=
    NodeIterator.untilEnd_eq_enumerate
      (fun position => h.nodeAt_ne_nil (fun node member => named node (grown.named node member)))
      _
  have ordered := h.pairwise_enumeration (collisionFree.mono grown.named) grown.unique some key
  rw [read]
  have perm := h.perm_enumeration (collisionFree.mono grown.named) grown.unique some key
  refine ⟨perm.nodup_iff.mpr grown.unique, fun node => perm.mem_iff, ordered, fun count => ?_⟩
  · rw [NodeIterator.reset_iterate_next, ← read]
    rfl

theorem untilEnd_clockwise_joinsAndLeaves
    : ((ringAfter 3 joinsAndLeaves).getNodeIter (lit "topic")).untilEnd (ringAfter 3 joinsAndLeaves)
        = [lit "a", lit "c", lit "b"]
      ∧ nearest 3 (lit "topic") (lit "a") < nearest 3 (lit "topic") (lit "c") := by
  have order
      : ((ringAfter 3 joinsAndLeaves).getNodeIter (lit "topic")).untilEnd
          (ringAfter 3 joinsAndLeaves)
        = [lit "a", lit "c", lit "b"] := by decide +kernel
  have clockwise := @untilEnd_clockwise 3 joinsAndLeaves (by decide +kernel) (by decide +kernel)
    (by decide) (by decide +kernel) (lit "topic")
  rw [order] at clockwise
  exact ⟨order, (pairwise_cons.mp clockwise.2.2.1).1 _ mem_cons_self⟩

end HashRing

/-! Errors beside a node. -/

namespace NodeIterator

variable {ring : HashRing} {iter : NodeIterator} {passed rest : List GoString}

/-- An iterator whose round ends with a node that it meets before. -/
structure Repeats (ring : HashRing) (iter : NodeIterator) (passed rest : List GoString)
    : Prop where
  on : iter.On ring passed rest
  inside : 0 < ring.nodes.length → iter.startIdx < ring.nodes.length
  last : ∀ front last, rest = front ++ [last] → last ∈ iter.seen ∨ last ∈ front

/-- Such an iterator returns the first occurrences one by one, and never an error. -/
theorem Repeats.next (h : iter.Repeats ring passed rest)
    : ((iter.next ring).1 = ([], none) ∧ firsts iter.seen rest = [])
      ∨ ∃ passed later,
          (iter.next ring).1.2 = none
          ∧ firsts iter.seen rest
            = (iter.next ring).1.1 :: firsts (iter.next ring).2.seen later
          ∧ (iter.next ring).2.Repeats ring passed later := by
  cases found : iter.distance? ring with
  | none =>
      refine Or.inl ⟨by simp only [NodeIterator.next, found], ?_⟩
      exact firsts_of_subset (h.on.seen_of_none found)
  | some i =>
      obtain ⟨skipped, later, rfl, returns⟩ := h.on.next h.inside found
      have fine : (iter.next ring).1.2 = none := by
        by_contra error
        have ended := returns.error error
        subst ended
        rcases h.last skipped _ rfl with seen | before
        · exact returns.new seen
        · exact returns.new (returns.passedOver _ before)
      refine Or.inr ⟨passed ++ skipped ++ [(iter.next ring).1.1], later, fine, ?_, ?_⟩
      · rw [firsts_append_cons returns.passedOver returns.new, returns.seen]
      · refine ⟨returns.on, returns.startIdx ▸ h.inside, ?_⟩
        rintro front last rfl
        rw [returns.seen, mem_cons]
        rcases h.last (skipped ++ (iter.next ring).1.1 :: front) last (by simp) with seen | before
        · exact Or.inl (Or.inr seen)
        · rcases mem_append.mp before with passedOver | ahead
          · exact Or.inl (Or.inr (returns.passedOver last passedOver))
          · rcases mem_cons.mp ahead with same | inFront
            · exact Or.inl (Or.inl same)
            · exact Or.inr inFront

/-- What a loop that stops at an empty name and at an error has still to take. -/
abbrev ahead (iter : NodeIterator) (rest : List GoString) : List GoString :=
  (firsts iter.seen rest).takeWhile (fun name => name ≠ [])

/-- Where such a loop stops, nothing is left to take. -/
theorem Repeats.ahead_of_ended (h : iter.Repeats ring passed rest)
    (ended : (iter.next ring).1.1 = [] ∨ (iter.next ring).1.2.isSome)
    : iter.ahead rest = [] := by
  rcases h.next with ⟨_, none⟩ | ⟨_, later, fine, first, _⟩
  · rw [ahead, none, takeWhile_nil]
  · have empty : (iter.next ring).1.1 = [] := by
      refine ended.resolve_right ?_
      rw [fine]
      exact Bool.false_ne_true
    rw [ahead, first, takeWhile_cons_of_neg (by simpa using empty)]

/-- Where it goes on, it takes the next node. -/
theorem Repeats.ahead_of_goesOn (h : iter.Repeats ring passed rest)
    (goesOn : ¬((iter.next ring).1.1 = [] ∨ (iter.next ring).1.2.isSome))
    : ∃ passed later,
        iter.ahead rest = (iter.next ring).1.1 :: (iter.next ring).2.ahead later
        ∧ (iter.next ring).2.Repeats ring passed later := by
  rcases h.next with ⟨ended, _⟩ | ⟨_, later, _, first, onward⟩
  · exact absurd (Or.inl (congrArg Prod.fst ended)) goesOn
  · refine ⟨_, later, ?_, onward⟩
    rw [ahead, first,
      takeWhile_cons_of_pos (by simpa using fun empty => goesOn (Or.inl empty))]

/-- The loop of `GetNodes` takes the first of these nodes, by induction on the count. -/
theorem Repeats.collect (h : iter.Repeats ring passed rest) (count : Nat)
    : iter.collect ring count = (iter.ahead rest).take count := by
  induction count generalizing iter passed rest with
  | zero => rfl
  | succ count ih =>
      rw [NodeIterator.collect]
      simp only [← Option.isSome_iff_ne_none]
      split
      · next ended => rw [h.ahead_of_ended ended, take_nil]
      · next goesOn =>
          obtain ⟨_, later, first, onward⟩ := h.ahead_of_goesOn goesOn
          rw [first, take_succ_cons, ih onward]

/-- The first call returns the node at the start, without an error. -/
theorem On.first {first : GoString} {later : List GoString}
    (on : iter.On ring [] (first :: later))
    (inside : 0 < ring.nodes.length → iter.startIdx < ring.nodes.length) (fresh : iter.seen = [])
    (unstarted : iter.started = false)
    : (iter.next ring).1 = (first, none)
      ∧ (iter.next ring).2.seen = [first]
      ∧ (iter.next ring).2.started = true
      ∧ (iter.next ring).2.startIdx = iter.startIdx
      ∧ (iter.next ring).2.On ring [first] later := by
  cases found : iter.distance? ring with
  | none =>
      have seen := on.seen_of_none found first mem_cons_self
      rw [fresh] at seen
      cases seen
  | some i =>
      obtain ⟨skipped, behind, split, returns⟩ := on.next inside found
      -- nothing is seen yet, so nothing is skipped
      obtain rfl : skipped = [] :=
        eq_nil_iff_forall_not_mem.mpr
          (fun name member => not_mem_nil (fresh ▸ returns.passedOver name member))
      obtain ⟨name, rfl⟩ := cons_eq_cons.mp split
      have goesOn : (iter.next ring).1.2 = none ∧ (iter.next ring).2.started = true := by
        simp [NodeIterator.next, found, unstarted]
      have seen := returns.seen
      have onward := returns.on
      rw [fresh, ← name] at seen
      rw [← name] at onward
      exact ⟨Prod.ext name.symm goesOn.1, seen, goesOn.2, returns.startIdx, onward⟩

/-- The last node of a round comes with an error, unless it is the first one too. -/
theorem Returns.error_of_started {skipped : List GoString} {i : Nat}
    (returns : iter.Returns ring passed skipped []) (found : iter.distance? ring = some i)
    (inside : iter.startIdx < ring.nodes.length) (started : iter.started = true)
    : (iter.next ring).1.2 ≠ none := by
  have on := returns.on
  have back := (Along.back on (returns.startIdx ▸ inside) (by simp)).mpr rfl
  rw [returns.startIdx] at back
  simp only [NodeIterator.next, found] at back ⊢
  split
  · exact Option.some_ne_none _
  · next other =>
      rw [if_neg other, Nat.mod_mod] at back
      exact absurd ⟨started, back⟩ other

/-- A round that ends with a new node loses it in the loop of `GetNodes`, by induction on the
count.
-/
theorem On.collect_of_new {front : List GoString} {last : GoString} (count : Nat)
    (on : iter.On ring passed (front ++ [last])) (inside : iter.startIdx < ring.nodes.length)
    (started : iter.started = true) (named : ∀ name ∈ front, name ≠ []) (new : last ∉ iter.seen)
    (absent : last ∉ front)
    : iter.collect ring count = (firsts iter.seen front).take count := by
  induction count generalizing iter passed front with
  | zero => rfl
  | succ count ih =>
      rw [NodeIterator.collect]
      cases found : iter.distance? ring with
      | none =>
          exact absurd (on.seen_of_none found last (mem_append_right _ mem_cons_self)) new
      | some i =>
          obtain ⟨skipped, later, split, returns⟩ := on.next (fun _ => inside) found
          rcases eq_nil_or_concat later with rfl | ⟨ahead, final, rfl⟩
          · -- only the last node is new
            obtain ⟨rfl, _⟩ := append_inj' split rfl
            rw [firsts_of_subset returns.passedOver]
            exact if_pos (Or.inr (returns.error_of_started found inside started))
          · rw [concat_eq_append, ← cons_append, ← append_assoc] at split
            obtain ⟨rfl, same⟩ := append_inj' split rfl
            obtain rfl : last = final := singleton_inj.mp same
            rw [concat_eq_append] at returns
            have fine : (iter.next ring).1.2 = none := by
              by_contra error
              exact absurd (returns.error error) (by simp)
            have name : (iter.next ring).1.1 ≠ [] :=
              named _ (mem_append_right _ mem_cons_self)
            have goesOn : (iter.next ring).2.started = true := by
              simp only [NodeIterator.next, found] at fine ⊢
              split
              · exact started
              · rfl
            rw [mem_append, mem_cons, not_or, not_or] at absent
            have after := ih returns.on (returns.startIdx ▸ inside) goesOn
              (fun other member =>
                named other (mem_append_right _ (mem_cons_of_mem _ member)))
              (by rw [returns.seen, mem_cons, not_or]; exact ⟨absent.2.1, new⟩) absent.2.2
            rw [firsts_append_cons returns.passedOver returns.new, ← returns.seen,
              take_succ_cons, ← after]
            exact if_neg (not_or.mpr ⟨name, not_not.mpr fine⟩)

end NodeIterator

namespace HashRing

variable {replicas : Nat} {nodes : List GoString} {ring : HashRing}

/-- With several virtual nodes each, a round ends with a node that was met before. -/
theorem Represents.repeats (h : Represents replicas nodes ring) (several : 2 ≤ replicas)
    (key : GoString)
    : (ring.getNodeIter key).Repeats ring [] (ring.met key) where
  on := on_getNodeIter h.sorted key
  inside := ring.startIdx_lt key
  last := by
    intro front last split
    have member : last ∈ ring.met key := by
      rw [split]
      exact mem_append_right _ mem_cons_self
    have known : last ∈ nodes := (h.mem_met (by omega)).mp member
    have copies : replicas ≤ (ring.met key).count last := by
      rw [(h.perm_met key).count_eq, ← replicate_sublist_iff, flatMap_def]
      exact sublist_flatten_of_mem (mem_map_of_mem known)
    rw [split, count_append, count_singleton_self] at copies
    exact Or.inr (count_pos_iff.mp (by omega))

/-- Without empty names a caller that takes one for the end gets all nodes. -/
theorem Represents.namedNodes_eq (h : Represents replicas nodes ring) (some : 0 < replicas)
    (named : ∀ node ∈ nodes, node ≠ []) (key : GoString)
    : ring.namedNodes key = ring.enumeration key := by
  refine takeWhile_eq_self_iff.mpr (fun name member => decide_eq_true ?_)
  rw [enumeration_eq h.sorted, mem_firsts_nil, h.mem_met some] at member
  exact named name member

theorem Represents.collect_of_several (h : Represents replicas nodes ring) (several : 2 ≤ replicas)
    (key : GoString) (count : Nat)
    : (ring.getNodeIter key).collect ring count = (ring.namedNodes key).take count := by
  rw [(h.repeats several key).collect, namedNodes, enumeration_eq h.sorted]
  rfl

/-- With one virtual node each, a round meets every node once. -/
theorem Represents.nodup_met (h : Represents 1 nodes ring) (unique : nodes.Nodup) (key : GoString)
    : (ring.met key).Nodup := by
  have each : nodes.flatMap (fun node => List.replicate 1 node) = nodes := by
    simp [replicate_one]
  exact (h.perm_met key).nodup_iff.mpr (each.symm ▸ unique)

/-- With one virtual node each, the last one of several nodes is lost. -/
theorem Represents.collect_of_one (h : Represents 1 nodes ring) (unique : nodes.Nodup)
    (named : ∀ node ∈ nodes, node ≠ []) (key : GoString) (count : Nat)
    : (ring.getNodeIter key).collect ring count
      = if nodes.length < 2 then (ring.met key).take count
        else (ring.met key).dropLast.take count := by
  have length : (ring.met key).length = nodes.length := by
    rw [(h.perm_met key).length_eq]
    simp
  have different := h.nodup_met unique key
  have names : ∀ name ∈ ring.met key, name ≠ [] :=
    fun name member => named name ((h.mem_met Nat.one_pos).mp member)
  have inside := ring.startIdx_lt key
  have on := on_getNodeIter h.sorted key
  generalize ring.met key = round at *
  rcases round with _ | ⟨first, later⟩
  · have repeats : (ring.getNodeIter key).Repeats ring [] [] := ⟨on, inside, by simp⟩
    rw [repeats.collect, dropLast_nil, ite_self]
    rfl
  cases count with
  | zero => simp [NodeIterator.collect]
  | succ count =>
      obtain ⟨returned, seen, started, startIdx, onward⟩ := on.first inside rfl rfl
      rw [nodup_cons] at different
      rw [forall_mem_cons] at names
      rw [length_cons] at length
      have goesOn : ¬(first = [] ∨ (none : Option GoError) ≠ none) :=
        not_or.mpr ⟨names.1, not_not.mpr rfl⟩
      simp only [NodeIterator.collect, returned, if_neg goesOn]
      rcases eq_nil_or_concat later with rfl | ⟨front, last, rfl⟩
      · have repeats := NodeIterator.Repeats.mk onward (startIdx ▸ inside) (by simp)
        rw [repeats.collect, if_pos (by rw [← length]; simp), take_succ_cons]
        rfl
      · rw [concat_eq_append] at *
        obtain ⟨absent, apart⟩ := different
        rw [mem_append, not_or, mem_singleton] at absent
        rw [nodup_append] at apart
        have new {name : GoString} (member : name ∈ front) : name ∉ [first] := by
          rw [mem_singleton]
          exact fun same => absent.1 (same ▸ member)
        have positive : 0 < ring.nodes.length := by
          have total := on.length
          rw [← total]
          simp
        have kept := onward.collect_of_new count (startIdx ▸ inside positive) started
          (fun name member => names.2 name (mem_append_left _ member))
          (by rw [seen, mem_singleton]; exact Ne.symm absent.2)
          (fun member => apart.2.2 last member last mem_cons_self rfl)
        rw [kept, seen, firsts_of_nodup apart.1 (fun _ => new), if_neg (by rw [← length]; simp),
          dropLast_cons_of_ne_nil (by simp), dropLast_concat, take_succ_cons]

/-- A ring without nodes, or with a count that can be allocated, gives what the loop collects. -/
theorem getNodes_natCast (ring : HashRing) (key : GoString) (count : Nat)
    : ring.getNodes key count
      = if ring.nodes.length = 0 ∨ count ≤ 2 ^ 44 then
          some ((ring.getNodeIter key).collect ring count)
        else none := by
  unfold getNodes
  by_cases empty : ring.nodes.length = 0
  · rw [if_pos empty, if_pos (Or.inl empty)]
    cases count with
    | zero => rfl
    | succ count => simp [NodeIterator.collect, NodeIterator.next, NodeIterator.distance?, empty]
  · have fits : makes 16 count = true ↔ ring.nodes.length = 0 ∨ count ≤ 2 ^ 44 := by
      rw [makes_natCast, or_iff_right empty]
      omega
    simp only [if_neg empty, fits, Int.toNat_natCast]

/-- A ring has no virtual nodes exactly if it has no nodes. -/
theorem Represents.length_eq_zero (h : Represents replicas nodes ring) (some : 0 < replicas)
    : ring.nodes.length = 0 ↔ nodes.length = 0 := by
  have total := (on_getNodeIter h.sorted []).length
  rw [← total, length_nil, Nat.zero_add, length_eq_zero_iff, length_eq_zero_iff,
    eq_nil_iff_forall_not_mem, eq_nil_iff_forall_not_mem]
  exact forall_congr' (fun _ => not_congr (h.mem_met some))

/-- `GetNodes` returns the first nodes of an iterator, unless the nodes have one virtual node each
and all of several nodes are asked for: then the last one is missing. A count that cannot be
allocated panics.
-/
theorem getNodes_eq_take_iff {calls : List (Change GoString)} (proper : ProperCalls calls)
    (named : ∀ node ∈ used calls, node ≠ []) (some : 1 ≤ replicas)
    (collisionFree : CollisionFree replicas (used calls)) (key : GoString) (count : Nat)
    : (ringAfter replicas calls).getNodes key count
        = Option.some
            ((((ringAfter replicas calls).getNodeIter key).untilEnd
              (ringAfter replicas calls)).take (min count (presentAfter calls).length))
      ↔ ((presentAfter calls).length = 0 ∨ count ≤ 2 ^ 44)
        ∧ ¬(replicas = 1 ∧ 2 ≤ (presentAfter calls).length
          ∧ (presentAfter calls).length ≤ count) := by
  have grown := grown_ringAfter proper collisionFree
  have h := grown.represents
  have names := fun node member => named node (grown.named node member)
  have length : ((ringAfter replicas calls).enumeration key).length = (presentAfter calls).length :=
    (h.perm_enumeration (collisionFree.mono grown.named) grown.unique some key).length_eq
  rw [NodeIterator.untilEnd_eq_enumerate (fun position => h.nodeAt_ne_nil names)]
  change _ = Option.some (((ringAfter replicas calls).enumeration key).take _) ↔ _
  simp only [getNodes_natCast, h.length_eq_zero some]
  by_cases fits : (presentAfter calls).length = 0 ∨ count ≤ 2 ^ 44
  case neg =>
    rw [if_neg fits]
    exact iff_of_false (fun same => by cases same) (fun both => fits both.1)
  rw [if_pos fits, and_iff_right fits, ← length, ← take_eq_take_min, Option.some.injEq]
  rcases Nat.lt_or_ge 1 replicas with several | one
  · rw [h.collect_of_several several, h.namedNodes_eq some names]
    simp only [true_iff, not_and]
    intro same
    omega
  · obtain rfl : replicas = 1 := by omega
    have all : (ringAfter 1 calls).enumeration key = (ringAfter 1 calls).met key := by
      rw [enumeration_eq h.sorted]
      exact firsts_of_nodup (h.nodup_met grown.unique key) (fun _ _ => not_mem_nil)
    rw [h.collect_of_one grown.unique names, ← all]
    split
    · next few =>
        simp only [true_iff, not_and]
        intro _ more
        omega
    · next many =>
        rw [dropLast_eq_take, take_take]
        constructor
        · rintro same ⟨_, _, enough⟩
          have lengths := congrArg List.length same
          rw [length_take, length_take] at lengths
          omega
        · intro condition
          have fewer : count ≤ ((ringAfter 1 calls).enumeration key).length - 1 := by omega
          rw [Nat.min_eq_left fewer]

theorem getNodes_eq_take_joinsAndLeaves
    : (presentAfter joinsAndLeaves).length = 3
      ∧ (ringAfter 3 joinsAndLeaves).getNodes (lit "topic") 5
        = some ((((ringAfter 3 joinsAndLeaves).getNodeIter (lit "topic")).untilEnd
            (ringAfter 3 joinsAndLeaves)).take (min 5 (presentAfter joinsAndLeaves).length)) :=
  ⟨by decide +kernel,
    (@getNodes_eq_take_iff 3 joinsAndLeaves (by decide +kernel) (by decide +kernel) (by decide)
      (by decide +kernel) (lit "topic") 5).mpr (by decide +kernel)⟩

def pairJoins : List (Change GoString) := [.come (lit "a"), .come (lit "b")]

theorem getNodes_ne_take_pairJoins
    : ProperCalls pairJoins
      ∧ (∀ node ∈ used pairJoins, node ≠ [])
      ∧ CollisionFree 1 (used pairJoins)
      ∧ ((ringAfter 1 pairJoins).getNodeIter (lit "topic")).untilEnd (ringAfter 1 pairJoins)
        = [lit "a", lit "b"]
      ∧ (ringAfter 1 pairJoins).getNodes (lit "topic") 2 = some [lit "a"]
      ∧ (ringAfter 1 pairJoins).getNodes (lit "topic") 2
        ≠ some ((((ringAfter 1 pairJoins).getNodeIter (lit "topic")).untilEnd
            (ringAfter 1 pairJoins)).take (min 2 (presentAfter pairJoins).length)) := by
  decide +kernel

end HashRing

end Goulette.Sentinel
