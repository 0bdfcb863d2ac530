import Mathlib.Data.List.Basic
import Mathlib.Data.List.Rotate

/-! Walks around a ring of positions that take every name they have not seen: the first occurrences
in the rotated list of names.
-/

namespace Rounds

open List

variable {K : Type} {seen names : List K}

section FirstOccurrences

variable [DecidableEq K]

def firsts (seen names : List K) : List K := (names.filter (fun name => name ∉ seen)).eraseDups

theorem firsts_of_subset (all : ∀ name ∈ names, name ∈ seen) : firsts seen names = [] := by
  have none : names.filter (fun name => name ∉ seen) = [] := by simpa using all
  rw [firsts, none]
  rfl

/-- Seen names are passed over until the first new one. -/
theorem firsts_append_cons {skipped later : List K} {name : K}
    (passed : ∀ other ∈ skipped, other ∈ seen) (new : name ∉ seen)
    : firsts seen (skipped ++ name :: later) = name :: firsts (name :: seen) later := by
  have none : skipped.filter (fun other => other ∉ seen) = [] := by simpa using passed
  rw [firsts, filter_append, none, nil_append,
    filter_cons_of_pos (by simpa using new), eraseDups_cons, firsts, filter_filter]
  congr 2
  refine filter_congr (fun other _ => ?_)
  by_cases equal : other = name <;> simp [equal]

theorem eraseDups_filter (keep : K → Bool) (names : List K)
    : (names.filter keep).eraseDups = names.eraseDups.filter keep := by
  induction size : names.length using Nat.strong_induction_on generalizing names with
  | _ bound ih =>
      cases names with
      | nil => rfl
      | cons name rest =>
          have shorter : (rest.filter (fun other => !other == name)).length < bound := by
            have fewer := length_filter_le (fun other => !other == name) rest
            rw [length_cons] at size
            omega
          have inner := ih _ shorter _ rfl
          rw [eraseDups_cons]
          by_cases kept : keep name = true
          · rw [filter_cons_of_pos kept, filter_cons_of_pos kept, eraseDups_cons,
              ← inner, filter_filter, filter_filter]
            simp only [Bool.and_comm]
          · -- a name that is not kept takes no kept name along
            have same
                : (rest.filter (fun other => !other == name)).filter keep
                  = rest.filter keep := by
              rw [filter_filter]
              refine filter_congr (fun other _ => ?_)
              by_cases equal : other = name
              · subst equal
                simp [kept]
              · simp [equal]
            rw [filter_cons_of_neg kept, filter_cons_of_neg kept, ← inner, same]

/-- Leaving names out and taking first occurrences commute. -/
theorem firsts_filter (keep : K → Bool) (seen names : List K)
    : firsts seen (names.filter keep) = (firsts seen names).filter keep := by
  rw [firsts, firsts, ← eraseDups_filter, filter_filter, filter_filter]
  simp only [Bool.and_comm]

theorem firsts_nil (names : List K) : firsts [] names = names.eraseDups := by
  rw [firsts, filter_eq_self.mpr (by simp)]

theorem mem_firsts_nil {name : K} : name ∈ firsts [] names ↔ name ∈ names := by
  rw [firsts_nil, mem_eraseDups]

/-- Names that stand once are all first occurrences. -/
theorem firsts_of_nodup (unique : names.Nodup) (new : ∀ name ∈ names, name ∉ seen)
    : firsts seen names = names := by
  induction names generalizing seen with
  | nil => rfl
  | cons name rest ih =>
      obtain ⟨absent, tail⟩ := nodup_cons.mp unique
      have later : ∀ other ∈ rest, other ∉ name :: seen := by
        intro other member
        rw [mem_cons, not_or]
        exact ⟨fun same => absent (same ▸ member), new other (mem_cons_of_mem _ member)⟩
      have split : firsts seen ([] ++ name :: rest) = name :: firsts (name :: seen) rest :=
        firsts_append_cons (fun _ member => absurd member not_mem_nil)
          (new name mem_cons_self)
      rwa [nil_append, ih tail later] at split

/-- Along ordered slots, the owners come in the order of their first slots: an owner has a slot
before all slots of those that come later.
-/
theorem pairwise_firsts {H : Type} {before : H → H → Prop} {owner : H → K} {slots : List H}
    (ordered : slots.Pairwise before)
    : (firsts [] (slots.map owner)).Pairwise
        (fun first later =>
          ∃ slot ∈ slots,
            owner slot = first ∧ ∀ other ∈ slots, owner other = later → before slot other) := by
  rw [firsts_nil]
  induction size : slots.length using Nat.strong_induction_on generalizing slots with
  | _ bound ih =>
      cases slots with
      | nil => exact .nil
      | cons slot rest =>
          obtain ⟨ahead, tail⟩ := pairwise_cons.mp ordered
          have others
              : (rest.map owner).filter (fun name => !name == owner slot)
                = (rest.filter (fun other => !owner other == owner slot)).map owner := by
            rw [filter_map]
            rfl
          have shorter
              : (rest.filter (fun other => !owner other == owner slot)).length < bound := by
            have fewer := length_filter_le (fun other => !owner other == owner slot) rest
            rw [length_cons] at size
            omega
          have different {name : K}
              (member
                : name ∈ ((rest.filter
                    (fun other => !owner other == owner slot)).map owner).eraseDups)
              : name ≠ owner slot := by
            rw [mem_eraseDups, ← others, mem_filter] at member
            simpa using member.2
          rw [map_cons, eraseDups_cons, others, pairwise_cons]
          constructor
          · intro later member
            refine ⟨slot, mem_cons_self, rfl, fun other known same => ?_⟩
            rcases mem_cons.mp known with rfl | known
            · exact absurd same.symm (different member)
            · exact ahead other known
          · refine (ih _ shorter (tail.filter _) rfl).imp_of_mem ?_
            rintro first later - member ⟨earliest, known, owned, earlier⟩
            refine ⟨earliest, mem_cons_of_mem _ (mem_of_mem_filter known), owned, ?_⟩
            intro other present same
            have behind : other ∈ rest := by
              rcases mem_cons.mp present with rfl | behind
              · exact absurd same.symm (different member)
              · exact behind
            refine earlier other (mem_filter.mpr ⟨behind, ?_⟩) same
            simpa [same] using different member

end FirstOccurrences

/-- Leaving out names that would not stop a reading and stopping it commute. -/
theorem takeWhile_filter {goOn keep : K → Bool}
    (stops : ∀ name, goOn name = false → keep name = true) (names : List K)
    : (names.filter keep).takeWhile goOn = (names.takeWhile goOn).filter keep := by
  induction names with
  | nil => rfl
  | cons name rest ih =>
      by_cases further : goOn name = true
      · by_cases kept : keep name = true
        · simp [further, kept, ih]
        · simp [further, kept, ih]
      · have kept := stops name (by simpa using further)
        simp [further, kept]

def oneRound (nameAt : Nat → K) (size start : Nat) : List K :=
  (List.range size).map (fun i => nameAt ((start + i) % size))

/-- A walker after part of its round: what it has seen are the names it passed, and it stands
behind them.
-/
structure Along (nameAt : Nat → K) (size start : Nat) (passed rest seen : List K)
    (position : Nat)
    : Prop where
  parts : passed ++ rest = oneRound nameAt size start
  position : position % size = (start + passed.length) % size
  seen : ∀ name, name ∈ seen ↔ name ∈ passed

variable {nameAt : Nat → K} {size start position i : Nat} {passed rest : List K}

theorem Along.begin (nameAt : Nat → K) (size start : Nat)
    : Along nameAt size start [] (oneRound nameAt size start) [] start where
  parts := rfl
  position := rfl
  seen := fun _ => Iff.rfl

section

variable (along : Along nameAt size start passed rest seen position)
include along

theorem Along.length
    : passed.length + rest.length = size := by
  have lengths := congrArg List.length along.parts
  simpa [oneRound] using lengths

theorem Along.get (inside : i < size)
    : (passed ++ rest)[i]? = some (nameAt ((start + i) % size)) := by
  rw [along.parts, oneRound, List.getElem?_map, List.getElem?_range inside, Option.map_some]

/-- The names that are still to come stand ahead of the walker. -/
theorem Along.ahead (inside : i < rest.length)
    : rest[i]? = some (nameAt ((position + i) % size)) := by
  have total := along.length
  have turned : (position + i) % size = (start + (passed.length + i)) % size := by
    rw [Nat.add_mod, along.position, ← Nat.add_mod, Nat.add_assoc]
  have found := along.get (i := passed.length + i) (by omega)
  rwa [List.getElem?_append_right (Nat.le_add_right _ _), Nat.add_sub_cancel_left, ← turned]
    at found

/-- Beyond the end of the round the walker meets names it has seen. -/
theorem Along.behind (beyond : rest.length ≤ i) (inside : i < size)
    : nameAt ((position + i) % size) ∈ seen := by
  have total := along.length
  have turned : (position + i) % size = (start + (passed.length + i - size)) % size := by
    have split : start + (passed.length + i) = start + (passed.length + i - size) + size := by
      omega
    rw [Nat.add_mod, along.position, ← Nat.add_mod, Nat.add_assoc, split, Nat.add_mod_right]
  have found := along.get (i := passed.length + i - size) (by omega)
  rw [List.getElem?_append_left (by omega), ← turned] at found
  exact (along.seen _).mpr (mem_of_getElem? found)

/-- The first unseen name within a round is one that is still to come, and all names before it
were seen.
-/
theorem Along.next {unseen : Nat → Bool}
    (exactly : ∀ i, unseen i = true ↔ nameAt ((position + i) % size) ∉ seen)
    (found : (List.range size).find? unseen = some i)
    : ∃ skipped later,
        rest = skipped ++ nameAt ((position + i) % size) :: later
        ∧ skipped.length = i
        ∧ (∀ name ∈ skipped, name ∈ seen)
        ∧ nameAt ((position + i) % size) ∉ seen := by
  obtain ⟨new, range, before⟩ := List.find?_range_eq_some.mp found
  rw [exactly] at new
  have inside : i < rest.length := by
    by_contra beyond
    exact new (along.behind (Nat.le_of_not_lt beyond) (mem_range.mp range))
  refine ⟨rest.take i, rest.drop (i + 1), ?_, by simp [Nat.le_of_lt inside], ?_, new⟩
  · have here := along.ahead inside
    rw [List.getElem?_eq_getElem inside, Option.some.injEq] at here
    rw [← here, ← drop_eq_getElem_cons inside, take_append_drop]
  · intro name member
    obtain ⟨j, jBound, rfl⟩ := mem_iff_getElem.mp member
    rw [length_take] at jBound
    have there := along.ahead (i := j) (by omega)
    rw [List.getElem?_eq_getElem (by omega), Option.some.injEq] at there
    rw [getElem_take, there]
    have met := before j (by omega)
    by_contra unmet
    rw [(exactly j).mpr unmet] at met
    cases met

/-- Without an unseen name within a round, all that is to come was seen. -/
theorem Along.none {unseen : Nat → Bool}
    (exactly : ∀ i, unseen i = true ↔ nameAt ((position + i) % size) ∉ seen)
    (none : (List.range size).find? unseen = none)
    : ∀ name ∈ rest, name ∈ seen := by
  intro name member
  have total := along.length
  obtain ⟨j, jBound, rfl⟩ := mem_iff_getElem.mp member
  have here := along.ahead jBound
  rw [List.getElem?_eq_getElem jBound, Option.some.injEq] at here
  rw [here]
  have met := List.find?_eq_none.mp none j (mem_range.mpr (by omega))
  rwa [exactly, not_not] at met

end

/-- The walker takes a name and goes on behind it. -/
theorem Along.take {skipped later : List K} {name : K}
    (along : Along nameAt size start passed (skipped ++ name :: later) seen position)
    (passedOver : ∀ other ∈ skipped, other ∈ seen)
    : Along nameAt size start (passed ++ skipped ++ [name]) later (name :: seen)
        (((position + skipped.length) % size + 1) % size) where
  parts := by rw [← along.parts]; simp
  position := by
    rw [Nat.mod_mod, Nat.mod_add_mod, Nat.add_assoc, Nat.add_mod, along.position, ← Nat.add_mod]
    simp [Nat.add_assoc]
  seen := by
    intro other
    have before := along.seen other
    constructor
    · intro member
      rcases mem_cons.mp member with rfl | member
      · simp
      · simp [before.mp member]
    · intro member
      simp only [mem_append, mem_singleton] at member
      rcases member with (member | member) | rfl
      · exact mem_cons_of_mem _ (before.mpr member)
      · exact mem_cons_of_mem _ (passedOver other member)
      · exact mem_cons_self

/-- A walker is back at its start exactly when nothing is left to come. -/
theorem Along.back (along : Along nameAt size start passed rest seen position)
    (inside : start < size) (some : passed ≠ [])
    : position % size = start ↔ rest = [] := by
  have total := along.length
  have positive := length_pos_iff.mpr some
  rw [along.position, ← length_eq_zero_iff]
  constructor
  · intro same
    by_contra left
    rcases Nat.lt_or_ge (start + passed.length) size with below | above
    · rw [Nat.mod_eq_of_lt below] at same
      omega
    · rw [Nat.mod_eq_sub_mod above, Nat.mod_eq_of_lt (by omega)] at same
      omega
  · intro left
    have whole : start + passed.length = start + size := by omega
    rw [whole, Nat.add_mod_right, Nat.mod_eq_of_lt inside]

/-- A round over a list is a rotation of it. -/
theorem oneRound_eq_rotate (names : List K) (default : K) (start : Nat)
    : oneRound (fun i => names.getD i default) names.length start = names.rotate start := by
  refine ext_getElem? (fun i => ?_)
  by_cases inside : i < names.length
  · have positive : 0 < names.length := Nat.zero_lt_of_lt inside
    rw [oneRound, List.getElem?_map, List.getElem?_range inside, Option.map_some,
      List.getElem?_rotate inside, getD_eq_getElem?_getD, Nat.add_comm,
      List.getElem?_eq_getElem (Nat.mod_lt _ positive), Option.getD_some]
  · rw [List.getElem?_eq_none (by simpa [oneRound] using inside),
      List.getElem?_eq_none (by simpa using inside)]

section Around

variable {H : Type} {slots : List H} {ahead : H → Bool}

/-- The slots ahead of a point, then those behind it. -/
def around (ahead : H → Bool) (slots : List H) : List H :=
  slots.filter ahead ++ slots.filter (fun slot => !ahead slot)

theorem perm_around (ahead : H → Bool) (slots : List H) : (around ahead slots).Perm slots :=
  filter_append_perm ahead slots

theorem around_filter (ahead keep : H → Bool) (slots : List H)
    : around ahead (slots.filter keep) = (around ahead slots).filter keep := by
  simp only [around, filter_append, filter_filter, Bool.and_comm]

theorem getD_of_lt {i : Nat} (inside : i < slots.length) (default : H)
    : slots.getD i default = slots[i] := by
  rw [getD_eq_getElem?_getD, List.getElem?_eq_getElem inside, Option.getD_some]

/-- If the slots behind the point are those before a cut, a round from the cut goes around the
point.
-/
theorem rotate_eq_around {cut : Nat} (default : H) (inside : cut ≤ slots.length)
    (before : ∀ i < cut, ahead (slots.getD i default) = false)
    (after : ∀ i, cut ≤ i → i < slots.length → ahead (slots.getD i default) = true)
    : slots.rotate cut = around ahead slots := by
  have notAhead (slot : H) (member : slot ∈ slots.take cut) : ahead slot = false := by
    obtain ⟨i, bound, rfl⟩ := mem_iff_getElem.mp member
    rw [length_take] at bound
    rw [getElem_take, ← getD_of_lt (by omega) default]
    exact before i (by omega)
  have isAhead (slot : H) (member : slot ∈ slots.drop cut) : ahead slot = true := by
    obtain ⟨i, bound, rfl⟩ := mem_iff_getElem.mp member
    rw [length_drop] at bound
    rw [getElem_drop, ← getD_of_lt (by omega) default]
    exact after (cut + i) (Nat.le_add_right _ _) (by omega)
  have front : slots.filter ahead = slots.drop cut := by
    rw [← take_append_drop cut slots, filter_append,
      filter_eq_nil_iff.mpr (by simpa using notAhead),
      filter_eq_self.mpr (by simpa using isAhead), nil_append, take_append_drop]
  have behind : slots.filter (fun slot => !ahead slot) = slots.take cut := by
    rw [← take_append_drop cut slots, filter_append,
      filter_eq_self.mpr (by simpa using notAhead),
      filter_eq_nil_iff.mpr (by simpa using isAhead), append_nil,
      take_append_drop]
  rw [rotate_eq_drop_append_take inside, around, front, behind]

end Around

/-- What a walker has gone over who began at one position and stands at another, perhaps after the
end of the round.
-/
def Gone (start position i : Nat) : Prop :=
  if start < position then start ≤ i ∧ i < position else start ≤ i ∨ i < position

/-- A walker who is back has gone over everything. -/
theorem Gone.all (start i : Nat) : Gone start start i := by
  rw [Gone, if_neg (Nat.lt_irrefl start)]
  omega

/-- The position after a step around the end of the round. -/
theorem mod_cases {size i : Nat} (bound : i < 2 * size)
    : i % size < size ∧ (i % size = i ∨ i % size + size = i) := by
  rcases Nat.lt_or_ge i size with below | above
  · rw [Nat.mod_eq_of_lt below]
    exact ⟨below, Or.inl rfl⟩
  · rw [Nat.mod_eq_sub_mod above, Nat.mod_eq_of_lt (by omega)]
    exact ⟨by omega, Or.inr (by omega)⟩

/-- Every position is ahead of the walker, before the end of the round or after it. -/
theorem exists_ahead {size position i : Nat} (atMost : position ≤ size) (inside : i < size)
    : ∃ j < size,
        (position + j) % size = i ∧ (position + j = i ∨ position + j = i + size) := by
  rcases Nat.lt_or_ge i position with behind | ahead
  · refine ⟨i + size - position, by omega, ?_, Or.inr (by omega)⟩
    rw [show position + (i + size - position) = i + size by omega, Nat.add_mod_right,
      Nat.mod_eq_of_lt inside]
  · refine ⟨i - position, by omega, ?_, Or.inl (by omega)⟩
    rw [show position + (i - position) = i by omega, Nat.mod_eq_of_lt inside]

/-- What a walker has gone over after some steps was gone over before, or is on the way. On the
first steps everything is on the way.
-/
theorem Gone.step {size start position distance i : Nat} (atMost : position ≤ size)
    (less : distance < size) (inside : i < size)
    (gone : Gone start (((position + distance) % size + 1) % size) i)
    : (start ≠ position ∧ Gone start position i)
      ∨ ∃ j ≤ distance, (position + j) % size = i := by
  obtain ⟨j, _, there, way⟩ := exists_ahead atMost inside
  rcases Nat.lt_or_ge distance j with far | near
  · have met := @mod_cases size (position + distance) (by omega)
    have after := @mod_cases size ((position + distance) % size + 1) (by omega)
    unfold Gone at gone ⊢
    refine Or.inl ?_
    split at gone <;> split <;> omega
  · exact Or.inr ⟨j, near, there⟩

section Changes

variable {H : Type} {keep : H → Bool} {slots fewer : List H} {slot : H} {i start position : Nat}

/-- A slot that is kept moves to the front. -/
theorem exists_le_of_filter (found : slots[i]? = some slot) (kept : keep slot = true)
    : ∃ j ≤ i, (slots.filter keep)[j]? = some slot := by
  obtain ⟨inside, rfl⟩ := List.getElem?_eq_some_iff.mp found
  refine ⟨((slots.take i).filter keep).length, ?_, ?_⟩
  · have shorter := length_filter_le keep (slots.take i)
    rw [length_take] at shorter
    omega
  · have parts
        : slots.filter keep = (slots.take i).filter keep ++ (slots.drop i).filter keep := by
      rw [← filter_append, take_append_drop]
    rw [parts, List.getElem?_append_right (Nat.le_refl _), Nat.sub_self,
      drop_eq_getElem_cons inside, filter_cons_of_pos kept, List.getElem?_cons_zero]

/-- It came from a place that is not further in front. -/
theorem exists_ge_of_filter (found : (slots.filter keep)[i]? = some slot)
    : ∃ j ≥ i, slots[j]? = some slot := by
  induction slots generalizing i with
  | nil => cases found
  | cons first rest ih =>
      by_cases kept : keep first = true
      · rw [filter_cons_of_pos kept] at found
        cases i with
        | zero => exact ⟨0, Nat.le_refl _, found⟩
        | succ i =>
            obtain ⟨j, further, there⟩ := ih found
            exact ⟨j + 1, by omega, there⟩
      · rw [filter_cons_of_neg kept] at found
        obtain ⟨j, further, there⟩ := ih found
        exact ⟨j + 1, by omega, there⟩

/-- Positions before a cut are the same if the lists agree up to it. -/
theorem getElem?_of_take_eq {others : List H} {cut : Nat}
    (same : slots.take cut = others.take cut) (before : i < cut)
    : slots[i]? = others[i]? := by
  have there := congrArg (fun list => list[i]?) same
  simpa [List.getElem?_take, before] using there

/-- When slots come, but none before the start, those that the walker has gone over and that are not
new were gone over before.
-/
theorem Gone.grow (kept : slots.filter keep = fewer) (unique : slots.Nodup)
    (same : slots.take start = fewer.take start) (gone : Gone start position i)
    (found : slots[i]? = some slot) (old : keep slot = true)
    : ∃ j, Gone start position j ∧ fewer[j]? = some slot := by
  rcases Nat.lt_or_ge i start with before | behind
  · exact ⟨i, gone, (getElem?_of_take_eq same before).symm.trans found⟩
  · obtain ⟨j, front, there⟩ := exists_le_of_filter found old
    rw [kept] at there
    have notBefore : start ≤ j := by
      by_contra sooner
      have again := (getElem?_of_take_eq same (Nat.lt_of_not_le sooner)).trans there
      have inside := (List.getElem?_eq_some_iff.mp found).1
      have place := (List.getElem?_inj inside unique).mp (found.trans again.symm)
      omega
    refine ⟨j, ?_, there⟩
    unfold Gone at gone ⊢
    split at gone <;> split <;> omega

/-- When slots go, but none before the start or the walker, those that the walker has gone over were
gone over before.
-/
theorem Gone.shrink {cut : Nat} (kept : slots.filter keep = fewer)
    (same : fewer.take cut = slots.take cut) (startBefore : start ≤ cut)
    (positionBefore : position ≤ cut) (gone : Gone start position i)
    (found : fewer[i]? = some slot)
    : ∃ j, Gone start position j ∧ slots[j]? = some slot := by
  rcases Nat.lt_or_ge i cut with before | behind
  · exact ⟨i, gone, (getElem?_of_take_eq same before).symm.trans found⟩
  · rw [← kept] at found
    obtain ⟨j, further, there⟩ := exists_ge_of_filter found
    refine ⟨j, ?_, there⟩
    unfold Gone at gone ⊢
    split at gone <;> split <;> omega

end Changes

end Rounds
