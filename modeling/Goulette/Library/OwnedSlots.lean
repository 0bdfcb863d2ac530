import Mathlib.Data.List.AList
import Mathlib.Data.List.Perm.Basic

/-! Slots that belong to owners. An owner comes and goes with all its slots, so the taken slots are
those of the present owners as long as owners share none and nobody comes twice.
-/

namespace OwnedSlots

open List

variable {K H : Type} [DecidableEq H] {slots : K → List H} {owners : List K} {taken : List H}
  {owner : AList (fun _ : H => K)}

/-- The taken slots are those of the owners, one for one, and the map knows whose they are. -/
structure Holds (slots : K → List H) (owners : List K) (taken : List H)
    (owner : AList (fun _ : H => K))
    : Prop where
  taken : taken.Perm (owners.flatMap slots)
  owner : ∀ k ∈ owners, ∀ slot ∈ slots k, owner.lookup slot = some k

theorem Holds.empty (slots : K → List H) : Holds slots [] [] ∅ where
  taken := .rfl
  owner := by simp

/-- Every taken slot is a slot of a present owner, and the map says so. -/
theorem Holds.lookup (h : Holds slots owners taken owner) {slot : H} (member : slot ∈ taken)
    : ∃ k ∈ owners, slot ∈ slots k ∧ owner.lookup slot = some k := by
  obtain ⟨k, known, belongs⟩ := mem_flatMap.mp (h.taken.mem_iff.mp member)
  exact ⟨k, known, belongs, h.owner k known slot belongs⟩

theorem lookup_foldl_insert (k : K) (added : List H) (owner : AList (fun _ : H => K)) (slot : H)
    : (added.foldl (fun map slot => map.insert slot k) owner).lookup slot
      = if slot ∈ added then some k else owner.lookup slot := by
  induction added generalizing owner with
  | nil => simp
  | cons first rest ih =>
      rw [foldl_cons, ih]
      by_cases later : slot ∈ rest
      · simp [later]
      · by_cases same : slot = first
        · subst same
          simp [later]
        · simp [later, same]

theorem lookup_foldl_erase (removed : List H) (owner : AList (fun _ : H => K)) {slot : H}
    (kept : slot ∉ removed)
    : (removed.foldl (fun map slot => map.erase slot) owner).lookup slot = owner.lookup slot := by
  induction removed generalizing owner with
  | nil => rfl
  | cons first rest ih =>
      rw [mem_cons, not_or] at kept
      rw [foldl_cons, ih _ kept.2, AList.lookup_erase_ne kept.1]

/-- A new owner brings its slots. -/
theorem Holds.add (h : Holds slots owners taken owner) {k : K}
    (apart : ∀ other ∈ owners, ∀ slot ∈ slots other, slot ∉ slots k)
    {next : List H} (added : next.Perm (taken ++ slots k))
    : Holds slots (k :: owners) next
        ((slots k).foldl (fun map slot => map.insert slot k) owner) where
  taken := by
    rw [flatMap_cons]
    exact (added.trans (h.taken.append_right _)).trans perm_append_comm
  owner := by
    intro other known slot belongs
    rw [lookup_foldl_insert]
    rcases mem_cons.mp known with rfl | known
    · rw [if_pos belongs]
    · rw [if_neg (apart other known slot belongs)]
      exact h.owner other known slot belongs

theorem diff_append_left (front rest : List H) : (front ++ rest).diff front = rest := by
  induction front with
  | nil => rfl
  | cons first front ih =>
      rw [cons_append, diff_cons, erase_cons_head]
      exact ih

/-- Slots that are not taken cannot be removed. -/
theorem diff_of_disjoint {removed : List H} (absent : ∀ slot ∈ removed, slot ∉ taken)
    : taken.diff removed = taken := by
  induction removed with
  | nil => rfl
  | cons first rest ih =>
      rw [diff_cons, erase_of_not_mem (absent first mem_cons_self)]
      exact ih (fun slot member => absent slot (mem_cons_of_mem _ member))

/-- An owner takes its slots along; one that is not present takes nothing. -/
theorem Holds.remove [DecidableEq K] (h : Holds slots owners taken owner) (unique : owners.Nodup)
    {k : K} (apart : ∀ other ∈ owners, other ≠ k → ∀ slot ∈ slots other, slot ∉ slots k)
    : Holds slots (owners.erase k) ((slots k).foldl List.erase taken)
        ((slots k).foldl (fun map slot => map.erase slot) owner) where
  taken := by
    rw [← diff_eq_foldl]
    by_cases present : k ∈ owners
    · have split : taken.Perm (slots k ++ (owners.erase k).flatMap slots) := by
        rw [← flatMap_cons]
        exact h.taken.trans ((perm_cons_erase present).flatMap_right slots)
      have left := split.diff_right (slots k)
      rwa [diff_append_left] at left
    · rw [erase_of_not_mem present, diff_of_disjoint]
      · exact h.taken
      · intro slot belongs member
        obtain ⟨other, known, held, _⟩ := h.lookup member
        exact apart other known (fun same => present (same ▸ known)) slot held belongs
  owner := by
    intro other known slot belongs
    obtain ⟨different, there⟩ := (List.Nodup.mem_erase_iff unique).mp known
    rw [lookup_foldl_erase _ _ (apart other there different slot belongs)]
    exact h.owner other there slot belongs

def Only (slots : K → List H) (owners : List K) (owner : AList (fun _ : H => K)) : Prop :=
  ∀ slot, (∀ k ∈ owners, slot ∉ slots k) → owner.lookup slot = none

theorem lookup_foldl_erase_of_mem (removed : List H) (owner : AList (fun _ : H => K)) {slot : H}
    (gone : slot ∈ removed)
    : (removed.foldl (fun map slot => map.erase slot) owner).lookup slot = none := by
  induction removed generalizing owner with
  | nil => cases gone
  | cons first rest ih =>
      by_cases later : slot ∈ rest
      · exact ih _ later
      · rcases mem_cons.mp gone with rfl | member
        · rw [foldl_cons, lookup_foldl_erase _ _ later, AList.lookup_erase]
        · exact absurd member later

theorem Only.add (only : Only slots owners owner) (k : K)
    : Only slots (k :: owners) ((slots k).foldl (fun map slot => map.insert slot k) owner) := by
  intro slot free
  rw [forall_mem_cons] at free
  rw [lookup_foldl_insert, if_neg free.1]
  exact only slot free.2

theorem Only.remove [DecidableEq K] (only : Only slots owners owner) (k : K)
    : Only slots (owners.erase k) ((slots k).foldl (fun map slot => map.erase slot) owner) := by
  intro slot free
  by_cases own : slot ∈ slots k
  · exact lookup_foldl_erase_of_mem _ _ own
  · rw [lookup_foldl_erase _ _ own]
    refine only slot (fun other known => ?_)
    by_cases same : other = k
    · exact same ▸ own
    · exact free other ((mem_erase_of_ne same).mpr known)

/-- The present owners determine the owner of every slot. -/
theorem Holds.lookup_eq {others : List K} {takenToo : List H} {ownerToo : AList (fun _ : H => K)}
    (h : Holds slots owners taken owner) (only : Only slots owners owner)
    (hToo : Holds slots others takenToo ownerToo) (onlyToo : Only slots others ownerToo)
    (same : owners.Perm others) (slot : H)
    : owner.lookup slot = ownerToo.lookup slot := by
  by_cases held : ∃ k ∈ owners, slot ∈ slots k
  · obtain ⟨k, known, belongs⟩ := held
    rw [h.owner k known slot belongs, hToo.owner k (same.mem_iff.mp known) slot belongs]
  · have free : ∀ k ∈ owners, slot ∉ slots k := by
      intro k known belongs
      exact held ⟨k, known, belongs⟩
    rw [only slot free, onlyToo slot (fun k known => free k (same.mem_iff.mpr known))]

inductive Change (K : Type)
  | come (owner : K)
  | go (owner : K)

def Change.who : Change K → K
  | .come k => k
  | .go k => k

variable [DecidableEq K]

def Change.present (owners : List K) : Change K → List K
  | .come k => k :: owners
  | .go k => owners.erase k

/-- Nobody comes who is there, and nobody goes who is not. -/
def Change.Proper (owners : List K) : Change K → Prop
  | .come k => k ∉ owners
  | .go k => k ∈ owners

instance (owners : List K) (change : Change K) : Decidable (change.Proper owners) := by
  unfold Change.Proper
  split <;> infer_instance

theorem Change.present_go_cons (k : K) (owners : List K)
    : (Change.go k).present (k :: owners) = owners :=
  erase_cons_head k owners

theorem Change.nodup_present (unique : owners.Nodup) {change : Change K}
    (proper : change.Proper owners)
    : (change.present owners).Nodup := by
  cases change with
  | come k => exact nodup_cons.mpr ⟨proper, unique⟩
  | go k => exact unique.erase k

/-- Nobody is present who does not come. -/
theorem Change.subset_present {change : Change K} {k : K} (known : k ∈ change.present owners)
    : k ∈ owners ∨ k = change.who := by
  cases change with
  | come other =>
      rcases mem_cons.mp known with same | member
      · exact Or.inr same
      · exact Or.inl member
  | go other => exact Or.inl (mem_of_mem_erase known)

/-- Numbers that are met one after the other, each marked as a bit; none is marked before. -/
def unmarked (marks : Nat) : List Nat → Bool
  | [] => true
  | number :: rest => !marks.testBit number && unmarked (marks ||| 1 <<< number) rest

/-- Numbers that are never met marked are different, by induction on the numbers. -/
theorem nodup_of_unmarked {marks : Nat} {numbers : List Nat}
    (fresh : unmarked marks numbers = true)
    : numbers.Nodup ∧ ∀ number ∈ numbers, marks.testBit number = false := by
  induction numbers generalizing marks with
  | nil => exact ⟨nodup_nil, by simp⟩
  | cons number rest ih =>
      rw [unmarked, Bool.and_eq_true, Bool.not_eq_true'] at fresh
      obtain ⟨unique, others⟩ := ih fresh.2
      have apart (other : Nat) (member : other ∈ rest)
          : marks.testBit other = false ∧ number ≠ other := by
        have unmet := others other member
        rw [Nat.testBit_or, Bool.or_eq_false_iff, Nat.one_shiftLeft] at unmet
        refine ⟨unmet.1, fun same => ?_⟩
        rw [same, Nat.testBit_two_pow_self] at unmet
        cases unmet.2
      refine ⟨nodup_cons.mpr ⟨fun again => (apart number again).2 rfl, unique⟩, ?_⟩
      exact forall_mem_cons.mpr ⟨fresh.1, fun other member => (apart other member).1⟩

end OwnedSlots
