import Mathlib.Data.List.Basic
import Mathlib.Data.List.Induction

/-! Runs of a deterministic system: the fold of a step function over its actions, with conditions
required of each action in the state it meets.
-/

namespace Runs

open List

variable {S A T : Type}

/-- Every action of a run meets a condition in the state before it. -/
def AllSteps (step : S → A → S) (allowed : S → A → Prop) : S → List A → Prop
  | _, [] => True
  | state, action :: rest => allowed state action ∧ AllSteps step allowed (step state action) rest

instance AllSteps.decidable (step : S → A → S) (allowed : S → A → Prop)
    [∀ state action, Decidable (allowed state action)]
    : ∀ state actions, Decidable (AllSteps step allowed state actions)
  | _, [] => .isTrue trivial
  | state, action :: rest =>
      have := AllSteps.decidable step allowed (step state action) rest
      inferInstanceAs (Decidable (_ ∧ _))

def follow (step : S → A → S) (shadow : S → T → A → T) : S → T → List A → T
  | _, carried, [] => carried
  | state, carried, action :: rest =>
      follow step shadow (step state action) (shadow state carried action) rest

variable {step : S → A → S} {allowed : S → A → Prop} {holds : S → Prop} {fine : A → Prop}
  {state : S} {actions : List A}

/-- A carried state whose steps do not look at the first is a run of its own. -/
theorem follow_eq_foldl (step : S → A → S) (own : T → A → T) (state : S) (carried : T)
    (actions : List A)
    : follow step (fun _ => own) state carried actions = actions.foldl own carried := by
  induction actions generalizing state carried with
  | nil => rfl
  | cons action rest ih => exact ih (step state action) (own carried action)

/-- A condition that holds in every state holds at every step of any run. -/
theorem AllSteps.of_forall (always : ∀ state action, allowed state action) (state : S)
    (actions : List A)
    : AllSteps step allowed state actions := by
  induction actions generalizing state with
  | nil => trivial
  | cons action rest ih => exact ⟨always state action, ih (step state action)⟩

/-- Actions that an invariant allows, and that keep it, are allowed throughout a run. -/
theorem AllSteps.of_invariant
    (keep
      : ∀ state action, fine action → holds state
          → allowed state action ∧ holds (step state action))
    (start : holds state) (all : ∀ action ∈ actions, fine action)
    : AllSteps step allowed state actions := by
  induction actions generalizing state with
  | nil => trivial
  | cons action rest ih =>
      have now := keep state action (all action mem_cons_self) start
      exact ⟨now.1, ih now.2 (fun later member => all later (mem_cons_of_mem _ member))⟩

/-- A condition on the actions alone can be added to the condition on steps. -/
theorem AllSteps.and (steps : AllSteps step allowed state actions)
    (all : ∀ action ∈ actions, fine action)
    : AllSteps step (fun state action => allowed state action ∧ fine action) state actions := by
  induction actions generalizing state with
  | nil => trivial
  | cons action rest ih =>
      exact ⟨⟨steps.1, all action mem_cons_self⟩,
        ih steps.2 (fun later member => all later (mem_cons_of_mem _ member))⟩

/-- Two conditions on steps together. -/
theorem AllSteps.together {other : S → A → Prop} (steps : AllSteps step allowed state actions)
    (others : AllSteps step other state actions)
    : AllSteps step (fun state action => allowed state action ∧ other state action) state
        actions := by
  induction actions generalizing state with
  | nil => trivial
  | cons action rest ih => exact ⟨⟨steps.1, others.1⟩, ih steps.2 others.2⟩

/-- A run in two parts. -/
theorem AllSteps.append {first second : List A} (before : AllSteps step allowed state first)
    (after : AllSteps step allowed (first.foldl step state) second)
    : AllSteps step allowed state (first ++ second) := by
  induction first generalizing state with
  | nil => exact after
  | cons action rest ih => exact ⟨before.1, ih before.2 after⟩

/-- A weaker condition on steps. -/
theorem AllSteps.mono {weaker : S → A → Prop}
    (weaken : ∀ state action, allowed state action → weaker state action)
    (steps : AllSteps step allowed state actions)
    : AllSteps step weaker state actions := by
  induction actions generalizing state with
  | nil => trivial
  | cons action rest ih => exact ⟨weaken state action steps.1, ih steps.2⟩

/-- A relation that allowed steps keep holds after any run of allowed steps. -/
theorem AllSteps.simulation {shadow : S → T → A → T} {related : S → T → Prop}
    (keep
      : ∀ state carried action,
          allowed state action
          → related state carried
          → related (step state action) (shadow state carried action))
    {carried : T} (start : related state carried) (steps : AllSteps step allowed state actions)
    : related (actions.foldl step state) (follow step shadow state carried actions) := by
  induction actions generalizing state carried with
  | nil => exact start
  | cons action rest ih => exact ih (keep state carried action steps.1 start) steps.2

section

variable (keep : ∀ state action, allowed state action → holds state → holds (step state action))
include keep

/-- An invariant that allowed steps keep holds after any run of allowed steps. -/
theorem AllSteps.invariant (start : holds state) (steps : AllSteps step allowed state actions)
    : holds (actions.foldl step state) := by
  induction actions generalizing state with
  | nil => exact start
  | cons action rest ih => exact ih (keep state action steps.1 start) steps.2

/-- An invariant that allowed steps keep holds in every state of a run of allowed steps. -/
theorem AllSteps.always (start : holds state) (steps : AllSteps step allowed state actions)
    : ∀ visited ∈ actions.scanl step state, holds visited := by
  induction actions generalizing state with
  | nil => simpa using start
  | cons action rest ih =>
      rw [scanl_cons, forall_mem_cons]
      exact ⟨start, ih (keep state action steps.1 start) steps.2⟩

/-- What an invariant gives at every allowed step holds at every step of a run of allowed steps. -/
theorem AllSteps.gives {given : S → A → Prop}
    (gives : ∀ state action, allowed state action → holds state → given state action)
    (start : holds state) (steps : AllSteps step allowed state actions)
    : AllSteps step given state actions := by
  induction actions generalizing state with
  | nil => trivial
  | cons action rest ih =>
      exact ⟨gives state action steps.1 start, ih (keep state action steps.1 start) steps.2⟩

end

/-- If an invariant allows exactly the fine actions, and these keep it, then a run is allowed
exactly if all its actions are fine.
-/
theorem AllSteps.iff_all
    (exactly : ∀ state action, holds state → (allowed state action ↔ fine action))
    (keep : ∀ state action, fine action → holds state → holds (step state action))
    (start : holds state) (actions : List A)
    : AllSteps step allowed state actions ↔ ∀ action ∈ actions, fine action := by
  induction actions generalizing state with
  | nil => simp [AllSteps]
  | cons action rest ih =>
      rw [AllSteps, exactly state action start, forall_mem_cons]
      exact and_congr_right (fun now => ih (keep state action now start))

/-- A run visits the state it ends in. -/
theorem foldl_mem_scanl (step : S → A → S) (state : S) (actions : List A)
    : actions.foldl step state ∈ actions.scanl step state := by
  induction actions generalizing state with
  | nil => exact mem_singleton_self state
  | cons action rest ih =>
      rw [scanl_cons]
      exact mem_cons_of_mem state (ih (step state action))

/-- Every action of a run is taken in a state of the run. -/
theorem exists_visited_of_mem (step : S → A → S) (state : S) {action : A} (taken : action ∈ actions)
    : ∃ before ∈ actions.scanl step state, step before action ∈ actions.scanl step state := by
  induction actions generalizing state with
  | nil => cases taken
  | cons first rest ih =>
      rw [scanl_cons]
      rcases mem_cons.mp taken with rfl | later
      · exact ⟨state, mem_cons_self, mem_cons_of_mem _ (by cases rest <;> simp)⟩
      · obtain ⟨before, visited, next⟩ := ih (step state first) later
        exact ⟨before, mem_cons_of_mem _ visited, mem_cons_of_mem _ next⟩

/-- A relation between a state and the states visited up to it, kept by allowed steps, holds
after any run of allowed steps.
-/
theorem AllSteps.visited {related : S → List S → Prop}
    (keep
      : ∀ state past action,
          allowed state action
          → related state past
          → related (step state action) (past ++ [step state action]))
    (start : related state [state]) (steps : AllSteps step allowed state actions)
    : related (actions.foldl step state) (actions.scanl step state) := by
  have general (past : List S) (now : related state (past ++ [state]))
      : related (actions.foldl step state) (past ++ actions.scanl step state) := by
    clear start
    induction actions generalizing state past with
    | nil => simpa using now
    | cons action rest ih =>
        have next := ih steps.2 (past ++ [state]) (keep state _ action steps.1 now)
        rwa [append_assoc, singleton_append, ← scanl_cons] at next
  simpa using general [] start

/-- If a step keeps an invariant exactly when it is allowed, then the invariant holds in every
state of a run exactly when every step is allowed.
-/
theorem AllSteps.iff_visited
    (exactly : ∀ state action, holds state → (holds (step state action) ↔ allowed state action))
    (start : holds state) (actions : List A)
    : (∀ visited ∈ actions.scanl step state, holds visited)
      ↔ AllSteps step allowed state actions := by
  induction actions generalizing state with
  | nil => simp [AllSteps, start]
  | cons action rest ih =>
      rw [scanl_cons, forall_mem_cons]
      constructor
      · rintro ⟨_, later⟩
        have next : holds (step state action) := later _ (by cases rest <;> simp)
        exact ⟨(exactly state action start).mp next, (ih next).mp later⟩
      · rintro ⟨now, later⟩
        exact ⟨start, (ih ((exactly state action start).mpr now)).mpr later⟩

/-- Either no action is of a kind, judged by what came before it, or one is the first. -/
theorem none_or_first (kind : List A → A → Prop) (actions : List A)
    : (∀ before action after, actions = before ++ action :: after → ¬kind before action)
      ∨ ∃ before action after,
          actions = before ++ action :: after
          ∧ kind before action
          ∧ ∀ front first rest, before = front ++ first :: rest → ¬kind front first := by
  induction actions using List.reverseRecOn with
  | nil => exact Or.inl (fun before action after none => by simp at none)
  | append_singleton actions last ih =>
      rcases ih with none | ⟨before, action, after, rfl, found, first⟩
      · by_cases found : kind actions last
        · exact Or.inr ⟨actions, last, [], rfl, found, none⟩
        · refine Or.inl (fun before action after split => ?_)
          rcases eq_nil_or_concat' after with rfl | ⟨rest, final, rfl⟩
          · obtain ⟨rfl, same⟩ := append_inj' split rfl
            rwa [← singleton_inj.mp same]
          · rw [← cons_append, ← append_assoc] at split
            exact none before action rest (append_inj' split rfl).1
      · exact Or.inr ⟨before, action, after ++ [last], by simp, found, first⟩

end Runs
