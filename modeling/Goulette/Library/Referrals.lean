import Mathlib.Data.Set.Insert

/-! References of caches and calls into a table. An entry's departure is announced with the topics
whose caches will be dropped, these are dropped one by one, and the entry goes.
-/

namespace Referrals

variable {K R T : Type}

/-- The references that may still enter a cache are `held`; announced departures are `leaving`, each
with the topics whose cache has still to be dropped.
-/
structure State (K R T : Type) where
  table : K → Option R
  cached : T → Set R
  held : Set R
  leaving : Set (K × Set T)

namespace State

variable (state : State K R T)

def Listed (ref : R) : Prop := ∃ key, state.table key = some ref

/-- Only the caches of some topics refer to an entry, and nobody holds it. -/
structure Released (ref : R) (topics : Set T) : Prop where
  caches : ∀ topic, ref ∈ state.cached topic → topic ∈ topics
  held : ref ∉ state.held

/-- No reference dangles, and the entries that leave are referred to under announced topics only. -/
structure Sound : Prop where
  cached : ∀ topic, ∀ ref ∈ state.cached topic, state.Listed ref
  held : ∀ ref ∈ state.held, state.Listed ref
  released
    : ∀ key topics, (key, topics) ∈ state.leaving
        → ∀ ref, state.table key = some ref → state.Released ref topics

end State

variable {old new : State K R T}

/-- Every reference of the new state was there before, in the same place. -/
structure Fewer (old new : State K R T) : Prop where
  cached : ∀ topic, new.cached topic ⊆ old.cached topic
  held : new.held ⊆ old.held

/-- What a step may do: drop references, take one from the table while nothing leaves, take those of
a cache that are not about to leave, fill a cache with held ones, let the table grow while nothing
leaves, announce a departure, drop an announced cache, and let an entry go.
-/
inductive Step (old new : State K R T) : Prop
  | drop (table : new.table = old.table) (leaving : new.leaving ⊆ old.leaving)
      (fewer : Fewer old new)
  | look (key : K) (ref : R) (found : old.table key = some ref) (table : new.table = old.table)
      (leaving : new.leaving = ∅) (cached : ∀ topic, new.cached topic ⊆ old.cached topic)
      (held : new.held ⊆ insert ref old.held)
  | read (topic : T)
      (staying
        : ∀ key topics, (key, topics) ∈ old.leaving
            → ∀ ref ∈ old.cached topic, old.table key ≠ some ref)
      (table : new.table = old.table) (leaving : new.leaving ⊆ old.leaving)
      (cached : ∀ topic, new.cached topic ⊆ old.cached topic)
      (held : new.held ⊆ old.held ∪ old.cached topic)
  | store (topic : T) (table : new.table = old.table) (leaving : new.leaving ⊆ old.leaving)
      (stored : new.cached topic ⊆ old.held)
      (others : ∀ other, other ≠ topic → new.cached other ⊆ old.cached other)
      (held : new.held ⊆ old.held)
  | grow (table : ∀ key ref, old.table key = some ref → new.table key = some ref)
      (leaving : new.leaving = ∅) (fewer : Fewer old new)
  | announce (key : K) (topics : Set T)
      (released : ∀ ref, old.table key = some ref → old.Released ref topics)
      (table : new.table = old.table) (leaving : new.leaving ⊆ {(key, topics)})
      (fewer : Fewer old new)
  | invalidate (key : K) (topic : T) (topics : Set T)
      (announced : (key, insert topic topics) ∈ old.leaving) (table : new.table = old.table)
      (leaving : new.leaving ⊆ insert (key, topics) old.leaving) (dropped : new.cached topic = ∅)
      (fewer : Fewer old new)
  | go (key : K) (announced : (key, ∅) ∈ old.leaving) (gone : new.table key = none)
      (others : ∀ other, other ≠ key → new.table other = old.table other)
      (leaving : new.leaving ⊆ old.leaving) (fewer : Fewer old new)

theorem State.Released.fewer {ref : R} {topics : Set T} (released : old.Released ref topics)
    (fewer : Fewer old new)
    : new.Released ref topics where
  caches := fun topic member => released.caches topic (fewer.cached topic member)
  held := fun member => released.held (fewer.held member)

/-- With fewer references, soundness is a question of the table alone. -/
theorem State.Sound.fewer (h : old.Sound) (fewer : Fewer old new)
    (listed
      : ∀ ref, old.Listed ref
          → (∃ topic, ref ∈ old.cached topic) ∨ ref ∈ old.held
          → new.Listed ref)
    (released
      : ∀ key topics, (key, topics) ∈ new.leaving
          → ∀ ref, new.table key = some ref → new.Released ref topics)
    : new.Sound where
  cached := fun topic ref member =>
    have before := fewer.cached topic member
    listed ref (h.cached topic ref before) (Or.inl ⟨topic, before⟩)
  held := fun ref member =>
    have before := fewer.held member
    listed ref (h.held ref before) (Or.inr before)
  released := released

/-- Steps keep a state sound. -/
theorem Step.sound (step : Step old new) (h : old.Sound) : new.Sound := by
  have same (table : new.table = old.table) {ref : R} (listed : old.Listed ref)
      : new.Listed ref := by
    obtain ⟨key, found⟩ := listed
    exact ⟨key, (congrFun table key).trans found⟩
  cases step with
  | drop table leaving fewer =>
      refine h.fewer fewer (fun ref listed _ => same table listed) ?_
      intro key topics announced ref found
      rw [table] at found
      exact (h.released key topics (leaving announced) ref found).fewer fewer
  | look key ref found table leaving cached held =>
      refine ⟨fun topic other member => ?_, fun other member => ?_, fun key topics announced => ?_⟩
      · exact same table (h.cached topic other (cached topic member))
      · rcases held member with rfl | before
        · exact same table ⟨key, found⟩
        · exact same table (h.held other before)
      · rw [leaving] at announced
        cases announced
  | read topic staying table leaving cached held =>
      refine ⟨fun topic other member => ?_, fun other member => ?_, ?_⟩
      · exact same table (h.cached topic other (cached topic member))
      · rcases held member with before | taken
        · exact same table (h.held other before)
        · exact same table (h.cached topic other taken)
      · intro key topics announced ref found
        rw [table] at found
        have released := h.released key topics (leaving announced) ref found
        refine ⟨fun other member => released.caches other (cached other member), fun member => ?_⟩
        rcases held member with before | taken
        · exact released.held before
        · exact staying key topics (leaving announced) ref taken found
  | store topic table leaving stored others held =>
      refine ⟨fun place other member => ?_, fun other member => ?_, ?_⟩
      · by_cases here : place = topic
        · exact same table (h.held other (stored (here ▸ member)))
        · exact same table (h.cached place other (others place here member))
      · exact same table (h.held other (held member))
      · intro key topics announced ref found
        rw [table] at found
        have released := h.released key topics (leaving announced) ref found
        refine ⟨fun place member => ?_, fun member => released.held (held member)⟩
        by_cases here : place = topic
        · exact absurd (stored (here ▸ member)) released.held
        · exact released.caches place (others place here member)
  | grow table leaving fewer =>
      refine h.fewer fewer ?_ (fun key topics announced => ?_)
      · rintro ref ⟨key, found⟩ _
        exact ⟨key, table key ref found⟩
      · rw [leaving] at announced
        cases announced
  | announce key topics released table leaving fewer =>
      refine h.fewer fewer (fun ref listed _ => same table listed) ?_
      intro other announced present ref found
      rw [table] at found
      cases leaving present
      exact (released ref found).fewer fewer
  | invalidate key topic topics announced table leaving dropped fewer =>
      refine h.fewer fewer (fun ref listed _ => same table listed) ?_
      intro other left present ref found
      rw [table] at found
      rcases leaving present with now | before
      · cases now
        have released := (h.released _ _ announced ref found).fewer fewer
        refine ⟨fun place member => ?_, released.held⟩
        rcases released.caches place member with rfl | later
        · rw [dropped] at member
          cases member
        · exact later
      · exact (h.released _ _ before ref found).fewer fewer
  | go key announced gone others leaving fewer =>
      refine h.fewer fewer ?_ ?_
      · rintro ref ⟨other, found⟩ referred
        by_cases here : other = key
        · -- nobody refers to the entry that goes
          have released := h.released key ∅ announced ref (here ▸ found)
          rcases referred with ⟨topic, member⟩ | member
          · exact absurd (released.caches topic member) (Set.notMem_empty topic)
          · exact absurd member released.held
        · exact ⟨other, (others other here).trans found⟩
      · intro other topics present ref found
        by_cases here : other = key
        · rw [here, gone] at found
          cases found
        · rw [others other here] at found
          exact (h.released other topics (leaving present) ref found).fewer fewer

end Referrals
