import Goulette.Storage.Buckets

/-! Runs of the fragment manager. New fragments are numbered by the length of the topic's list,
which after a cleanup may be the number of a live fragment.
-/

namespace Goulette.Storage

open Goulette.Go ByteFrames FileStore Runs List Function

inductive FragmentCall
  | createFragment (topic : GoString)
  | writeMessage (topic : GoString) (messageID : UInt64) (payload : Bytes)
  | cleanupExpiredFragments
  | closeTopic (topic : GoString)

def FragmentManager.step (fm : FragmentManager) : Int × FragmentCall → FragmentManager
  | (now, .createFragment topic) => (fm.createFragment now topic).1
  | (now, .writeMessage topic messageID payload) => fm.writeMessage now topic messageID payload
  | (now, .cleanupExpiredFragments) => fm.cleanupExpiredFragments now
  | (_, .closeTopic topic) => fm.closeTopic topic

def Archive.empty (maxSize maxMessages ttl : Int) : Archive :=
  { maxSize, maxMessages, ttl, buckets := fun _ => [] }

def Archive.step (archive : Archive) : Int × FragmentCall → Archive
  | (now, .createFragment topic) => archive.create now topic
  | (now, .writeMessage topic messageID payload) =>
      archive.write now topic (newEntry now messageID payload)
  | (now, .cleanupExpiredFragments) => archive.expire now
  | (_, .closeTopic topic) => archive.set topic []

/-- A fragment that is about to be created gets a path no listed fragment has, and a payload
fits its size field.
-/
def FragmentManager.CreatesFresh (fm : FragmentManager) : Int × FragmentCall → Prop
  | (_, .createFragment topic) => FreshPath fm topic
  | (_, .writeMessage topic _ payload) =>
      payload.length < 2 ^ 32 ∧ (fm.needsFragment topic → FreshPath fm topic)
  | (_, .cleanupExpiredFragments) => True
  | (_, .closeTopic _) => True

instance (fm : FragmentManager)
    : (call : Int × FragmentCall) → Decidable (fm.CreatesFresh call) := fun call => by
  unfold FragmentManager.CreatesFresh
  split <;> infer_instance

variable {fm : FragmentManager} {archive : Archive} {topic : GoString}

/-- A manager that has just been made lists nothing, whatever the disk holds. -/
theorem Refines.new (disk : Disk GoString) (baseDir : GoString) (maxSize maxMessages ttl : Int)
    : Refines (.newFragmentManager disk baseDir maxSize maxMessages ttl)
        (.empty maxSize maxMessages ttl) where
  maxSize := rfl
  maxMessages := rfl
  ttl := rfl
  held := fun _ => .nil
  nodup := fun _ => .nil
  apart := fun _ _ _ _ member => absurd member not_mem_nil

theorem Refines.step (h : Refines fm archive) (call : Int × FragmentCall)
    (fresh : fm.CreatesFresh call)
    : Refines (fm.step call) (archive.step call) := by
  obtain ⟨now, call⟩ := call
  cases call with
  | createFragment topic => exact h.createFragment fresh now
  | writeMessage topic messageID payload => exact h.writeMessage fresh.2 now messageID fresh.1
  | cleanupExpiredFragments => exact h.cleanupExpiredFragments now
  | closeTopic topic => exact h.closeTopic topic

variable {calls : List (Int × FragmentCall)}

theorem Refines.run (h : Refines fm archive)
    (fresh : AllSteps FragmentManager.step FragmentManager.CreatesFresh fm calls)
    : Refines (calls.foldl FragmentManager.step fm) (calls.foldl Archive.step archive) := by
  rw [← follow_eq_foldl FragmentManager.step Archive.step fm archive calls]
  exact fresh.simulation (fun _ _ call allowed related => related.step call allowed) h

structure Numbered (fm : FragmentManager) : Prop where
  numbered
    : ∀ topic, (fm.listed topic).map Fragment.id = List.range (fm.listed topic).length
  path : ∀ topic, ∀ fragment ∈ fm.listed topic,
    fragment.path = fm.getFragmentPath topic fragment.id
  plain : ∀ topic, fm.listed topic ≠ [] → PlainName topic

theorem fragmentName_plain (id : Nat) : PlainName (fragmentName id) := by
  have word : (lit "fragment_").head? = some 102 := by decide
  have clear : separator ∉ lit "fragment_" ∧ separator ∉ lit ".frag" := by decide
  refine PlainName.of_letter ?_ ?_
  · rw [fragmentName, append_assoc, List.head?_append, word, Option.some_or]
  · simp only [fragmentName, mem_append, not_or]
    exact ⟨⟨clear.1, separator_notMem_decimal id⟩, clear.2⟩

theorem fragmentName_injective {id number : Nat} (same : fragmentName id = fragmentName number)
    : id = number :=
  decimal_injective (append_cancel_left (append_cancel_right same))

theorem getFragmentPath_injective (fm : FragmentManager) {other : GoString}
    (plain : PlainName topic) (plainToo : PlainName other) {id number : Nat}
    (same : fm.getFragmentPath topic id = fm.getFragmentPath other number)
    : topic = other ∧ id = number := by
  have parts := congrArg pathParts same
  simp only [FragmentManager.getFragmentPath, pathParts_join _ (fragmentName_plain _),
    pathParts_join _ plain, pathParts_join _ plainToo, append_assoc,
    append_cancel_left_eq, cons_append, nil_append, List.cons.injEq] at parts
  exact ⟨parts.1, fragmentName_injective parts.2.1⟩

namespace Numbered

/-- The number a new fragment gets is free. -/
theorem freshPath (h : Numbered fm) (plain : PlainName topic)
    : FreshPath fm topic := by
  intro entry member fragment inEntry same
  have listed : fragment ∈ fm.listed entry.1 := by
    rwa [FragmentManager.listed, AList.mem_lookup_iff.mpr member, Option.getD_some]
  have known := h.plain entry.1 (ne_nil_of_mem listed)
  rw [h.path entry.1 fragment listed] at same
  obtain ⟨rfl, taken⟩ := getFragmentPath_injective fm known plain same
  have inRange : fragment.id ∈ (fm.listed entry.1).map Fragment.id := mem_map_of_mem listed
  rw [h.numbered, mem_range] at inRange
  omega

theorem new (disk : Disk GoString) (baseDir : GoString) (maxSize maxMessages ttl : Int)
    : Numbered (.newFragmentManager disk baseDir maxSize maxMessages ttl) where
  numbered := fun _ => rfl
  path := fun _ _ member => absurd member not_mem_nil
  plain := fun _ some => absurd rfl some

/-- A change of one topic's list keeps the numbering when the new list has it. -/
theorem update (h : Numbered fm) {next : FragmentManager} (baseDir : next.baseDir = fm.baseDir)
    {fragments : List Fragment} (listed : next.listed = update fm.listed topic fragments)
    (numbered : fragments.map Fragment.id = List.range fragments.length)
    (path : ∀ fragment ∈ fragments, fragment.path = fm.getFragmentPath topic fragment.id)
    (plain : fragments ≠ [] → PlainName topic)
    : Numbered next where
  numbered := by
    rw [listed]
    exact (forall_update_iff fm.listed
        (fun _ list => list.map Fragment.id = List.range list.length)).mpr
      ⟨numbered, fun other _ => h.numbered other⟩
  path := by
    simp only [FragmentManager.getFragmentPath, baseDir, listed]
    exact (forall_update_iff fm.listed (fun other list =>
        ∀ fragment ∈ list, fragment.path = fm.getFragmentPath other fragment.id)).mpr
      ⟨path, fun other _ => h.path other⟩
  plain := by
    rw [listed]
    exact (forall_update_iff fm.listed (fun other list => list ≠ [] → PlainName other)).mpr
      ⟨plain, fun other _ => h.plain other⟩

section

variable (h : Numbered fm) (plain : PlainName topic) (now : Int)
include h plain

theorem createFragment
    : Numbered (fm.createFragment now topic).1 := by
  refine h.update rfl (fm.createFragment_listed now topic) ?_ ?_ (fun _ => plain)
  · rw [map_append, h.numbered topic, length_append, length_singleton,
      range_succ]
    rfl
  · exact forall_mem_append.mpr ⟨h.path topic, forall_mem_singleton.mpr rfl⟩

theorem getCurrentFragment
    : Numbered (fm.getCurrentFragment now topic).1 := by
  unfold FragmentManager.getCurrentFragment
  split
  · exact h.createFragment plain now
  · split
    · exact h.createFragment plain now
    · exact h

theorem writeMessage (messageID : UInt64) (payload : Bytes)
    : Numbered (fm.writeMessage now topic messageID payload) := by
  have current := h.getCurrentFragment plain now
  obtain ⟨before, last⟩ := fm.getCurrentFragment_last now topic
  have numbered := current.numbered topic
  have path := current.path topic
  rw [last] at numbered path
  refine current.update rfl (FragmentManager.listed_of_insert rfl) ?_ ?_ (fun _ => plain)
  · rw [last, dropLast_concat]
    simpa using numbered
  · rw [last, dropLast_concat]
    obtain ⟨old, own⟩ := forall_mem_append.mp path
    have same := own _ mem_cons_self
    exact forall_mem_append.mpr ⟨old, forall_mem_singleton.mpr same⟩

end

theorem closeTopic (h : Numbered fm) (topic : GoString) : Numbered (fm.closeTopic topic) :=
  h.update rfl (FragmentManager.listed_of_erase rfl) rfl
    (fun _ member => absurd member not_mem_nil) (fun some => absurd rfl some)

end Numbered

def FragmentCall.AppendOnly : FragmentCall → Prop
  | .createFragment topic => PlainName topic
  | .writeMessage topic _ payload => PlainName topic ∧ payload.length < 2 ^ 32
  | .cleanupExpiredFragments => False
  | .closeTopic _ => False

instance : (call : FragmentCall) → Decidable call.AppendOnly := fun call => by
  unfold FragmentCall.AppendOnly
  split <;> infer_instance

def writesTo (topic : GoString) (calls : List (Int × FragmentCall)) : List (UInt64 × Bytes) :=
  calls.filterMap (fun call =>
    match call.2 with
    | .writeMessage written messageID payload =>
        if written = topic then some (messageID, payload) else none
    | _ => none)

def MessageEntry.pair (entry : MessageEntry) : UInt64 × Bytes := (entry.messageID, entry.payload)

theorem Numbered.step (h : Numbered fm) (call : Int × FragmentCall) (allowed : call.2.AppendOnly)
    : fm.CreatesFresh call ∧ Numbered (fm.step call) := by
  obtain ⟨now, call⟩ := call
  cases call with
  | createFragment topic => exact ⟨h.freshPath allowed, h.createFragment allowed now⟩
  | writeMessage topic messageID payload =>
      exact ⟨⟨allowed.2, fun _ => h.freshPath allowed.1⟩,
        h.writeMessage allowed.1 now messageID payload⟩
  | cleanupExpiredFragments | closeTopic => exact allowed.elim

/-- Append-only calls add to the archive what they write, by induction on the calls. -/
theorem written_run (archive : Archive) (appendOnly : ∀ call ∈ calls, call.2.AppendOnly)
    (topic : GoString)
    : ∃ added,
        (calls.foldl Archive.step archive).written topic = archive.written topic ++ added
        ∧ added.map MessageEntry.pair = writesTo topic calls := by
  induction calls generalizing archive with
  | nil => exact ⟨[], (append_nil _).symm, rfl⟩
  | cons call rest ih =>
      obtain ⟨added, all, pairs⟩ :=
        ih (archive.step call) (fun later member => appendOnly later (mem_cons_of_mem _ member))
      rw [foldl_cons, all]
      have allowed := appendOnly call mem_cons_self
      obtain ⟨now, call⟩ := call
      cases call with
      | createFragment other =>
          rw [Archive.step, archive.written_create]
          exact ⟨added, rfl, pairs⟩
      | writeMessage other messageID payload =>
          simp only [Archive.step, archive.written_write, append_assoc]
          refine ⟨_, rfl, ?_⟩
          rw [map_append, pairs]
          by_cases same : other = topic
          · simp [writesTo, same, newEntry, MessageEntry.pair]
          · simp [writesTo, same, Ne.symm same]
      | cleanupExpiredFragments | closeTopic => exact allowed.elim

theorem written_empty (maxSize maxMessages ttl : Int)
    (appendOnly : ∀ call ∈ calls, call.2.AppendOnly) (topic : GoString)
    : ((calls.foldl Archive.step (.empty maxSize maxMessages ttl)).written topic).map
        MessageEntry.pair
      = writesTo topic calls := by
  obtain ⟨added, all, pairs⟩ := written_run (.empty maxSize maxMessages ttl) appendOnly topic
  rw [all]
  exact pairs

theorem Refines.appendOnly (disk : Disk GoString) (baseDir : GoString)
    (maxSize maxMessages ttl : Int) (appendOnly : ∀ call ∈ calls, call.2.AppendOnly)
    : Refines
        (calls.foldl FragmentManager.step
          (.newFragmentManager disk baseDir maxSize maxMessages ttl))
        (calls.foldl Archive.step (.empty maxSize maxMessages ttl)) := by
  have fresh
      : AllSteps FragmentManager.step FragmentManager.CreatesFresh
          (.newFragmentManager disk baseDir maxSize maxMessages ttl) calls :=
    AllSteps.of_invariant (fun _ call allowed numbered => numbered.step call allowed)
      (Numbered.new disk baseDir maxSize maxMessages ttl) appendOnly
  exact (Refines.new disk baseDir maxSize maxMessages ttl).run fresh

/-- The fragment store refines an append-only list per topic: whatever the rotation limits,
after any append-only calls a read returns the window of the written messages that offset and
limit ask for, also when their sum wraps around.
-/
theorem readMessages_appendOnly (disk : Disk GoString) (baseDir : GoString)
    (maxSize maxMessages ttl : Int) {calls : List (Int × FragmentCall)}
    (appendOnly : ∀ call ∈ calls, call.2.AppendOnly) (topic : GoString)
    (few : (writesTo topic calls).length ≤ 2 ^ 63) (offset : UInt64) {limit : Int64}
    (nonneg : 0 ≤ limit)
    : ((calls.foldl FragmentManager.step
          (.newFragmentManager disk baseDir maxSize maxMessages ttl)).readMessages topic offset
            limit).map MessageEntry.pair
      = ((writesTo topic calls).drop offset.toNat).take limit.toInt.toNat := by
  have refines := Refines.appendOnly disk baseDir maxSize maxMessages ttl appendOnly
  have written := written_empty maxSize maxMessages ttl appendOnly topic
  have few' := few
  rw [← written, length_map] at few'
  rw [refines.readMessages topic few' offset nonneg, map_take, map_drop, written]

def interleaved : List (Int × FragmentCall) :=
  [
    (0, .writeMessage (lit "a") 1 [1]),
    (1, .writeMessage (lit "b") 2 [2]),
    (1, .createFragment (lit "a")),
    (2, .writeMessage (lit "a") 3 []),
    (3, .writeMessage (lit "a") 4 [4, 4])
  ]

theorem readMessages_interleaved
    : (∀ call ∈ interleaved, call.2.AppendOnly)
      ∧ ((interleaved.foldl FragmentManager.step
            (.newFragmentManager .empty (lit "data") 22 10 0)).readMessages (lit "a") 1 2).map
          MessageEntry.pair
        = [(3, []), (4, [4, 4])] := by
  refine ⟨by decide, ?_⟩
  rw [readMessages_appendOnly .empty (lit "data") 22 10 0 (by decide) (lit "a") (by decide) 1
    (by decide)]
  decide

/-! Live fragments. -/

/-- The listed fragments of every topic have their own IDs and paths, each counts the messages
written to it, and reading a topic to its end returns exactly those messages.
-/
structure LiveFragmentsIntact (fm : FragmentManager) (archive : Archive) : Prop where
  ids : ∀ topic, ((fm.listed topic).map Fragment.id).Nodup
  paths : ∀ topic, ((fm.listed topic).map Fragment.path).Nodup
  counts
    : ∀ topic,
        (fm.listed topic).map Fragment.messageCount
        = (archive.buckets topic).map (fun bucket => (bucket.messages.length : Int))
  reads
    : ∀ topic (limit : Int64), ((archive.written topic).length : Int) ≤ limit.toInt
        → fm.readMessages topic 0 limit = archive.written topic

theorem Refines.path_of_mem (h : Refines fm archive) {fragment : Fragment}
    (member : fragment ∈ fm.listed topic)
    : fragment.path = fm.getFragmentPath topic fragment.id := by
  have paths
      : List.Forall₂
          (fun fragment bucket =>
            fragment.path = fm.getFragmentPath topic fragment.id
            ∧ FragmentHolds fm topic fragment bucket)
          (fm.listed topic) (archive.buckets topic) :=
    (h.held topic).imp (fun _ _ holds => ⟨holds.path, holds⟩)
  exact ((forall₂_and_left _ _).mp paths).1 fragment member

theorem Refines.liveFragmentsIntact (h : Refines fm archive)
    : LiveFragmentsIntact fm archive where
  ids := by
    intro topic
    refine List.Nodup.of_map (fm.getFragmentPath topic) ?_
    have paths
        : (fm.listed topic).map Fragment.path
          = ((fm.listed topic).map Fragment.id).map (fm.getFragmentPath topic) := by
      rw [map_map]
      exact map_congr_left (fun fragment member => h.path_of_mem member)
    rw [← paths]
    exact h.nodup topic
  paths := h.nodup
  counts := by
    intro topic
    rw [← forall₂_eq_eq_eq, forall₂_map_left_iff, forall₂_map_right_iff]
    exact (h.held topic).imp (fun fragment bucket holds => holds.messageCount)
  reads := by
    intro topic limit all
    have small := limit.toInt_lt
    have nonneg : 0 ≤ limit := Int64.le_iff_toInt_le.mpr (by rw [Int64.toInt_zero]; omega)
    rw [h.readMessages topic (by omega) 0 nonneg, UInt64.toNat_zero, drop_zero]
    exact take_of_length_le (by omega)

/-- No live fragment is overwritten in a run that never gives a new fragment the path of a
listed one: whatever is cleaned up and closed when, the messages written to the fragments that
are still listed are read back, each as often as it was written.
-/
theorem liveFragments_intact (disk : Disk GoString) (baseDir : GoString)
    (maxSize maxMessages ttl : Int) {calls : List (Int × FragmentCall)}
    (fresh
      : AllSteps FragmentManager.step FragmentManager.CreatesFresh
          (.newFragmentManager disk baseDir maxSize maxMessages ttl) calls)
    : LiveFragmentsIntact
        (calls.foldl FragmentManager.step
          (.newFragmentManager disk baseDir maxSize maxMessages ttl))
        (calls.foldl Archive.step (.empty maxSize maxMessages ttl)) :=
  ((Refines.new disk baseDir maxSize maxMessages ttl).run fresh).liveFragmentsIntact

/-- One fragment for each message; the first expires and the next write opens another. -/
def expiring (last : Int) : List (Int × FragmentCall) :=
  [
    (0, .writeMessage (lit "t") 1 [1]),
    (5, .writeMessage (lit "t") 2 [2]),
    (last, .cleanupExpiredFragments),
    (last, .writeMessage (lit "t") 3 [3])
  ]

/-- A run with cleanup that meets the condition: all fragments had expired. -/
theorem liveFragments_intact_expiring
    : AllSteps FragmentManager.step FragmentManager.CreatesFresh
        (.newFragmentManager .empty (lit "data") 100 1 10) (expiring 20)
      ∧ LiveFragmentsIntact
          ((expiring 20).foldl FragmentManager.step
            (.newFragmentManager .empty (lit "data") 100 1 10))
          ((expiring 20).foldl Archive.step (.empty 100 1 10)) :=
  ⟨by decide, liveFragments_intact .empty (lit "data") 100 1 10 (by decide)⟩

/-- When only the first of two fragments has expired, the new one gets the number and the
file of the other: its message is gone and the new one is read twice.
-/
theorem not_liveFragmentsIntact_expiring
    : ¬ LiveFragmentsIntact
          ((expiring 12).foldl FragmentManager.step
            (.newFragmentManager .empty (lit "data") 100 1 10))
          ((expiring 12).foldl Archive.step (.empty 100 1 10))
      ∧ (((expiring 12).foldl FragmentManager.step
          (.newFragmentManager .empty (lit "data") 100 1 10)).readMessages (lit "t") 0 10).map
            MessageEntry.messageID
        = [3, 3]
      ∧ (((expiring 12).foldl Archive.step (.empty 100 1 10)).written (lit "t")).map
          MessageEntry.messageID
        = [2, 3] := by
  refine ⟨fun intact => ?_, by decide +kernel, by decide⟩
  exact absurd (intact.ids (lit "t")) (by decide)

end Goulette.Storage
