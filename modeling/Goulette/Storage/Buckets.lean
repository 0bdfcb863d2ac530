import Goulette.Library.Runs
import Goulette.Storage.FragmentReads

/-! What the fragment manager is for: buckets of messages for every topic. The manager refines this
archive as long as no new fragment takes the path of a listed one.
-/

namespace Goulette.Storage

open Goulette.Go ByteFrames FileStore List Function

structure Bucket where
  createdAt : Int
  messages : List MessageEntry
deriving DecidableEq

def Bucket.size (bucket : Bucket) : Int :=
  (bucket.messages.map (fun entry => (8 + 8 + 4 + entry.payload.length : Int))).sum

structure Archive where
  maxSize : Int
  maxMessages : Int
  ttl : Int
  buckets : GoString → List Bucket

def newEntry (now : Int) (messageID : UInt64) (payload : Bytes) : MessageEntry :=
  { messageID, timestamp := unix now, payloadSize := UInt32.ofNat payload.length, payload }

/-- The size field of a payload that fits it is right. -/
theorem newEntry_valid (now : Int) (messageID : UInt64) {payload : Bytes}
    (small : payload.length < 2 ^ 32)
    : (newEntry now messageID payload).Valid := by
  simp only [newEntry, MessageEntry.Valid, UInt32.toNat_ofNat']
  exact Nat.mod_eq_of_lt small

namespace Archive

def full (archive : Archive) (bucket : Bucket) : Prop :=
  bucket.size ≥ archive.maxSize ∨ (bucket.messages.length : Int) ≥ archive.maxMessages

instance (archive : Archive) (bucket : Bucket) : Decidable (archive.full bucket) :=
  inferInstanceAs (Decidable (_ ∨ _))

def expired (archive : Archive) (now : Int) (bucket : Bucket) : Bool :=
  decide (timeSub now bucket.createdAt > archive.ttl)

def set (archive : Archive) (topic : GoString) (buckets : List Bucket) : Archive :=
  { archive with buckets := update archive.buckets topic buckets }

def create (archive : Archive) (now : Int) (topic : GoString) : Archive :=
  archive.set topic (archive.buckets topic ++ [{ createdAt := now, messages := [] }])

def push (archive : Archive) (topic : GoString) (entry : MessageEntry) : Archive :=
  match (archive.buckets topic).getLast? with
  | none => archive
  | some bucket =>
      archive.set topic
        ((archive.buckets topic).dropLast
          ++ [{ bucket with messages := bucket.messages ++ [entry] }])

def pushAt (archive : Archive) (topic : GoString) (index : Nat) (entry : MessageEntry)
    : Archive :=
  archive.set topic
    ((archive.buckets topic).modify index
      (fun bucket => { bucket with messages := bucket.messages ++ [entry] }))

def roll (archive : Archive) (now : Int) (topic : GoString) : Archive :=
  match (archive.buckets topic).getLast? with
  | none => archive.create now topic
  | some bucket => if archive.full bucket then archive.create now topic else archive

def write (archive : Archive) (now : Int) (topic : GoString) (entry : MessageEntry) : Archive :=
  (archive.roll now topic).push topic entry

def young (archive : Archive) (now : Int) (topic : GoString) : List Bucket :=
  (archive.buckets topic).filter (fun bucket => !archive.expired now bucket)

def expire (archive : Archive) (now : Int) : Archive :=
  if archive.ttl ≤ 0 then archive else { archive with buckets := archive.young now }

def written (archive : Archive) (topic : GoString) : List MessageEntry :=
  ((archive.buckets topic).map Bucket.messages).flatten

def expireTopics (archive : Archive) (now : Int) (topics : List GoString) : Archive :=
  { archive with
    buckets := fun topic =>
      if topic ∈ topics then archive.young now topic else archive.buckets topic }

variable {archive : Archive} {topic other : GoString}

@[simp] theorem set_self (archive : Archive) (topic : GoString) (buckets : List Bucket)
    : (archive.set topic buckets).buckets topic = buckets :=
  update_self ..

theorem set_of_ne (archive : Archive) (different : other ≠ topic) (buckets : List Bucket)
    : (archive.set topic buckets).buckets other = archive.buckets other :=
  update_of_ne different ..

theorem written_set_of_ne (archive : Archive) (different : other ≠ topic)
    (buckets : List Bucket)
    : (archive.set topic buckets).written other = archive.written other := by
  rw [written, set_of_ne archive different, written]

theorem expireTopics_cons (archive : Archive) (now : Int) {topics : List GoString}
    (absent : topic ∉ topics)
    : (archive.set topic (archive.young now topic)).expireTopics now topics
      = archive.expireTopics now (topic :: topics) := by
  unfold expireTopics
  congr 1
  funext other
  by_cases same : other = topic
  · subst same
    simp [absent]
  · simp [same, young, expired, set]

/-- A new bucket holds nothing. -/
theorem written_create (archive : Archive) (now : Int) (topic other : GoString)
    : (archive.create now topic).written other = archive.written other := by
  by_cases same : other = topic
  · subst same
    simp [create, written]
  · exact archive.written_set_of_ne same _

variable {bucket : Bucket}

theorem written_push (last : (archive.buckets topic).getLast? = some bucket) (entry : MessageEntry)
    (other : GoString)
    : (archive.push topic entry).written other
      = archive.written other ++ if other = topic then [entry] else [] := by
  obtain ⟨before, split⟩ := List.getLast?_eq_some_iff.mp last
  unfold push
  rw [last]
  by_cases same : other = topic
  · subst same
    simp [written, split]
  · simp [same, archive.written_set_of_ne same]

theorem written_roll (archive : Archive) (now : Int) (topic other : GoString)
    : (archive.roll now topic).written other = archive.written other := by
  unfold roll
  split
  · exact archive.written_create now topic other
  · split
    · exact archive.written_create now topic other
    · rfl

theorem roll_getLast? (archive : Archive) (now : Int) (topic : GoString)
    : ∃ bucket, ((archive.roll now topic).buckets topic).getLast? = some bucket := by
  have created
      : ((archive.create now topic).buckets topic).getLast?
        = some { createdAt := now, messages := [] } := by
    simp [create]
  unfold roll
  split
  · exact ⟨_, created⟩
  · next bucket last =>
      split
      · exact ⟨_, created⟩
      · exact ⟨bucket, last⟩

theorem written_write (archive : Archive) (now : Int) (topic : GoString) (entry : MessageEntry)
    (other : GoString)
    : (archive.write now topic entry).written other
      = archive.written other ++ if other = topic then [entry] else [] := by
  obtain ⟨bucket, last⟩ := archive.roll_getLast? now topic
  rw [write, written_push last, written_roll]

/-- A message put into some bucket stands behind that bucket's messages. -/
theorem written_pushAt {front back : List Bucket}
    (split : archive.buckets topic = front ++ bucket :: back) (entry : MessageEntry)
    : archive.written topic
        = (front ++ [bucket]).flatMap Bucket.messages ++ back.flatMap Bucket.messages
      ∧ (archive.pushAt topic front.length entry).written topic
        = (front ++ [bucket]).flatMap Bucket.messages
          ++ entry :: back.flatMap Bucket.messages := by
  constructor
  · simp [written, split, flatMap_def]
  · simp [written, pushAt, split, modify_eq_take_drop, flatMap_def]

theorem write_of_roll (archive : Archive) {now : Int} {topic : GoString}
    (rolls : archive.roll now topic = archive.create now topic) (entry : MessageEntry)
    : archive.write now topic entry
      = archive.set topic
          (archive.buckets topic ++ [{ createdAt := now, messages := [entry] }]) := by
  rw [write, rolls]
  simp [push, create, set]

theorem write_of_last (archive : Archive) {now : Int} {topic : GoString}
    (stays : archive.roll now topic = archive) {before : List Bucket}
    (last : archive.buckets topic = before ++ [bucket]) (entry : MessageEntry)
    : archive.write now topic entry
      = archive.set topic
          (before ++ [{ bucket with messages := bucket.messages ++ [entry] }]) := by
  rw [write, stays]
  simp [push, last]

end Archive

/-! The manager refines the archive. -/

/-- A fragment and its file hold a bucket. -/
structure FragmentHolds (fm : FragmentManager) (topic : GoString) (fragment : Fragment)
    (bucket : Bucket)
    : Prop where
  ofTopic : fragment.topic = topic
  path : fragment.path = fm.getFragmentPath topic fragment.id
  size : fragment.size = bucket.size
  messageCount : fragment.messageCount = bucket.messages.length
  createdAt : fragment.createdAt = bucket.createdAt
  valid : ∀ entry ∈ bucket.messages, entry.Valid
  content
    : ∃ header : Bytes,
        header.length = 20 + topic.length
        ∧ Holds fm.disk fragment.path fragment.file
            (header ++ stream MessageEntry.encode bucket.messages)

/-- The manager lists a fragment for every bucket, and no two of its fragments share a
file.
-/
structure Refines (fm : FragmentManager) (archive : Archive) : Prop where
  maxSize : fm.maxSize = archive.maxSize
  maxMessages : fm.maxMessages = archive.maxMessages
  ttl : fm.ttl = archive.ttl
  held
    : ∀ topic, List.Forall₂ (FragmentHolds fm topic) (fm.listed topic) (archive.buckets topic)
  nodup : ∀ topic, ((fm.listed topic).map Fragment.path).Nodup
  apart
    : ∀ topic other, topic ≠ other
        → ∀ fragment ∈ fm.listed topic, ∀ foreign ∈ fm.listed other, fragment.path ≠ foreign.path

structure SameSettings (fm next : FragmentManager) : Prop where
  baseDir : next.baseDir = fm.baseDir
  maxSize : next.maxSize = fm.maxSize
  maxMessages : next.maxMessages = fm.maxMessages
  ttl : next.ttl = fm.ttl

variable {fm next : FragmentManager} {archive : Archive} {topic other : GoString}
  {fragment : Fragment} {bucket : Bucket} {fragments : List Fragment}

theorem SameSettings.getFragmentPath (same : SameSettings fm next) (topic : GoString) (id : Nat)
    : next.getFragmentPath topic id = fm.getFragmentPath topic id := by
  rw [FragmentManager.getFragmentPath, FragmentManager.getFragmentPath, same.baseDir]

namespace FragmentManager

theorem listed_of_insert (inserted : next.fragments = fm.fragments.insert topic fragments)
    : next.listed = update fm.listed topic fragments := by
  funext other
  unfold listed
  rw [inserted]
  by_cases same : other = topic
  · subst same
    rw [AList.lookup_insert, update_self, Option.getD_some]
  · rw [AList.lookup_insert_ne same, update_of_ne same]

theorem listed_of_erase (erased : next.fragments = fm.fragments.erase topic)
    : next.listed = update fm.listed topic [] := by
  funext other
  unfold listed
  rw [erased]
  by_cases same : other = topic
  · subst same
    rw [AList.lookup_erase, update_self, Option.getD_none]
  · rw [AList.lookup_erase_ne same, update_of_ne same]

theorem createFragment_listed (fm : FragmentManager) (now : Int) (topic : GoString)
    : (fm.createFragment now topic).1.listed
      = update fm.listed topic
          (fm.listed topic ++ [(fm.createFragment now topic).2]) :=
  listed_of_insert rfl

theorem getCurrentFragment_last (fm : FragmentManager) (now : Int) (topic : GoString)
    : ∃ before,
        (fm.getCurrentFragment now topic).1.listed topic
        = before ++ [(fm.getCurrentFragment now topic).2] := by
  have created
      : (fm.createFragment now topic).1.listed topic
        = fm.listed topic ++ [(fm.createFragment now topic).2] := by
    rw [createFragment_listed, update_self]
  unfold getCurrentFragment
  cases last : (fm.listed topic).getLast? with
  | none => exact ⟨_, created⟩
  | some current =>
      simp only
      split
      · exact ⟨_, created⟩
      · exact List.getLast?_eq_some_iff.mp last

theorem cleanupTopic_listed (now : Int) (fm : FragmentManager) (topic : GoString)
    (fragments : List Fragment)
    : (cleanupTopic now fm topic fragments).listed
      = update fm.listed topic
          (fragments.filter (fun fragment => !fm.expired now fragment)) := by
  by_cases none : fragments.filter (fun fragment => !fm.expired now fragment) = []
  · rw [none]
    exact listed_of_erase (if_pos none)
  · exact listed_of_insert (if_neg none)

end FragmentManager

/-- What leaves a fragment's file alone leaves the fragment alone. -/
theorem FragmentHolds.frame (h : FragmentHolds fm topic fragment bucket)
    (same : SameSettings fm next)
    (kept
      : ∀ content, Holds fm.disk fragment.path fragment.file content
          → Holds next.disk fragment.path fragment.file content)
    : FragmentHolds next topic fragment bucket where
  ofTopic := h.ofTopic
  path := by rw [same.getFragmentPath, h.path]
  size := h.size
  messageCount := h.messageCount
  createdAt := h.createdAt
  valid := h.valid
  content := by
    obtain ⟨header, size, holds⟩ := h.content
    exact ⟨header, size, kept _ holds⟩

/-- What leaves the files of some fragments alone leaves their buckets alone. -/
theorem forall₂_frame {buckets : List Bucket}
    (held : List.Forall₂ (FragmentHolds fm topic) fragments buckets) (same : SameSettings fm next)
    (kept
      : ∀ fragment ∈ fragments, ∀ content,
          Holds fm.disk fragment.path fragment.file content
          → Holds next.disk fragment.path fragment.file content)
    : List.Forall₂ (FragmentHolds next topic) fragments buckets := by
  have listed := (forall₂_and_left fragments buckets).mpr ⟨fun _ member => member, held⟩
  exact listed.imp (fun fragment bucket own => own.2.frame same (kept fragment own.1))

theorem forall₂_middle {A B : Type} {related : A → B → Prop} {before after : List A} {item : A}
    {all : List B} (h : List.Forall₂ related (before ++ item :: after) all)
    : ∃ front other back,
        all = front ++ other :: back
        ∧ front.length = before.length
        ∧ List.Forall₂ related before front
        ∧ related item other
        ∧ List.Forall₂ related after back := by
  induction before generalizing all with
  | nil =>
      obtain ⟨other, back, own, rest, rfl⟩ := forall₂_cons_left_iff.mp h
      exact ⟨[], other, back, rfl, rfl, .nil, own, rest⟩
  | cons first before ih =>
      obtain ⟨head, tail, own, rest, rfl⟩ := forall₂_cons_left_iff.mp h
      obtain ⟨front, other, back, rfl, length, early, middle, late⟩ := ih rest
      exact ⟨head :: front, other, back, rfl, by simp [length], .cons own early, middle, late⟩

theorem forall₂_concat {A B : Type} {related : A → B → Prop} {before : List A} {last : A}
    {all : List B} (h : List.Forall₂ related (before ++ [last]) all)
    : ∃ rest final,
        all = rest ++ [final] ∧ List.Forall₂ related before rest ∧ related last final := by
  obtain ⟨front, final, back, rfl, _, early, own, none⟩ := forall₂_middle h
  cases none
  exact ⟨front, final, rfl, early, own⟩

namespace Refines

/-- A change of one topic's list keeps the refinement when the new fragments hold the new
buckets, have files of their own, and the files of other topics are left alone.
-/
theorem update (h : Refines fm archive) (same : SameSettings fm next) {buckets : List Bucket}
    (listed : next.listed = update fm.listed topic fragments)
    (own : List.Forall₂ (FragmentHolds next topic) fragments buckets)
    (nodup : (fragments.map Fragment.path).Nodup)
    (apart
      : ∀ other, other ≠ topic
          → ∀ fragment ∈ fragments, ∀ foreign ∈ fm.listed other, fragment.path ≠ foreign.path)
    (kept
      : ∀ other, other ≠ topic → ∀ fragment ∈ fm.listed other, ∀ content,
          Holds fm.disk fragment.path fragment.file content
          → Holds next.disk fragment.path fragment.file content)
    : Refines next (archive.set topic buckets) where
  maxSize := same.maxSize.trans h.maxSize
  maxMessages := same.maxMessages.trans h.maxMessages
  ttl := same.ttl.trans h.ttl
  held := by
    intro other
    rw [listed]
    by_cases here : other = topic
    · subst here
      rwa [update_self, Archive.set_self]
    · rw [update_of_ne here, Archive.set_of_ne _ here]
      exact forall₂_frame (h.held other) same (kept other here)
  nodup := by
    rw [listed]
    exact (forall_update_iff fm.listed (fun _ list => (list.map Fragment.path).Nodup)).mpr
      ⟨nodup, fun other _ => h.nodup other⟩
  apart := by
    intro first second different fragment member foreign foreignMember
    rw [listed] at member foreignMember
    by_cases left : first = topic
    · subst left
      rw [update_self] at member
      rw [update_of_ne different.symm] at foreignMember
      exact apart second different.symm fragment member foreign foreignMember
    · rw [update_of_ne left] at member
      by_cases right : second = topic
      · subst right
        rw [update_self] at foreignMember
        exact (apart first left foreign foreignMember fragment member).symm
      · rw [update_of_ne right] at foreignMember
        exact h.apart first second different fragment member foreign foreignMember

end Refines

def FreshPath (fm : FragmentManager) (topic : GoString) : Prop :=
  ∀ entry ∈ fm.fragments.entries, ∀ fragment ∈ entry.2,
    fragment.path ≠ fm.getFragmentPath topic (fm.listed topic).length

instance (fm : FragmentManager) (topic : GoString) : Decidable (FreshPath fm topic) :=
  inferInstanceAs (Decidable (∀ entry ∈ fm.fragments.entries, ∀ fragment ∈ entry.2, _))

theorem FreshPath.ne (fresh : FreshPath fm topic) (member : fragment ∈ fm.listed other)
    : fragment.path ≠ fm.getFragmentPath topic (fm.listed topic).length := by
  unfold FragmentManager.listed at member
  cases found : fm.fragments.lookup other with
  | none => rw [found] at member; cases member
  | some fragments =>
      rw [found, Option.getD_some] at member
      exact fresh ⟨other, fragments⟩ (AList.mem_lookup_iff.mp found) fragment member

namespace Refines

variable (h : Refines fm archive)
include h

theorem createFragment (fresh : FreshPath fm topic) (now : Int)
    : Refines (fm.createFragment now topic).1 (archive.create now topic) := by
  let path := fm.getFragmentPath topic (fm.listed topic).length
  have same : SameSettings fm (fm.createFragment now topic).1 := ⟨rfl, rfl, rfl, rfl⟩
  have created : Holds (fm.disk.create path).1 path (fm.disk.create path).2 [] := Holds.create
  have kept (other : GoString) (fragment : Fragment) (member : fragment ∈ fm.listed other)
      (content : Bytes) (holds : Holds fm.disk fragment.path fragment.file content)
      : Holds (fm.createFragment now topic).1.disk fragment.path fragment.file content :=
    (holds.create_other (fresh.ne member)).write_other created (fresh.ne member) _
  have new
      : FragmentHolds (fm.createFragment now topic).1 topic (fm.createFragment now topic).2
          { createdAt := now, messages := [] } := {
    ofTopic := rfl
    path := rfl
    size := rfl
    messageCount := rfl
    createdAt := rfl
    valid := fun entry member => absurd member not_mem_nil
    content := by
      refine ⟨fragmentHeader topic (unix now), ?_, ?_⟩
      · simp [fragmentHeader]
        omega
      · have holds := created.write (fragmentHeader topic (unix now))
        rw [nil_append] at holds
        rwa [stream_nil, append_nil]
  }
  refine h.update same (fm.createFragment_listed now topic) ?_ ?_ ?_ (fun other _ => kept other)
  · exact rel_append (forall₂_frame (h.held topic) same (kept topic)) (.cons new .nil)
  · rw [map_append, nodup_append]
    refine ⟨h.nodup topic, nodup_singleton _, ?_⟩
    intro used member fragmentPath single
    obtain ⟨fragment, listedHere, rfl⟩ := mem_map.mp member
    rw [mem_singleton.mp single]
    exact fresh.ne listedHere
  · intro other different fragment member foreign foreignMember
    rcases mem_append.mp member with before | added
    · exact h.apart topic other different.symm fragment before foreign foreignMember
    · rw [mem_singleton.mp added]
      exact (fresh.ne foreignMember).symm

/-- Writing to a fragment of a topic puts the message into its bucket. -/
theorem pushAt {before after : List Fragment} {entry : MessageEntry}
    (split : fm.listed topic = before ++ fragment :: after) (valid : entry.Valid)
    (inserted
      : next.fragments
        = fm.fragments.insert topic
            (before
              ++ { fragment with
                    size := fragment.size + (8 + 8 + 4 + entry.payload.length)
                    messageCount := fragment.messageCount + 1
                    file := (fm.disk.write fragment.file entry.encode).2 } :: after))
    (disk : next.disk = (fm.disk.write fragment.file entry.encode).1) (same : SameSettings fm next)
    : Refines next (archive.pushAt topic before.length entry) := by
  have held := h.held topic
  rw [split] at held
  obtain ⟨front, bucket, back, buckets, length, early, own, late⟩ := forall₂_middle held
  have nodup := h.nodup topic
  rw [split, map_append, map_cons, nodup_append, nodup_cons] at nodup
  obtain ⟨-, ⟨behind, -⟩, ahead⟩ := nodup
  have member (listed : Fragment) (around : listed ∈ before ∨ listed ∈ after)
      : listed ∈ fm.listed topic ∧ listed.path ≠ fragment.path := by
    rw [split]
    rcases around with old | new
    · exact ⟨mem_append_left _ old,
        ahead _ (mem_map_of_mem old) _ mem_cons_self⟩
    · refine ⟨mem_append_right _ (mem_cons_of_mem _ new), fun clash => behind ?_⟩
      rw [← clash]
      exact mem_map_of_mem new
  have here : fragment ∈ fm.listed topic := by
    rw [split]
    exact mem_append_right _ mem_cons_self
  obtain ⟨header, headerSize, holds⟩ := own.content
  have kept (listed : Fragment) (different : listed.path ≠ fragment.path) (content : Bytes)
      (others : Holds fm.disk listed.path listed.file content)
      : Holds next.disk listed.path listed.file content := by
    rw [disk]
    exact others.write_other holds different _
  have pushed
      : archive.pushAt topic before.length entry
        = archive.set topic
            (front ++ { bucket with messages := bucket.messages ++ [entry] } :: back) := by
    rw [Archive.pushAt, buckets, ← length]
    simp [modify_eq_take_drop]
  rw [pushed]
  refine h.update same (FragmentManager.listed_of_insert inserted) ?_ ?_ ?_ ?_
  · refine rel_append (forall₂_frame early same ?_)
      (.cons ?_ (forall₂_frame late same ?_))
    · exact fun listed old => kept listed (member listed (Or.inl old)).2
    · exact {
        ofTopic := own.ofTopic
        path := by
          rw [same.getFragmentPath]
          exact own.path
        size := by simp [Bucket.size, own.size]
        messageCount := by simp [own.messageCount]
        createdAt := own.createdAt
        valid := forall_mem_append.mpr ⟨own.valid, forall_mem_singleton.mpr valid⟩
        content := by
          refine ⟨header, headerSize, ?_⟩
          rw [disk, stream_append, ← append_assoc]
          simpa using holds.write entry.encode
      }
    · exact fun listed new => kept listed (member listed (Or.inr new)).2
  · have paths := h.nodup topic
    rw [split] at paths
    simpa using paths
  · intro other different listed inList foreign foreignMember
    rcases mem_append.mp inList with old | new
    · exact h.apart topic other different.symm listed (member listed (Or.inl old)).1 foreign
        foreignMember
    · rcases mem_cons.mp new with rfl | new
      · exact h.apart topic other different.symm fragment here foreign foreignMember
      · exact h.apart topic other different.symm listed (member listed (Or.inr new)).1 foreign
          foreignMember
  · intro other different listed foreign
    exact kept listed (h.apart other topic different listed foreign fragment here)

theorem push {before : List Fragment} {entry : MessageEntry}
    (last : fm.listed topic = before ++ [fragment]) (valid : entry.Valid)
    (inserted
      : next.fragments
        = fm.fragments.insert topic
            (before
              ++ [{ fragment with
                    size := fragment.size + (8 + 8 + 4 + entry.payload.length)
                    messageCount := fragment.messageCount + 1
                    file := (fm.disk.write fragment.file entry.encode).2 }]))
    (disk : next.disk = (fm.disk.write fragment.file entry.encode).1) (same : SameSettings fm next)
    : Refines next (archive.push topic entry) := by
  have held := h.held topic
  rw [last] at held
  obtain ⟨front, bucket, buckets, early, -⟩ := forall₂_concat held
  have pushed : archive.push topic entry = archive.pushAt topic before.length entry := by
    rw [Archive.push, Archive.pushAt, buckets, early.length_eq, List.getLast?_concat]
    simp [modify_eq_take_drop]
  rw [pushed]
  exact h.pushAt last valid inserted disk same

theorem needsFragment_cases (topic : GoString) (now : Int)
    : (fm.needsFragment topic
        ∧ fm.getCurrentFragment now topic = fm.createFragment now topic
        ∧ archive.roll now topic = archive.create now topic)
      ∨ (fm.needsFragment topic = false
        ∧ (fm.getCurrentFragment now topic).1 = fm
        ∧ archive.roll now topic = archive
        ∧ ∃ before bucket, archive.buckets topic = before ++ [bucket]) := by
  have held := h.held topic
  unfold FragmentManager.needsFragment FragmentManager.getCurrentFragment Archive.roll
  cases last : (fm.listed topic).getLast? with
  | none =>
      rw [List.getLast?_eq_none_iff.mp last] at held
      rw [forall₂_nil_left_iff.mp held]
      exact Or.inl ⟨rfl, rfl, rfl⟩
  | some current =>
      obtain ⟨before, split⟩ := List.getLast?_eq_some_iff.mp last
      rw [split] at held
      obtain ⟨buckets, bucket, bucketSplit, -, late⟩ := forall₂_concat held
      have full
          : (current.size ≥ fm.maxSize ∨ current.messageCount ≥ fm.maxMessages)
            ↔ archive.full bucket := by
        rw [Archive.full, late.size, late.messageCount, h.maxSize, h.maxMessages]
      simp only [bucketSplit, List.getLast?_concat, ← Bool.decide_or, full]
      by_cases rotate : archive.full bucket
      · exact Or.inl (by simp [rotate])
      · exact Or.inr (by simp [rotate])

/-- A new fragment is opened exactly when the archive opens a bucket. -/
theorem getCurrentFragment (fresh : fm.needsFragment topic → FreshPath fm topic) (now : Int)
    : Refines (fm.getCurrentFragment now topic).1 (archive.roll now topic) := by
  rcases h.needsFragment_cases topic now with ⟨needs, current, rolls⟩ | ⟨_, current, stays, _⟩
  · rw [current, rolls]
    exact h.createFragment (fresh needs) now
  · rw [current, stays]
    exact h

theorem writeMessage (fresh : fm.needsFragment topic → FreshPath fm topic) (now : Int)
    (messageID : UInt64) {payload : Bytes} (small : payload.length < 2 ^ 32)
    : Refines (fm.writeMessage now topic messageID payload)
        (archive.write now topic (newEntry now messageID payload)) := by
  have rolled := h.getCurrentFragment fresh now
  obtain ⟨before, last⟩ := fm.getCurrentFragment_last now topic
  refine rolled.push last (newEntry_valid now messageID small) ?_ rfl ⟨rfl, rfl, rfl, rfl⟩
  simp only [FragmentManager.writeMessage, last, dropLast_concat]
  rfl

theorem closeTopic (topic : GoString)
    : Refines (fm.closeTopic topic) (archive.set topic []) := by
  have same : SameSettings fm (fm.closeTopic topic) := ⟨rfl, rfl, rfl, rfl⟩
  exact h.update same (FragmentManager.listed_of_erase rfl) .nil .nil
    (fun _ _ _ member => absurd member not_mem_nil) (fun _ _ _ _ _ holds => holds)

/-- The expiry pass over one topic keeps the buckets that are young enough. -/
theorem cleanupTopic (now : Int) (topic : GoString)
    : Refines (FragmentManager.cleanupTopic now fm topic (fm.listed topic))
        (archive.set topic (archive.young now topic)) := by
  have same : SameSettings fm (FragmentManager.cleanupTopic now fm topic (fm.listed topic)) :=
    ⟨rfl, rfl, rfl, rfl⟩
  have kept {fragment : Fragment} {content : Bytes}
      (holds : Holds fm.disk fragment.path fragment.file content)
      (different
        : ∀ gone ∈ (fm.listed topic).filter (fm.expired now), fragment.path ≠ gone.path)
      : Holds (FragmentManager.cleanupTopic now fm topic (fm.listed topic)).disk fragment.path
          fragment.file content :=
    holds.removeAll_other different
  have held
      : List.Forall₂ (FragmentHolds fm topic)
          ((fm.listed topic).filter (fun fragment => !fm.expired now fragment))
          (archive.young now topic) := by
    refine rel_filter ?_ (h.held topic)
    intro fragment bucket holds
    simp only [FragmentManager.expired, Archive.expired, holds.createdAt, h.ttl]
  refine h.update same (FragmentManager.cleanupTopic_listed ..) (forall₂_frame held same ?_) ?_
    ?_ ?_
  · intro fragment member content holds
    refine kept holds ?_
    intro gone goneMember samePath
    rw [mem_filter] at member goneMember
    have one := inj_on_of_nodup_map (h.nodup topic) member.1 goneMember.1 samePath
    subst one
    simp [goneMember.2] at member
  · exact (h.nodup topic).sublist (filter_sublist.map _)
  · intro other different fragment member
    exact h.apart topic other different.symm fragment (mem_of_mem_filter member)
  · intro other different fragment member content holds
    refine kept holds ?_
    intro gone goneMember
    exact h.apart other topic different fragment member gone (mem_of_mem_filter goneMember)

/-- The expiry pass over some topics, by induction on the topics. -/
theorem cleanupTopics (now : Int) {entries : List (Sigma fun _ : GoString => List Fragment)}
    (distinct : entries.NodupKeys) (current : ∀ entry ∈ entries, fm.listed entry.1 = entry.2)
    : Refines
        (entries.foldl (fun fm entry => FragmentManager.cleanupTopic now fm entry.1 entry.2) fm)
        (archive.expireTopics now entries.keys) := by
  induction entries generalizing fm archive with
  | nil => simpa [Archive.expireTopics] using h
  | cons entry rest ih =>
      rw [nodupKeys_cons] at distinct
      have first := h.cleanupTopic now entry.1
      rw [current entry mem_cons_self] at first
      have next := ih first distinct.2 ?_
      · have split
            : (archive.set entry.1 (archive.young now entry.1)).expireTopics now rest.keys
              = archive.expireTopics now (List.keys (entry :: rest)) :=
          archive.expireTopics_cons now distinct.1
        rw [split] at next
        exact next
      · intro later member
        have other : later.1 ≠ entry.1 := by
          intro same
          exact distinct.1 (same ▸ mem_keys_of_mem member)
        rw [FragmentManager.cleanupTopic_listed, update_of_ne other]
        exact current later (mem_cons_of_mem _ member)

theorem cleanupExpiredFragments (now : Int)
    : Refines (fm.cleanupExpiredFragments now) (archive.expire now) := by
  unfold FragmentManager.cleanupExpiredFragments Archive.expire
  rw [h.ttl]
  split
  · exact h
  · have all := h.cleanupTopics now fm.fragments.nodupKeys (fun entry member => by
      rw [FragmentManager.listed, AList.mem_lookup_iff.mpr member, Option.getD_some])
    have every
        : archive.young now
          = (archive.expireTopics now fm.fragments.entries.keys).buckets := by
      funext topic
      simp only [Archive.expireTopics]
      split
      · rfl
      · next absent =>
          -- an unknown topic has no fragment, hence no bucket
          have none : fm.listed topic = [] := by
            rw [FragmentManager.listed, AList.lookup_eq_none.mpr absent, Option.getD_none]
          have held := h.held topic
          rw [none] at held
          rw [Archive.young, forall₂_nil_left_iff.mp held, filter_nil]
    rw [every]
    exact all

/-- A read collects the window of the written messages between its offset and its end. -/
theorem readMessages_window (topic : GoString) (offset : UInt64) (limit : Int64)
    : fm.readMessages topic offset limit
      = window offset.toNat (offset + limit.toUInt64).toNat 0 (archive.written topic) := by
  have held
      : List.Forall₂ (FileHolds fm) (fm.listed topic)
          ((archive.buckets topic).map Bucket.messages) := by
    rw [forall₂_map_right_iff]
    refine (h.held topic).imp (fun fragment bucket holds => ?_)
    obtain ⟨header, size, content⟩ := holds.content
    exact ⟨header, by rw [size, holds.ofTopic], content.read, holds.valid⟩
  rw [FragmentManager.readMessages, readFragments_eq held, nil_append, UInt64.toNat_zero]
  rfl

theorem readMessages (topic : GoString) (few : (archive.written topic).length ≤ 2 ^ 63)
    (offset : UInt64) {limit : Int64} (nonneg : 0 ≤ limit)
    : fm.readMessages topic offset limit
      = ((archive.written topic).drop offset.toNat).take limit.toInt.toNat := by
  rw [h.readMessages_window]
  exact window_eq few offset nonneg

end Refines

end Goulette.Storage
