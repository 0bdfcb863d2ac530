import Goulette.Storage.FragmentRuns

/-! Fragments that other brokers send. Topics stay apart and inside the base directory exactly as
far as their cleaned directories do. Directories can be made, and no file stands in their place.
-/

namespace Goulette.Storage

open Goulette.Go ByteFrames FileStore Runs List Function

namespace FragmentManager

/-- `GetFragmentPath` joins the three elements at once; `CreateFragment` joins the name to the
topic's directory.
-/
def joinedPath (fm : FragmentManager) (topic : GoString) (id : Nat) : GoString :=
  join [fm.baseDir, topic, fragmentName id]

def temporaryName (random : Nat) : GoString := lit "fragment_tmp_" ++ decimal random

def temporaryPath (targetPath : GoString) (random : Nat) : GoString :=
  join [dir targetPath, temporaryName random]

/-- `os.CreateTemp` takes a random number whose name is free; none if it finds no free one. The
temporary path is gone when the file is renamed.
-/
def replicateFragmentToFile (fm : FragmentManager) (data : Bytes) (targetPath : GoString)
    (random : Nat)
    : Option FragmentManager :=
  match fm.disk.link (temporaryPath targetPath random) with
  | some _ => none
  | none =>
      some { fm with disk := fm.disk.replace (temporaryPath targetPath random) targetPath data }

def readFragmentFile (fm : FragmentManager) (topic : GoString) (id : Nat) : Option Bytes :=
  fm.disk.read (join [fm.baseDir, topic, fragmentName id])

/-- Is a fragment selected: its number modulo the count is the index. -/
def selected (idx n : UInt64) (fragment : Fragment) : Bool :=
  fragment.id % n.toNat = idx.toNat

def selectFragmentsForReplication (fm : FragmentManager) (topic : GoString) (idx n : UInt64)
    : Option (List Fragment) :=
  -- a count of zero ends the process at the first fragment
  if n = 0 ∧ fm.listed topic ≠ [] then none
  else some ((fm.listed topic).filter (selected idx n))

/-- The check is not implemented in the source. -/
def isFragmentFullyConsumed (_fm : FragmentManager) (_topic : GoString) (_id : Nat) : Bool := false

theorem joinedPath_eq (fm : FragmentManager) (topic : GoString) (id : Nat)
    : fm.joinedPath topic id = fm.getFragmentPath topic id :=
  (join_join fm.baseDir topic (fragmentName_plain id)).symm

/-- A replacement either happens or changes nothing. -/
theorem replicateFragmentToFile_cases {fm next : FragmentManager} {data : Bytes}
    {targetPath : GoString} {random : Nat}
    (done : fm.replicateFragmentToFile data targetPath random = some next)
    : fm.disk.link (temporaryPath targetPath random) = none
      ∧ next
        = { fm with
            disk := fm.disk.replace (temporaryPath targetPath random) targetPath data } := by
  unfold replicateFragmentToFile at done
  cases taken : fm.disk.link (temporaryPath targetPath random) with
  | some file =>
      rw [taken] at done
      cases done
  | none =>
      rw [taken] at done
      exact ⟨rfl, (Option.some.inj done).symm⟩

end FragmentManager

inductive StoreCall
  | fragments (call : FragmentCall)
  | replicateFragmentToFile (topic : GoString) (id : Nat) (data : Bytes) (random : Nat)

/-- A call that fails changes nothing. -/
def FragmentManager.storeStep (fm : FragmentManager) : Int × StoreCall → FragmentManager
  | (now, .fragments call) => fm.step (now, call)
  | (_, .replicateFragmentToFile topic id data random) =>
      (fm.replicateFragmentToFile data (fm.joinedPath topic id) random).getD fm

def FragmentManager.writtenPaths (fm : FragmentManager) : Int × StoreCall → List GoString
  | (now, .fragments (.createFragment topic)) => [(fm.createFragment now topic).2.path]
  | (now, .fragments (.writeMessage topic _ _)) => [(fm.getCurrentFragment now topic).2.path]
  | (_, .fragments .cleanupExpiredFragments) => []
  | (_, .fragments (.closeTopic _)) => []
  | (_, .replicateFragmentToFile topic id _ random) =>
      [temporaryPath (fm.joinedPath topic id) random, fm.joinedPath topic id]

inductive TopicCall
  | writeMessage (messageID : UInt64) (payload : Bytes)
  | closeTopic
  | replicateFragmentToFile (id : Nat) (data : Bytes) (random : Nat)

def TopicCall.on (topic : GoString) : Int × TopicCall → Int × StoreCall
  | (now, .writeMessage messageID payload) =>
      (now, .fragments (.writeMessage topic messageID payload))
  | (now, .closeTopic) => (now, .fragments (.closeTopic topic))
  | (now, .replicateFragmentToFile id data random) =>
      (now, .replicateFragmentToFile topic id data random)

def storeAfter (disk : Disk GoString) (baseDir : GoString) (maxSize maxMessages ttl : Int)
    (history : List (Int × StoreCall))
    : FragmentManager :=
  history.foldl FragmentManager.storeStep
    (.newFragmentManager disk baseDir maxSize maxMessages ttl)

/-- A listed fragment has its path, and no other path leads to its file. -/
structure Housed (fm : FragmentManager) (topic : GoString) (fragment : Fragment) : Prop where
  path : fragment.path = fm.getFragmentPath topic fragment.id
  home : AtHome fm.disk fragment.path fragment.file

def AllHoused (fm : FragmentManager) : Prop :=
  ∀ topic, ∀ fragment ∈ fm.listed topic, Housed fm topic fragment

variable {fm next : FragmentManager} {topic other : GoString} {fragment : Fragment}

theorem Housed.frame (h : Housed fm topic fragment) (baseDir : next.baseDir = fm.baseDir)
    (kept
      : ∀ {path handle}, AtHome fm.disk path handle → AtHome next.disk path handle)
    : Housed next topic fragment where
  path := by rw [h.path, FragmentManager.getFragmentPath, FragmentManager.getFragmentPath, baseDir]
  home := kept h.home

/-- A change of one topic's list keeps all others housed. -/
theorem AllHoused.update (h : AllHoused fm) (baseDir : next.baseDir = fm.baseDir)
    (kept : ∀ {path handle}, AtHome fm.disk path handle → AtHome next.disk path handle)
    {fragments : List Fragment} (listed : next.listed = update fm.listed topic fragments)
    (housed : ∀ fragment ∈ fragments, Housed next topic fragment)
    : AllHoused next := by
  rw [AllHoused, listed]
  exact (forall_update_iff fm.listed (fun other list =>
      ∀ fragment ∈ list, Housed next other fragment)).mpr
    ⟨housed, fun other _ fragment member => (h other fragment member).frame baseDir kept⟩

theorem AllHoused.createFragment (h : AllHoused fm) (now : Int) (topic : GoString)
    : AllHoused (fm.createFragment now topic).1 := by
  have kept {path : GoString} {handle : Handle} (home : AtHome fm.disk path handle)
      : AtHome (fm.createFragment now topic).1.disk path handle :=
    (home.create_any _).write _ _
  refine h.update rfl kept (fm.createFragment_listed now topic)
    (forall_mem_append.mpr ⟨fun fragment old => ?_, forall_mem_singleton.mpr ?_⟩)
  · exact (h topic fragment old).frame rfl kept
  · exact { path := rfl, home := ((AtHome.create _ _).write _ _).advance _ }

theorem AllHoused.getCurrentFragment (h : AllHoused fm) (now : Int) (topic : GoString)
    : AllHoused (fm.getCurrentFragment now topic).1 := by
  unfold FragmentManager.getCurrentFragment
  cases (fm.listed topic).getLast? with
  | none => exact h.createFragment now topic
  | some current =>
      simp only
      split
      · exact h.createFragment now topic
      · exact h

theorem getCurrentFragment_baseDir (fm : FragmentManager) (now : Int) (topic : GoString)
    : (fm.getCurrentFragment now topic).1.baseDir = fm.baseDir := by
  unfold FragmentManager.getCurrentFragment
  cases (fm.listed topic).getLast? with
  | none => rfl
  | some current =>
      simp only
      split <;> rfl

section

variable (h : AllHoused fm)
include h

theorem AllHoused.current (now : Int) (topic : GoString)
    : Housed (fm.getCurrentFragment now topic).1 topic (fm.getCurrentFragment now topic).2 := by
  obtain ⟨before, last⟩ := fm.getCurrentFragment_last now topic
  exact h.getCurrentFragment now topic topic _ (by rw [last]; simp)

theorem AllHoused.writeMessage (now : Int) (topic : GoString) (messageID : UInt64) (payload : Bytes)
    : AllHoused (fm.writeMessage now topic messageID payload) := by
  have current := h.current now topic
  have rolled := h.getCurrentFragment now topic
  have kept {path : GoString} {handle : Handle}
      (home : AtHome (fm.getCurrentFragment now topic).1.disk path handle)
      : AtHome (fm.writeMessage now topic messageID payload).disk path handle :=
    home.write _ _
  refine rolled.update rfl kept (FragmentManager.listed_of_insert rfl)
    (forall_mem_append.mpr ⟨fun fragment old => ?_, forall_mem_singleton.mpr ?_⟩)
  · exact (rolled topic fragment (dropLast_subset _ old)).frame rfl kept
  · exact { path := current.path, home := (kept current.home).advance _ }

theorem AllHoused.closeTopic (topic : GoString)
    : AllHoused (fm.closeTopic topic) := by
  refine h.update rfl (fun home => home) (FragmentManager.listed_of_erase rfl) ?_
  exact fun fragment member => absurd member not_mem_nil

theorem AllHoused.replicateFragmentToFile {data : Bytes} {targetPath : GoString} {random : Nat}
    (done : fm.replicateFragmentToFile data targetPath random = some next)
    : AllHoused next := by
  obtain ⟨free, rfl⟩ := FragmentManager.replicateFragmentToFile_cases done
  intro topic fragment member
  exact (h topic fragment member).frame rfl (fun home => home.replace free data)

/-- Removing files houses what is left as before. -/
theorem AllHoused.cleanupTopic (now : Int) {fragments : List Fragment}
    (housed : ∀ fragment ∈ fragments, Housed fm topic fragment)
    : AllHoused (FragmentManager.cleanupTopic now fm topic fragments) := by
  have kept {path : GoString} {handle : Handle} (home : AtHome fm.disk path handle)
      : AtHome (FragmentManager.cleanupTopic now fm topic fragments).disk path handle :=
    home.removeAll _
  refine h.update rfl kept (FragmentManager.cleanupTopic_listed now fm topic fragments) ?_
  intro fragment member
  exact (housed fragment (mem_of_mem_filter member)).frame rfl kept

theorem AllHoused.cleanupExpiredFragments (now : Int)
    : AllHoused (fm.cleanupExpiredFragments now) := by
  unfold FragmentManager.cleanupExpiredFragments
  split
  · exact h
  · -- by induction on the topics; their lists were read before the first file went
    have general (entries : List (Sigma fun _ : GoString => List Fragment)) (fm : FragmentManager)
        (h : AllHoused fm)
        (housed : ∀ entry ∈ entries, ∀ fragment ∈ entry.2, Housed fm entry.1 fragment)
        : AllHoused (entries.foldl
            (fun fm entry => FragmentManager.cleanupTopic now fm entry.1 entry.2) fm) := by
      induction entries generalizing fm with
      | nil => exact h
      | cons entry rest ih =>
          refine ih _ (h.cleanupTopic now (housed entry mem_cons_self)) ?_
          intro later member fragment inLater
          exact (housed later (mem_cons_of_mem _ member) fragment inLater).frame rfl
            (fun home => home.removeAll _)
    refine general _ fm h (fun entry member fragment inEntry => h entry.1 fragment ?_)
    rwa [FragmentManager.listed, AList.mem_lookup_iff.mpr member, Option.getD_some]

theorem AllHoused.storeStep (call : Int × StoreCall)
    : AllHoused (fm.storeStep call) := by
  obtain ⟨now, call⟩ := call
  cases call with
  | fragments call =>
      cases call with
      | createFragment topic => exact h.createFragment now topic
      | writeMessage topic messageID payload => exact h.writeMessage now topic messageID payload
      | cleanupExpiredFragments => exact h.cleanupExpiredFragments now
      | closeTopic topic => exact h.closeTopic topic
  | replicateFragmentToFile topic id data random =>
      simp only [FragmentManager.storeStep]
      cases done : fm.replicateFragmentToFile data (fm.joinedPath topic id) random with
      | none => exact h
      | some next => exact h.replicateFragmentToFile done

end

theorem cleanupTopic_foldl_baseDir (now : Int)
    (entries : List (Sigma fun _ : GoString => List Fragment)) (fm : FragmentManager)
    : (entries.foldl (fun fm entry => FragmentManager.cleanupTopic now fm entry.1 entry.2)
        fm).baseDir = fm.baseDir := by
  induction entries generalizing fm with
  | nil => rfl
  | cons entry rest ih => exact ih _

theorem storeStep_baseDir (fm : FragmentManager) (call : Int × StoreCall)
    : (fm.storeStep call).baseDir = fm.baseDir := by
  obtain ⟨now, call⟩ := call
  cases call with
  | fragments call =>
      cases call with
      | createFragment | closeTopic => rfl
      | writeMessage topic messageID payload => exact getCurrentFragment_baseDir fm now topic
      | cleanupExpiredFragments =>
          simp only [FragmentManager.storeStep, FragmentManager.step,
            FragmentManager.cleanupExpiredFragments]
          split
          · rfl
          · exact cleanupTopic_foldl_baseDir now _ fm
  | replicateFragmentToFile topic id data random =>
      simp only [FragmentManager.storeStep]
      cases done : fm.replicateFragmentToFile data (fm.joinedPath topic id) random with
      | none => rfl
      | some next =>
          obtain ⟨_, rfl⟩ := FragmentManager.replicateFragmentToFile_cases done
          rfl

theorem allHoused_storeAfter (disk : Disk GoString) (baseDir : GoString)
    (maxSize maxMessages ttl : Int) (history : List (Int × StoreCall))
    : AllHoused (storeAfter disk baseDir maxSize maxMessages ttl history)
      ∧ (storeAfter disk baseDir maxSize maxMessages ttl history).baseDir = baseDir := by
  refine List.foldlRecOn (motive := fun fm => AllHoused fm ∧ fm.baseDir = baseDir) history _
    ⟨fun topic fragment member => absurd member not_mem_nil, rfl⟩ ?_
  intro fm housed call _
  exact ⟨housed.1.storeStep call, (storeStep_baseDir fm call).trans housed.2⟩

/-! Paths inside a directory. -/

def Within (directory path : GoString) : Prop :=
  isRooted path = isRooted directory
  ∧ pathParts directory <+: pathParts path
  ∧ dotDot ∉ (pathParts path).drop (pathParts directory).length

def Inside (directory path : GoString) : Prop :=
  Within directory path ∧ pathParts path ≠ pathParts directory

instance (directory path : GoString) : Decidable (Within directory path) :=
  inferInstanceAs (Decidable (_ ∧ _ ∧ _))

instance (directory path : GoString) : Decidable (Inside directory path) :=
  inferInstanceAs (Decidable (_ ∧ _))

theorem within_clean (directory path : GoString)
    : Within directory (clean path) ↔ Within directory path := by
  rw [Within, Within, (pathParts_clean path).1, (pathParts_clean path).2]

theorem inside_join_iff (directory path : GoString) {name : GoString} (plain : PlainName name)
    : Inside directory (join [path, name]) ↔ Within directory path := by
  obtain ⟨root, parts⟩ := join_parts path plain
  rw [Inside, Within, Within, root, parts, prefix_concat_iff]
  constructor
  · rintro ⟨⟨rooted, whole | part, clear⟩, different⟩
    · exact absurd whole.symm different
    · rw [drop_append_of_le_length part.length_le, mem_append, not_or] at clear
      exact ⟨rooted, part, clear.1⟩
  · rintro ⟨rooted, part, clear⟩
    refine ⟨⟨rooted, Or.inr part, ?_⟩, ?_⟩
    · rw [drop_append_of_le_length part.length_le, mem_append, not_or]
      refine ⟨clear, fun member => ?_⟩
      exact plain.notDotDot (mem_singleton.mp member).symm
    · intro same
      have longer := part.length_le
      rw [← same] at longer
      simp at longer

theorem temporaryName_plain (random : Nat) : PlainName (FragmentManager.temporaryName random) := by
  have word : (lit "fragment_tmp_").head? = some 102 := by decide
  have clear : separator ∉ lit "fragment_tmp_" := by decide
  refine PlainName.of_letter ?_ ?_
  · rw [FragmentManager.temporaryName, List.head?_append, word, Option.some_or]
  · simp only [FragmentManager.temporaryName, mem_append, not_or]
    exact ⟨clear, separator_notMem_decimal random⟩

/-- A temporary file is no fragment file: a letter stands where the number would begin. -/
theorem temporaryName_ne (random id : Nat)
    : FragmentManager.temporaryName random ≠ fragmentName id := by
  have words : lit "fragment_tmp_" = lit "fragment_" ++ lit "tmp_" := by decide
  have letter : (lit "tmp_").head? = some 116 := by decide
  intro same
  rw [FragmentManager.temporaryName, fragmentName, words, append_assoc,
    append_assoc, append_cancel_left_eq] at same
  have heads := congrArg List.head? same
  rw [List.head?_append, letter, Option.some_or, List.head?_append] at heads
  cases digits : decimal id with
  | nil =>
      rw [digits] at heads
      exact absurd heads (by decide)
  | cons first rest =>
      rw [digits, List.head?_cons, Option.some_or, Option.some.injEq] at heads
      have digit := (digit_of_mem_decimal (digits ▸ mem_cons_self : first ∈ decimal id)).2
      rw [← heads] at digit
      exact absurd digit (by decide)

/-- Temporary files stand in the topic's directory. -/
theorem temporaryPath_joinedPath (fm : FragmentManager) (topic : GoString) (id random : Nat)
    : FragmentManager.temporaryPath (fm.joinedPath topic id) random
      = join [clean (join [fm.baseDir, topic]), FragmentManager.temporaryName random] := by
  rw [FragmentManager.temporaryPath, fm.joinedPath_eq, FragmentManager.getFragmentPath,
    dir_join _ (fragmentName_plain id)]

/-- Files of fragments in different directories are different. -/
theorem getFragmentPath_ne {fm : FragmentManager} {topic other : GoString}
    (apart : clean (join [fm.baseDir, topic]) ≠ clean (join [fm.baseDir, other])) (id number : Nat)
    : fm.getFragmentPath topic id ≠ fm.getFragmentPath other number := by
  intro same
  obtain ⟨root, parts⟩ := join_parts (join [fm.baseDir, topic]) (fragmentName_plain id)
  obtain ⟨rootToo, partsToo⟩ := join_parts (join [fm.baseDir, other]) (fragmentName_plain number)
  simp only [FragmentManager.getFragmentPath] at same
  rw [same, rootToo] at root
  rw [same, partsToo] at parts
  refine apart ((clean_eq_clean_iff _ _).mpr ⟨root.symm, ?_⟩)
  exact (append_inj_left' parts rfl).symm

theorem temporaryPath_ne (fm : FragmentManager) (topic other : GoString) (id random number : Nat)
    : FragmentManager.temporaryPath (fm.joinedPath topic id) random
      ≠ fm.getFragmentPath other number := by
  intro same
  have parts := congrArg pathParts same
  rw [temporaryPath_joinedPath, FragmentManager.getFragmentPath,
    pathParts_join _ (temporaryName_plain random), pathParts_join _ (fragmentName_plain number)]
    at parts
  exact temporaryName_ne random number (List.cons.inj (append_inj_right' parts rfl)).1

/-- A topic has the same list, and its files read the same. -/
structure Undisturbed (topic : GoString) (fm next : FragmentManager) : Prop where
  listed : next.listed topic = fm.listed topic
  files
    : ∀ fragment ∈ fm.listed topic, next.disk.read fragment.path = fm.disk.read fragment.path

theorem Undisturbed.refl (topic : GoString) (fm : FragmentManager) : Undisturbed topic fm fm where
  listed := rfl
  files := fun _ _ => rfl

theorem Undisturbed.trans {last : FragmentManager} (first : Undisturbed topic fm next)
    (second : Undisturbed topic next last)
    : Undisturbed topic fm last where
  listed := second.listed.trans first.listed
  files := fun fragment member =>
    (second.files fragment (first.listed ▸ member)).trans (first.files fragment member)

theorem Undisturbed.readMessages (h : Undisturbed topic fm next) (offset : UInt64) (limit : Int64)
    : next.readMessages topic offset limit = fm.readMessages topic offset limit := by
  rw [FragmentManager.readMessages, FragmentManager.readMessages, h.listed]
  exact readFragments_congr h.files _ _ _ _

section Apart

variable (h : AllHoused fm)
  (apart : clean (join [fm.baseDir, topic]) ≠ clean (join [fm.baseDir, other]))

include apart in
theorem topic_ne : other ≠ topic := by
  rintro rfl
  exact apart rfl

include h apart

theorem path_ne_of_apart (member : fragment ∈ fm.listed other) (id : Nat)
    : fragment.path ≠ fm.getFragmentPath topic id := by
  rw [(h other fragment member).path]
  exact (getFragmentPath_ne apart id fragment.id).symm

theorem undisturbed_createFragment (now : Int)
    : Undisturbed other fm (fm.createFragment now topic).1 where
  listed := by rw [fm.createFragment_listed, update_of_ne (topic_ne apart)]
  files := by
    intro fragment member
    have different := path_ne_of_apart h apart member (fm.listed topic).length
    exact (Disk.read_write_of_ne (AtHome.create _ _) different _).trans
      (Disk.read_create_of_ne _ different)

theorem undisturbed_getCurrentFragment (now : Int)
    : Undisturbed other fm (fm.getCurrentFragment now topic).1 := by
  unfold FragmentManager.getCurrentFragment
  cases (fm.listed topic).getLast? with
  | none => exact undisturbed_createFragment h apart now
  | some current =>
      simp only
      split
      · exact undisturbed_createFragment h apart now
      · exact .refl other fm

theorem undisturbed_writeMessage (now : Int) (messageID : UInt64) (payload : Bytes)
    : Undisturbed other fm (fm.writeMessage now topic messageID payload) := by
  have current := h.current now topic
  have baseDir := getCurrentFragment_baseDir fm now topic
  refine (undisturbed_getCurrentFragment h apart now).trans { listed := ?_, files := ?_ }
  · have listed
        : (fm.writeMessage now topic messageID payload).listed
          = update (fm.getCurrentFragment now topic).1.listed topic _ :=
      FragmentManager.listed_of_insert rfl
    rw [listed, update_of_ne (topic_ne apart)]
  · intro fragment member
    have different := path_ne_of_apart (h.getCurrentFragment now topic) (by rwa [baseDir]) member
      (fm.getCurrentFragment now topic).2.id
    rw [← current.path] at different
    exact Disk.read_write_of_ne current.home different _

theorem undisturbed_replicateFragmentToFile {id random : Nat} {data : Bytes}
    (done : fm.replicateFragmentToFile data (fm.joinedPath topic id) random = some next)
    : Undisturbed other fm next := by
  obtain ⟨_, rfl⟩ := FragmentManager.replicateFragmentToFile_cases done
  refine { listed := rfl, files := fun fragment member => ?_ }
  refine Disk.read_replace_of_ne _ ?_ ?_ data
  · rw [(h other fragment member).path]
    exact (temporaryPath_ne fm topic other id random fragment.id).symm
  · rw [fm.joinedPath_eq]
    exact path_ne_of_apart h apart member id

theorem undisturbed_topicCall (call : Int × TopicCall)
    : Undisturbed other fm (fm.storeStep (TopicCall.on topic call)) := by
  obtain ⟨now, call⟩ := call
  cases call with
  | writeMessage messageID payload => exact undisturbed_writeMessage h apart now messageID payload
  | closeTopic =>
      have listed
          : (fm.closeTopic topic).listed = update fm.listed topic [] :=
        FragmentManager.listed_of_erase rfl
      exact {
        listed := by
          change (fm.closeTopic topic).listed other = fm.listed other
          rw [listed, update_of_ne (topic_ne apart)]
        files := fun _ _ => rfl
      }
  | replicateFragmentToFile id data random =>
      simp only [TopicCall.on, FragmentManager.storeStep]
      cases done : fm.replicateFragmentToFile data (fm.joinedPath topic id) random with
      | none => exact .refl other fm
      | some next => exact undisturbed_replicateFragmentToFile h apart done

/-- No sequence of calls on a topic disturbs a topic in another directory, by induction on the
calls.
-/
theorem undisturbed_topicCalls (calls : List (Int × TopicCall))
    : Undisturbed other fm
        ((calls.map (TopicCall.on topic)).foldl FragmentManager.storeStep fm) := by
  induction calls generalizing fm with
  | nil => exact .refl other fm
  | cons call rest ih =>
      have first := undisturbed_topicCall h apart call
      have baseDir := storeStep_baseDir fm (TopicCall.on topic call)
      exact first.trans (ih (h.storeStep _) (by rwa [baseDir]))

end Apart

/-- The calls on a topic write within the base directory exactly as far as its own directory is
within it.
-/
theorem inside_writtenPaths (h : AllHoused fm)
    (within : Within fm.baseDir (join [fm.baseDir, topic])) (call : Int × TopicCall)
    : ∀ path ∈ fm.writtenPaths (TopicCall.on topic call), Inside fm.baseDir path := by
  have inside (id : Nat) : Inside fm.baseDir (fm.getFragmentPath topic id) :=
    (inside_join_iff _ _ (fragmentName_plain id)).mpr within
  obtain ⟨now, call⟩ := call
  cases call with
  | writeMessage messageID payload =>
      intro path member
      rw [mem_singleton.mp member, (h.current now topic).path,
        FragmentManager.getFragmentPath, getCurrentFragment_baseDir]
      exact inside _
  | closeTopic => exact fun path member => absurd member not_mem_nil
  | replicateFragmentToFile id data random =>
      intro path member
      rcases mem_cons.mp member with rfl | target
      · rw [temporaryPath_joinedPath, inside_join_iff _ _ (temporaryName_plain random),
          within_clean]
        exact within
      · rw [mem_singleton.mp target, fm.joinedPath_eq]
        exact inside id

/-- Whatever happened before, calls on one topic change no read of the other and write inside the
base directory only.
-/
def Isolated (baseDir topic other : GoString) : Prop :=
  ∀ (disk : Disk GoString) (maxSize maxMessages ttl : Int) (history : List (Int × StoreCall))
    (calls : List (Int × TopicCall)),
    (∀ offset limit,
      ((calls.map (TopicCall.on topic)).foldl FragmentManager.storeStep
        (storeAfter disk baseDir maxSize maxMessages ttl history)).readMessages other offset limit
      = (storeAfter disk baseDir maxSize maxMessages ttl history).readMessages other offset limit)
    ∧ AllSteps FragmentManager.storeStep
        (fun fm call => ∀ path ∈ fm.writtenPaths call, Inside baseDir path)
        (storeAfter disk baseDir maxSize maxMessages ttl history)
        (calls.map (TopicCall.on topic))

theorem isolated_of_apart {baseDir topic other : GoString}
    (apart : clean (join [baseDir, topic]) ≠ clean (join [baseDir, other]))
    (within : Within baseDir (join [baseDir, topic]))
    : Isolated baseDir topic other := by
  intro disk maxSize maxMessages ttl history calls
  obtain ⟨housed, base⟩ := allHoused_storeAfter disk baseDir maxSize maxMessages ttl history
  constructor
  · exact (undisturbed_topicCalls housed (by rwa [base]) calls).readMessages
  · have keep (fm : FragmentManager) (call : Int × StoreCall)
        (own : ∃ call', call = TopicCall.on topic call')
        (invariant : AllHoused fm ∧ fm.baseDir = baseDir)
        : (∀ path ∈ fm.writtenPaths call, Inside baseDir path)
          ∧ AllHoused (fm.storeStep call) ∧ (fm.storeStep call).baseDir = baseDir := by
      obtain ⟨own, rfl⟩ := own
      obtain ⟨houses, rfl⟩ := invariant
      exact ⟨inside_writtenPaths houses within own, houses.storeStep _, storeStep_baseDir fm _⟩
    refine AllSteps.of_invariant keep ⟨housed, base⟩ (fun call member => ?_)
    obtain ⟨own, _, same⟩ := mem_map.mp member
    exact ⟨own, same.symm⟩

/-- The first write to a topic makes its first file, and no other. -/
theorem writeMessage_first (first : fm.listed topic = []) (now : Int) (messageID : UInt64)
    (payload : Bytes)
    : (∀ fragment ∈ (fm.writeMessage now topic messageID payload).listed topic,
        fragment.path = fm.getFragmentPath topic 0)
      ∧ ∀ path, path ≠ fm.getFragmentPath topic 0
          → (fm.writeMessage now topic messageID payload).disk.link path = fm.disk.link path := by
  have created : fm.getCurrentFragment now topic = fm.createFragment now topic := by
    rw [FragmentManager.getCurrentFragment, first]
    rfl
  have numbered : (fm.createFragment now topic).2.path = fm.getFragmentPath topic 0 := by
    change fm.getFragmentPath topic (fm.listed topic).length = _
    rw [first]
    rfl
  have listed
      : (fm.writeMessage now topic messageID payload).listed
        = update (fm.getCurrentFragment now topic).1.listed topic _ :=
    FragmentManager.listed_of_insert rfl
  constructor
  · intro fragment member
    rw [listed, update_self, created, fm.createFragment_listed, update_self,
      first] at member
    rcases mem_append.mp member with none | own
    · cases none
    · rw [mem_singleton.mp own]
      exact numbered
  · intro path different
    have link
        : (fm.writeMessage now topic messageID payload).disk.link
          = (fm.getCurrentFragment now topic).1.disk.link := rfl
    rw [link, created]
    change update fm.disk.link (fm.getFragmentPath topic (fm.listed topic).length) _ path
      = _
    rw [first, length_nil, update_of_ne different]

/-- A received fragment of a topic takes the place of another topic's file in the same
directory.
-/
theorem not_isolated_of_same {baseDir topic other : GoString}
    (same : clean (join [baseDir, topic]) = clean (join [baseDir, other]))
    : ¬Isolated baseDir topic other := by
  intro isolated
  let new := FragmentManager.newFragmentManager .empty baseDir 0 0 0
  let store := new.writeMessage 0 other 0 []
  have nothing : new.listed other = [] := rfl
  obtain ⟨paths, links⟩ := writeMessage_first nothing 0 0 []
  have refines := (Refines.new .empty baseDir 0 0 0).writeMessage
    (fun _ => (fun entry member => absurd member not_mem_nil : FreshPath new other)) 0 0
    (show ([] : Bytes).length < 2 ^ 32 by decide)
  have before : store.readMessages other 0 1 = [newEntry 0 0 []] := by
    have written
        : ((Archive.empty 0 0 0).write 0 other (newEntry 0 0 [])).written other
          = [newEntry 0 0 []] := by
      rw [Archive.written_write]
      simp [Archive.written, Archive.empty]
    rw [refines.readMessages other (by rw [written]; decide) 0 (by decide), written]
    rfl
  have target : new.joinedPath topic 0 = new.getFragmentPath other 0 := by
    obtain ⟨root, parts⟩ := (clean_eq_clean_iff _ _).mp same
    rw [new.joinedPath_eq, FragmentManager.getFragmentPath, FragmentManager.getFragmentPath,
      join_eq_renderPath _ (fragmentName_plain 0), join_eq_renderPath _ (fragmentName_plain 0)]
    exact congrArg₂ _ root (congrArg₂ _ parts rfl)
  have free
      : store.disk.link (FragmentManager.temporaryPath (new.joinedPath topic 0) 0) = none :=
    links _ (temporaryPath_ne new topic other 0 0 0)
  have unchanged := (isolated .empty 0 0 0 [(0, .fragments (.writeMessage other 0 []))]
    [(0, .replicateFragmentToFile 0 [] 0)]).1 0 1
  change (store.storeStep (0, .replicateFragmentToFile topic 0 [] 0)).readMessages other 0 1
    = store.readMessages other 0 1 at unchanged
  have replaced
      : store.storeStep (0, .replicateFragmentToFile topic 0 [] 0)
        = { store with
            disk := store.disk.replace
              (FragmentManager.temporaryPath (new.joinedPath topic 0) 0)
              (new.joinedPath topic 0) [] } := by
    change (store.replicateFragmentToFile [] (new.joinedPath topic 0) 0).getD _ = _
    rw [FragmentManager.replicateFragmentToFile, free]
    rfl
  rw [replaced, before] at unchanged
  have lost := (readFragments_eq_nil_iff
    { store with
      disk := store.disk.replace
        (FragmentManager.temporaryPath (new.joinedPath topic 0) 0) (new.joinedPath topic 0) [] }
    (show (0 : UInt64) < 0 + (1 : Int64).toUInt64 by decide)
    (store.listed other)).mpr (fun fragment member => ?_)
  · exact absurd (lost.symm.trans unchanged) (cons_ne_nil _ _).symm
  · rw [FragmentManager.holdsNoMessage, paths fragment member, target, Disk.read_replace]
    rfl

/-- Topics are isolated exactly if their cleaned directories differ and the writing topic's is
within the base directory.
-/
theorem isolated_iff (baseDir topic other : GoString)
    : Isolated baseDir topic other
      ↔ clean (join [baseDir, topic]) ≠ clean (join [baseDir, other])
        ∧ Within baseDir (join [baseDir, topic]) := by
  constructor
  · intro isolated
    refine ⟨fun same => not_isolated_of_same same isolated, ?_⟩
    have inside := (isolated .empty 0 0 0 [] [(0, .writeMessage 0 [])]).2.1
      (join [join [baseDir, topic], fragmentName 0]) mem_cons_self
    exact (inside_join_iff _ _ (fragmentName_plain 0)).mp inside
  · exact fun ⟨apart, within⟩ => isolated_of_apart apart within

/-- A name with a dot in front leads to the same directory, and one with double dots leads out of
the base directory.
-/
theorem not_isolated_dots
    : ¬Isolated (lit "data/fragments") (lit "a") (lit "./a")
      ∧ ¬Isolated (lit "data/fragments") (lit "../../etc") (lit "a") := by
  refine ⟨not_isolated_of_same (by decide +kernel), fun isolated => ?_⟩
  have inside := (isolated .empty 0 0 0 [] [(0, .writeMessage 0 [])]).2.1
    (join [join [lit "data/fragments", lit "../../etc"], fragmentName 0]) mem_cons_self
  exact absurd inside (by decide +kernel)

end Goulette.Storage
