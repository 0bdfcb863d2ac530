import Mathlib.Logic.Function.Basic
import Goulette.Library.ByteFrames

/-! Files behind paths. A handle refers to the file itself and stays valid when the path goes;
creating a path that exists empties the file for every handle.
-/

namespace FileStore

open ByteFrames Function

variable {P : Type}

/-- Links and contents; files beyond `fresh` were never created. -/
structure Disk (P : Type) where
  link : P → Option Nat
  data : Nat → Bytes
  fresh : Nat
  bounded : ∀ {path file}, link path = some file → file < fresh
  separate : ∀ {path other file}, link path = some file → link other = some file → path = other

structure Handle where
  file : Nat
  offset : Nat
deriving DecidableEq, Repr

/-- Put bytes at an offset, filling a gap behind the old end with zeros. -/
def splice (old : Bytes) (offset : Nat) (bytes : Bytes) : Bytes :=
  old.take offset ++ List.replicate (offset - old.length) 0 ++ bytes
    ++ old.drop (offset + bytes.length)

namespace Disk

def empty : Disk P where
  link := fun _ => none
  data := fun _ => []
  fresh := 0
  bounded := by simp
  separate := by simp

def target (disk : Disk P) (path : P) : Nat := (disk.link path).getD disk.fresh

def create [DecidableEq P] (disk : Disk P) (path : P) : Disk P × Handle :=
  ({
      link := update disk.link path (some (disk.target path))
      data := update disk.data (disk.target path) []
      fresh := max disk.fresh (disk.target path + 1)
      bounded := by
        intro other file linked
        by_cases same : other = path
        · subst same
          simp only [update_self, Option.some.injEq] at linked
          omega
        · rw [update_of_ne same] at linked
          have := disk.bounded linked
          omega
      separate := by
        have own {other : P} {file : Nat} (linked : disk.link other = some file)
            (shared : file = disk.target path) : other = path := by
          unfold target at shared
          cases found : disk.link path with
          | none =>
              have := disk.bounded linked
              rw [found, Option.getD_none] at shared
              omega
          | some existing =>
              rw [found, Option.getD_some] at shared
              subst shared
              exact disk.separate linked found
        intro first second file linked linkedToo
        by_cases left : first = path <;> by_cases right : second = path
        · rw [left, right]
        · subst left
          rw [update_self, Option.some.injEq] at linked
          rw [update_of_ne right] at linkedToo
          exact absurd (own linkedToo linked.symm) right
        · subst right
          rw [update_self, Option.some.injEq] at linkedToo
          rw [update_of_ne left] at linked
          exact absurd (own linked linkedToo.symm) left
        · rw [update_of_ne left] at linked
          rw [update_of_ne right] at linkedToo
          exact disk.separate linked linkedToo
    },
    { file := disk.target path, offset := 0 })

def write (disk : Disk P) (handle : Handle) (bytes : Bytes) : Disk P × Handle :=
  ({ disk with
      data := update disk.data handle.file
        (splice (disk.data handle.file) handle.offset bytes) },
    { handle with offset := handle.offset + bytes.length })

def read (disk : Disk P) (path : P) : Option Bytes := (disk.link path).map disk.data

def remove [DecidableEq P] (disk : Disk P) (path : P) : Disk P where
  link := update disk.link path none
  data := disk.data
  fresh := disk.fresh
  bounded := by
    intro other file linked
    by_cases same : other = path
    · subst same
      simp at linked
    · rw [update_of_ne same] at linked
      exact disk.bounded linked
  separate := by
    intro first second file linked linkedToo
    by_cases left : first = path
    · subst left
      simp at linked
    by_cases right : second = path
    · subst right
      simp at linkedToo
    rw [update_of_ne left] at linked
    rw [update_of_ne right] at linkedToo
    exact disk.separate linked linkedToo

/-- Link a path to the file of another path, which is gone then; the file it linked to before
stays with its handles.
-/
def rename [DecidableEq P] (disk : Disk P) (old new : P) : Disk P where
  link := update (update disk.link old none) new (disk.link old)
  data := disk.data
  fresh := disk.fresh
  bounded := by
    intro path file linked
    by_cases isNew : path = new
    · subst isNew
      rw [update_self] at linked
      exact disk.bounded linked
    · rw [update_of_ne isNew] at linked
      by_cases isOld : path = old
      · subst isOld
        simp at linked
      · rw [update_of_ne isOld] at linked
        exact disk.bounded linked
  separate := by
    -- a path other than the new one that is still linked is not the old one
    have other {path : P} {file : Nat} (isNew : path ≠ new)
        (linked
          : update (update disk.link old none) new (disk.link old) path
            = some file)
        : path ≠ old ∧ disk.link path = some file := by
      rw [update_of_ne isNew] at linked
      by_cases isOld : path = old
      · subst isOld
        simp at linked
      · rw [update_of_ne isOld] at linked
        exact ⟨isOld, linked⟩
    intro first second file linked linkedToo
    by_cases left : first = new <;> by_cases right : second = new
    · rw [left, right]
    · subst left
      rw [update_self] at linked
      obtain ⟨kept, linkedToo⟩ := other right linkedToo
      exact absurd (disk.separate linkedToo linked) kept
    · subst right
      rw [update_self] at linkedToo
      obtain ⟨kept, linked⟩ := other left linked
      exact absurd (disk.separate linked linkedToo) kept
    · exact disk.separate (other left linked).2 (other right linkedToo).2

def replace [DecidableEq P] (disk : Disk P) (temporary path : P) (bytes : Bytes) : Disk P :=
  let created := disk.create temporary
  (created.1.write created.2 bytes).1.rename temporary path

end Disk

theorem Disk.read_rename [DecidableEq P] (disk : Disk P) (old new : P)
    : (disk.rename old new).read new = disk.read old := by
  simp [read, rename]

/-- The handle refers to the path's file, whose content ends at the handle's offset. -/
structure Holds (disk : Disk P) (path : P) (handle : Handle) (content : Bytes) : Prop where
  linked : disk.link path = some handle.file
  data : disk.data handle.file = content
  offset : handle.offset = content.length

variable {disk : Disk P} {path other : P} {handle own : Handle} {content : Bytes}

theorem splice_end (old bytes : Bytes) : splice old old.length bytes = old ++ bytes := by
  simp [splice]

section

variable (h : Holds disk path handle content)
include h

theorem Holds.read : disk.read path = some content := by
  simp [Disk.read, h.linked, h.data]

/-- Handles of different paths refer to different files. -/
theorem Holds.file_ne {more : Bytes} (ho : Holds disk other own more) (different : path ≠ other)
    : handle.file ≠ own.file := by
  intro same
  have linked := ho.linked
  rw [← same] at linked
  exact different (disk.separate h.linked linked)

theorem Holds.write (bytes : Bytes)
    : Holds (disk.write handle bytes).1 path (disk.write handle bytes).2 (content ++ bytes) where
  linked := h.linked
  data := by simp [Disk.write, h.data, h.offset, splice_end]
  offset := by simp [Disk.write, h.offset]

theorem Holds.write_other {more : Bytes} (ho : Holds disk other own more) (different : path ≠ other)
    (bytes : Bytes)
    : Holds (disk.write own bytes).1 path handle content where
  linked := h.linked
  data := by simp [Disk.write, update_of_ne (h.file_ne ho different), h.data]
  offset := h.offset

end

variable [DecidableEq P]

theorem Holds.create : Holds (disk.create path).1 path (disk.create path).2 [] where
  linked := by simp [Disk.create]
  data := by simp [Disk.create]
  offset := rfl

section

variable (h : Holds disk path handle content)
include h

theorem Holds.create_other (different : path ≠ other)
    : Holds (disk.create other).1 path handle content := by
  have apart : handle.file ≠ disk.target other := by
    unfold Disk.target
    intro same
    cases found : disk.link other with
    | none =>
        rw [found, Option.getD_none] at same
        have := disk.bounded h.linked
        omega
    | some existing =>
        rw [found, Option.getD_some] at same
        have linked := h.linked
        rw [same] at linked
        exact different (disk.separate linked found)
  exact {
    linked := by simp [Disk.create, update_of_ne different, h.linked]
    data := by simp [Disk.create, update_of_ne apart, h.data]
    offset := h.offset
  }

/-- A handle goes on where it was when its path is created again, behind a gap of zeros. -/
theorem Holds.create_write (bytes : Bytes)
    : ((disk.create path).1.write handle bytes).1.read path
      = some (List.replicate content.length 0 ++ bytes) := by
  have target : disk.target path = handle.file := by rw [Disk.target, h.linked, Option.getD_some]
  simp [Disk.read, Disk.write, Disk.create, target, splice, h.offset]

theorem Holds.remove_other (different : path ≠ other)
    : Holds (disk.remove other) path handle content where
  linked := by simp [Disk.remove, update_of_ne different, h.linked]
  data := h.data
  offset := h.offset

/-- Removing other paths leaves a file alone, by induction on the removals. -/
theorem Holds.removeAll_other {X : Type} {pathOf : X → P} {removed : List X}
    (different : ∀ item ∈ removed, path ≠ pathOf item)
    : Holds (removed.foldl (fun disk item => disk.remove (pathOf item)) disk) path handle
        content := by
  induction removed generalizing disk with
  | nil => exact h
  | cons item rest ih =>
      exact ih (h.remove_other (different item List.mem_cons_self))
        (fun later member => different later (List.mem_cons_of_mem _ member))

end

structure AtHome (disk : Disk P) (path : P) (handle : Handle) : Prop where
  known : handle.file < disk.fresh
  only : ∀ other, disk.link other = some handle.file → other = path

theorem Disk.create_link (disk : Disk P) (path : P)
    : (disk.create path).1.link = update disk.link path (some (disk.create path).2.file) :=
  rfl

theorem AtHome.create (disk : Disk P) (path : P)
    : AtHome (disk.create path).1 path (disk.create path).2 where
  known := (disk.create path).1.bounded (by rw [Disk.create_link, update_self])
  only := fun _ linked =>
    (disk.create path).1.separate linked (by rw [Disk.create_link, update_self])

theorem AtHome.create_any (h : AtHome disk path handle) (created : P)
    : AtHome (disk.create created).1 path handle where
  known := Nat.lt_of_lt_of_le h.known (Nat.le_max_left _ _)
  only := by
    intro other linked
    rw [Disk.create_link] at linked
    by_cases same : other = created
    · subst same
      rw [update_self, Option.some.injEq] at linked
      have target : disk.target other = handle.file := linked
      cases found : disk.link other with
      | none =>
          rw [Disk.target, found, Option.getD_none] at target
          have known := h.known
          omega
      | some file =>
          rw [Disk.target, found, Option.getD_some] at target
          exact h.only other (target ▸ found)
    · rw [update_of_ne same] at linked
      exact h.only other linked

omit [DecidableEq P] in
theorem AtHome.write (h : AtHome disk path handle) (own : Handle) (bytes : Bytes)
    : AtHome (disk.write own bytes).1 path handle where
  known := h.known
  only := h.only

omit [DecidableEq P] in
theorem AtHome.advance (h : AtHome disk path handle) (offset : Nat)
    : AtHome disk path { handle with offset } where
  known := h.known
  only := h.only

theorem AtHome.remove (h : AtHome disk path handle) (removed : P)
    : AtHome (disk.remove removed) path handle where
  known := h.known
  only := by
    intro other linked
    by_cases same : other = removed
    · subst same
      simp [Disk.remove] at linked
    · exact h.only other (by simpa [Disk.remove, same] using linked)

theorem AtHome.removeAll {X : Type} {pathOf : X → P} (h : AtHome disk path handle)
    (removed : List X)
    : AtHome (removed.foldl (fun disk item => disk.remove (pathOf item)) disk) path handle := by
  induction removed generalizing disk with
  | nil => exact h
  | cons item rest ih => exact ih (h.remove (pathOf item))

/-- A handle that was open before a file is replaced does not see the new file. -/
theorem AtHome.replace {temporary target : P} (h : AtHome disk path handle)
    (free : disk.link temporary = none) (bytes : Bytes)
    : AtHome (disk.replace temporary target bytes) path handle where
  known := Nat.lt_of_lt_of_le h.known (Nat.le_max_left _ _)
  only := by
    intro other linked
    have new : disk.target temporary = disk.fresh := by rw [Disk.target, free, Option.getD_none]
    simp only [Disk.replace, Disk.rename, Disk.write, Disk.create_link] at linked
    by_cases isTarget : other = target
    · subst isTarget
      rw [update_self, update_self, Option.some.injEq] at linked
      have known := h.known
      have target : disk.target temporary = handle.file := linked
      omega
    · rw [update_of_ne isTarget] at linked
      by_cases isTemporary : other = temporary
      · subst isTemporary
        simp at linked
      · rw [update_of_ne isTemporary, update_of_ne isTemporary] at linked
        exact h.only other linked

theorem Disk.read_create_of_ne (disk : Disk P) (different : path ≠ other)
    : (disk.create other).1.read path = disk.read path := by
  unfold read
  rw [create_link, update_of_ne different]
  cases linked : disk.link path with
  | none => rfl
  | some file =>
      have holds : Holds disk path ⟨file, (disk.data file).length⟩ (disk.data file) :=
        { linked, data := rfl, offset := rfl }
      exact congrArg some (holds.create_other different).data

omit [DecidableEq P] in
/-- Writing through a handle changes what is read under its own path only. -/
theorem Disk.read_write_of_ne {own : Handle} (home : AtHome disk other own)
    (different : path ≠ other) (bytes : Bytes)
    : (disk.write own bytes).1.read path = disk.read path := by
  unfold read write
  cases linked : disk.link path with
  | none => rfl
  | some file =>
      have apart : file ≠ own.file := by
        rintro rfl
        exact different (home.only path linked)
      simp only [Option.map_some, update_of_ne apart]

theorem Disk.read_replace (disk : Disk P) (temporary path : P) (bytes : Bytes)
    : (disk.replace temporary path bytes).read path = some bytes := by
  have written := (@Holds.create P disk temporary _).write bytes
  have linked := written.linked
  have data := written.data
  simp only [replace, read, rename, update_self, linked, Option.map_some]
  rw [data, List.nil_append]

theorem Disk.read_replace_of_ne (disk : Disk P) {temporary target : P}
    (notTemporary : path ≠ temporary) (notTarget : path ≠ target) (bytes : Bytes)
    : (disk.replace temporary target bytes).read path = disk.read path := by
  have written := read_write_of_ne (AtHome.create disk temporary) notTemporary bytes
  rw [read_create_of_ne disk notTemporary] at written
  rw [← written]
  unfold replace read rename
  simp only [update_of_ne notTarget, update_of_ne notTemporary]

end FileStore
