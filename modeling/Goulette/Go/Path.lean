import Mathlib.Data.Nat.Digits.Defs
import Mathlib.Data.Nat.Digits.Lemmas
import Goulette.Go.Strings

/-! Slash-separated paths, as `filepath.Clean` and `filepath.Join` treat them on Unix, and
decimal numbers as `fmt` prints them.
-/

namespace Goulette.Go

open List

def separator : UInt8 := 47

def dot : GoString := [46]

def dotDot : GoString := [46, 46]

/-- Add a component to the components of a path: skip empty ones and dots, and let a double
dot take back the component before it.
-/
def pushPart (rooted : Bool) (parts : List GoString) (part : GoString) : List GoString :=
  if part = [] ∨ part = dot then parts
  else if part = dotDot then
    match parts.getLast? with
    -- a rooted path cannot go above its root
    | none => if rooted then [] else [dotDot]
    | some last => if last = dotDot then parts ++ [dotDot] else parts.dropLast
  else parts ++ [part]

def isRooted (path : GoString) : Bool := path.head? == some separator

def pathParts (path : GoString) : List GoString :=
  (path.splitOn separator).foldl (pushPart (isRooted path)) []

def renderPath (rooted : Bool) (parts : List GoString) : GoString :=
  if rooted then separator :: [separator].intercalate parts
  else if parts = [] then dot
  else [separator].intercalate parts

def clean (path : GoString) : GoString := renderPath (isRooted path) (pathParts path)

def join (elements : List GoString) : GoString :=
  -- leading empty elements are ignored
  match elements.dropWhile (· == []) with
  | [] => []
  | rest => clean ([separator].intercalate rest)

/-- `filepath.Dir`: what stands before the last separator, cleaned. -/
def dir (path : GoString) : GoString :=
  clean (path.reverse.dropWhile (fun byte => byte ≠ separator)).reverse

def decimal (n : Nat) : GoString :=
  if n = 0 then [48] else (Nat.digits 10 n).reverse.map (fun digit => UInt8.ofNat (48 + digit))

/-- A name that stands for one component of its own. -/
structure PlainName (name : GoString) : Prop where
  nonempty : name ≠ []
  notDot : name ≠ dot
  notDotDot : name ≠ dotDot
  unseparated : separator ∉ name

instance (name : GoString) : Decidable (PlainName name) :=
  decidable_of_iff (name ≠ [] ∧ name ≠ dot ∧ name ≠ dotDot ∧ separator ∉ name)
    ⟨fun ⟨a, b, c, d⟩ => ⟨a, b, c, d⟩, fun ⟨a, b, c, d⟩ => ⟨a, b, c, d⟩⟩

/-! Cleaned paths keep their components. -/

/-- Components that survive cleaning, together with all their prefixes. -/
def StableParts (rooted : Bool) (parts : List GoString) : Prop :=
  ∀ n, (parts.take n).foldl (pushPart rooted) [] = parts.take n

/-- Components that can be told apart in a rendered path. -/
def SeparableParts (parts : List GoString) : Prop :=
  ∀ part ∈ parts, part ≠ [] ∧ separator ∉ part

variable {rooted : Bool} {parts : List GoString} {part path : GoString} {name : GoString}

theorem StableParts.append (stable : StableParts rooted parts)
    (pushed : pushPart rooted parts part = parts ++ [part])
    : StableParts rooted (parts ++ [part]) := by
  intro n
  rcases Nat.lt_or_ge parts.length n with beyond | inside
  · have whole : (parts ++ [part]).take n = parts ++ [part] :=
      take_of_length_le (by simpa using beyond)
    have all := stable parts.length
    rw [take_length] at all
    rw [whole, foldl_append, all]
    exact pushed
  · rw [take_append_of_le_length inside]
    exact stable n

theorem StableParts.dropLast (stable : StableParts rooted parts)
    : StableParts rooted parts.dropLast := by
  intro n
  rw [dropLast_eq_take, take_take]
  exact stable _

theorem StableParts.push (stable : StableParts rooted parts) (part : GoString)
    : StableParts rooted (pushPart rooted parts part) := by
  by_cases skipped : part = [] ∨ part = dot
  · simpa only [pushPart, skipped, if_true] using stable
  by_cases up : part = dotDot
  · subst up
    cases last : parts.getLast? with
    | none =>
        have empty := List.getLast?_eq_none_iff.mp last
        subst empty
        cases rooted with
        | true =>
            have same : pushPart true [] dotDot = [] := rfl
            rwa [same]
        | false =>
            exact stable.append rfl
    | some name =>
        by_cases above : name = dotDot
        · have same : pushPart rooted parts dotDot = parts ++ [dotDot] := by
            simp only [pushPart, skipped, last, above, if_true, if_false]
          rw [same]
          exact stable.append same
        · have same : pushPart rooted parts dotDot = parts.dropLast := by
            simp only [pushPart, skipped, last, above, if_true, if_false]
          rw [same]
          exact stable.dropLast
  · have same : pushPart rooted parts part = parts ++ [part] := by
      simp only [pushPart, skipped, up, if_false]
    rw [same]
    exact stable.append same

theorem SeparableParts.push (separable : SeparableParts parts) (clear : separator ∉ part)
    : SeparableParts (pushPart rooted parts part) := by
  have dots : dotDot ≠ [] ∧ separator ∉ dotDot := by decide
  unfold pushPart
  split
  · exact separable
  · next kept =>
      split
      · split
        · split
          · exact forall_mem_nil _
          · exact forall_mem_singleton.mpr dots
        · split
          · exact forall_mem_append.mpr ⟨separable, forall_mem_singleton.mpr dots⟩
          · exact fun name member => separable name (dropLast_subset _ member)
      · exact forall_mem_append.mpr ⟨separable, forall_mem_singleton.mpr
          ⟨fun empty => kept (Or.inl empty), clear⟩⟩

/-- Splitting leaves no separator in a component. -/
theorem separator_notMem_of_mem_splitOn (path : GoString)
    : ∀ part ∈ path.splitOn separator, separator ∉ part := by
  induction path with
  | nil => simp [splitOn_nil]
  | cons byte rest ih =>
      rw [splitOn_cons_eq_if_modifyHead]
      split
      · simpa using ih
      · next other =>
          cases split : rest.splitOn separator with
          | nil => exact absurd split (splitOn_ne_nil _ _)
          | cons first more =>
              rw [split] at ih
              have different : separator ≠ byte := fun same => other (by simp [same])
              intro part member
              rcases mem_cons.mp member with rfl | later
              · exact not_mem_cons_of_ne_of_not_mem different (ih first mem_cons_self)
              · exact ih part (mem_cons_of_mem _ later)

/-- The components of a path are stable and separable, by induction on the pushes. -/
theorem pathParts_normal (path : GoString)
    : StableParts (isRooted path) (pathParts path) ∧ SeparableParts (pathParts path) := by
  have general (names : List GoString) (clear : ∀ name ∈ names, separator ∉ name)
      (parts : List GoString)
      (normal : StableParts (isRooted path) parts ∧ SeparableParts parts)
      : StableParts (isRooted path) (names.foldl (pushPart (isRooted path)) parts)
        ∧ SeparableParts (names.foldl (pushPart (isRooted path)) parts) := by
    induction names generalizing parts with
    | nil => exact normal
    | cons name more ih =>
        have now := clear name mem_cons_self
        exact ih (fun other member => clear other (mem_cons_of_mem _ member)) _
          ⟨normal.1.push name, normal.2.push now⟩
  refine general _ (separator_notMem_of_mem_splitOn path) [] ⟨fun n => ?_, ?_⟩
  · simp
  · exact fun part member => absurd member not_mem_nil

/-- Rendered components are found again. -/
theorem pathParts_renderPath (stable : StableParts rooted parts)
    (separable : SeparableParts parts)
    : isRooted (renderPath rooted parts) = rooted
      ∧ pathParts (renderPath rooted parts) = parts := by
  have all : parts.foldl (pushPart rooted) [] = parts := by
    have whole := stable parts.length
    rwa [take_length] at whole
  have found (some : parts ≠ [])
      : ([separator].intercalate parts).splitOn separator = parts :=
    splitOn_intercalate separator (fun part member => (separable part member).2) some
  cases rooted with
  | true =>
      refine ⟨by simp [isRooted, renderPath], ?_⟩
      have root : isRooted (renderPath true parts) = true := by simp [isRooted, renderPath]
      have split
          : (renderPath true parts).splitOn separator
            = [] :: ([separator].intercalate parts).splitOn separator := by
        simp [renderPath, splitOn_cons_eq_if_modifyHead]
      rw [pathParts, root, split, foldl_cons]
      by_cases empty : parts = []
      · subst empty
        rfl
      · rw [found empty]
        exact all
  | false =>
      cases parts with
      | nil => exact ⟨rfl, rfl⟩
      | cons first more =>
          have rendered
              : renderPath false (first :: more) = [separator].intercalate (first :: more) := by
            simp [renderPath]
          have relative : isRooted (renderPath false (first :: more)) = false := by
            obtain ⟨nonempty, clear⟩ := separable first mem_cons_self
            obtain ⟨byte, rest, rfl⟩ := exists_cons_of_ne_nil nonempty
            have other : byte ≠ separator := fun same => clear (by simp [same])
            rw [rendered]
            cases more <;> simpa [isRooted, List.intercalate] using other
          refine ⟨relative, ?_⟩
          rw [pathParts, relative, rendered, found (by simp)]
          exact all

/-- Cleaning changes neither the root nor the components. -/
theorem pathParts_clean (path : GoString)
    : isRooted (clean path) = isRooted path ∧ pathParts (clean path) = pathParts path :=
  pathParts_renderPath (pathParts_normal path).1 (pathParts_normal path).2

/-- Two paths are cleaned to the same path exactly if they have the same root and components. -/
theorem clean_eq_clean_iff (path other : GoString)
    : clean path = clean other ↔ isRooted path = isRooted other ∧ pathParts path = pathParts other
    := by
  constructor
  · intro same
    rw [← (pathParts_clean path).1, ← (pathParts_clean path).2, same, (pathParts_clean other).1,
      (pathParts_clean other).2]
    exact ⟨rfl, rfl⟩
  · rintro ⟨root, parts⟩
    rw [clean, clean, root, parts]

theorem PlainName.of_letter (first : name.head? = some 102) (clear : separator ∉ name)
    : PlainName name := by
  have differs {other : GoString} (head : other.head? ≠ some 102) : name ≠ other :=
    fun same => head (same ▸ first)
  exact ⟨differs (by decide), differs (by decide), differs (by decide), clear⟩

theorem PlainName.push (plain : PlainName name) (rooted : Bool) (parts : List GoString)
    : pushPart rooted parts name = parts ++ [name] := by
  have kept : ¬(name = [] ∨ name = dot) := not_or.mpr ⟨plain.nonempty, plain.notDot⟩
  simp only [pushPart, kept, plain.notDotDot, if_false]

/-- A name behind a separator adds one component. -/
theorem pathParts_append {directory : GoString} (some : directory ≠ []) (plain : PlainName name)
    : isRooted (directory ++ separator :: name) = isRooted directory
      ∧ pathParts (directory ++ separator :: name) = pathParts directory ++ [name] := by
  have single : name.splitOn separator = [name] := splitOn_eq_singleton plain.unseparated
  obtain ⟨byte, rest, rfl⟩ := exists_cons_of_ne_nil some
  refine ⟨rfl, ?_⟩
  rw [pathParts, splitOn_append_cons_self, single, foldl_append]
  exact plain.push _ _

section

variable (directory : GoString) (plain : PlainName name)
include plain

theorem join_parts
    : isRooted (join [directory, name]) = isRooted directory
      ∧ pathParts (join [directory, name]) = pathParts directory ++ [name] := by
  cases directory with
  | nil =>
      have joined : join [[], name] = clean name := by
        simp [join, plain.nonempty, List.intercalate]
      have single : name.splitOn separator = [name] := splitOn_eq_singleton plain.unseparated
      have relative : isRooted name = false := by
        obtain ⟨byte, rest, rfl⟩ := exists_cons_of_ne_nil plain.nonempty
        have other : byte ≠ separator := fun same => plain.unseparated (by simp [same])
        simpa [isRooted] using other
      rw [joined, (pathParts_clean name).1, (pathParts_clean name).2, relative, pathParts, single]
      exact ⟨rfl, plain.push _ []⟩
  | cons byte rest =>
      have joined : join [byte :: rest, name] = clean (byte :: rest ++ separator :: name) := by
        simp [join, List.intercalate]
      rw [joined, (pathParts_clean _).1, (pathParts_clean _).2]
      exact pathParts_append (cons_ne_nil _ _) plain

theorem pathParts_join
    : pathParts (join [directory, name]) = pathParts directory ++ [name] :=
  (join_parts directory plain).2

theorem join_eq_renderPath
    : join [directory, name] = renderPath (isRooted directory) (pathParts directory ++ [name]) := by
  have cleaned : ∃ path, join [directory, name] = clean path := by
    cases directory with
    | nil => exact ⟨name, by simp [join, plain.nonempty, List.intercalate]⟩
    | cons byte rest =>
        exact ⟨byte :: rest ++ separator :: name, by simp [join, List.intercalate]⟩
  obtain ⟨path, same⟩ := cleaned
  obtain ⟨root, parts⟩ := join_parts directory plain
  rw [same, (pathParts_clean path).1] at root
  rw [same, (pathParts_clean path).2] at parts
  rw [same, clean, root, parts]

end

theorem clean_ne_nil (path : GoString) : clean path ≠ [] := by
  unfold clean renderPath
  split
  · exact cons_ne_nil _ _
  · split
    · decide
    · next some =>
        obtain ⟨first, more, split⟩ := exists_cons_of_ne_nil some
        obtain ⟨nonempty, _⟩ := (pathParts_normal path).2 first (split ▸ mem_cons_self)
        obtain ⟨byte, rest, rfl⟩ := exists_cons_of_ne_nil nonempty
        rw [split]
        cases more with
        | nil => simp
        | cons second later => simp [intercalate_cons_cons]

/-- It does not matter whether a name is joined to two elements at once or one after the other. -/
theorem join_join (base element : GoString) (plain : PlainName name)
    : join [join [base, element], name] = join [base, element, name] := by
  -- both sides clean a path with the name behind a path that is not empty
  have nested (path : GoString) (some : path ≠ [])
      : join [clean path, name] = clean (path ++ separator :: name) := by
    have relation := pathParts_append some plain
    rw [join_eq_renderPath _ plain, (pathParts_clean path).1, (pathParts_clean path).2, clean,
      relation.1, relation.2]
  cases base with
  | nil =>
      cases element with
      | nil => simp [join, plain.nonempty]
      | cons byte rest =>
          have inner : join [[], byte :: rest] = clean (byte :: rest) := by
            simp [join, List.intercalate]
          rw [inner, nested _ (cons_ne_nil _ _)]
          simp [join, List.intercalate]
  | cons byte rest =>
      have inner : join [byte :: rest, element] = clean (byte :: rest ++ separator :: element) := by
        simp [join, List.intercalate]
      rw [inner, nested _ (by simp)]
      simp [join, List.intercalate]

theorem intercalate_concat {parts : List GoString} (some : parts ≠ []) (name : GoString)
    : [separator].intercalate (parts ++ [name])
      = [separator].intercalate parts ++ separator :: name := by
  induction parts with
  | nil => exact absurd rfl some
  | cons first rest ih =>
      cases rest with
      | nil => simp [intercalate_cons_cons]
      | cons second more =>
          rw [cons_append, cons_append, intercalate_cons_cons,
            intercalate_cons_cons, ← cons_append, ih (cons_ne_nil _ _)]
          simp

/-- A rendered path ends in its last component, behind a separator if there is anything before
it.
-/
theorem renderPath_concat (rooted : Bool) (parts : List GoString) (name : GoString)
    : ∃ front,
        renderPath rooted (parts ++ [name]) = front ++ name
        ∧ (front = [] ∧ rooted = false ∧ parts = []
          ∨ front = [separator] ∧ rooted = true ∧ parts = []
          ∨ front = renderPath rooted parts ++ [separator] ∧ parts ≠ []) := by
  by_cases none : parts = []
  · subst none
    cases rooted with
    | false => exact ⟨[], by simp [renderPath], Or.inl ⟨rfl, rfl, rfl⟩⟩
    | true => exact ⟨[separator], by simp [renderPath], Or.inr (Or.inl ⟨rfl, rfl, rfl⟩)⟩
  · refine ⟨_, ?_, Or.inr (Or.inr ⟨rfl, none⟩)⟩
    have more : parts ++ [name] ≠ [] := by simp
    cases rooted with
    | false => simp [renderPath, none, intercalate_concat none]
    | true => simp [renderPath, intercalate_concat none]

theorem dir_join (directory : GoString) (plain : PlainName name)
    : dir (join [directory, name]) = clean directory := by
  obtain ⟨front, rendered, cases⟩ :=
    renderPath_concat (isRooted directory) (pathParts directory) name
  have dropped
      : ((front ++ name).reverse.dropWhile (fun byte => byte ≠ separator)).reverse = front := by
    have passes : ∀ byte ∈ name.reverse, decide (byte ≠ separator) = true := by
      intro byte member
      refine decide_eq_true (fun same => plain.unseparated ?_)
      rw [← same]
      exact mem_reverse.mp member
    rw [reverse_append, dropWhile_append_of_pos passes]
    rcases cases with ⟨rfl, _⟩ | ⟨rfl, _⟩ | ⟨rfl, _⟩
    · rfl
    · rfl
    · simp
  rw [join_eq_renderPath directory plain, rendered, dir, dropped, clean_eq_clean_iff]
  rcases cases with ⟨rfl, relative, none⟩ | ⟨rfl, rooted, none⟩ | ⟨rfl, _⟩
  · rw [relative, none]
    exact ⟨rfl, rfl⟩
  · rw [rooted, none]
    exact ⟨rfl, rfl⟩
  · -- a separator at the end adds an empty component, which is skipped
    have again := pathParts_clean directory
    obtain ⟨byte, rest, split⟩ := exists_cons_of_ne_nil (clean_ne_nil directory)
    rw [← clean, ← again.1, ← again.2, split]
    refine ⟨rfl, ?_⟩
    rw [pathParts, splitOn_append_cons_self, splitOn_nil, foldl_append]
    rfl

/-- Printed numbers can be read back. -/
theorem decimal_injective {m n : Nat} (same : decimal m = decimal n) : m = n := by
  have value (k : Nat)
      : Nat.ofDigits 10 ((decimal k).reverse.map (fun byte => byte.toNat - 48)) = k := by
    unfold decimal
    split
    · next zero => simp [zero]
    · have digits
          : ((Nat.digits 10 k).map (fun digit => UInt8.ofNat (48 + digit))).map
              (fun byte => byte.toNat - 48) = Nat.digits 10 k := by
        rw [map_map]
        refine (map_congr_left (fun digit member => ?_)).trans (map_id _)
        have small := Nat.digits_lt_base (by decide) member
        simp only [Function.comp_apply, UInt8.toNat_ofNat', id_eq]
        omega
      rw [← map_reverse, reverse_reverse, digits, Nat.ofDigits_digits]
  rw [← value m, same, value n]

/-- Printed numbers consist of digits. -/
theorem digit_of_mem_decimal {n : Nat} {byte : UInt8} (member : byte ∈ decimal n)
    : 48 ≤ byte.toNat ∧ byte.toNat ≤ 57 := by
  unfold decimal at member
  split at member
  · rw [mem_singleton.mp member]
    decide
  · obtain ⟨digit, digitMember, rfl⟩ := mem_map.mp member
    have small : digit < 10 := Nat.digits_lt_base (by decide) (mem_reverse.mp digitMember)
    rw [UInt8.toNat_ofNat']
    omega

theorem separator_notMem_decimal (n : Nat) : separator ∉ decimal n := by
  intro member
  exact absurd (digit_of_mem_decimal member).1 (by decide)

end Goulette.Go
