import Goulette.Go.Strings
import Goulette.Library.Base64

/-! JSON as `encoding/json` reads and writes it. A text stands for its syntax tree, whose numbers
are the integers that the encoder prints.
-/

namespace Goulette.Go

open ByteFrames List

inductive Json
  | null
  | bool (value : Bool)
  | number (value : Int)
  | string (text : GoString)
  | array (elements : List Json)
  | object (members : List (GoString × Json))

/-- What is stored in an `interface{}`. A `float64` is given by its integer value. -/
inductive Any
  | nil
  | bool (value : Bool)
  | float64 (value : Int)
  | string (text : GoString)
  | slice (elements : List Any)
  | map (entries : List (GoString × Any))

inductive JsonError
  | unmarshalType
  | corruptInput
deriving DecidableEq, Repr

def ValidUTF8 (s : GoString) : Prop := ∃ chars : List Char, s = chars.flatMap String.utf8EncodeChar

theorem validUTF8_lit (text : String) : ValidUTF8 (lit text) := by
  refine ⟨text.toList, ?_⟩
  conv => lhs; rw [← String.ofList_toList (s := text)]
  rw [lit, String.toUTF8_eq_toByteArray, String.toByteArray_ofList, List.utf8Encode,
    toList_data_toByteArray]

def replacement : GoString := [0xef, 0xbf, 0xbd]

def firstChar (s : GoString) : Option Char := s.toByteArray.utf8DecodeChar? 0

def toValidUTF8 : GoString → GoString
  | [] => []
  | byte :: rest =>
      match firstChar (byte :: rest) with
      | some char =>
          String.utf8EncodeChar char ++ toValidUTF8 ((byte :: rest).drop char.utf8Size)
      | none => replacement ++ toValidUTF8 rest
termination_by s => s.length
decreasing_by
  · have := char.utf8Size_pos
    rw [length_drop, length_cons]
    omega
  · exact Nat.lt_succ_self _

theorem firstChar_append (char : Char) (rest : GoString)
    : firstChar (String.utf8EncodeChar char ++ rest) = some char := by
  rw [firstChar, toByteArray_append]
  exact ByteArray.utf8DecodeChar?_utf8EncodeChar_append

/-- A valid string is left alone, by induction on its characters. -/
theorem toValidUTF8_of_valid {s : GoString} (valid : ValidUTF8 s) : toValidUTF8 s = s := by
  obtain ⟨chars, rfl⟩ := valid
  induction chars with
  | nil => simp [toValidUTF8]
  | cons char rest ih =>
      rw [flatMap_cons]
      have size := String.length_utf8EncodeChar char
      obtain ⟨byte, more, split⟩ := exists_cons_of_length_pos
        (by rw [size]; exact char.utf8Size_pos : 0 < (String.utf8EncodeChar char).length)
      have first := firstChar_append char (rest.flatMap String.utf8EncodeChar)
      rw [split, cons_append] at first ⊢
      rw [toValidUTF8, first]
      simp only
      rw [← cons_append, ← split, drop_left' size, ih]

/-- The nearest value of 53 significant bits, ties to even. -/
def toFloat64 (value : Int) : Int :=
  let excess := Nat.log2 value.natAbs - 52
  let unit := 2 ^ excess
  let quotient := value.natAbs / unit
  let rest := value.natAbs % unit
  let rounded :=
    if 2 * rest > unit ∨ 2 * rest = unit ∧ quotient % 2 = 1 then quotient + 1 else quotient
  value.sign * (rounded * unit : Nat)

/-- Numbers of up to 53 bits are kept. -/
theorem toFloat64_of_small {value : Int} (small : value.natAbs < 2 ^ 53)
    : toFloat64 value = value := by
  have bits : Nat.log2 value.natAbs - 52 = 0 := by
    by_cases zero : value.natAbs = 0
    · rw [zero]
      rfl
    · have := (Nat.log2_lt zero).mpr small
      omega
  simp [toFloat64, bits, Nat.mod_one, Int.sign_mul_abs]

mutual

def Json.toAny : Json → Any
  | .null => .nil
  | .bool value => .bool value
  | .number value => .float64 (toFloat64 value)
  | .string text => .string text
  | .array elements => .slice (elementsToAny elements)
  | .object members => .map (membersToAny members)

def elementsToAny : List Json → List Any
  | [] => []
  | element :: rest => element.toAny :: elementsToAny rest

def membersToAny : List (GoString × Json) → List (GoString × Any)
  | [] => []
  | (key, value) :: rest => (key, value.toAny) :: membersToAny rest

end

theorem elementsToAny_eq_map (elements : List Json)
    : elementsToAny elements = elements.map Json.toAny := by
  induction elements with
  | nil => rfl
  | cons element rest ih => rw [elementsToAny, ih, map_cons]

mutual

def Any.toJson : Any → Json
  | .nil => .null
  | .bool value => .bool value
  | .float64 value => .number value
  | .string text => .string (toValidUTF8 text)
  | .slice elements => .array (elementsToJson elements)
  | .map entries => .object (entriesToJson entries)

def elementsToJson : List Any → List Json
  | [] => []
  | element :: rest => element.toJson :: elementsToJson rest

def entriesToJson : List (GoString × Any) → List (GoString × Json)
  | [] => []
  | (key, value) :: rest => (toValidUTF8 key, value.toJson) :: entriesToJson rest

end

def marshalString (s : GoString) : Json := .string (toValidUTF8 s)

def marshalBytes (bytes : Bytes) : Json := .string (Base64.encode bytes)

/-- An integer of a range. -/
def unmarshalInt (least bound : Int) (old : Int) : Json → Except JsonError Int
  | .number value => if least ≤ value ∧ value < bound then .ok value else .error .unmarshalType
  -- null leaves the old value
  | .null => .ok old
  | _ => .error .unmarshalType

def unmarshalUint64 (old : Nat) (json : Json) : Except JsonError Nat :=
  (unmarshalInt 0 (2 ^ 64) old json).map Int.toNat

def unmarshalInt64 (old : Int64) (json : Json) : Except JsonError Int64 :=
  (unmarshalInt (-2 ^ 63) (2 ^ 63) old.toInt json).map Int64.ofInt

def unmarshalBool (old : Bool) : Json → Except JsonError Bool
  | .bool value => .ok value
  | .null => .ok old
  | _ => .error .unmarshalType

def unmarshalString (old : GoString) : Json → Except JsonError GoString
  | .string text => .ok text
  | .null => .ok old
  | _ => .error .unmarshalType

variable {S : Type}

/-- The elements of an array, each decoded over what its slot of the old slice holds, and the slots
behind them.
-/
def unmarshalElements (element : S → Json → Except JsonError S) (zero : S)
    : List S → List Json → Except JsonError (List S × List S)
  | slots, [] => .ok ([], slots)
  | slots, json :: rest =>
      match element (slots.headD zero) json, unmarshalElements element zero slots.tail rest with
      | .ok value, .ok (values, behind) => .ok (value :: values, behind)
      | .error failure, _ => .error failure
      | _, .error failure => .error failure

/-- A slice over the slots of the old one, those behind its length included. -/
def unmarshalSlice (element : S → Json → Except JsonError S) (zero : S) (slots : List S)
    : Json → Except JsonError (List S × List S)
  -- an empty array or a null gives the old slots up
  | .array [] => .ok ([], [])
  | .array elements => unmarshalElements element zero slots elements
  | .null => .ok ([], [])
  | _ => .error .unmarshalType

/-- Byte slices are base64 text, or an array of numbers. -/
def unmarshalBytes (slots : Bytes) : Json → Except JsonError (Bytes × Bytes)
  | .string text =>
      match Base64.decode text with
      | some bytes => .ok (bytes, [])
      | none => .error .corruptInput
  | json =>
      unmarshalSlice
        (fun old element =>
          (unmarshalInt 0 (2 ^ 8) old.toNat element).map (fun value => UInt8.ofNat value.toNat))
        0 slots json

/-- A field of a struct and how a value is decoded into it. -/
structure StructField (S : Type) where
  name : GoString
  set : Json → S → Except JsonError S

/-- Capitals as small letters. Of the other characters only the long s and the Kelvin sign differ
from a letter of a field's name in case.
-/
def foldCase : GoString → GoString
  | [] => []
  | 0xc5 :: 0xbf :: rest => 115 :: foldCase rest
  | 0xe2 :: 0x84 :: 0xaa :: rest => 107 :: foldCase rest
  | byte :: rest => (if 65 ≤ byte ∧ byte ≤ 90 then byte + 32 else byte) :: foldCase rest

/-- The same field of a value that is decoded together with another one. -/
def StructField.fst {T : Type} (field : StructField S) : StructField (S × T) where
  name := field.name
  set json state := (field.set json state.1).map (fun next => (next, state.2))

def uint64Field (name : GoString) (get : S → Nat) (put : S → Nat → S) : StructField S where
  name
  set json state := (unmarshalUint64 (get state) json).map (put state)

def stringField (name : GoString) (get : S → GoString) (put : S → GoString → S)
    : StructField S where
  name
  set json state := (unmarshalString (get state) json).map (put state)

def boolField (name : GoString) (get : S → Bool) (put : S → Bool → S) : StructField S where
  name
  set json state := (unmarshalBool (get state) json).map (put state)

/-- The field a key stands for: the one of that name, or one that differs only in case. -/
def findField (fields : List (StructField S)) (key : GoString) : Option (StructField S) :=
  (fields.find? (fun field => field.name = key)).or
    (fields.find? (fun field => foldCase field.name = foldCase key))

/-- The members of an object, one by one. -/
def unmarshalMembers (fields : List (StructField S))
    : List (GoString × Json) → S → Except JsonError S
  | [], state => .ok state
  | (key, value) :: rest, state =>
      match findField fields key with
      -- unknown keys are skipped
      | none => unmarshalMembers fields rest state
      | some field =>
          match field.set value state with
          | .error failure => .error failure
          | .ok state => unmarshalMembers fields rest state

def unmarshalStruct (fields : List (StructField S)) (zero : S) : Json → Except JsonError S
  | .object members => unmarshalMembers fields members zero
  | .null => .ok zero
  | _ => .error .unmarshalType

theorem unmarshalMembers_cons {fields : List (StructField S)} {key : GoString}
    {field : StructField S} {value : Json} {state next : S}
    (found : findField fields key = some field) (set : field.set value state = .ok next)
    (rest : List (GoString × Json))
    : unmarshalMembers fields ((key, value) :: rest) state = unmarshalMembers fields rest next := by
  rw [unmarshalMembers, found]
  simp only [set]

theorem findField_mem {fields : List (StructField S)} {key : GoString} {field : StructField S}
    (found : findField fields key = some field)
    : field ∈ fields := by
  rcases Option.or_eq_some_iff.mp found with exact | ⟨_, folded⟩
  · exact mem_of_find?_eq_some exact
  · exact mem_of_find?_eq_some folded

/-- What every field of a struct keeps holds of a decoded value, by induction on the
members.
-/
theorem unmarshalStruct_invariant (holds : S → Prop) {fields : List (StructField S)} {zero : S}
    (start : holds zero)
    (keep
      : ∀ field ∈ fields, ∀ json state next,
          holds state → field.set json state = .ok next → holds next)
    {json : Json} {result : S} (decoded : unmarshalStruct fields zero json = .ok result)
    : holds result := by
  have members (entries : List (GoString × Json)) (state : S) (now : holds state)
      (read : unmarshalMembers fields entries state = .ok result)
      : holds result := by
    induction entries generalizing state with
    | nil =>
        cases read
        exact now
    | cons entry rest ih =>
        obtain ⟨key, value⟩ := entry
        rw [unmarshalMembers] at read
        cases found : findField fields key with
        | none =>
            rw [found] at read
            exact ih state now read
        | some field =>
            rw [found] at read
            simp only at read
            cases set : field.set value state with
            | error failure =>
                rw [set] at read
                cases read
            | ok next =>
                rw [set] at read
                exact ih next (keep field (findField_mem found) value state next now set) read
  unfold unmarshalStruct at decoded
  split at decoded
  · exact members _ zero start decoded
  · cases decoded
    exact start
  · cases decoded

/-- What every decoded element keeps holds of all of them and of the slots behind them, by
induction on the elements.
-/
theorem unmarshalSlice_forall {element : S → Json → Except JsonError S} {holds : S → Prop}
    {zero : S} (start : holds zero)
    (each : ∀ old json value, holds old → element old json = .ok value → holds value)
    {slots : List S} (before : ∀ value ∈ slots, holds value) {json : Json}
    {decoded : List S × List S} (read : unmarshalSlice element zero slots json = .ok decoded)
    : ∀ value ∈ decoded.1 ++ decoded.2, holds value := by
  have elements (jsons : List Json) (slots : List S) (before : ∀ value ∈ slots, holds value)
      (decoded : List S × List S)
      (read : unmarshalElements element zero slots jsons = .ok decoded)
      : ∀ value ∈ decoded.1 ++ decoded.2, holds value := by
    induction jsons generalizing slots decoded with
    | nil =>
        cases read
        exact before
    | cons json rest ih =>
        rw [unmarshalElements] at read
        split at read
        · next value values behind firstRead restRead =>
            cases read
            refine forall_mem_cons.mpr ⟨each _ json value ?_ firstRead, ?_⟩
            · cases slots with
              | nil => exact start
              | cons old _ => exact before old mem_cons_self
            · exact ih _ (fun old member => before old (mem_of_mem_tail member)) _ restRead
        · cases read
        · cases read
  unfold unmarshalSlice at read
  split at read
  · cases read
    exact fun _ member => absurd member not_mem_nil
  · exact elements _ _ before _ read
  · cases read
    exact fun _ member => absurd member not_mem_nil
  · cases read

theorem exists_of_mapError_ok {E F A B : Type} {result : Except E A} {f : A → B} {wrap : E → F}
    {value : B} (mapped : (result.map f).mapError wrap = .ok value)
    : ∃ source, result = .ok source ∧ f source = value := by
  cases result with
  | error failure => cases mapped
  | ok source =>
      cases mapped
      exact ⟨source, rfl, rfl⟩

theorem unmarshalUint64_number {value : Nat} (fits : value < 2 ^ 64) (old : Nat)
    : unmarshalUint64 old (.number value) = .ok value := by
  have range : (0 : Int) ≤ value ∧ (value : Int) < 2 ^ 64 :=
    ⟨Int.natCast_nonneg value, by exact_mod_cast fits⟩
  rw [unmarshalUint64, unmarshalInt, if_pos range, Except.map, Int.toNat_natCast]

theorem unmarshalInt64_number (value old : Int64)
    : unmarshalInt64 old (.number value.toInt) = .ok value := by
  have range : -2 ^ 63 ≤ value.toInt ∧ value.toInt < 2 ^ 63 :=
    ⟨value.le_toInt, value.toInt_lt⟩
  rw [unmarshalInt64, unmarshalInt, if_pos range, Except.map, Int64.ofInt_toInt]

theorem unmarshalString_marshalString {s : GoString} (valid : ValidUTF8 s) (old : GoString)
    : unmarshalString old (marshalString s) = .ok s := by
  rw [marshalString, toValidUTF8_of_valid valid, unmarshalString]

theorem unmarshalBytes_marshalBytes (slots bytes : Bytes)
    : unmarshalBytes slots (marshalBytes bytes) = .ok (bytes, []) := by
  rw [marshalBytes, unmarshalBytes, Base64.decode_encode]

theorem uint64Field_set (name : GoString) (get : S → Nat) (put : S → Nat → S) {value : Nat}
    (fits : value < 2 ^ 64) (state : S)
    : (uint64Field name get put).set (.number value) state = .ok (put state value) := by
  have unfolded (json : Json)
      : (uint64Field name get put).set json state
        = (unmarshalUint64 (get state) json).map (put state) := rfl
  rw [unfolded, unmarshalUint64_number fits, Except.map]

theorem stringField_set (name : GoString) (get : S → GoString) (put : S → GoString → S)
    {text : GoString} (valid : ValidUTF8 text) (state : S)
    : (stringField name get put).set (marshalString text) state = .ok (put state text) := by
  have unfolded (json : Json)
      : (stringField name get put).set json state
        = (unmarshalString (get state) json).map (put state) := rfl
  rw [unfolded, unmarshalString_marshalString valid, Except.map]

theorem StructField.fst_set {T : Type} {field : StructField S} {json : Json} {state next : S}
    (set : field.set json state = .ok next) (other : T)
    : field.fst.set json (state, other) = .ok (next, other) := by
  have unfolded
      : field.fst.set json (state, other)
        = (field.set json state).map (fun next => (next, other)) := rfl
  rw [unfolded, set, Except.map]

theorem boolField_set (name : GoString) (get : S → Bool) (put : S → Bool → S) (value : Bool)
    (state : S)
    : (boolField name get put).set (.bool value) state = .ok (put state value) := rfl

/-- Elements that can be decoded one by one can be decoded as a slice. -/
theorem unmarshalSlice_map {T : Type} {element : S → Json → Except JsonError S} {zero : S}
    {encode : T → Json} {received : T → S} {values : List T}
    (each : ∀ value ∈ values, element zero (encode value) = .ok (received value))
    : unmarshalSlice element zero [] (.array (values.map encode))
      = .ok (values.map received, []) := by
  have elements
      : unmarshalElements element zero [] (values.map encode) = .ok (values.map received, []) := by
    induction values with
    | nil => rfl
    | cons value rest ih =>
        rw [map_cons, unmarshalElements, headD_nil, each value mem_cons_self,
          tail_nil, ih (fun later member => each later (mem_cons_of_mem _ member))]
        rfl
  cases values with
  | nil => rfl
  | cons value rest => exact elements

end Goulette.Go
