import Mathlib.Data.List.AList

/-! Go strings are byte sequences: nothing requires valid UTF-8. -/

namespace Goulette.Go

/-- A Go `string`: its bytes. The empty string is `[]`. -/
abbrev GoString := List UInt8

instance GoString.decidableMem (text : GoString) (texts : List GoString)
    : Decidable (text ∈ texts) :=
  inferInstance

def lit (text : String) : GoString := text.toUTF8.data.toList

/-- An `error` value is observed only through its text. -/
abbrev GoError := GoString

theorem exists_of_map_ok {E A B : Type} {result : Except E A} {f : A → B} {value : B}
    (mapped : result.map f = .ok value)
    : ∃ source, result = .ok source ∧ f source = value := by
  cases result with
  | error failure => cases mapped
  | ok source =>
      cases mapped
      exact ⟨source, rfl, rfl⟩

/-- A Go `map[K]V`: at most one entry a key. Iteration order carries no meaning. -/
abbrev GoMap (K V : Type) [DecidableEq K] := AList (fun _ : K => V)

end Goulette.Go
