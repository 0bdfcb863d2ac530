import Goulette.Go.Strings
import Goulette.Library.ByteFrames

/-! Reading exact amounts from a byte stream, as `io.ReadFull` and `binary.Read` do. -/

namespace Goulette.Go

open ByteFrames

inductive ReadError
  | eof
  | unexpectedEOF
deriving DecidableEq, Repr

def ReadError.text : ReadError → GoString
  | .eof => lit "EOF"
  | .unexpectedEOF => lit "unexpected EOF"

def readFull (count : Nat) (bytes : Bytes) : Except ReadError (Bytes × Bytes) :=
  if count ≤ bytes.length then .ok (bytes.take count, bytes.drop count)
  else if bytes = [] then .error .eof
  else .error .unexpectedEOF

theorem readFull_append {part : Bytes} {count : Nat} (size : part.length = count) (rest : Bytes)
    : readFull count (part ++ rest) = .ok (part, rest) := by
  subst size
  simp [readFull]

/-- A read that succeeds splits the stream at the amount asked for. -/
theorem readFull_ok {count : Nat} {bytes part rest : Bytes}
    (read : readFull count bytes = .ok (part, rest))
    : bytes = part ++ rest ∧ part.length = count := by
  unfold readFull at read
  split at read
  · next enough =>
      simp only [Except.ok.injEq, Prod.mk.injEq] at read
      rw [← read.1, ← read.2]
      exact ⟨(List.take_append_drop count bytes).symm, by rw [List.length_take]; omega⟩
  · split at read <;> cases read

/-- A read that comes up short in the middle of the amount. -/
theorem readFull_short {count : Nat} {bytes : Bytes} (short : bytes.length < count)
    (some : bytes ≠ [])
    : readFull count bytes = .error .unexpectedEOF := by
  have few : ¬count ≤ bytes.length := by omega
  simp [readFull, few, some]

end Goulette.Go
