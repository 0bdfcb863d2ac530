import Goulette.Library.ByteFrames

/-! The digest of `crypto/md5`. -/

namespace Goulette.Go

open ByteFrames

def littleEndian (width value : Nat) : Bytes := (bigEndian width value).reverse

def wordAt (block : Bytes) (i : Nat) : UInt32 :=
  UInt32.ofNat (fromBigEndian (slice block (4 * i) 4).reverse)

namespace Md5

/-- How far each step rotates, four amounts for every round. -/
def shifts : List (List UInt32) :=
  [[7, 12, 17, 22], [5, 9, 14, 20], [4, 11, 16, 23], [6, 10, 15, 21]]

/-- The integral parts of `2 ^ 32 * |sin (i + 1)|`. -/
def constants : List UInt32 := [
  0xd76aa478, 0xe8c7b756, 0x242070db, 0xc1bdceee, 0xf57c0faf, 0x4787c62a, 0xa8304613, 0xfd469501,
  0x698098d8, 0x8b44f7af, 0xffff5bb1, 0x895cd7be, 0x6b901122, 0xfd987193, 0xa679438e, 0x49b40821,
  0xf61e2562, 0xc040b340, 0x265e5a51, 0xe9b6c7aa, 0xd62f105d, 0x02441453, 0xd8a1e681, 0xe7d3fbc8,
  0x21e1cde6, 0xc33707d6, 0xf4d50d87, 0x455a14ed, 0xa9e3e905, 0xfcefa3f8, 0x676f02d9, 0x8d2a4c8a,
  0xfffa3942, 0x8771f681, 0x6d9d6122, 0xfde5380c, 0xa4beea44, 0x4bdecfa9, 0xf6bb4b60, 0xbebfbc70,
  0x289b7ec6, 0xeaa127fa, 0xd4ef3085, 0x04881d05, 0xd9d4d039, 0xe6db99e5, 0x1fa27cf8, 0xc4ac5665,
  0xf4292244, 0x432aff97, 0xab9423a7, 0xfc93a039, 0x655b59c3, 0x8f0ccc92, 0xffeff47d, 0x85845dd1,
  0x6fa87e4f, 0xfe2ce6e0, 0xa3014314, 0x4e0811a1, 0xf7537e82, 0xbd3af235, 0x2ad7d2bb, 0xeb86d391]

structure State where
  a : UInt32
  b : UInt32
  c : UInt32
  d : UInt32

def initial : State := { a := 0x67452301, b := 0xefcdab89, c := 0x98badcfe, d := 0x10325476 }

def rotateLeft (word amount : UInt32) : UInt32 := (word <<< amount) ||| (word >>> (32 - amount))

/-- The mixing function of a step and the word that it takes. -/
def mix (state : State) (i : Nat) : UInt32 × Nat :=
  match i / 16 with
  | 0 => ((state.b &&& state.c) ||| (~~~ state.b &&& state.d), i)
  | 1 => ((state.d &&& state.b) ||| (~~~ state.d &&& state.c), 5 * i + 1)
  | 2 => (state.b ^^^ state.c ^^^ state.d, 3 * i + 5)
  | _ => (state.c ^^^ (state.b ||| ~~~ state.d), 7 * i)

def step (block : Bytes) (state : State) (i : Nat) : State :=
  let mixed := mix state i
  let sum := mixed.1 + state.a + constants.getD i 0 + wordAt block (mixed.2 % 16)
  let amount := (shifts.getD (i / 16) []).getD (i % 4) 0
  { a := state.d, b := state.b + rotateLeft sum amount, c := state.b, d := state.c }

def compress (state : State) (block : Bytes) : State :=
  let mixed := (List.range 64).foldl (step block) state
  { a := state.a + mixed.a, b := state.b + mixed.b, c := state.c + mixed.c, d := state.d + mixed.d }

/-- A one bit, zeros up to eight bytes before a block's end, and the length in bits. -/
def pad (data : Bytes) : Bytes :=
  data ++ 0x80 :: List.replicate ((119 - data.length % 64) % 64) 0
    ++ littleEndian 8 (8 * data.length)

end Md5

open Md5 in
def md5Sum (data : Bytes) : Bytes :=
  let padded := pad data
  let state := (List.range (padded.length / 64)).foldl
    (fun state k => compress state (slice padded (64 * k) 64)) initial
  [state.a, state.b, state.c, state.d].flatMap (fun word => littleEndian 4 word.toNat)

example
    : md5Sum [] = [0xd4, 0x1d, 0x8c, 0xd9, 0x8f, 0x00, 0xb2, 0x04, 0xe9, 0x80, 0x09, 0x98, 0xec,
        0xf8, 0x42, 0x7e] := by
  decide +kernel

end Goulette.Go
