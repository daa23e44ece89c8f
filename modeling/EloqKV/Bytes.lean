/-
  Byte strings, and the few functions of the C++ standard library the server calls on them.

  `std::string`, `std::string_view` and `butil::StringPiece` all become `Bytes`.
-/
import Mathlib

namespace EloqKV

abbrev Bytes := List UInt8

instance lawfulBEqBytes : LawfulBEq Bytes := inferInstance

/-- The bytes of an ASCII literal of the source. -/
def ascii (s : String) : Bytes :=
  s.toList.map fun c => UInt8.ofNat c.toNat

/-- `::tolower` in the C locale. -/
def tolower (b : UInt8) : UInt8 :=
  if 65 ≤ b ∧ b ≤ 90 then b + 32 else b

/-- `std::transform(s.begin(), s.end(), s.begin(), ::tolower)`. -/
def lower (s : Bytes) : Bytes :=
  s.map tolower

/-- The values of an unsigned 64-bit integer, as a modulus. -/
def u64 : Nat := 2 ^ 64

/-- `std::to_string` of an unsigned integer. -/
def stdToString (n : Nat) : Bytes :=
  (Nat.toDigits 10 n).map fun c => UInt8.ofNat c.toNat

/-- `isspace` in the C locale. -/
def isSpace (b : UInt8) : Bool :=
  b = 32 || (9 ≤ b && b ≤ 13)

def isDigit (b : UInt8) : Bool :=
  48 ≤ b && b ≤ 57

/-- The decimal digits read so far, as `strtoull` accumulates them. -/
def digitsVal (ds : Bytes) : Nat :=
  ds.foldl (fun n b => 10 * n + (b.toNat - 48)) 0

/-- `std::stoull`: blanks, a sign, then digits; the rest is ignored.  `none` is an exception. -/
def stoull (s : Bytes) : Option Nat :=
  let s := s.dropWhile isSpace
  let (neg, s) := match s with
    | 45 :: rest => (true, rest)
    | 43 :: rest => (false, rest)
    | _ => (false, s)
  let ds := s.takeWhile isDigit
  let v := digitsVal ds
  if ds = [] ∨ u64 ≤ v then none
  else some (if neg then (u64 - v) % u64 else v)

end EloqKV
