/-
  Numbers in texts and machine integers where their width matters
  (`include/redis_string_num.h`, `int64_t` counts that pass through an `int`).

  `string2ll` accepts exactly one text for a number: no blanks, no plus sign, no leading zeros.
-/
import EloqKV.Decimal

open List

namespace EloqKV

/-! ## Machine integers -/

variable (n : Int)

/-- `std::abs` of an `int64_t`; the smallest value has no absolute value and stays. -/
def abs64 : Int := if n = -2 ^ 63 then n else n.natAbs

/-- Conversion of an `int64_t` to `int`. -/
def toInt32 : Int := (n + 2 ^ 31) % 2 ^ 32 - 2 ^ 31

lemma toInt32_le {n : Int} (hn : 0 ≤ n) : toInt32 n ≤ n := by
  unfold toInt32
  omega

/-- The values of an `int64_t`. -/
def IsInt64 : Prop := -2 ^ 63 ≤ n ∧ n < 2 ^ 63

instance decidableIsInt64 (n : Int) : Decidable (IsInt64 n) :=
  inferInstanceAs (Decidable (_ ∧ _))

/-- The values of an `int`. -/
def IsInt32 : Prop := -2 ^ 31 ≤ n ∧ n < 2 ^ 31

lemma isInt32_toInt32 : IsInt32 (toInt32 n) := by
  unfold IsInt32 toInt32
  omega

/-! ## Texts -/

/-- The loop of `string2ll` over the digits behind the first one. -/
def string2llDigits : Nat → Bytes → Option Nat
  | v, [] => some v
  | v, b :: rest =>
    if isDigit b then
      if (2 ^ 64 - 1) / 10 < v then none
      else if 2 ^ 64 - 1 - (b.toNat - 48) < v * 10 then none
      else string2llDigits (v * 10 + (b.toNat - 48)) rest
    else none

/-- The conversion at the end of `string2ll`. -/
def string2llSign (negative : Bool) (v : Nat) : Option Int :=
  if negative then (if 2 ^ 63 < v then none else some (-v))
  else if 2 ^ 63 - 1 < v then none
  else some v

def string2ll (s : Bytes) : Option Int :=
  if s.length = 0 ∨ 21 ≤ s.length then none
  else if s = [48] then some 0
  else
    let (negative, digits) := match s with
      | 45 :: rest => (true, rest)
      | s => (false, s)
    match digits with
    | [] => none
    | d :: rest =>
      if 49 ≤ d ∧ d ≤ 57 then
        (string2llDigits (d.toNat - 48) rest).bind (string2llSign negative)
      else none

/-- `string2ull`: what `string2ll` refuses is given to `strtoull`, which takes blanks and a sign
in front of the digits and has to read up to the end of the C string. -/
def string2ull (s : Bytes) : Option Nat :=
  match string2ll s with
  | some n => if n < 0 then none else some n.toNat
  | none =>
    let cstr := s.takeWhile (· ≠ 0)
    let unsigned := match cstr.dropWhile isSpace with
      | 45 :: rest => rest
      | 43 :: rest => rest
      | rest => rest
    if unsigned.all isDigit then stoull cstr else none

example : string2ll (ascii "-9223372036854775808") = some (-2 ^ 63) := by decide
example : string2ll (ascii "007") = none := by decide

/-- `std::to_string` of an `int64_t`. -/
def int64ToString : Bytes :=
  if n < 0 then 45 :: stdToString n.natAbs else stdToString n.natAbs

lemma length_int64ToString_le {n : Int} (hn : IsInt64 n) : (int64ToString n).length ≤ 20 := by
  have habs : n.natAbs < 10 ^ 19 := by
    unfold IsInt64 at hn
    omega
  have hdigits : (stdToString n.natAbs).length ≤ 19 := by
    rw [stdToString, length_map]
    exact Nat.toDigits_length 10 _ 19 (by decide) habs
  unfold int64ToString
  split
  · rw [length_cons]
    omega
  · omega

lemma digitsVal_le_append (xs ys : Bytes) : digitsVal xs ≤ digitsVal (xs ++ ys) := by
  induction ys using List.reverseRecOn with
  | nil => rw [append_nil]
  | append_singleton ys y ih =>
    rw [← append_assoc, digitsVal_concat]
    omega

lemma stdToString_snoc {v : Nat} (hv : 0 < v) {b : UInt8} (hb : isDigit b = true) :
    stdToString (v * 10 + (b.toNat - 48)) = stdToString v ++ [b] := by
  obtain ⟨hd, hbyte⟩ := decimalByte_of_isDigit hb
  rw [stdToString_of_le (by omega), show (v * 10 + (b.toNat - 48)) / 10 = v by omega,
    show (v * 10 + (b.toNat - 48)) % 10 = b.toNat - 48 by omega, hbyte]

lemma string2llDigits_eq_some {v u : Nat} {ds : Bytes} (hpos : 0 < v) (hv : v < 2 ^ 64) :
    string2llDigits v ds = some u ↔ u < 2 ^ 64 ∧ stdToString u = stdToString v ++ ds := by
  induction ds generalizing v with
  | nil =>
    rw [string2llDigits, Option.some_inj, append_nil, stdToString_injective.eq_iff]
    exact ⟨fun h => ⟨h ▸ hv, h.symm⟩, fun h => h.2.symm⟩
  | cons b rest ih =>
    rw [string2llDigits]
    by_cases hb : isDigit b = true
    · rw [if_pos hb, append_cons, ← stdToString_snoc hpos hb]
      by_cases hfits : v * 10 + (b.toNat - 48) < 2 ^ 64
      · rw [if_neg (by omega), if_neg (by omega)]
        exact ih (by omega) hfits
      · refine iff_of_false ?_ ?_
        · split_ifs
          · nofun
          · nofun
          · omega
        · -- the number would be at least the digits read so far
          rintro ⟨hu, htext⟩
          have hle := digitsVal_le_append (stdToString (v * 10 + (b.toNat - 48))) rest
          rw [← htext, digitsVal_stdToString, digitsVal_stdToString] at hle
          omega
    · rw [if_neg hb]
      refine iff_of_false nofun ?_
      rintro ⟨-, htext⟩
      have hmem : b ∈ stdToString u := by simp [htext]
      exact hb (isDigit_of_mem_stdToString u b hmem)

lemma exists_stdToString_cons {u : Nat} (hu : 0 < u) :
    ∃ d rest, 0 < d ∧ d < 10 ∧ stdToString u = decimalByte d :: rest := by
  induction u using decimal_induction with
  | hlt n hn => exact ⟨n, [], hu, hn, stdToString_of_lt hn⟩
  | hle n hn ih =>
    obtain ⟨d, rest, hpos, hd, htext⟩ := ih (by omega)
    exact ⟨d, rest ++ [decimalByte (n % 10)], hpos, hd, by rw [stdToString_of_le hn, htext]; rfl⟩

lemma string2llSign_eq_some {negative : Bool} {u : Nat} {n : Int} :
    string2llSign negative u = some n ↔ IsInt64 n ∧ n = if negative then -(u : Int) else u := by
  unfold string2llSign IsInt64
  cases negative
  · simp
    omega
  · simp
    omega

/-- Digits without a leading zero are the text of one number only. -/
lemma readDigits_eq_some (negative : Bool) (ds : Bytes) {n : Int} :
    (match ds with
      | [] => none
      | d :: rest => if 49 ≤ d ∧ d ≤ 57 then
          (string2llDigits (d.toNat - 48) rest).bind (string2llSign negative)
        else none) = some n ↔
      IsInt64 n ∧ ∃ u : Nat, 0 < u ∧ ds = stdToString u ∧
        n = if negative then -(u : Int) else u := by
  cases ds with
  | nil =>
    refine iff_of_false nofun ?_
    rintro ⟨-, u, -, h, -⟩
    exact stdToString_ne_nil u h.symm
  | cons d rest =>
    have h49 : (49 : UInt8).toNat = 49 := rfl
    have h57 : (57 : UInt8).toNat = 57 := rfl
    simp only [UInt8.le_iff_toNat_le, h49, h57]
    by_cases hd : 49 ≤ d.toNat ∧ d.toNat ≤ 57
    · have hdigit : decimalByte (d.toNat - 48) = d := by
        rw [decimalByte, show 48 + (d.toNat - 48) = d.toNat by omega, UInt8.ofNat_toNat]
      simp only [if_pos hd, Option.bind_eq_some_iff, string2llSign_eq_some,
        string2llDigits_eq_some (show 0 < d.toNat - 48 by omega) (by omega),
        stdToString_of_lt (show d.toNat - 48 < 10 by omega), hdigit]
      constructor
      · rintro ⟨u, ⟨-, htext⟩, hn, hu⟩
        refine ⟨hn, u, Nat.pos_of_ne_zero ?_, htext.symm, hu⟩
        rintro rfl
        obtain ⟨rfl, -⟩ := List.cons.inj htext
        exact absurd hd (by decide)
      · rintro ⟨hn, u, -, htext, hu⟩
        refine ⟨u, ⟨?_, htext.symm⟩, hn, hu⟩
        unfold IsInt64 at hn
        split at hu <;> omega
    · rw [if_neg hd]
      refine iff_of_false nofun ?_
      rintro ⟨-, u, hpos, htext, -⟩
      obtain ⟨d', rest', hd', hlt, htext'⟩ := exists_stdToString_cons hpos
      obtain ⟨rfl, -⟩ := List.cons.inj (htext.trans htext')
      rw [toNat_decimalByte hlt] at hd
      omega

/-- **`string2ll` accepts exactly the texts `std::to_string` writes.** -/
theorem string2ll_eq_some {s : Bytes} {n : Int} :
    string2ll s = some n ↔ IsInt64 n ∧ s = int64ToString n := by
  unfold string2ll
  by_cases hlen : s.length = 0 ∨ 21 ≤ s.length
  · rw [if_pos hlen]
    refine iff_of_false nofun ?_
    rintro ⟨hn, rfl⟩
    have hpos : 0 < (int64ToString n).length := by
      rw [int64ToString]
      split
      · exact Nat.succ_pos _
      · exact length_pos_iff.mpr (stdToString_ne_nil _)
    have hmax := length_int64ToString_le hn
    omega
  have hzero : stdToString 0 = [48] := rfl
  rw [if_neg hlen]
  split
  · next hs =>
    rw [hs, Option.some_inj]
    constructor
    · rintro rfl
      exact ⟨by decide, rfl⟩
    · rintro ⟨-, h⟩
      unfold int64ToString at h
      split at h
      · exact absurd (List.cons.inj h).1 (by decide)
      · have := stdToString_injective (hzero.trans h)
        omega
  next hs =>
  rcases s with _ | ⟨b, rest⟩
  · exact absurd (.inl rfl) hlen
  by_cases hb : b = 45
  · subst hb
    refine (readDigits_eq_some true rest).trans (and_congr_right fun _ => ⟨?_, fun h => ?_⟩)
    · rintro ⟨u, hu, rfl, rfl⟩
      rw [if_pos rfl, int64ToString, if_pos (by omega), Int.natAbs_neg, Int.natAbs_natCast]
    · unfold int64ToString at h
      split at h
      · refine ⟨n.natAbs, by omega, (List.cons.inj h).2, ?_⟩
        rw [if_pos rfl]
        omega
      · exact absurd (h ▸ mem_cons_self) (notMem_stdToString (by decide) _)
  · split
    next h =>
    split at h
    · next h' => exact absurd (List.cons.inj h').1 hb
    cases h
    refine (readDigits_eq_some false (b :: rest)).trans (and_congr_right fun _ => ⟨?_, fun h => ?_⟩)
    · rintro ⟨u, -, htext, rfl⟩
      rw [htext, if_neg Bool.false_ne_true, int64ToString, if_neg (by omega), Int.natAbs_natCast]
    · unfold int64ToString at h
      split at h
      · exact absurd (List.cons.inj h).1 hb
      · refine ⟨n.natAbs, Nat.pos_of_ne_zero fun h0 => hs ?_, h, ?_⟩
        · rw [h, h0, hzero]
        · rw [if_neg nofun]
          omega

lemma isInt64_of_string2ll {s : Bytes} {n : Int} (hs : string2ll s = some n) : IsInt64 n :=
  (string2ll_eq_some.mp hs).1

/-- The test for an overflow of the counters, which also refuses the two end values. -/
def incrOverflows (incr old : Int) : Bool :=
  (incr < 0 && old ≤ 0 && incr ≤ -2 ^ 63 - old) || (0 < incr && 0 ≤ old && 2 ^ 63 - 1 - old ≤ incr)

lemma isInt64_add_of_not_incrOverflows {incr old : Int} (hincr : IsInt64 incr)
    (hold : IsInt64 old) (hpass : incrOverflows incr old = false) : IsInt64 (old + incr) := by
  simp only [incrOverflows, Bool.or_eq_false_iff, Bool.and_eq_false_iff,
    decide_eq_false_iff_not] at hpass
  unfold IsInt64 at *
  omega

/-- The test `CommitIncrDecr` makes once more, without the two values at the ends. -/
def incrOutOfRange (incr old : Int) : Bool :=
  (incr < 0 && old < 0 && incr < -2 ^ 63 - old) || (0 < incr && 0 < old && 2 ^ 63 - 1 - old < incr)

lemma isInt64_add_of_not_incrOutOfRange {incr old : Int} (hincr : IsInt64 incr)
    (hold : IsInt64 old) (hpass : incrOutOfRange incr old = false) : IsInt64 (old + incr) := by
  simp only [incrOutOfRange, Bool.or_eq_false_iff, Bool.and_eq_false_iff,
    decide_eq_false_iff_not] at hpass
  unfold IsInt64 at *
  omega

lemma isInt64_toInt (n : Int64) : IsInt64 n.toInt := ⟨Int64.le_toInt n, Int64.toInt_lt n⟩

/-! ## Long doubles -/

/-- What is used of `long double`; its text with 17 decimals is shorter than 5 * 1024 characters. -/
class LongDouble (F : Type) where
  zero : F
  add : F → F → F
  /-- Passing a value as `double`. -/
  toDouble : F → F
  isNanOrInf : F → Bool
  string2ld : Bytes → Option F
  ld2string : F → Bytes
  length_ld2string_le : ∀ x, (ld2string x).length ≤ 5 * 1024

/-- Whole numbers in the place of fractions. -/
instance : LongDouble Int where
  zero := 0
  add := (· + ·)
  toDouble := id
  isNanOrInf _ := false
  string2ld := string2ll
  ld2string n := (int64ToString n).take (5 * 1024)
  length_ld2string_le n := by simp [List.length_take]

/-! ## Scores -/

/-- What the commands on sorted sets use of `double`; the buffer of `d2string` has 24 characters. -/
class ScoreTexts (S : Type) where
  string2double : Bytes → Option S
  d2string : S → Bytes
  length_d2string_le : ∀ d, (d2string d).length ≤ 24
  infinity : S
  negativeInfinity : S

end EloqKV
