/-
  Which texts `include/redis_string_num.h` takes for numbers, and its overflow tests with every
  expression they evaluate.

  `string2ull` gives to `strtoull` what `string2ll` refuses, and `strtoull` is not as strict.
-/
import EloqKV.Numbers

open List

namespace EloqKV

/-! ## Numerals -/

/-- The digits `strtoull` finds: behind blanks and a sign, up to the end of the C string. -/
def strtoullDigits (s : Bytes) : Bytes :=
  match (s.takeWhile (· ≠ 0)).dropWhile isSpace with
  | 45 :: rest => rest
  | 43 :: rest => rest
  | rest => rest

/-- Digits of a number of 64 bits, in a text that no number has. -/
def LooseNumeral (s : Bytes) : Prop :=
  (strtoullDigits s ≠ [] ∧ (strtoullDigits s).all isDigit ∧ digitsVal (strtoullDigits s) < 2 ^ 64) ∧
    ∀ n : Int, s = int64ToString n → n < -2 ^ 63

/-- The two functions read the texts of the numbers of their types, and nothing else. -/
def ReadsNumerals (s : Bytes) : Prop :=
  (∀ n, string2ll s = some n ↔ IsInt64 n ∧ s = int64ToString n) ∧
    ∀ v, string2ull s = some v ↔ v < 2 ^ 64 ∧ s = stdToString v

lemma string2ull_of_none {s : Bytes} (hs : string2ll s = none) : string2ull s =
    if (strtoullDigits s).all isDigit then stoull (s.takeWhile (· ≠ 0)) else none := by
  rw [string2ull, hs]
  rfl

lemma isSome_string2ull {s : Bytes} (hs : string2ll s = none) : (string2ull s).isSome ↔
    strtoullDigits s ≠ [] ∧ (strtoullDigits s).all isDigit ∧
      digitsVal (strtoullDigits s) < 2 ^ 64 := by
  have htake : ∀ ds : Bytes, ds.all isDigit → ds.takeWhile isDigit = ds := fun ds h =>
    takeWhile_eq_self_iff.mpr (all_eq_true.mp h)
  simp only [string2ull, hs, stoull, strtoullDigits]
  generalize (s.takeWhile (· ≠ 0)).dropWhile isSpace = text
  split
  all_goals
    split
    · next h => simp [htake _ h, h, u64]
    · next h => simp [h]

lemma string2ull_stdToString {v : Nat} (hs : string2ll (stdToString v) = none) :
    string2ull (stdToString v) = if v < 2 ^ 64 then some v else none := by
  have hdigits := isDigit_of_mem_stdToString v
  have hcstr : (stdToString v).takeWhile (· ≠ 0) = stdToString v :=
    takeWhile_eq_self_iff.mpr fun b hb =>
      decide_eq_true (ne_of_mem_of_not_mem hb (notMem_stdToString (by decide) v))
  have hall : strtoullDigits (stdToString v) = stdToString v := by
    rw [strtoullDigits, hcstr]
    generalize stdToString v = ds at hdigits
    rcases ds with _ | ⟨b, bs⟩
    · rfl
    obtain ⟨hspace, hminus, hplus⟩ := of_isDigit (hdigits b mem_cons_self)
    rw [dropWhile_cons_of_neg (by simp [hspace])]
    split
    · next h => exact absurd (List.cons.inj h).1 hminus
    · next h => exact absurd (List.cons.inj h).1 hplus
    · rfl
  rw [string2ull_of_none hs, hall, hcstr, stoull_stdToString, if_pos (all_eq_true.mpr hdigits)]
  rfl

/-- **Which texts are read as they should be**: all but those that only `strtoull` takes for
numbers. -/
theorem reads_numerals_iff (s : Bytes) : ReadsNumerals s ↔ ¬LooseNumeral s := by
  constructor
  · rintro ⟨-, hull⟩ ⟨hloose, hother⟩
    have hll : string2ll s = none := by
      cases hll : string2ll s with
      | none => rfl
      | some n =>
        obtain ⟨hn, hs⟩ := string2ll_eq_some.mp hll
        exact absurd (hother n hs) (Int.not_lt.mpr hn.1)
    obtain ⟨v, hv⟩ := Option.isSome_iff_exists.mp ((isSome_string2ull hll).mpr hloose)
    have hneg := hother v ((hull v).mp hv).2
    omega
  intro hstrict
  refine ⟨fun n => string2ll_eq_some, fun v => ?_⟩
  cases hll : string2ll s with
  | some n =>
    obtain ⟨hn, rfl⟩ := string2ll_eq_some.mp hll
    simp only [string2ull, hll]
    unfold IsInt64 at hn
    rw [int64ToString]
    split
    · refine iff_of_false (Option.some_ne_none v).symm ?_
      rintro ⟨-, htext⟩
      exact notMem_stdToString (by decide) v (htext ▸ mem_cons_self)
    · rw [Option.some_inj, stdToString_injective.eq_iff]
      omega
  | none =>
    have hread : ∀ u, s = stdToString u →
        (string2ull s = some v ↔ v < 2 ^ 64 ∧ s = stdToString v) := by
      rintro u rfl
      rw [string2ull_stdToString hll, stdToString_injective.eq_iff]
      split
      · rw [Option.some_inj]
        omega
      · exact iff_of_false (Option.some_ne_none v).symm (by omega)
    refine ⟨fun h => ?_, fun h => (hread v h.2).mpr h⟩
    by_contra hnot
    refine hstrict ⟨(isSome_string2ull hll).mp (by rw [h]; rfl), fun n hs => ?_⟩
    by_contra hge
    by_cases hn : n < 0
    · have hint := string2ll_eq_some.mpr ⟨⟨Int.not_lt.mp hge, by omega⟩, hs⟩
      rw [hll] at hint
      contradiction
    · rw [int64ToString, if_neg hn] at hs
      exact hnot ((hread _ hs).mp h)

theorem padded_numeral_accepted : ¬ReadsNumerals (ascii "007") := by
  intro h
  exact absurd ((h.2 7).mp (by decide)).2 (by decide)

/-! ## Overflow tests -/

/-- A signed expression of 64 bits; `none` where it overflows. -/
def int64 (x : Int) : Option Int := if IsInt64 x then some x else none

/-- An unsigned expression of 64 bits; `none` where it would be cut. -/
def uint64 (x : Int) : Option Int := if 0 ≤ x ∧ x < 2 ^ 64 then some x else none

/-- A quotient of either type; dividing by zero traps. -/
def divided (fits : Int → Option Int) (a b : Int) : Option Int :=
  if b = 0 then none else fits (a.tdiv b)

/-- `will_addition_overflow` of two `int64_t`s. -/
def willAdditionOverflow (a b : Int64) : Option Bool :=
  let negative : Option Bool := if a.toInt < 0 ∧ b.toInt < 0 then
    (int64 (-2 ^ 63 - b.toInt)).map (a.toInt < ·) else some false
  if 0 < a.toInt ∧ 0 < b.toInt then
    (int64 (2 ^ 63 - 1 - b.toInt)).bind fun d => if d < a.toInt then some true else negative
  else negative

/-- `will_addition_overflow` of two `uint64_t`s. -/
def willAdditionOverflowU (a b : UInt64) : Option Bool :=
  if 0 < a.toNat ∧ 0 < b.toNat then (uint64 (2 ^ 64 - 1 - b.toNat)).map (· < (a.toNat : Int))
  else some false

/-- `will_multiplication_overflow` of two `int64_t`s. -/
def willMultiplicationOverflow (a b : Int64) : Option Bool :=
  let (a, b) := (a.toInt, b.toInt)
  if a = 0 ∨ b = 0 then some false
  else if 0 < a ∧ 0 < b then (divided int64 (2 ^ 63 - 1) b).map (· < a)
  else if 0 < a ∧ b < 0 then (divided int64 (-2 ^ 63) a).map (b < ·)
  else if a < 0 ∧ 0 < b then (divided int64 (-2 ^ 63) b).map (a < ·)
  else if a < 0 ∧ b < 0 then (divided int64 (2 ^ 63 - 1) b).map (a < ·)
  else some false

/-- `will_multiplication_overflow` of two `uint64_t`s. -/
def willMultiplicationOverflowU (a b : UInt64) : Option Bool :=
  if a.toNat = 0 ∨ b.toNat = 0 then some false
  else (divided uint64 (2 ^ 64 - 1) b.toNat).map (· < (a.toNat : Int))

section

variable {m a b : Int}

lemma tdiv_lt_iff (hm : 0 ≤ m) (hb : 0 < b) : m.tdiv b < a ↔ m < a * b := by
  rw [Int.tdiv_eq_ediv_of_nonneg hm, Int.ediv_lt_iff_lt_mul hb]

lemma divided_int64 (hb : b ≠ 0) (hm : m.natAbs < 2 ^ 63 ∨ m = -2 ^ 63 ∧ 0 < b) :
    divided int64 m b = some (m.tdiv b) := by
  have habs := Int.natAbs_tdiv_le_natAbs m b
  rw [divided, if_neg hb, int64, if_pos]
  unfold IsInt64
  rcases hm with hm | ⟨rfl, hpos⟩
  · omega
  · have hneg := Int.tdiv_nonneg (show (0 : Int) ≤ 2 ^ 63 by decide) hpos.le
    rw [Int.neg_tdiv] at habs ⊢
    omega

end

lemma some_decide {p q : Prop} [Decidable p] [Decidable q] (h : p ↔ q) :
    some (decide p) = some (decide q) := by
  rw [decide_eq_decide.mpr h]

lemma willAdditionOverflow_eq (a b : Int64) :
    willAdditionOverflow a b = some (decide ¬IsInt64 (a.toInt + b.toInt)) := by
  have ha := isInt64_toInt a
  have hb := isInt64_toInt b
  rw [willAdditionOverflow]
  generalize a.toInt = a at *
  generalize b.toInt = b at *
  unfold IsInt64 at ha hb
  by_cases hpos : 0 < a ∧ 0 < b
  · rw [if_pos hpos, if_neg (by omega), int64, if_pos (by unfold IsInt64; omega), Option.bind_some]
    split
    · rw [decide_eq_true (by unfold IsInt64; omega)]
    · rw [decide_eq_false (by unfold IsInt64; omega)]
  rw [if_neg hpos]
  split
  · rw [int64, if_pos (by unfold IsInt64; omega)]
    exact some_decide (by unfold IsInt64; omega)
  · rw [decide_eq_false (by unfold IsInt64; omega)]

/-- Division rounds toward zero, so each pair of signs has its own bound. -/
lemma willMultiplicationOverflow_eq (a b : Int64) :
    willMultiplicationOverflow a b = some (decide ¬IsInt64 (a.toInt * b.toInt)) := by
  rw [willMultiplicationOverflow]
  generalize a.toInt = a
  generalize b.toInt = b
  split_ifs with hzero hpp hpn hnp hnn
  · rcases hzero with rfl | rfl <;> simp [IsInt64]
  · have hpos := Int.mul_pos hpp.1 hpp.2
    rw [divided_int64 (by omega) (.inl (by decide)), Option.map_some]
    refine some_decide ((tdiv_lt_iff (by decide) hpp.2).trans ?_)
    unfold IsInt64
    omega
  · have hneg := Int.mul_neg_of_pos_of_neg hpn.1 hpn.2
    rw [divided_int64 (by omega) (.inr ⟨rfl, hpn.1⟩), Option.map_some, Int.neg_tdiv]
    refine some_decide (lt_neg.trans ((tdiv_lt_iff (by decide) hpn.1).trans ?_))
    rw [Int.neg_mul, Int.mul_comm b]
    unfold IsInt64
    omega
  · have hneg := Int.mul_neg_of_neg_of_pos hnp.1 hnp.2
    rw [divided_int64 (by omega) (.inr ⟨rfl, hnp.2⟩), Option.map_some, Int.neg_tdiv]
    refine some_decide (lt_neg.trans ((tdiv_lt_iff (by decide) hnp.2).trans ?_))
    rw [Int.neg_mul]
    unfold IsInt64
    omega
  · have hpos := Int.mul_pos_of_neg_of_neg hnn.1 hnn.2
    have hquot : (2 ^ 63 - 1 : Int).tdiv b = -(2 ^ 63 - 1 : Int).tdiv (-b) := by
      rw [Int.tdiv_neg, Int.neg_neg]
    rw [divided_int64 (by omega) (.inl (by decide)), Option.map_some, hquot]
    refine some_decide (lt_neg.trans ((tdiv_lt_iff (by decide) (by omega)).trans ?_))
    rw [Int.neg_mul_neg]
    unfold IsInt64
    omega
  · omega

/-- **The overflow tests are exact**: on every pair of operands they answer whether the sum or
the product leaves the range of the type, and evaluate no expression that does so or that traps. -/
theorem overflow_tests_exact (a b : Int64) (u v : UInt64) :
    willAdditionOverflow a b = some (decide ¬IsInt64 (a.toInt + b.toInt)) ∧
      willMultiplicationOverflow a b = some (decide ¬IsInt64 (a.toInt * b.toInt)) ∧
      willAdditionOverflowU u v = some (decide (2 ^ 64 ≤ u.toNat + v.toNat)) ∧
      willMultiplicationOverflowU u v = some (decide (2 ^ 64 ≤ u.toNat * v.toNat)) := by
  have hu := u.toNat_lt
  have hv := v.toNat_lt
  refine ⟨willAdditionOverflow_eq a b, willMultiplicationOverflow_eq a b, ?_, ?_⟩
  · rw [willAdditionOverflowU, uint64]
    split_ifs <;> simp <;> omega
  · rw [willMultiplicationOverflowU]
    generalize u.toNat = u
    generalize v.toNat = v at *
    split_ifs with hzero
    · rcases hzero with rfl | rfl <;> simp
    · have hquot : (2 ^ 64 - 1 : Int).tdiv v ≤ 2 ^ 64 - 1 := Int.tdiv_le_self _ (by decide)
      have hnn := Int.tdiv_nonneg (show (0 : Int) ≤ 2 ^ 64 - 1 by decide) (Int.natCast_nonneg v)
      rw [divided, if_neg (by omega), uint64, if_pos ⟨hnn, by omega⟩, Option.map_some]
      refine some_decide ((tdiv_lt_iff (by decide) (by omega)).trans ?_)
      rw [← Int.natCast_mul]
      omega

end EloqKV
