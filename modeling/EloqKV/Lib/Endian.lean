/-
  Numbers in a fixed count of bytes.

  `le w n` are the `w` bytes of `n` with the least significant one first, `be w n` the same
  bytes in the other order.  What does not fit is cut off, as a conversion to an unsigned machine
  type cuts it off.
-/
import Mathlib

open List

namespace EloqKV.Lib.Endian

/-! ## Unsigned numbers -/

/-- The `w` low bytes of `n`, least significant first. -/
def le : Nat → Nat → List UInt8
  | 0, _ => []
  | w + 1, n => UInt8.ofNat n :: le w (n / 256)

variable (bytes : List UInt8)

/-- The number with these bytes, least significant first. -/
def ofLe : Nat :=
  bytes.foldr (fun b n => b.toNat + 256 * n) 0

/-- The `w` low bytes of `n`, most significant first. -/
def be (w n : Nat) : List UInt8 := (le w n).reverse

/-- The number with these bytes, most significant first. -/
def ofBe : Nat := ofLe bytes.reverse

@[simp] lemma length_le (w n : Nat) : (le w n).length = w := by
  induction w generalizing n with
  | zero => rfl
  | succ w ih => rw [le, length_cons, ih]

@[simp] lemma length_be (w n : Nat) : (be w n).length = w := by
  rw [be, length_reverse, length_le]

lemma ofLe_cons (b : UInt8) (bytes : List UInt8) :
    ofLe (b :: bytes) = b.toNat + 256 * ofLe bytes := rfl

lemma ofLe_lt : ofLe bytes < 256 ^ bytes.length := by
  induction bytes with
  | nil => exact Nat.one_pos
  | cons b bytes ih =>
    have hb := b.toNat_lt
    rw [ofLe_cons, length_cons]
    omega

lemma ofBe_lt : ofBe bytes < 256 ^ bytes.length := by
  rw [← length_reverse]
  exact ofLe_lt _

lemma ofLe_le {w n : Nat} (hn : n < 256 ^ w) : ofLe (le w n) = n := by
  induction w generalizing n with
  | zero =>
    obtain rfl : n = 0 := by simpa using hn
    rfl
  | succ w ih =>
    have hq : n / 256 < 256 ^ w := by
      rw [Nat.div_lt_iff_lt_mul (by decide)]
      exact hn
    rw [le, ofLe_cons, ih hq, UInt8.toNat_ofNat']
    omega

lemma ofBe_be {w n : Nat} (hn : n < 256 ^ w) : ofBe (be w n) = n := by
  rw [ofBe, be, reverse_reverse, ofLe_le hn]

lemma le_ofLe : le bytes.length (ofLe bytes) = bytes := by
  induction bytes with
  | nil => rfl
  | cons b bytes ih =>
    have hb := b.toNat_lt
    have hquot : (b.toNat + 256 * ofLe bytes) / 256 = ofLe bytes := by omega
    have hlow : UInt8.ofNat (b.toNat + 256 * ofLe bytes) = b := by
      apply UInt8.toNat_inj.mp
      rw [UInt8.toNat_ofNat']
      omega
    rw [ofLe_cons, length_cons, le, hquot, ih, hlow]

lemma be_ofBe : be bytes.length (ofBe bytes) = bytes := by
  have h := le_ofLe bytes.reverse
  rw [length_reverse] at h
  rw [be, ofBe, h, reverse_reverse]

/-! ## Signed numbers -/

/-- The signed number that an unsigned one of `bits` bits stands for. -/
def toSigned (bits n : Nat) : Int :=
  if n < 2 ^ (bits - 1) then n else n - 2 ^ bits

/-- The `bits` bits of a signed number, read as an unsigned one. -/
def ofSigned (bits : Nat) (i : Int) : Nat := (i % 2 ^ bits).toNat

lemma ofSigned_lt (bits : Nat) (i : Int) : ofSigned bits i < 2 ^ bits := by
  have hcast : ((2 ^ bits : Nat) : Int) = 2 ^ bits := by rfl
  unfold ofSigned
  omega

lemma toSigned_ofSigned {bits : Nat} {i : Int} (hbits : 0 < bits) (hlo : -2 ^ (bits - 1) ≤ i)
    (hhi : i < 2 ^ (bits - 1)) : toSigned bits (ofSigned bits i) = i := by
  obtain ⟨k, rfl⟩ : ∃ k, bits = k + 1 := ⟨bits - 1, by omega⟩
  rw [Nat.add_sub_cancel] at hlo hhi
  have hdouble : (2 : Int) ^ (k + 1) = 2 * 2 ^ k := by ring
  have hcast : ((2 ^ k : Nat) : Int) = 2 ^ k := by rfl
  unfold toSigned ofSigned
  rw [Nat.add_sub_cancel, hdouble]
  rcases Int.lt_or_le i 0 with hneg | hnonneg
  · -- a negative number is its distance to the end of the range
    have hmod : i % (2 * 2 ^ k) = i + 2 * 2 ^ k := by
      rw [← Int.add_emod_right]
      exact Int.emod_eq_of_lt (by omega) (by omega)
    omega
  · have hmod : i % (2 * 2 ^ k) = i := Int.emod_eq_of_lt hnonneg (by omega)
    omega

lemma ofSigned_toSigned {bits n : Nat} (hbits : 0 < bits) (hn : n < 2 ^ bits) :
    ofSigned bits (toSigned bits n) = n ∧
      -2 ^ (bits - 1) ≤ toSigned bits n ∧ toSigned bits n < 2 ^ (bits - 1) := by
  obtain ⟨k, rfl⟩ : ∃ k, bits = k + 1 := ⟨bits - 1, by omega⟩
  have hdouble : (2 : Int) ^ (k + 1) = 2 * 2 ^ k := by ring
  have hcast : ((2 ^ k : Nat) : Int) = 2 ^ k := by rfl
  unfold toSigned ofSigned
  rw [Nat.add_sub_cancel, hdouble]
  by_cases hlow : n < 2 ^ k
  · have hmod : (n : Int) % (2 * 2 ^ k) = n := Int.emod_eq_of_lt (by omega) (by omega)
    rw [if_pos hlow]
    omega
  · have hmod : ((n : Int) - 2 * 2 ^ k) % (2 * 2 ^ k) = n := by
      rw [← Int.add_emod_right, Int.sub_add_cancel]
      exact Int.emod_eq_of_lt (by omega) (by omega)
    rw [if_neg hlow]
    omega

lemma xor_two_pow {n k : Nat} (hn : n < 2 ^ (k + 1)) :
    n ^^^ 2 ^ k = if n < 2 ^ k then n + 2 ^ k else n - 2 ^ k := by
  -- below half the range the bit is not set
  have hlow : ∀ m, m < 2 ^ k → m ^^^ 2 ^ k = m + 2 ^ k := by
    intro m hm
    have hor : m + 2 ^ k = 2 ^ k ||| m := by
      have := Nat.two_pow_add_eq_or_of_lt hm 1
      rwa [Nat.mul_one, Nat.add_comm] at this
    rw [hor]
    apply Nat.eq_of_testBit_eq
    intro i
    rw [Nat.testBit_xor]
    by_cases hi : k = i
    · subst hi
      rw [Nat.testBit_lt_two_pow hm]
      simp
    · simp [hi]
  split
  · exact hlow n ‹_›
  · have hrest : n - 2 ^ k < 2 ^ k := by
      omega
    have hflip := hlow (n - 2 ^ k) hrest
    rw [Nat.sub_add_cancel (by omega)] at hflip
    calc n ^^^ 2 ^ k = (n - 2 ^ k) ^^^ 2 ^ k ^^^ 2 ^ k := by rw [hflip]
      _ = n - 2 ^ k := by rw [Nat.xor_assoc, Nat.xor_self, Nat.xor_zero]

end EloqKV.Lib.Endian
