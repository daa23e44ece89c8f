/-
  Numbers as an index stores them, so that `memcmp` orders them: big-endian, and with the sign bit
  flipped, by which a signed number becomes its distance from the smallest one of its width.
-/
import EloqKV.Lib.Endian

namespace EloqKV.Lib.ByteOrder

open EloqKV.Lib.Endian

lemma be_succ (w n : Nat) : be (w + 1) n = be w (n / 256) ++ [UInt8.ofNat n] := by
  rw [be, le, List.reverse_cons, be]

lemma be_succ_cons (w n : Nat) : be (w + 1) n = UInt8.ofNat (n / 256 ^ w) :: be w n := by
  induction w generalizing n with
  | zero => rw [Nat.pow_zero, Nat.div_one]; rfl
  | succ w ih =>
    rw [be_succ, ih, List.cons_append, ← be_succ, Nat.div_div_eq_div_mul, ← Nat.pow_succ']

lemma be_add_mul (w n k : Nat) : be w (n + k * 256 ^ w) = be w n := by
  induction w generalizing n k with
  | zero => rfl
  | succ w ih =>
    have hdiv : (n + k * 256 ^ (w + 1)) / 256 = n / 256 + k * 256 ^ w := by
      rw [Nat.pow_succ, ← Nat.mul_assoc, Nat.add_mul_div_right _ _ (by decide)]
    have hlast : UInt8.ofNat (n + k * 256 ^ (w + 1)) = UInt8.ofNat n := by
      apply UInt8.toNat_inj.mp
      rw [Nat.pow_succ, ← Nat.mul_assoc]
      exact Nat.add_mul_mod_self_right ..
    rw [be_succ, be_succ, hdiv, ih, hlast]

lemma xor_top_bit (b : UInt8) : b ^^^ 128 = b + 128 := by
  have hall : ∀ n : Fin 256, UInt8.ofNat n.val ^^^ 128 = UInt8.ofNat n.val + 128 := by
    decide +kernel
  have hb := hall ⟨b.toNat, b.toNat_lt⟩
  rwa [show UInt8.ofNat b.toNat = b from UInt8.ofNat_toNat] at hb

/-- A little-endian number turned round, with its highest bit flipped. -/
def flipped : List UInt8 → List UInt8
  | [] => []
  | b :: rest => (b ^^^ 128) :: rest

lemma flipped_be (w n : Nat) : flipped (be (w + 1) n) = be (w + 1) (n + 128 * 256 ^ w) := by
  have htop : (n + 128 * 256 ^ w) / 256 ^ w = n / 256 ^ w + 128 :=
    Nat.add_mul_div_right _ _ (Nat.pow_pos (by decide))
  rw [be_succ_cons, be_succ_cons, flipped, be_add_mul, htop, xor_top_bit, UInt8.ofNat_add]
  rfl

/-- A signed number with its sign bit flipped is stored as its distance from the smallest. -/
lemma flipped_be_ofSigned (w : Nat) {i : Int} (hlo : -(128 * 256 ^ w) ≤ i)
    (hhi : i < 128 * 256 ^ w) :
    flipped (be (w + 1) (ofSigned (8 * (w + 1)) i)) = be (w + 1) (i + 128 * 256 ^ w).toNat := by
  have hpow : (2 : Int) ^ (8 * (w + 1)) = 256 * 256 ^ w := by
    rw [pow_mul]
    ring
  have hcast : ((256 ^ w : Nat) : Int) = 256 ^ w := by rfl
  rw [flipped_be, ofSigned, hpow]
  generalize (256 : Int) ^ w = p at hlo hhi hcast ⊢
  rcases Int.lt_or_le i 0 with hneg | hnonneg
  · -- a negative number is written as one of the upper half
    have hmod : i % (256 * p) = i + 256 * p := by
      rw [← Int.add_emod_right]
      exact Int.emod_eq_of_lt (by omega) (by omega)
    have hsum : (i + 256 * p).toNat + 128 * 256 ^ w = (i + 128 * p).toNat + 1 * 256 ^ (w + 1) := by
      omega
    rw [hmod, hsum, be_add_mul]
  · have hmod : i % (256 * p) = i := Int.emod_eq_of_lt hnonneg (by omega)
    have hsum : i.toNat + 128 * 256 ^ w = (i + 128 * p).toNat := by omega
    rw [hmod, hsum]

end EloqKV.Lib.ByteOrder
