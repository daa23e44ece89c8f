/-
  Decimal texts read back.

  Counters, epochs and integers are written by `std::to_string` and read by `std::stoull` or an
  integer encoding.
-/
import EloqKV.Bytes

open List

namespace EloqKV

def decimalByte (d : Nat) : UInt8 := UInt8.ofNat (48 + d)

lemma toNat_decimalByte {d : Nat} (hd : d < 10) : (decimalByte d).toNat = 48 + d := by
  apply UInt8.toNat_ofNat_of_lt'
  show 48 + d < 256
  omega

lemma isDigit_decimalByte {d : Nat} (hd : d < 10) : isDigit (decimalByte d) = true := by
  unfold isDigit
  have h48 : (48 : UInt8).toNat = 48 := rfl
  have h57 : (57 : UInt8).toNat = 57 := rfl
  simp only [Bool.and_eq_true, decide_eq_true_eq, UInt8.le_iff_toNat_le, toNat_decimalByte hd]
  omega

lemma decimalByte_of_isDigit {b : UInt8} (hb : isDigit b = true) :
    b.toNat - 48 < 10 ∧ decimalByte (b.toNat - 48) = b := by
  unfold isDigit at hb
  have h48 : (48 : UInt8).toNat = 48 := rfl
  have h57 : (57 : UInt8).toNat = 57 := rfl
  simp only [Bool.and_eq_true, decide_eq_true_eq, UInt8.le_iff_toNat_le] at hb
  refine ⟨by omega, ?_⟩
  unfold decimalByte
  rw [show 48 + (b.toNat - 48) = b.toNat by omega, UInt8.ofNat_toNat]

/-! ## The text of a number -/

lemma stdToString_of_lt {n : Nat} (hn : n < 10) : stdToString n = [decimalByte n] := by
  revert n
  decide

lemma stdToString_of_le {n : Nat} (hn : 10 ≤ n) :
    stdToString n = stdToString (n / 10) ++ [decimalByte (n % 10)] := by
  have hlast : stdToString (n % 10) = [decimalByte (n % 10)] :=
    stdToString_of_lt (Nat.mod_lt n (by decide))
  unfold stdToString at hlast ⊢
  rw [Nat.toDigits_of_lt_base (Nat.mod_lt n (by decide))] at hlast
  rw [Nat.toDigits_of_base_le (by decide) hn, map_append, hlast]

lemma decimal_induction {motive : Nat → Prop} (hlt : ∀ n, n < 10 → motive n)
    (hle : ∀ n, 10 ≤ n → motive (n / 10) → motive n) (n : Nat) : motive n := by
  induction n using Nat.strong_induction_on with
  | _ n ih =>
    by_cases hn : n < 10
    · exact hlt n hn
    · exact hle n (by omega) (ih (n / 10) (by omega))

lemma stdToString_ne_nil (n : Nat) : stdToString n ≠ [] := by
  unfold stdToString
  simp [Nat.toDigits_ne_nil]

lemma isDigit_of_mem_stdToString (n : Nat) : ∀ b ∈ stdToString n, isDigit b = true := by
  induction n using decimal_induction with
  | hlt n hn =>
    intro b hb
    rw [stdToString_of_lt hn, mem_singleton] at hb
    rw [hb]
    exact isDigit_decimalByte hn
  | hle n hn ih =>
    intro b hb
    rw [stdToString_of_le hn, mem_append, mem_singleton] at hb
    rcases hb with hb | rfl
    · exact ih b hb
    · exact isDigit_decimalByte (Nat.mod_lt n (by decide))

lemma digitsVal_concat (ds : Bytes) (b : UInt8) :
    digitsVal (ds ++ [b]) = 10 * digitsVal ds + (b.toNat - 48) := by
  simp [digitsVal, foldl_append]

lemma digitsVal_stdToString (n : Nat) : digitsVal (stdToString n) = n := by
  induction n using decimal_induction with
  | hlt n hn =>
    rw [stdToString_of_lt hn]
    show 10 * 0 + ((decimalByte n).toNat - 48) = n
    rw [toNat_decimalByte hn]
    omega
  | hle n hn ih =>
    rw [stdToString_of_le hn, digitsVal_concat, toNat_decimalByte (Nat.mod_lt n (by decide))]
    omega

lemma stdToString_injective : Function.Injective stdToString := by
  intro m n h
  rw [← digitsVal_stdToString m, h, digitsVal_stdToString]

lemma notMem_stdToString {b : UInt8} (hb : isDigit b = false) (n : Nat) : b ∉ stdToString n := by
  intro hmem
  rw [isDigit_of_mem_stdToString n b hmem] at hb
  exact Bool.noConfusion hb

/-! ## Reading it back -/

lemma colon_stdToString_inj {x x' : Bytes} {n n' : Nat}
    (h : x ++ ascii ":" ++ stdToString n = x' ++ ascii ":" ++ stdToString n') :
    x = x' ∧ n = n' := by
  have hcolon : isDigit 58 = false := by decide
  -- read from the back, the digits go up to the first colon
  have hback : ∀ (x : Bytes) (n : Nat),
      (x ++ ascii ":" ++ stdToString n).reverse.takeWhile (· ≠ 58) = (stdToString n).reverse := by
    intro x n
    have hdigits : ∀ b ∈ (stdToString n).reverse, decide (b ≠ 58) = true := by
      intro b hb
      rw [decide_eq_true_eq]
      rintro rfl
      exact notMem_stdToString hcolon n (mem_reverse.mp hb)
    have hrev : (x ++ ascii ":" ++ stdToString n).reverse
        = (stdToString n).reverse ++ 58 :: x.reverse := by
      simp [ascii]
    rw [hrev, takeWhile_append_of_pos hdigits]
    simp
  have hdigits : (stdToString n).reverse = (stdToString n').reverse := by
    rw [← hback x, h, hback x']
  have hn : n = n' := stdToString_injective (reverse_injective hdigits)
  subst hn
  rw [append_left_inj, append_left_inj] at h
  exact ⟨h, rfl⟩

lemma of_isDigit {b : UInt8} (hb : isDigit b = true) : isSpace b = false ∧ b ≠ 45 ∧ b ≠ 43 := by
  obtain ⟨hd, rfl⟩ : ∃ d : Fin 10, decimalByte d = b :=
    ⟨⟨b.toNat - 48, (decimalByte_of_isDigit hb).1⟩, (decimalByte_of_isDigit hb).2⟩
  revert hd
  decide

/-- **`std::stoull` inverts `std::to_string`** on the 64-bit values, and refuses the others. -/
theorem stoull_stdToString (n : Nat) :
    stoull (stdToString n) = if n < u64 then some n else none := by
  have hdigits := isDigit_of_mem_stdToString n
  have hval := digitsVal_stdToString n
  have hne := stdToString_ne_nil n
  generalize stdToString n = s at *
  cases s with
  | nil => exact absurd rfl hne
  | cons b bs =>
    obtain ⟨hspace, hminus, hplus⟩ := of_isDigit (hdigits b mem_cons_self)
    have htake : (b :: bs).takeWhile isDigit = b :: bs := by
      have hall : (b :: bs ++ []).takeWhile isDigit = b :: bs ++ [].takeWhile isDigit :=
        takeWhile_append_of_pos hdigits
      rwa [takeWhile_nil, append_nil] at hall
    unfold stoull
    rw [dropWhile_cons_of_neg (by simp [hspace])]
    dsimp only
    split
    · rename_i heq
      exact absurd (List.cons.inj heq).1 hminus
    · rename_i heq
      exact absurd (List.cons.inj heq).1 hplus
    · rw [htake, hval]
      by_cases hn : n < u64
      · rw [if_pos hn, if_neg (by simpa using hn)]
        rfl
      · rw [if_neg hn, if_pos (.inr (Nat.not_lt.mp hn))]

end EloqKV
