/-
  Copies that read what they have just written.

  A copy of earlier output that is longer than the distance it goes back runs into its own output
  and repeats it.  `repeatFrom` is the loop, one element at a time.
-/
import Mathlib

open List

namespace EloqKV.Lib.BackReference

variable {α : Type}

/-- The first `n` elements of a list that is repeated without end. -/
def cycle (w : List α) : Nat → List α
  | 0 => []
  | n + 1 => cycle w n ++ w[n % w.length]?.toList

/-- The loop `*out++ = *ref++`, if every element that is read has been written. -/
def repeatFrom : Nat → Nat → List α → Option (List α)
  | 0, _, out => some out
  | n + 1, ref, out => out[ref]?.bind fun a => repeatFrom n (ref + 1) (out ++ [a])

lemma getElem?_mod {w : List α} (hw : w ≠ []) (n : Nat) : ∃ a, w[n % w.length]? = some a := by
  have hlt : n % w.length < w.length := Nat.mod_lt n (length_pos_of_ne_nil hw)
  exact ⟨_, List.getElem?_eq_getElem hlt⟩

lemma length_cycle {w : List α} (hw : w ≠ []) (n : Nat) : (cycle w n).length = n := by
  induction n with
  | zero => rfl
  | succ n ih =>
    obtain ⟨a, ha⟩ := getElem?_mod hw n
    rw [cycle, length_append, ih, ha]
    rfl

lemma getElem?_cycle {w : List α} (hw : w ≠ []) {n i : Nat} (hi : i < n) :
    (cycle w n)[i]? = w[i % w.length]? := by
  induction n with
  | zero => exact absurd hi (Nat.not_lt_zero i)
  | succ n ih =>
    have hlen := length_cycle hw n
    rw [cycle]
    rcases Nat.lt_succ_iff_lt_or_eq.mp hi with hlt | rfl
    · rw [List.getElem?_append_left (by omega), ih hlt]
    · obtain ⟨a, ha⟩ := getElem?_mod hw i
      rw [List.getElem?_append_right (by omega), hlen, Nat.sub_self, ha]
      rfl

lemma getElem?_repeated {base : List α} {ref : Nat} (href : ref < base.length) (k : Nat) :
    (base ++ cycle (base.drop ref) k)[ref + k]? = (base.drop ref)[k % (base.drop ref).length]? := by
  have hlen : (base.drop ref).length = base.length - ref := length_drop
  have hw : base.drop ref ≠ [] := by
    intro hnil
    rw [hnil, length_nil] at hlen
    omega
  rcases Nat.lt_or_ge k (base.length - ref) with hk | hk
  · -- the copy still reads what was there before it started
    rw [List.getElem?_append_left (by omega), hlen, Nat.mod_eq_of_lt hk, List.getElem?_drop]
  · -- the copy reads its own output
    rw [List.getElem?_append_right (by omega), getElem?_cycle hw (by omega), hlen,
      Nat.mod_eq_sub_mod hk]
    congr 2
    omega

theorem repeatFrom_eq {base : List α} {ref : Nat} (href : ref < base.length) (n : Nat) :
    repeatFrom n ref base = some (base ++ cycle (base.drop ref) n) := by
  have hw : base.drop ref ≠ [] := by
    intro hnil
    have hlen : (base.drop ref).length = base.length - ref := length_drop
    rw [hnil, length_nil] at hlen
    omega
  -- from the state after `k` steps, `n` more steps lead to the state after `k + n`
  have hloop : ∀ n k, repeatFrom n (ref + k) (base ++ cycle (base.drop ref) k)
      = some (base ++ cycle (base.drop ref) (k + n)) := by
    intro n
    induction n with
    | zero => exact fun k => rfl
    | succ n ih =>
      intro k
      obtain ⟨a, ha⟩ := getElem?_mod hw k
      have hnext := ih (k + 1)
      rw [cycle, ha, Option.toList_some, ← append_assoc] at hnext
      rw [repeatFrom, getElem?_repeated href, ha, Option.bind_some, Nat.add_assoc, hnext,
        Nat.add_assoc, Nat.add_comm 1 n]
  have hstart := hloop n 0
  rwa [cycle, append_nil, Nat.zero_add] at hstart

end EloqKV.Lib.BackReference
