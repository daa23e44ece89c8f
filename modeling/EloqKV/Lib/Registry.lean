/-
  A registry of names with rotating tokens and generations.

  A live name holds one token and one number.  Numbers are given out from a counter and never
  again; a name may change its token and keeps its number.  Every number has a generation, and
  a generation that is left is retired for good.
-/
import Mathlib

open Function

namespace EloqKV.Lib

/-- A registry of names of type `N` under tokens of type `T`. -/
structure Registry (N T : Type) where
  /-- Token and number of a live name. -/
  live : N → Option (T × Nat)
  /-- The number the next name is given. -/
  nextId : Nat
  /-- The generation of a number. -/
  epoch : Nat → Nat
  /-- The generations that are not used any more. -/
  retired : Nat → Nat → Prop
  token_inj : ∀ {n n' : N} {t : T} {i i' : Nat},
    live n = some (t, i) → live n' = some (t, i') → n = n'
  id_inj : ∀ {n n' : N} {t t' : T} {i : Nat}, live n = some (t, i) → live n' = some (t', i) → n = n'
  nextId_pos : 0 < nextId
  id_pos : ∀ {n : N} {t : T} {i : Nat}, live n = some (t, i) → 0 < i
  id_lt : ∀ {n : N} {t : T} {i : Nat}, live n = some (t, i) → i < nextId
  retired_lt : ∀ {i e : Nat}, retired i e → i < nextId
  retired_old : ∀ {n : N} {t : T} {i e : Nat}, live n = some (t, i) → retired i e → e < epoch i

namespace Registry

variable {N T : Type}

/-- No live name, the first number to give out being 1. -/
def empty : Registry N T where
  live _ := none
  nextId := 1
  epoch _ := 1
  retired _ _ := False
  token_inj h := nomatch h
  id_inj h := nomatch h
  nextId_pos := Nat.one_pos
  id_pos h := nomatch h
  id_lt h := nomatch h
  retired_lt h := h.elim
  retired_old _ h := h.elim

variable [DecidableEq N]

lemma live_update_cases {live : N → Option (T × Nat)} {n m : N} {entry : Option (T × Nat)}
    {t : T} {i : Nat} (h : update live n entry m = some (t, i)) :
    (m = n ∧ entry = some (t, i)) ∨ (m ≠ n ∧ live m = some (t, i)) := by
  by_cases hm : m = n
  · subst hm
    rw [update_self] at h
    exact .inl ⟨rfl, h⟩
  · rw [update_of_ne hm] at h
    exact .inr ⟨hm, h⟩

variable (R : Registry N T)

lemma token_inj_update {n : N} {t : T} {id : Nat} (ht : ∀ m i, R.live m ≠ some (t, i)) {m m' : N}
    {t' : T} {i i' : Nat} (h : update R.live n (some (t, id)) m = some (t', i))
    (h' : update R.live n (some (t, id)) m' = some (t', i')) : m = m' := by
  rcases live_update_cases h with ⟨rfl, heq⟩ | ⟨-, hm⟩ <;>
    rcases live_update_cases h' with ⟨rfl, heq'⟩ | ⟨-, hm'⟩
  · rfl
  · cases heq
    exact absurd hm' (ht m' i')
  · cases heq'
    exact absurd hm (ht m i)
  · exact R.token_inj hm hm'

lemma forall_live_update {n : N} {entry : Option (T × Nat)} {P : Nat → Prop}
    (hnew : ∀ e ∈ entry, P e.2) (hold : ∀ {m t i}, R.live m = some (t, i) → P i) {m : N} {t : T}
    {i : Nat} (h : update R.live n entry m = some (t, i)) : P i := by
  rcases live_update_cases h with ⟨-, heq⟩ | ⟨-, hm⟩
  · exact hnew _ heq
  · exact hold hm

/-- A new name under a token no one holds gets the next number, in its first generation. -/
def create (n : N) (t : T) (ht : ∀ m i, R.live m ≠ some (t, i)) :
    Registry N T where
  live := update R.live n (some (t, R.nextId))
  nextId := R.nextId + 1
  epoch := update R.epoch R.nextId 1
  retired := R.retired
  token_inj := R.token_inj_update ht
  id_inj := by
    intro m m' t' t'' i h h'
    rcases live_update_cases h with ⟨rfl, heq⟩ | ⟨-, hm⟩ <;>
      rcases live_update_cases h' with ⟨rfl, heq'⟩ | ⟨-, hm'⟩
    · rfl
    · cases heq
      exact absurd (R.id_lt hm') (Nat.lt_irrefl _)
    · cases heq'
      exact absurd (R.id_lt hm) (Nat.lt_irrefl _)
    · exact R.id_inj hm hm'
  nextId_pos := Nat.succ_pos _
  id_pos := R.forall_live_update (by rintro _ ⟨⟩; exact R.nextId_pos) R.id_pos
  id_lt := R.forall_live_update (by rintro _ ⟨⟩; exact Nat.lt_succ_self _) fun hm =>
    Nat.lt_succ_of_lt (R.id_lt hm)
  retired_lt h := Nat.lt_succ_of_lt (R.retired_lt h)
  retired_old := by
    intro m t' i e h hret
    have hi := R.retired_lt hret
    rcases live_update_cases h with ⟨-, heq⟩ | ⟨-, hm⟩
    · cases heq
      exact absurd hi (Nat.lt_irrefl _)
    · rw [update_of_ne (Nat.ne_of_lt hi)]
      exact R.retired_old hm hret

@[simp] lemma create_nextId (n : N) (t : T)
    (ht : ∀ m i, R.live m ≠ some (t, i)) : (R.create n t ht).nextId = R.nextId + 1 := rfl

/-- A live name moves to a token no one holds and keeps its number. -/
def rotate (n : N) (t : T) {old : T} {id : Nat}
    (hn : R.live n = some (old, id)) (ht : ∀ m i, R.live m ≠ some (t, i)) : Registry N T where
  live := update R.live n (some (t, id))
  nextId := R.nextId
  epoch := R.epoch
  retired := R.retired
  token_inj := R.token_inj_update ht
  id_inj := by
    intro m m' t' t'' i h h'
    rcases live_update_cases h with ⟨rfl, heq⟩ | ⟨-, hm⟩ <;>
      rcases live_update_cases h' with ⟨rfl, heq'⟩ | ⟨-, hm'⟩
    · rfl
    · cases heq
      exact R.id_inj hn hm'
    · cases heq'
      exact R.id_inj hm hn
    · exact R.id_inj hm hm'
  nextId_pos := R.nextId_pos
  id_pos := R.forall_live_update (by rintro _ ⟨⟩; exact R.id_pos hn) R.id_pos
  id_lt := R.forall_live_update (by rintro _ ⟨⟩; exact R.id_lt hn) R.id_lt
  retired_lt := R.retired_lt
  retired_old := by
    intro m t' i e h hret
    rcases live_update_cases h with ⟨-, heq⟩ | ⟨-, hm⟩
    · cases heq
      exact R.retired_old hn hret
    · exact R.retired_old hm hret

section
variable (n : N) {t old : T} {id : Nat} (hn : R.live n = some (old, id))
    (ht : ∀ m i, R.live m ≠ some (t, i))

@[simp] lemma rotate_nextId : (R.rotate n t hn ht).nextId = R.nextId := rfl
@[simp] lemma rotate_epoch : (R.rotate n t hn ht).epoch = R.epoch := rfl

end

/-- A live name goes; the generations `gone` of its number are retired. -/
def remove (n : N) {t : T} {id : Nat} (hn : R.live n = some (t, id))
    (gone : Nat → Prop) : Registry N T where
  live := update R.live n none
  nextId := R.nextId
  epoch := R.epoch
  retired i e := R.retired i e ∨ (i = id ∧ gone e)
  token_inj := by
    intro m m' t' i i' h h'
    rcases live_update_cases h with ⟨-, heq⟩ | ⟨-, hm⟩
    · exact nomatch heq
    rcases live_update_cases h' with ⟨-, heq⟩ | ⟨-, hm'⟩
    · exact nomatch heq
    exact R.token_inj hm hm'
  id_inj := by
    intro m m' t' t'' i h h'
    rcases live_update_cases h with ⟨-, heq⟩ | ⟨-, hm⟩
    · exact nomatch heq
    rcases live_update_cases h' with ⟨-, heq⟩ | ⟨-, hm'⟩
    · exact nomatch heq
    exact R.id_inj hm hm'
  nextId_pos := R.nextId_pos
  id_pos := R.forall_live_update nofun R.id_pos
  id_lt := R.forall_live_update nofun R.id_lt
  retired_lt := by
    rintro i e (hret | ⟨rfl, -⟩)
    · exact R.retired_lt hret
    · exact R.id_lt hn
  retired_old := by
    intro m t' i e h hret
    rcases live_update_cases h with ⟨-, heq⟩ | ⟨hmn, hm⟩
    · exact nomatch heq
    rcases hret with hret | ⟨rfl, -⟩
    · exact R.retired_old hm hret
    · -- no other live name has the number of the removed one
      exact absurd (R.id_inj hm hn) hmn

section
variable (n : N) {t : T} {id : Nat} (hn : R.live n = some (t, id)) (gone : Nat → Prop)

@[simp] lemma remove_nextId : (R.remove n hn gone).nextId = R.nextId := rfl
@[simp] lemma remove_epoch : (R.remove n hn gone).epoch = R.epoch := rfl

end

/-- The number of a live name goes to its next generation, and the one before is retired. -/
def advance {n : N} {t : T} {id : Nat} (hn : R.live n = some (t, id)) :
    Registry N T where
  live := R.live
  nextId := R.nextId
  epoch := update R.epoch id (R.epoch id + 1)
  retired i e := R.retired i e ∨ (i = id ∧ e = R.epoch id)
  token_inj := R.token_inj
  id_inj := R.id_inj
  nextId_pos := R.nextId_pos
  id_pos := R.id_pos
  id_lt := R.id_lt
  retired_lt := by
    rintro i e (hret | ⟨rfl, -⟩)
    · exact R.retired_lt hret
    · exact R.id_lt hn
  retired_old := by
    intro m t' i e h hret
    by_cases hi : i = id
    · subst hi
      rw [update_self]
      rcases hret with hret | ⟨-, rfl⟩
      · exact Nat.lt_succ_of_lt (R.retired_old h hret)
      · exact Nat.lt_succ_self _
    · rw [update_of_ne hi]
      rcases hret with hret | ⟨heq, -⟩
      · exact R.retired_old h hret
      · exact absurd heq hi

omit [DecidableEq N] in
@[simp] lemma advance_nextId {n : N} {t : T} {id : Nat} (hn : R.live n = some (t, id)) :
    (R.advance hn).nextId = R.nextId := rfl

omit [DecidableEq N] in
@[simp] lemma advance_live {n : N} {t : T} {id : Nat} (hn : R.live n = some (t, id)) :
    (R.advance hn).live = R.live := rfl

end Registry

end EloqKV.Lib
