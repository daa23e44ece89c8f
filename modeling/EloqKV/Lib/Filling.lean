/-
  Containers that are filled item by item.

  Each step takes the item or leaves it, and may drop what it replaces.  If every item weighs
  something, a container that weighs as much as what it was given holds all of it.
-/
import Mathlib

open List

namespace EloqKV.Lib.Filling

variable {α β σ : Type*}

/-- A container that grows by at most one item a step holds no more than it was given. -/
lemma foldl_subperm {step : σ → α → σ} (items : σ → List β) (item : α → β)
    (hstep : ∀ s a, (items (step s a)).Subperm (item a :: items s)) (l : List α) (s : σ) :
    (items (l.foldl step s)).Subperm (l.map item ++ items s) := by
  induction l generalizing s with
  | nil => exact List.Subperm.refl _
  | cons a l ih =>
    have hlater := (subperm_append_left (l.map item)).mpr (hstep s a)
    exact (ih (step s a)).trans (hlater.trans perm_middle.subperm)

lemma perm_of_subperm_of_weight {l l' : List α} (h : l.Subperm l') {weight : α → Nat}
    (hpos : ∀ a, 0 < weight a) (hweight : (l'.map weight).sum = (l.map weight).sum) :
    l.Perm l' := by
  obtain ⟨m, hm, hsub⟩ := h
  obtain ⟨rest, hrest⟩ := hsub.exists_perm_append
  have hall : l'.Perm (l ++ rest) := hrest.trans (hm.append_right rest)
  have hsum := (hall.map weight).sum_nat
  rw [map_append, sum_append_nat] at hsum
  cases rest with
  | nil => exact (append_nil l ▸ hall).symm
  | cons a rest =>
    -- something was left out, and it weighs something
    have ha := hpos a
    rw [map_cons, sum_cons] at hsum
    omega

end EloqKV.Lib.Filling
