/-
  Globs as lists of elements: an element is a star, which stands for any text, or a set of
  letters, which stands for one of them.

  `Matches` is the meaning, with no algorithm in it.
-/
import Mathlib

open List

namespace EloqKV.Lib

inductive GlobElem (α : Type) where
  | star
  | one (S : α → Bool)

namespace Glob

variable {α : Type} {es : List (GlobElem α)} {s t : List α} {c : α} {S : α → Bool}

/-- The texts a glob matches. -/
def Matches : List (GlobElem α) → List α → Prop
  | [], s => s = []
  | .one S :: es, s => ∃ c t, s = c :: t ∧ S c = true ∧ Matches es t
  | .star :: es, s => ∃ t, t <:+ s ∧ Matches es t

@[simp] lemma matches_nil : Matches ([] : List (GlobElem α)) s ↔ s = [] := Iff.rfl

@[simp] lemma matches_one_nil : ¬ Matches (.one S :: es) [] := by
  rintro ⟨c, t, heq, -⟩
  cases heq

@[simp] lemma matches_one_cons : Matches (.one S :: es) (c :: t) ↔ S c = true ∧ Matches es t := by
  constructor
  · rintro ⟨c', t', heq, hc, ht⟩
    cases heq
    exact ⟨hc, ht⟩
  · rintro ⟨hc, ht⟩
    exact ⟨c, t, rfl, hc, ht⟩

lemma matches_star : Matches (.star :: es) s ↔ ∃ t, t <:+ s ∧ Matches es t := Iff.rfl

lemma matches_star_star : Matches (.star :: .star :: es) s ↔ Matches (.star :: es) s := by
  constructor
  · rintro ⟨t, ht, u, hu, h⟩
    exact ⟨u, hu.trans ht, h⟩
  · intro h
    exact ⟨s, suffix_rfl, h⟩

/-! ## Lengths and stars -/

lemma Matches.length_eq (hno : GlobElem.star ∉ es) (h : Matches es s) : s.length = es.length := by
  induction es generalizing s with
  | nil =>
    obtain rfl := matches_nil.mp h
    rfl
  | cons e es ih =>
    cases e with
    | star => exact absurd mem_cons_self hno
    | one S =>
      obtain ⟨c, t, rfl, -, ht⟩ := h
      rw [length_cons, length_cons, ih (fun hmem => hno (mem_cons_of_mem _ hmem)) ht]

/-- A match of a glob with a star can be stretched: somewhere any text can be put in. -/
lemma Matches.stretch (hstar : GlobElem.star ∈ es) (h : Matches es s) :
    ∃ x t, s = x ++ t ∧ ∀ z, Matches es (x ++ z ++ t) := by
  induction es generalizing s with
  | nil => cases hstar
  | cons e es ih =>
    cases e with
    | star =>
      obtain ⟨t, ⟨x, rfl⟩, ht⟩ := h
      exact ⟨x, t, rfl, fun z => ⟨t, suffix_append _ _, ht⟩⟩
    | one S =>
      obtain ⟨c, t, rfl, hc, ht⟩ := h
      have hstar' : GlobElem.star ∈ es := by simpa using hstar
      obtain ⟨x, u, rfl, hz⟩ := ih hstar' ht
      exact ⟨c :: x, u, rfl, fun z => matches_one_cons.mpr ⟨hc, hz z⟩⟩

/-! ## Common beginnings -/

/-- Every element stands for some text, so the glob matches something. -/
def Satisfiable (es : List (GlobElem α)) : Prop :=
  ∀ S, GlobElem.one S ∈ es → ∃ c, S c = true

lemma Satisfiable.tail {e : GlobElem α} (h : Satisfiable (e :: es)) : Satisfiable es :=
  fun S hS => h S (mem_cons_of_mem _ hS)

lemma Satisfiable.exists_matches (h : Satisfiable es) : ∃ s, Matches es s := by
  induction es with
  | nil => exact ⟨[], rfl⟩
  | cons e es ih =>
    obtain ⟨t, ht⟩ := ih h.tail
    cases e with
    | star => exact ⟨t, t, suffix_rfl, ht⟩
    | one S =>
      obtain ⟨c, hc⟩ := h S mem_cons_self
      exact ⟨c :: t, matches_one_cons.mpr ⟨hc, ht⟩⟩

lemma Matches.satisfiable (h : Matches es s) : Satisfiable es := by
  induction es generalizing s with
  | nil => exact nofun
  | cons e es ih =>
    intro S hS
    cases e with
    | star =>
      obtain ⟨t, -, ht⟩ := h
      exact ih ht S (by simpa using hS)
    | one S' =>
      obtain ⟨c, t, rfl, hc, ht⟩ := h
      rcases mem_cons.mp hS with heq | hS
      · cases heq
        exact ⟨c, hc⟩
      · exact ih ht S hS

/-- The first elements of the glob stand for the letters of `q`, and for nothing else. -/
def Pinned : List (GlobElem α) → List α → Prop
  | _, [] => True
  | .one S :: es, c :: q => (∀ d, S d = true ↔ d = c) ∧ Pinned es q
  | _, _ :: _ => False

lemma Pinned.prefix_of_matches {q : List α} (hpin : Pinned es q) (h : Matches es s) :
    q <+: s := by
  induction q generalizing es s with
  | nil => exact nil_prefix
  | cons c q ih =>
    match es, hpin with
    | .one S :: es, hpin =>
      obtain ⟨d, t, rfl, hd, ht⟩ := h
      rw [(hpin.1 d).mp hd]
      exact cons_prefix_cons.mpr ⟨rfl, ih hpin.2 ht⟩

/-- **All matches begin with `q`** exactly where there are none or the first elements leave no
choice. -/
theorem forall_prefix_iff [Nontrivial α] {q : List α} :
    (∀ s, Matches es s → q <+: s) ↔ (Satisfiable es → Pinned es q) := by
  constructor
  · intro hall hsat
    induction q generalizing es with
    | nil => simp [Pinned]
    | cons c q ih =>
      match es, hsat with
      | [], hsat =>
        have := hall [] rfl
        simp at this
      | .star :: es, hsat =>
        -- the star may begin with any other letter
        obtain ⟨t, ht⟩ := hsat.tail.exists_matches
        obtain ⟨d, hd⟩ := exists_ne c
        have := hall (d :: t) ⟨t, suffix_cons d t, ht⟩
        exact absurd (cons_prefix_cons.mp this).1.symm hd
      | .one S :: es, hsat =>
        obtain ⟨t, ht⟩ := hsat.tail.exists_matches
        have hhead : ∀ d, S d = true → d = c := by
          intro d hd
          have := hall (d :: t) (matches_one_cons.mpr ⟨hd, ht⟩)
          exact (cons_prefix_cons.mp this).1.symm
        obtain ⟨d, hd⟩ := hsat S mem_cons_self
        have hc : S c = true := hhead d hd ▸ hd
        refine ⟨fun e => ⟨hhead e, fun he => he ▸ hc⟩, ih ?_ hsat.tail⟩
        intro u hu
        have := hall (c :: u) (matches_one_cons.mpr ⟨hc, hu⟩)
        exact (cons_prefix_cons.mp this).2
  · intro hpin s h
    exact (hpin h.satisfiable).prefix_of_matches h

end Glob

end EloqKV.Lib
