/-
  Ordered sets as sorted lists, with the operations a `std::set` offers.

  An iterator is a position.  Two elements neither of which is less than the other count as the
  same element, although they may differ in parts the comparison does not look at.

  A bound (`lower_bound`, `upper_bound`) is the first position whose element does not satisfy
  a predicate that holds on an initial part of the set.  Walking from one bound to another is
  the list between them if the first is not behind the second; otherwise the walk runs past
  the end and has no defined result.
-/
import Mathlib

open List

namespace EloqKV.Lib.OrderedSet

variable {α : Type*}

/-! ## Insertion -/

section Insert

variable (lt : α → α → Bool)

def Sorted (l : List α) : Prop := l.Pairwise fun a b => lt a b = true

/-- Insertion, with the element the iterator points at: the new one, or an equivalent old one. -/
def insert (a : α) : List α → List α × α
  | [] => ([a], a)
  | b :: bs =>
    if lt a b then (a :: b :: bs, a)
    else if lt b a then
      let (rest, at_) := insert a bs
      (b :: rest, at_)
    else (b :: bs, b)

lemma insert_subperm (a : α) (l : List α) : (insert lt a l).1.Subperm (a :: l) := by
  induction l with
  | nil => exact List.Subperm.refl _
  | cons b bs ih =>
    simp only [insert]
    split
    · exact List.Subperm.refl _
    · split
      · exact ((subperm_cons b).mpr ih).trans (List.Perm.swap a b bs).subperm
      · exact List.Subperm.cons_self

lemma mem_of_mem_insert {a x : α} {l : List α} (hx : x ∈ (insert lt a l).1) :
    x = a ∨ x ∈ l := mem_cons.mp ((insert_subperm lt a l).subset hx)

lemma sorted_insert (htrans : ∀ a b c, lt a b = true → lt b c = true → lt a c = true)
    (a : α) {l : List α} (hl : Sorted lt l) : Sorted lt (insert lt a l).1 := by
  induction l with
  | nil => exact pairwise_singleton _ a
  | cons b bs ih =>
    obtain ⟨hb, hbs⟩ := pairwise_cons.mp hl
    simp only [insert]
    split
    · rename_i hab
      refine pairwise_cons.mpr ⟨fun c hc => ?_, hl⟩
      rcases mem_cons.mp hc with rfl | hc
      · exact hab
      · exact htrans a b c hab (hb c hc)
    · split
      · rename_i hba
        refine pairwise_cons.mpr ⟨fun c hc => ?_, ih hbs⟩
        rcases mem_of_mem_insert lt hc with rfl | hc
        · exact hba
        · exact hb c hc
      · exact hl

lemma insert_fresh {a : α} {l : List α} (h : ∀ b ∈ l, lt a b = true ∨ lt b a = true) :
    (insert lt a l).1.Perm (a :: l) ∧ (insert lt a l).2 = a := by
  induction l with
  | nil => exact ⟨List.Perm.refl _, rfl⟩
  | cons b bs ih =>
    obtain ⟨hperm, hat⟩ := ih fun c hc => h c (mem_cons_of_mem b hc)
    simp only [insert]
    split
    · exact ⟨List.Perm.refl _, rfl⟩
    · rename_i hab
      have hba : lt b a = true := (h b mem_cons_self).resolve_left hab
      rw [if_pos hba]
      exact ⟨(hperm.cons b).trans (List.Perm.swap a b bs), hat⟩

end Insert

/-! ## Bounds and walks -/

/-- The first position whose element does not satisfy `below`. -/
def partitionPoint (below : α → Bool) (l : List α) : Nat := (l.takeWhile below).length

/-- The elements from one iterator up to another, or `none` if the walk never gets there. -/
def range (first last : Nat) (l : List α) : Option (List α) :=
  if first ≤ last then some ((l.drop first).take (last - first)) else none

/-- The predicate holds on an initial part of the list. -/
def Initial (below : α → Bool) (l : List α) : Prop :=
  l.Pairwise fun a b => below b = true → below a = true

variable {below : α → Bool}

lemma partitionPoint_cons_of_pos {b : α} (hb : below b = true)
    (bs : List α) : partitionPoint below (b :: bs) = partitionPoint below bs + 1 := by
  simp [partitionPoint, hb]

lemma partitionPoint_cons_of_neg {b : α} (hb : below b = false)
    (bs : List α) : partitionPoint below (b :: bs) = 0 := by
  simp [partitionPoint, hb]

lemma range_succ (first last : Nat) (b : α) (bs : List α) :
    range (first + 1) (last + 1) (b :: bs) = range first last bs := by
  simp [range]

lemma Initial.tail {b : α} {bs : List α} (hl : Initial below (b :: bs)) : Initial below bs :=
  (pairwise_cons.mp hl).2

lemma Initial.false_of_head {b : α} {bs : List α}
    (hl : Initial below (b :: bs)) (hb : below b = false) : ∀ x ∈ b :: bs, below x = false := by
  intro x hx
  rcases mem_cons.mp hx with rfl | hx
  · exact hb
  · by_contra hne
    have hpos := (pairwise_cons.mp hl).1 x hx (by simpa using hne)
    exact absurd (hb.symm.trans hpos) (by simp)

variable {l : List α}

lemma take_partitionPoint {hi : α → Bool} (hhi : Initial hi l) :
    l.take (partitionPoint hi l) = l.filter hi := by
  induction l with
  | nil => rfl
  | cons b bs ih =>
    cases hb : hi b with
    | true =>
      rw [partitionPoint_cons_of_pos hb, take_succ_cons, ih hhi.tail, filter_cons_of_pos hb]
    | false =>
      have hall := hhi.false_of_head hb
      have hnil : (b :: bs).filter hi = [] := filter_eq_nil_iff.mpr fun x hx => by simp [hall x hx]
      rw [partitionPoint_cons_of_neg hb, take_zero, hnil]

lemma drop_partitionPoint {lo : α → Bool} (hlo : Initial lo l) :
    l.drop (partitionPoint lo l) = l.filter (!lo ·) := by
  induction l with
  | nil => rfl
  | cons b bs ih =>
    cases hb : lo b with
    | true =>
      rw [partitionPoint_cons_of_pos hb, drop_succ_cons, ih hlo.tail,
        filter_cons_of_neg (by simp [hb])]
    | false =>
      have hall := hlo.false_of_head hb
      rw [partitionPoint_cons_of_neg hb]
      exact (filter_eq_self.mpr fun x hx => by simp [hall x hx]).symm

variable {lo hi : α → Bool}

/-- **The walk between two bounds is a filter.**  It is defined if everything in front of the
first bound is in front of the second. -/
theorem range_partitionPoint (hlo : Initial lo l)
    (hhi : Initial hi l) (hle : ∀ x ∈ l, lo x = true → hi x = true) :
    range (partitionPoint lo l) (partitionPoint hi l) l =
      some (l.filter fun x => !lo x && hi x) := by
  induction l with
  | nil => rfl
  | cons b bs ih =>
    cases hlob : lo b with
    | true =>
      have hhib : hi b = true := hle b mem_cons_self hlob
      have hrest := ih hlo.tail hhi.tail fun x hx => hle x (mem_cons_of_mem b hx)
      rw [partitionPoint_cons_of_pos hlob, partitionPoint_cons_of_pos hhib, range_succ, hrest,
        filter_cons_of_neg (by simp [hlob])]
    | false =>
      have hall := hlo.false_of_head hlob
      have hfilter : (b :: bs).filter (fun x => !lo x && hi x) = (b :: bs).filter hi :=
        filter_congr fun x hx => by simp [hall x hx]
      rw [hfilter, ← take_partitionPoint hhi, partitionPoint_cons_of_neg hlob]
      simp [range]

lemma range_partitionPoint_eq_none (hlo : Initial lo l)
    (hhi : Initial hi l) {x : α} (hx : x ∈ l) (hxlo : lo x = true) (hxhi : hi x = false) :
    range (partitionPoint lo l) (partitionPoint hi l) l = none := by
  induction l with
  | nil => exact absurd hx (by simp)
  | cons b bs ih =>
    have hlob : lo b = true := by
      by_contra hne
      have hxfalse := hlo.false_of_head (by simpa using hne) x hx
      exact absurd (hxlo.symm.trans hxfalse) (by simp)
    cases hhib : hi b with
    | false =>
      rw [partitionPoint_cons_of_pos hlob, partitionPoint_cons_of_neg hhib]
      simp [range]
    | true =>
      have hxbs : x ∈ bs := by
        rcases mem_cons.mp hx with rfl | hx
        · exact absurd (hhib.symm.trans hxhi) (by simp)
        · exact hx
      rw [partitionPoint_cons_of_pos hlob, partitionPoint_cons_of_pos hhib, range_succ]
      exact ih hlo.tail hhi.tail hxbs

lemma getElem?_partitionPoint (lo : α → Bool) (l : List α) :
    l[partitionPoint lo l]? = l.find? fun x => !lo x := by
  induction l with
  | nil => rfl
  | cons b bs ih =>
    cases hb : lo b with
    | true =>
      rw [partitionPoint_cons_of_pos hb, List.getElem?_cons_succ, ih,
        List.find?_cons_of_neg (by simp [hb])]
    | false =>
      rw [partitionPoint_cons_of_neg hb, List.getElem?_cons_zero,
        List.find?_cons_of_pos (by simp [hb])]

lemma filter_eq_nil_of_find? (hhi : Initial hi l) {x : α} (hx : l.find? (fun x => !lo x) = some x)
    (hxhi : hi x = false) : l.filter (fun x => !lo x && hi x) = [] := by
  induction l with
  | nil => rfl
  | cons b bs ih =>
    cases hb : lo b with
    | true =>
      rw [List.find?_cons_of_neg (by simp [hb])] at hx
      rw [filter_cons_of_neg (by simp [hb])]
      exact ih hhi.tail hx
    | false =>
      rw [List.find?_cons_of_pos (by simp [hb])] at hx
      cases hx
      have hall := hhi.false_of_head hxhi
      exact filter_eq_nil_iff.mpr fun y hy => by simp [hall y hy]

end EloqKV.Lib.OrderedSet
