/-
  A running total that is changed in single amounts.

  `bookAll` performs a list of changes and has no result if one of them would go below zero;
  `settleAll` performs the same changes and stops at zero.  The two agree as long as nothing was
  cut off, and when only subtractions are made that shows in the end.
-/
import Mathlib

open List

namespace EloqKV.Lib.Ledger

inductive Charge where
  | add (n : Nat)
  | sub (n : Nat)
  | reset (n : Nat)
  deriving DecidableEq, Repr

variable (total : Nat)

def book : Charge → Option Nat
  | .add n => some (total + n)
  | .sub n => if n ≤ total then some (total - n) else none
  | .reset n => some n

def settle : Charge → Nat
  | .add n => total + n
  | .sub n => total - n
  | .reset n => n

def bookAll (charges : List Charge) : Option Nat := charges.foldlM book total

def settleAll (charges : List Charge) : Nat := charges.foldl settle total

@[simp] lemma bookAll_nil : bookAll total [] = some total := rfl

lemma bookAll_cons (c : Charge) (charges : List Charge) :
    bookAll total (c :: charges) = (book total c).bind (bookAll · charges) := rfl

lemma bookAll_append (charges charges' : List Charge) :
    bookAll total (charges ++ charges') = (bookAll total charges).bind (bookAll · charges') := by
  rw [bookAll, foldlM_append]
  rfl

@[simp] lemma settleAll_nil : settleAll total [] = total := rfl

@[simp] lemma settleAll_cons (c : Charge) (charges : List Charge) :
    settleAll total (c :: charges) = settleAll (settle total c) charges := rfl

lemma settleAll_append (charges charges' : List Charge) :
    settleAll total (charges ++ charges') = settleAll (settleAll total charges) charges' :=
  foldl_append

lemma settleAll_subs {α : Type} (amount : α → Nat) (items : List α) (total : Nat) :
    settleAll total (items.map fun i => .sub (amount i)) = total - (items.map amount).sum := by
  induction items generalizing total with
  | nil => simp
  | cons i items ih =>
    rw [map_cons, settleAll_cons, ih, settle, map_cons, sum_cons]
    omega

lemma settleAll_adds {α : Type} (amount : α → Nat) (items : List α) (total : Nat) :
    settleAll total (items.map fun i => .add (amount i)) = total + (items.map amount).sum := by
  induction items generalizing total with
  | nil => simp
  | cons i items ih =>
    rw [map_cons, settleAll_cons, ih, settle, map_cons, sum_cons]
    omega

def Charge.IsSub : Charge → Prop
  | .sub _ => True
  | _ => False

variable {charges : List Charge}

lemma bookAll_of_no_sub (h : ∀ c ∈ charges, ¬c.IsSub) (total : Nat) :
    bookAll total charges = some (settleAll total charges) := by
  induction charges generalizing total with
  | nil => rfl
  | cons c charges ih =>
    have hrest := ih fun c' hc' => h c' (mem_cons_of_mem c hc')
    rw [settleAll_cons, ← hrest]
    cases c with
    | add n => rfl
    | reset n => rfl
    | sub n => exact absurd trivial (h (.sub n) mem_cons_self)

lemma settleAll_zero_of_subs (h : ∀ c ∈ charges, c.IsSub) : settleAll 0 charges = 0 := by
  induction charges with
  | nil => rfl
  | cons c charges ih =>
    have hc := h c mem_cons_self
    cases c with
    | add n => exact absurd hc id
    | reset n => exact absurd hc id
    | sub n =>
      rw [settleAll_cons, settle, Nat.zero_sub]
      exact ih fun c' hc' => h c' (mem_cons_of_mem _ hc')

lemma bookAll_of_subs (h : ∀ c ∈ charges, c.IsSub) {total : Nat}
    (hpos : 0 < settleAll total charges) :
    bookAll total charges = some (settleAll total charges) := by
  induction charges generalizing total with
  | nil => rfl
  | cons c charges ih =>
    have hc := h c mem_cons_self
    have hrest : ∀ c' ∈ charges, c'.IsSub := fun c' hc' => h c' (mem_cons_of_mem c hc')
    cases c with
    | add n => exact absurd hc id
    | reset n => exact absurd hc id
    | sub n =>
      rw [settleAll_cons] at hpos ⊢
      rw [bookAll_cons]
      by_cases hn : n ≤ total
      · rw [book, if_pos hn]
        exact ih hrest hpos
      · -- a subtraction that is cut off leaves zero, and then zero is what remains
        have hzero : settle total (.sub n) = 0 := Nat.sub_eq_zero_of_le (by omega)
        rw [hzero, settleAll_zero_of_subs hrest] at hpos
        exact absurd hpos (Nat.lt_irrefl 0)

/-! ## Loops -/

section Loops

variable {σ ι : Type} {step : σ → ι → σ} {charge : σ → ι → List Charge} {total : σ → Nat}

/-- The changes a loop makes, each round in the state it finds. -/
def along (step : σ → ι → σ) (charge : σ → ι → List Charge) : σ → List ι → List Charge
  | _, [] => []
  | s, i :: items => charge s i ++ along step charge (step s i) items

lemma settleAll_along (hround : ∀ s i, settleAll (total s) (charge s i) = total (step s i))
    (items : List ι) (s : σ) :
    settleAll (total s) (along step charge s items) = total (items.foldl step s) := by
  induction items generalizing s with
  | nil => rfl
  | cons i items ih => rw [along, settleAll_append, hround, ih, foldl_cons]

lemma forall_along {p : Charge → Prop} (hround : ∀ s i, ∀ c ∈ charge s i, p c)
    (items : List ι) (s : σ) : ∀ c ∈ along step charge s items, p c := by
  induction items generalizing s with
  | nil => exact nofun
  | cons i items ih =>
    intro c hc
    rcases mem_append.mp hc with hc | hc
    · exact hround s i c hc
    · exact ih (step s i) c hc

lemma bookAll_along (inv : σ → Prop)
    (hround : ∀ s i, inv s →
      inv (step s i) ∧ bookAll (total s) (charge s i) = some (total (step s i)))
    (items : List ι) {s : σ} (hs : inv s) :
    bookAll (total s) (along step charge s items) = some (total (items.foldl step s)) := by
  induction items generalizing s with
  | nil => rfl
  | cons i items ih =>
    obtain ⟨hnext, hbook⟩ := hround s i hs
    rw [along, bookAll_append, hbook, Option.bind_some, ih hnext, foldl_cons]

end Loops

end EloqKV.Lib.Ledger
