/-
  Union, intersection and difference of listed sets.

  An intersection keeps the members of one list that all others have; a union collects values under
  their members, combining those that meet; and an intersection with values counts for every member
  of one list in how many lists it was seen, and reports it when the last list has it.
-/
import Mathlib

open List

namespace EloqKV.Lib.SetAlgebra

variable {α β : Type*} [DecidableEq α]

/-! ## One list against the others -/

omit [DecidableEq α] in
lemma forall_mem_iff_eraseIdx {l : List α} {p : α → Prop} {i : Nat} (hi : i < l.length) :
    (∀ a ∈ l, p a) ↔ p l[i] ∧ ∀ a ∈ l.eraseIdx i, p a := by
  have hperm := getElem_cons_eraseIdx_perm hi
  rw [← forall_mem_cons]
  exact ⟨fun h a ha => h a (hperm.mem_iff.mp ha), fun h a ha => h a (hperm.mem_iff.mpr ha)⟩

/-- The members of the first list that each of the others has. -/
def retain (base : List α) (others : List (List α)) : List α :=
  others.foldl (fun base other => base.filter (· ∈ other)) base

lemma mem_retain (base : List α) (others : List (List α)) (a : α) :
    a ∈ retain base others ↔ a ∈ base ∧ ∀ other ∈ others, a ∈ other := by
  unfold retain
  induction others generalizing base with
  | nil => simp
  | cons other others ih =>
    rw [foldl_cons, ih, mem_filter, forall_mem_cons, decide_eq_true_eq, and_assoc]

lemma retain_sublist (base : List α) (others : List (List α)) :
    (retain base others).Sublist base := by
  induction others generalizing base with
  | nil => exact .refl _
  | cons other others ih => exact (ih _).trans filter_sublist

/-- The position of the first of the smallest numbers, from a first choice on. -/
def smallestFrom (i best bestSize : Nat) : List Nat → Nat
  | [] => best
  | size :: sizes =>
    if size < bestSize then smallestFrom (i + 1) i size sizes
    else smallestFrom (i + 1) best bestSize sizes

def smallestIndex : List Nat → Nat
  | [] => 0
  | size :: sizes => smallestFrom 1 0 size sizes

lemma smallestFrom_lt (sizes : List Nat) {i best bestSize : Nat} (hbest : best < i) :
    smallestFrom i best bestSize sizes < i + sizes.length := by
  induction sizes generalizing i best bestSize with
  | nil => exact hbest
  | cons size sizes ih =>
    rw [smallestFrom, length_cons, ← Nat.add_assoc, Nat.add_right_comm]
    split
    · exact ih (Nat.lt_succ_self i)
    · exact ih (Nat.lt_succ_of_lt hbest)

lemma smallestIndex_lt {sizes : List Nat} (hne : sizes ≠ []) :
    smallestIndex sizes < sizes.length := by
  cases sizes with
  | nil => exact absurd rfl hne
  | cons size sizes =>
    rw [length_cons, Nat.add_comm]
    exact smallestFrom_lt sizes Nat.zero_lt_one

/-! ## Collecting values -/

section Collect

variable (combine : β → β → β)

/-- A value comes in under its member, or is combined with the one that is there. -/
def collect (vals : AList fun _ : α => β) (entry : α × β) : AList fun _ : α => β :=
  match vals.lookup entry.1 with
  | none => vals.insert entry.1 entry.2
  | some old => vals.insert entry.1 (combine old entry.2)

lemma mem_keys_foldl_collect (entries : List (α × β)) (vals : AList fun _ : α => β) (a : α) :
    a ∈ (entries.foldl (collect combine) vals).keys ↔ a ∈ entries.map Prod.fst ∨ a ∈ vals.keys := by
  induction entries generalizing vals with
  | nil => simp
  | cons entry entries ih =>
    have hentry : a ∈ (collect combine vals entry).keys ↔ a = entry.1 ∨ a ∈ vals.keys := by
      unfold collect
      split <;> exact AList.mem_insert vals
    rw [foldl_cons, ih, hentry, map_cons, mem_cons]
    tauto

end Collect

/-! ## Counting occurrences -/

/-- The values so far with their numbers of lists, and the members all lists have. -/
structure Tally (α β : Type*) where
  seen : AList fun _ : α => β × Nat
  results : List (α × β)

namespace Tally

def start (entries : List (α × β)) : Tally α β where
  seen := entries.foldl (fun seen entry =>
    if entry.1 ∈ seen then seen else seen.insert entry.1 (entry.2, 1)) ∅
  results := []

variable (combine : β → β → β) (total : Nat)

/-- A member of the next list counts if all lists before had it. -/
def visit (processed : Nat) (t : Tally α β) (entry : α × β) : Tally α β :=
  match t.seen.lookup entry.1 with
  | none => t
  | some (value, n) =>
    if n ≠ processed then t
    else
      let value := combine value entry.2
      { seen := t.seen.insert entry.1 (value, n + 1)
        results := if n + 1 = total then t.results ++ [(entry.1, value)] else t.results }

def run (processed : Nat) (t : Tally α β) : List (List (α × β)) → Tally α β
  | [] => t
  | entries :: rest => run (processed + 1) (entries.foldl (visit combine total processed) t) rest

/-- In how many lists a member was seen. -/
def count (t : Tally α β) (a : α) : Nat := ((t.seen.lookup a).map Prod.snd).getD 0

/-- The results are the members seen in all lists, each once. -/
def Reports (t : Tally α β) : Prop :=
  (t.results.map Prod.fst).Nodup ∧ ∀ a, a ∈ t.results.map Prod.fst ↔ t.count a = total

/-! ### The first list -/

lemma count_start (entries : List (α × β)) (a : α) :
    (start entries).count a = if a ∈ entries.map Prod.fst then 1 else 0 := by
  have hfold : ∀ (entries : List (α × β)) (seen : AList fun _ : α => β × Nat),
      (((entries.foldl (fun seen entry =>
        if entry.1 ∈ seen then seen else seen.insert entry.1 (entry.2, 1)) seen).lookup a).map
          Prod.snd).getD 0
        = if a ∈ seen then ((seen.lookup a).map Prod.snd).getD 0
          else if a ∈ entries.map Prod.fst then 1 else 0 := by
    intro entries
    induction entries with
    | nil =>
      intro seen
      by_cases hmem : a ∈ seen
      · simp [hmem]
      · simp [hmem, AList.lookup_eq_none.mpr hmem]
    | cons entry entries ih =>
      intro seen
      rw [foldl_cons, ih]
      by_cases hentry : entry.1 ∈ seen
      · rw [if_pos hentry]
        by_cases hmem : a ∈ seen
        · rw [if_pos hmem, if_pos hmem]
        · have hne : a ≠ entry.1 := fun heq => hmem (heq ▸ hentry)
          simp only [hmem, if_false, map_cons, mem_cons, hne, false_or]
      · rw [if_neg hentry]
        by_cases heq : a = entry.1
        · subst heq
          simp [hentry]
        · simp only [AList.mem_insert, heq, false_or, map_cons, mem_cons,
            AList.lookup_insert_ne heq]
  have h := hfold entries ∅
  exact h

lemma reports_start (entries : List (α × β)) (htotal : 2 ≤ total) :
    (start entries).Reports total := by
  refine ⟨nodup_nil, fun a => iff_of_false not_mem_nil fun hcount => ?_⟩
  rw [count_start] at hcount
  split at hcount <;> omega

/-! ### One entry -/

variable {processed : Nat} {t : Tally α β}

lemma visit_of_ne {entry : α × β}
    (hne : t.count entry.1 ≠ processed) : t.visit combine total processed entry = t := by
  unfold visit
  cases hlookup : t.seen.lookup entry.1 with
  | none => rfl
  | some found =>
    have hcount : t.count entry.1 = found.2 := by rw [count, hlookup]; rfl
    exact if_pos (hcount ▸ hne)

variable (hprocessed : 0 < processed)
include hprocessed

lemma visit_of_eq {entry : α × β}
    (heq : t.count entry.1 = processed) : ∃ value, t.visit combine total processed entry =
        { seen := t.seen.insert entry.1 (value, processed + 1)
          results := if processed + 1 = total then t.results ++ [(entry.1, value)]
            else t.results } := by
  unfold visit
  cases hlookup : t.seen.lookup entry.1 with
  | none =>
    rw [count, hlookup] at heq
    exact absurd heq (Nat.ne_of_lt hprocessed)
  | some found =>
    have hfound : found.2 = processed := by
      rw [← heq, count, hlookup]
      rfl
    refine ⟨combine found.1 entry.2, ?_⟩
    simp [hfound]

lemma count_visit (t : Tally α β) (entry : α × β) (a : α) :
    (t.visit combine total processed entry).count a
      = if a = entry.1 ∧ t.count a = processed then processed + 1 else t.count a := by
  by_cases hcount : t.count entry.1 = processed
  · obtain ⟨value, hvisit⟩ := visit_of_eq combine total hprocessed hcount
    rw [hvisit]
    by_cases heq : a = entry.1
    · subst heq
      rw [count, AList.lookup_insert, if_pos ⟨rfl, hcount⟩]
      rfl
    · rw [count, AList.lookup_insert_ne heq, if_neg fun h => heq h.1]
      rfl
  · have hno : ¬(a = entry.1 ∧ t.count a = processed) := by
      rintro ⟨rfl, h⟩
      exact hcount h
    rw [visit_of_ne combine total hcount, if_neg hno]

lemma reports_visit (hlast : processed < total) (ht : t.Reports total) (entry : α × β) :
    (t.visit combine total processed entry).Reports total := by
  by_cases hentry : t.count entry.1 = processed
  · have hcount := count_visit combine total hprocessed t entry
    obtain ⟨value, hvisit⟩ := visit_of_eq combine total hprocessed hentry
    rw [hvisit] at hcount ⊢
    by_cases htotal : processed + 1 = total
    · -- the member is reported now, and was not before
      have hfresh : entry.1 ∉ t.results.map Prod.fst := by
        rw [ht.2, hentry]
        exact Nat.ne_of_lt hlast
      rw [if_pos htotal] at hcount ⊢
      have hkeys : (t.results ++ [(entry.1, value)]).map Prod.fst
          = t.results.map Prod.fst ++ [entry.1] := by
        rw [map_append, map_cons, map_nil]
      refine ⟨?_, fun a => ?_⟩
      · rw [hkeys]
        exact List.Nodup.append ht.1 (nodup_singleton _) (by simpa using hfresh)
      · rw [hkeys, hcount, mem_append, ht.2]
        by_cases heq : a = entry.1
        · subst heq
          simp [hentry, htotal]
        · simp [heq]
    · rw [if_neg htotal] at hcount ⊢
      refine ⟨ht.1, fun a => ?_⟩
      rw [hcount, ht.2]
      by_cases heq : a = entry.1 ∧ t.count a = processed
      · rw [if_pos heq, heq.2]
        exact iff_of_false (Nat.ne_of_lt hlast) htotal
      · rw [if_neg heq]
  · rw [visit_of_ne combine total hentry]
    exact ht

/-! ### One list -/

lemma count_foldl_visit (entries : List (α × β)) (t : Tally α β) (a : α) :
    (entries.foldl (visit combine total processed) t).count a
      = if a ∈ entries.map Prod.fst ∧ t.count a = processed then processed + 1 else t.count a := by
  induction entries generalizing t with
  | nil => simp
  | cons entry entries ih =>
    have hvisit := count_visit combine total hprocessed t entry a
    rw [foldl_cons, ih]
    by_cases heq : a = entry.1
    · -- the entry counts for its member, and no later one does
      by_cases hcount : t.count a = processed
      · rw [if_pos ⟨heq, hcount⟩] at hvisit
        rw [hvisit, if_neg fun h => absurd h.2 (Nat.succ_ne_self _),
          if_pos ⟨heq ▸ mem_cons_self, hcount⟩]
      · rw [if_neg fun h => hcount h.2] at hvisit
        rw [hvisit, if_neg fun h => hcount h.2, if_neg fun h => hcount h.2]
    · rw [if_neg fun h => heq h.1] at hvisit
      have hmem : a ∈ (entry :: entries).map Prod.fst ↔ a ∈ entries.map Prod.fst := by
        rw [map_cons, mem_cons, or_iff_right heq]
      simp only [hvisit, hmem]

lemma reports_foldl_visit (hlast : processed < total) (entries : List (α × β))
    (ht : t.Reports total) : (entries.foldl (visit combine total processed) t).Reports total := by
  induction entries generalizing t with
  | nil => exact ht
  | cons entry entries ih => exact ih (reports_visit combine total hprocessed hlast ht entry)

/-! ### All lists -/

lemma reports_run {lists : List (List (α × β))} (hlast : processed + lists.length ≤ total)
    (ht : t.Reports total) : (t.run combine total processed lists).Reports total := by
  induction lists generalizing t processed with
  | nil => exact ht
  | cons entries rest ih =>
    rw [length_cons] at hlast
    refine ih (Nat.succ_pos _) (by omega) ?_
    exact reports_foldl_visit combine total hprocessed (by omega) entries ht

lemma count_run (lists : List (List (α × β))) {a : α} (hle : t.count a ≤ processed) :
    (t.run combine total processed lists).count a = processed + lists.length ↔
      t.count a = processed ∧ ∀ entries ∈ lists, a ∈ entries.map Prod.fst := by
  induction lists generalizing t processed with
  | nil => simp [run]
  | cons entries rest ih =>
    have hcount := count_foldl_visit combine total hprocessed entries t a
    have hnext : (entries.foldl (visit combine total processed) t).count a ≤ processed + 1 := by
      rw [hcount]
      split <;> omega
    rw [run, length_cons, ← Nat.add_assoc, Nat.add_right_comm, ih (Nat.succ_pos _) hnext,
      hcount, forall_mem_cons]
    by_cases hmem : a ∈ entries.map Prod.fst ∧ t.count a = processed
    · rw [if_pos hmem]
      exact ⟨fun h => ⟨hmem.2, hmem.1, h.2⟩, fun h => ⟨rfl, h.2.2⟩⟩
    · rw [if_neg hmem]
      exact ⟨fun h => by omega, fun h => absurd ⟨h.2.1, h.1⟩ hmem⟩

omit hprocessed

/-- **What counting reports**: the members of all lists, each once, if there are at least two. -/
theorem run_start (first : List (α × β)) {lists : List (List (α × β))} (hlists : lists ≠ []) :
    let results := ((start first).run combine (1 + lists.length) 1 lists).results
    (results.map Prod.fst).Nodup ∧ ∀ a, a ∈ results.map Prod.fst ↔
      a ∈ first.map Prod.fst ∧ ∀ entries ∈ lists, a ∈ entries.map Prod.fst := by
  have htwo : 2 ≤ 1 + lists.length := by
    have := length_pos_of_ne_nil hlists
    omega
  obtain ⟨hnodup, hmem⟩ := reports_run combine (1 + lists.length) Nat.zero_lt_one le_rfl
    (reports_start (1 + lists.length) first htwo)
  refine ⟨hnodup, fun a => ?_⟩
  have hle : (start first).count a ≤ 1 := by
    rw [count_start]
    split <;> omega
  rw [hmem, count_run combine _ Nat.zero_lt_one lists hle, count_start]
  by_cases hfirst : a ∈ first.map Prod.fst
  · simp [hfirst]
  · simp [hfirst]

end Tally

end EloqKV.Lib.SetAlgebra
