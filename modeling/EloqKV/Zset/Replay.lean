/-
  A replayed ZADD against the owner's.

  The filters of ZADD may forget or mistake a member when they run on strings that are stored
  in the vector.  Such an error is visible in the scores a list of elements leaves, unless a later
  element of the same member covers it up.
-/
import EloqKV.Zset.Invariant

open List Function

namespace EloqKV.Zset

open Option

/-! ## The scores elements leave -/

section Scores

variable {S : Type} (scores : Bytes → Option S) (es : List (Element S))

/-- The scores after elements have been stored one after the other. -/
def stored : Bytes → Option S :=
  es.foldl (fun scores e => update scores e.2.stringView (some e.1)) scores

lemma stored_append (es es' : List (Element S)) :
    stored scores (es ++ es') = stored (stored scores es) es' :=
  foldl_append

lemma stored_cases (m : Bytes) :
    stored scores es m = scores m ∨
      ∃ e ∈ es, e.2.stringView = m ∧ stored scores es m = some e.1 := by
  induction es generalizing scores with
  | nil => exact Or.inl rfl
  | cons e es ih =>
    rcases ih (update scores e.2.stringView (some e.1)) with hold | ⟨x, hx, hm, hscore⟩
    · by_cases hm : e.2.stringView = m
      · refine Or.inr ⟨e, mem_cons_self, hm, hold.trans ?_⟩
        rw [hm, update_self]
      · exact Or.inl (hold.trans (update_of_ne (Ne.symm hm) _ _))
    · exact Or.inr ⟨x, mem_cons_of_mem _ hx, hm, hscore⟩

lemma stored_of_ne {m : Bytes}
    (hes : ∀ e ∈ es, e.2.stringView ≠ m) : stored scores es m = scores m := by
  rcases stored_cases scores es m with hold | ⟨e, he, hm, -⟩
  · exact hold
  · exact absurd hm (hes e he)

lemma exists_stored_cons (e : Element S) (es : List (Element S)) :
    ∃ x ∈ e :: es, x.2.stringView = e.2.stringView ∧
      stored scores (e :: es) e.2.stringView = some x.1 := by
  have hcons : stored scores (e :: es) =
      stored (update scores e.2.stringView (some e.1)) es := rfl
  rcases stored_cases (update scores e.2.stringView (some e.1)) es e.2.stringView with
    hold | ⟨x, hx, hm, hscore⟩
  · refine ⟨e, mem_cons_self, rfl, ?_⟩
    rw [hcons, hold, update_self]
  · exact ⟨x, mem_cons_of_mem _ hx, hm, hcons ▸ hscore⟩

lemma admitted_ne (z : Bytes → Option S) (rule : Rule S) (es : List (Element S))
    (last : Bytes → Option S) {m : Bytes}
    (hrefuses : ∀ x ∈ es, x.2.stringView = m → rule.accepts (last m) (z m) x.1 = false) :
    ∀ x ∈ admitted z rule last es, x.2.stringView ≠ m := by
  induction es generalizing last with
  | nil => exact nofun
  | cons e es ih =>
    have hrest := fun x hx => hrefuses x (mem_cons_of_mem _ hx)
    unfold admitted
    split
    · next hacc =>
      have hne : e.2.stringView ≠ m := by
        rintro rfl
        rw [hrefuses e mem_cons_self rfl] at hacc
        exact absurd hacc (by decide)
      have htail := ih (update last e.2.stringView (some e.1)) (by
        rw [update_of_ne (Ne.symm hne)]
        exact hrest)
      exact forall_mem_cons.2 ⟨hne, htail⟩
    · exact ih last hrest

end Scores

/-! ## Errors that stay visible -/

section Errors

variable {S : Type} (z : Bytes → Option S)

/-- Whether some look-up could lead to another judgement. -/
def Doubtful (rule : Rule S) (last : Bytes → Option S) (e : Element S) : Prop :=
  ∃ used, rule.accepts used (z e.2.stringView) e.1 ≠
    rule.accepts (last e.2.stringView) (z e.2.stringView) e.1

/-- Nothing behind `e` makes good for a wrong judgement of `e`: the filter rightly refuses the
later elements of its member, and none of them has the score the member should end with. -/
def Telling (rule : Rule S) (last : Bytes → Option S) (e : Element S)
    (es : List (Element S)) : Prop :=
  let m := e.2.stringView
  if rule.accepts (last m) (z m) e.1 then
    (last m <|> z m) ≠ some e.1 ∧
      ∀ x ∈ es, x.2.stringView = m → x.1 ≠ e.1 ∧ rule.accepts (some e.1) (z m) x.1 = false
  else
    (∀ x ∈ e :: es, x.2.stringView = m → (last m <|> z m) ≠ some x.1) ∧
      ∀ x ∈ es, x.2.stringView = m → rule.accepts (last m) (z m) x.1 = false

/-- Every judgement that could go wrong is telling. -/
def Unmasked (z : Bytes → Option S) (rule : Rule S) :
    (Bytes → Option S) → List (Element S) → Prop
  | _, [] => True
  | last, e :: es =>
    (Doubtful z rule last e → Telling z rule last e es) ∧
      if rule.accepts (last e.2.stringView) (z e.2.stringView) e.1 then
        Unmasked z rule (update last e.2.stringView (some e.1)) es
      else Unmasked z rule last es

variable {last : Bytes → Option S}

lemma stored_ne_of_dropped {z : Bytes → Option S} {rule : Rule S}
    {e : Element S} {es l : List (Element S)} (htelling : Telling z rule last e es)
    (hacc : rule.accepts (last e.2.stringView) (z e.2.stringView) e.1 = true)
    (hl : l.Sublist es) {scores : Bytes → Option S}
    (hscores : scores e.2.stringView = (last e.2.stringView <|> z e.2.stringView)) :
    stored scores l e.2.stringView ≠
      stored scores (e :: admitted z rule (update last e.2.stringView (some e.1)) es)
        e.2.stringView := by
  simp only [Telling, hacc, if_true] at htelling
  obtain ⟨hcur, hlater⟩ := htelling
  have howner : stored scores
      (e :: admitted z rule (update last e.2.stringView (some e.1)) es)
        e.2.stringView = some e.1 := by
    refine (stored_of_ne _ _ (admitted_ne z rule es _ fun x hx hm => ?_)).trans (update_self _ _ _)
    rw [update_self]
    exact (hlater x hx hm).2
  rw [howner]
  rcases stored_cases scores l e.2.stringView with hold | ⟨x, hx, hm, hscore⟩
  · rw [hold, hscores]
    exact hcur
  · rw [hscore]
    exact fun heq => (hlater x (hl.subset hx) hm).1 (some.inj heq)

lemma stored_ne_of_kept {z : Bytes → Option S} {rule : Rule S}
    {e : Element S} {es l : List (Element S)} (htelling : Telling z rule last e es)
    (hacc : ¬rule.accepts (last e.2.stringView) (z e.2.stringView) e.1 = true)
    (hl : l.Sublist es) {scores : Bytes → Option S}
    (hscores : scores e.2.stringView = (last e.2.stringView <|> z e.2.stringView)) :
    stored scores (e :: l) e.2.stringView ≠
      stored scores (admitted z rule last es) e.2.stringView := by
  simp only [Telling, hacc] at htelling
  obtain ⟨hcur, hlater⟩ := htelling
  have howner : stored scores (admitted z rule last es) e.2.stringView =
      (last e.2.stringView <|> z e.2.stringView) :=
    (stored_of_ne _ _ (admitted_ne z rule es last hlater)).trans hscores
  obtain ⟨x, hx, hm, hscore⟩ := exists_stored_cons scores e l
  rw [howner, hscore]
  exact (hcur x ((hl.cons_cons e).subset hx) hm).symm

/-- **If no error is covered up, a filter that leaves the right scores has made none.** -/
theorem recognised_of_stored_eq (host : Host) (z : Bytes → Option S) (rule : Rule S)
    (es : List (Element S)) (last : Bytes → Option S) (it : Nat) (st : FilterState S)
    (hlast : ∀ m, stored z st.kept m = (last m <|> z m)) (hunmasked : Unmasked z rule last es)
    (heq : stored z (filterLoop host z rule it es st).kept =
      stored z (st.kept ++ admitted z rule last es)) :
    Recognised host z rule last st.raw st.used it st.kept.length es := by
  -- up to the first wrong judgement the loop and the filter are in step
  induction es generalizing last it st with
  | nil => trivial
  | cons e es ih =>
    obtain ⟨htelling, hrest⟩ := hunmasked
    obtain ⟨l, hl, hkept, -⟩ := filterLoop_spec host z rule (it + 1) es
      (filterStep host z rule it e st)
    rw [filterLoop] at heq
    by_cases hused : rule.accepts (findUsed host st.raw st.used e.2.stringView)
        (z e.2.stringView) e.1
    · have hstep : (filterStep host z rule it e st).kept = st.kept ++ [e] := by
        simp [filterStep, hused]
      by_cases hacc : rule.accepts (last e.2.stringView) (z e.2.stringView) e.1
      · rw [if_pos hacc] at hrest
        refine ⟨hused.trans hacc.symm, ?_⟩
        rw [if_pos hacc]
        have hnext := ih (update last e.2.stringView (some e.1)) (it + 1)
          (filterStep host z rule it e st) (fun m => ?_) hrest ?_
        · simpa [filterStep, hused] using hnext
        · rw [hstep]
          by_cases hm : m = e.2.stringView
          · simp [stored, hm]
          · simpa [stored, update_of_ne hm] using hlast m
        · rw [heq, hstep, admitted, if_pos hacc, append_assoc, singleton_append]
      · -- kept by mistake
        have htell := htelling ⟨_, by rw [hused]; exact fun h => hacc h.symm⟩
        rw [hkept, hstep, append_assoc, singleton_append, admitted, if_neg hacc,
          stored_append, stored_append] at heq
        exact absurd (congrFun heq e.2.stringView) (stored_ne_of_kept htell hacc hl (hlast _))
    · have hstep : filterStep host z rule it e st = st := by
        simp [filterStep, hused]
      rw [hstep] at heq hkept
      by_cases hacc : rule.accepts (last e.2.stringView) (z e.2.stringView) e.1
      · -- dropped by mistake
        have htell := htelling ⟨_, fun h => hused (h.trans hacc)⟩
        rw [hkept, admitted, if_pos hacc, stored_append, stored_append] at heq
        exact absurd (congrFun heq e.2.stringView) (stored_ne_of_dropped htell hacc hl (hlast _))
      · rw [if_neg hacc] at hrest
        refine ⟨?_, ?_⟩
        · rw [Bool.eq_false_iff.2 hused, Bool.eq_false_iff.2 hacc]
        · rw [if_neg hacc]
          refine ih last (it + 1) st hlast hrest ?_
          rw [heq, admitted, if_neg hacc]

/-! ### The four filters -/

/-- XX can only be wrong about a member that is not there, and never takes it back. -/
lemma unmasked_zAddXX [DecidableEq S] (ch : Bool) (es : List (Element S))
    (hlast : ∀ m, z m = none → last m = none) : Unmasked z (zAddXX ch) last es := by
  induction es generalizing last with
  | nil => trivial
  | cons e es ih =>
    refine ⟨?_, ?_⟩
    · rintro ⟨used, hne⟩
      cases hz : z e.2.stringView with
      | some s => simp [zAddXX, hz] at hne
      | none =>
        have hnone := hlast _ hz
        simp [Telling, zAddXX, hz, hnone]
    · split
      · next hacc =>
        refine ih fun m hm => ?_
        have hne : m ≠ e.2.stringView := by
          rintro rfl
          simp [zAddXX, hm, hlast _ hm] at hacc
        rw [update_of_ne hne]
        exact hlast m hm
      · exact ih hlast

/-- NX takes one element of a member, so an error shows if its listed scores differ. -/
lemma unmasked_zAddNX (es : List (Element S))
    (hes : es.Pairwise fun a b => a.2.stringView = b.2.stringView → a.1 ≠ b.1)
    (hlast : ∀ x ∈ es, last x.2.stringView ≠ some x.1) : Unmasked z zAddNX last es := by
  induction es generalizing last with
  | nil => trivial
  | cons e es ih =>
    obtain ⟨he, hrest⟩ := pairwise_cons.1 hes
    have hlater : ∀ x ∈ es, last x.2.stringView ≠ some x.1 := fun x hx =>
      hlast x (mem_cons_of_mem _ hx)
    refine ⟨?_, ?_⟩
    · rintro ⟨used, hne⟩
      cases hz : z e.2.stringView with
      | some s => simp [zAddNX, hz] at hne
      | none =>
        cases hused : last e.2.stringView with
        | none =>
          simp only [Telling, zAddNX, hz, hused]
          exact ⟨by simp, fun x hx hm => ⟨(he x hx hm.symm).symm, rfl⟩⟩
        | some s =>
          simp only [Telling, zAddNX, hz, hused]
          exact ⟨fun x hx hm => by simpa [hm, hused] using hlast x hx, fun _ _ _ => rfl⟩
    · split
      · refine ih hrest fun x hx => ?_
        by_cases hm : x.2.stringView = e.2.stringView
        · rw [hm, update_self]
          exact fun heq => he x hx hm.symm (some.inj heq)
        · rw [update_of_ne hm]
          exact hlater x hx
      · exact ih hrest hlater

/-- LT and GT take the best score, so an error shows if the scores of a member are listed from
the best to the worst and the sorted set has none of them. -/
lemma unmasked_zAddCompare {better : S → S → Bool} (ch xx : Bool)
    (hasymm : ∀ a b, better a b = true → better b a = false)
    (htrans : ∀ a b c, better a b = true → better b c = true → better a c = true)
    (es : List (Element S))
    (hes : es.Pairwise fun a b => a.2.stringView = b.2.stringView → better a.1 b.1 = true)
    (hz : ∀ x ∈ es, z x.2.stringView ≠ some x.1)
    (hlast : ∀ x ∈ es, ∀ s, last x.2.stringView = some s → better s x.1 = true) :
    Unmasked z (zAddCompare better ch xx) last es := by
  have hirrefl : ∀ a b, better a b = true → a ≠ b := by
    rintro a _ hab rfl
    rw [hasymm a a hab] at hab
    exact absurd hab (by decide)
  induction es generalizing last with
  | nil => trivial
  | cons e es ih =>
    obtain ⟨he, hrest⟩ := pairwise_cons.1 hes
    obtain ⟨hze, hzes⟩ := forall_mem_cons.1 hz
    obtain ⟨hlaste, hlastes⟩ := forall_mem_cons.1 hlast
    refine ⟨fun _ => ?_, ?_⟩
    · cases hused : last e.2.stringView with
      | some s =>
        -- a better score was accepted before: this element and the later ones are refused
        have hacc : ¬(zAddCompare better ch xx).accepts (some s) (z e.2.stringView) e.1 := by
          simp [zAddCompare, hasymm _ _ (hlaste s hused)]
        simp only [Telling, hused, hacc]
        refine ⟨fun x hx hm => ?_, fun x hx hm => ?_⟩
        · have hbetter := hlast x hx s (hm ▸ hused)
          simpa using hirrefl _ _ hbetter
        · simp [zAddCompare, hasymm _ _ (hlastes x hx s (hm ▸ hused))]
      | none =>
        by_cases hacc : (zAddCompare better ch xx).accepts none (z e.2.stringView) e.1
        · simp only [Telling, hused, hacc, if_true]
          refine ⟨by simpa using hze, fun x hx hm => ⟨(hirrefl _ _ (he x hx hm.symm)).symm, ?_⟩⟩
          simp [zAddCompare, hasymm _ _ (he x hx hm.symm)]
        · simp only [Telling, hused, hacc]
          refine ⟨fun x hx hm => ?_, fun x hx hm => ?_⟩
          · have hstored := hz x hx
            rw [hm] at hstored
            simpa using hstored
          · -- a worse score than one that is refused is refused
            cases hstored : z e.2.stringView with
            | none => simpa [zAddCompare, hstored] using hacc
            | some s =>
              have hno : ¬better e.1 s = true := by simpa [zAddCompare, hstored] using hacc
              have hworse : ¬better x.1 s = true := fun h =>
                hno (htrans _ _ _ (he x hx hm.symm) h)
              simp [zAddCompare, hworse]
    · split
      · refine ih hrest hzes fun x hx s hs => ?_
        by_cases hm : x.2.stringView = e.2.stringView
        · rw [hm, update_self] at hs
          cases hs
          exact he x hx hm.symm
        · rw [update_of_ne hm] at hs
          exact hlastes x hx s hs
      · exact ih hrest hzes hlastes

end Errors

/-! ## The scores of a sorted set -/

section Commit

variable {S : Type} [LinearOrder S]

namespace RedisZsetObject

variable {z : RedisZsetObject S}

lemma Coherent.score_eq_some (hz : z.Coherent) {sv : Bytes} {s : S} :
    z.score sv = some s ↔ (sv, s) ∈ z.pairs := by
  simp only [score, pairs, map_eq_some_iff, hz.find_eq_some, List.mem_map, Prod.mk.injEq]
  constructor
  · rintro ⟨m, ⟨n, hn, hfield, rfl⟩, hscore⟩
    exact ⟨n, hn, hfield, hscore⟩
  · rintro ⟨n, hn, hfield, hscore⟩
    exact ⟨n.entry, ⟨n, hn, hfield, rfl⟩, hscore⟩

lemma Coherent.score_congr {z z' : RedisZsetObject S} (hz : z.Coherent) (hz' : z'.Coherent)
    (h : z.pairs = z'.pairs) : z.score = z'.score := by
  funext sv
  refine ext fun s => ?_
  rw [hz.score_eq_some, hz'.score_eq_some, h]

lemma Coherent.mem_eraseEntry (hz : z.Coherent) {sv : Bytes}
    {m : MapEntry S} (hm : z.find sv = some m) (n : ZNode S) :
    n ∈ (z.eraseEntry sv m).zOrderedSet ↔ n ∈ z.zOrderedSet ∧ n.field ≠ sv := by
  obtain ⟨hcoh, hout⟩ := hz.eraseEntry hm
  have hfresh := (nodup_cons.mp (hout.nodup_iff.mp hz.distinct)).1
  constructor
  · intro hn
    refine ⟨eraseP_sublist.subset hn, fun hfield => hfresh ?_⟩
    exact mem_map.2 ⟨n, hn, hfield⟩
  · rintro ⟨hn, hfield⟩
    exact (mem_eraseP_of_neg (by simp [hfield])).2 hn

/-- An update is seen at its own member alone, for members are listed once. -/
lemma WellFormed.score_updateElement (hz : z.WellFormed) (e : Element S) :
    (z.updateElement e).score = update z.score e.2.stringView (some e.1) := by
  have hwf := (hz.updateElement e).1
  -- the nodes are the new one and those of the other members
  have hnodes : ∀ sv s, (sv, s) ∈ (z.updateElement e).pairs ↔
      (sv = e.2.stringView ∧ s = e.1) ∨ (sv ≠ e.2.stringView ∧ (sv, s) ∈ z.pairs) := by
    intro sv s
    simp only [pairs, List.mem_map, Prod.mk.injEq]
    cases hfind : z.find e.2.stringView with
    | none =>
      have hfresh := (hz.find_eq_none _).mp hfind
      obtain ⟨-, hperm⟩ := hz.toCoherent.insertNode hfresh e.1
      have hne : ∀ n ∈ z.zOrderedSet, n.field ≠ e.2.stringView := fun n hn heq =>
        hfresh (heq ▸ mem_map_of_mem hn)
      simp only [RedisZsetObject.updateElement, hfind, hperm.mem_iff, mem_cons]
      constructor
      · rintro ⟨n, rfl | hn, rfl, rfl⟩
        · exact Or.inl ⟨rfl, rfl⟩
        · exact Or.inr ⟨hne n hn, n, hn, rfl, rfl⟩
      · rintro (⟨rfl, rfl⟩ | ⟨-, n, hn, rfl, rfl⟩)
        · exact ⟨_, Or.inl rfl, rfl, rfl⟩
        · exact ⟨n, Or.inr hn, rfl, rfl⟩
    | some m =>
      obtain ⟨herased, hout⟩ := hz.toCoherent.eraseEntry hfind
      have hfresh := (nodup_cons.mp (hout.nodup_iff.mp hz.distinct)).1
      obtain ⟨-, hperm⟩ := herased.insertNode hfresh e.1
      simp only [RedisZsetObject.updateElement, hfind, hperm.mem_iff, mem_cons,
        hz.mem_eraseEntry hfind]
      constructor
      · rintro ⟨n, rfl | ⟨hn, hne⟩, rfl, rfl⟩
        · exact Or.inl ⟨rfl, rfl⟩
        · exact Or.inr ⟨hne, n, hn, rfl, rfl⟩
      · rintro (⟨rfl, rfl⟩ | ⟨hne, n, hn, rfl, rfl⟩)
        · exact ⟨_, Or.inl rfl, rfl, rfl⟩
        · exact ⟨n, Or.inr ⟨hn, hne⟩, rfl, rfl⟩
  funext sv
  refine ext fun s => ?_
  rw [hwf.score_eq_some, hnodes]
  by_cases hsv : sv = e.2.stringView
  · simp [hsv, eq_comm]
  · simp [hsv, hz.score_eq_some]

lemma WellFormed.foldl_updateElement (hz : z.WellFormed) (es : List (Element S)) :
    (es.foldl RedisZsetObject.updateElement z).WellFormed ∧
      (es.foldl RedisZsetObject.updateElement z).score = stored z.score es := by
  induction es generalizing z with
  | nil => exact ⟨hz, rfl⟩
  | cons e es ih =>
    obtain ⟨hwf, hscore⟩ := ih (hz.updateElement e).1
    refine ⟨hwf, ?_⟩
    rw [foldl_cons, hscore, hz.score_updateElement]
    rfl

end RedisZsetObject

/-! ## Owner and replica -/

/-- When the filters may run on strings stored in the vector, whatever the process does. -/
def ReplaySafe (p : ZParams) (z : RedisZsetObject S) (args : List (S × Bytes)) : Prop :=
  ∀ rule : Rule S, p.filter = some rule →
    Undisturbed z.score rule noneAccepted [] 0 0 (image (viewed args))

/-- The filter of the replica judges every element of the image rightly. -/
def ReplayRecognises (replica : Host) (p : ZParams) (z : RedisZsetObject S)
    (args : List (S × Bytes)) : Prop :=
  ∀ rule : Rule S, p.filter = some rule → Recognises replica z.score rule (image (viewed args))

/-- No later element of a member can cover up an error: always with XX alone; with NX if no
member is listed twice with one score; with LT and GT if the scores of a member are listed from
the best to the worst and none of them is the one it has. -/
def ErrorsShow (p : ZParams) (z : RedisZsetObject S) (args : List (S × Bytes)) : Prop :=
  if p.lt then
    (args.Pairwise fun a b => a.2 = b.2 → a.1 < b.1) ∧ ∀ a ∈ args, z.score a.2 ≠ some a.1
  else if p.gt then
    (args.Pairwise fun a b => a.2 = b.2 → b.1 < a.1) ∧ ∀ a ∈ args, z.score a.2 ≠ some a.1
  else if p.nx then args.Pairwise fun a b => a.2 = b.2 → a.1 ≠ b.1
  else True

/-- The order of the arguments leaves no later element that could cover up a wrong judgement. -/
lemma unmasked_of_errorsShow {p : ZParams} {z : RedisZsetObject S} {args : List (S × Bytes)}
    (h : ErrorsShow p z args) {rule : Rule S} (hrule : p.filter = some rule) :
    Unmasked z.score rule noneAccepted (image (viewed args)) := by
  have hmem : ∀ x ∈ image (viewed args), ∃ a ∈ args, x.2.stringView = a.2 ∧ x.1 = a.1 := by
    intro x hx
    obtain ⟨e, he, rfl⟩ := mem_map.1 hx
    obtain ⟨a, ha, rfl⟩ := mem_map.1 he
    exact ⟨a, ha, by simp, rfl⟩
  have hpairs : ∀ R : S → S → Prop, (args.Pairwise fun a b => a.2 = b.2 → R a.1 b.1) →
      (image (viewed args)).Pairwise fun a b => a.2.stringView = b.2.stringView → R a.1 b.1 := by
    simp [image, viewed, pairwise_map]
  have hstored : (∀ a ∈ args, z.score a.2 ≠ some a.1) →
      ∀ x ∈ image (viewed args), z.score x.2.stringView ≠ some x.1 := by
    intro hargs x hx
    obtain ⟨a, ha, hm, hnum⟩ := hmem x hx
    rw [hm, hnum]
    exact hargs a ha
  unfold ErrorsShow at h
  unfold ZParams.filter at hrule
  split_ifs at h hrule with hlt hgt hnx hxx
  · cases hrule
    exact unmasked_zAddCompare z.score p.ch p.xx (fun a b => by simpa using le_of_lt)
      (fun a b c => by simpa using lt_trans) _
      ((hpairs _ h.1).imp fun hab hm => by simpa using hab hm) (hstored h.2)
      (by simp [noneAccepted])
  · cases hrule
    exact unmasked_zAddCompare z.score p.ch p.xx (fun a b => by simpa using le_of_lt)
      (fun a b c => by simpa using fun hab hbc => lt_trans hbc hab) _
      ((hpairs (fun s t => t < s) h.1).imp fun hab hm => by simpa using hab hm) (hstored h.2)
      (by simp [noneAccepted])
  · cases hrule
    exact unmasked_zAddNX z.score _ (hpairs _ h) (by simp [noneAccepted])
  · cases hrule
    exact unmasked_zAddXX z.score p.ch _ fun _ _ => rfl

/-- **A replayed ZADD leaves the object the owner has.** The image taken after the execution always
does; the image taken before it does when every element is judged rightly. Where no error can be
covered up this is also necessary. -/
theorem zadd_replay_eq_owner (owner replica : Host) (p : ZParams) (_hp : p.Admitted)
    (z : RedisZsetObject S) (args : List (S × Bytes))
    (hwrite : (execute owner p z (viewed args)).write = true) :
    let executed := (execute owner p z (viewed args)).elements
    let onOwner := commitZAdd owner p z executed
    let replayed := commitZAdd replica p z (image (viewed args))
    commitZAdd replica p z (image executed) = onOwner ∧ (ReplaySafe p z args → replayed = onOwner) ∧
      (ReplayRecognises replica p z args → replayed = onOwner) ∧
      (z.WellFormed → ErrorsShow p z args →
        (replayed.pairs = onOwner.pairs ↔ ReplayRecognises replica p z args)) := by
  intro executed onOwner replayed
  cases hf : (p.filter : Option (Rule S)) with
  | none =>
    have hexec : executed = viewed args := by
      simp only [executed, execute, hf] at hwrite ⊢
      split <;> rfl
    have hcommit : ∀ (host : Host) (es : List (Element S)),
        commitZAdd host p z es = es.foldl RedisZsetObject.updateElement z := by
      intro host es
      simp only [commitZAdd, hf]
    have hreplayed : replayed = onOwner := by
      simp only [replayed, onOwner, hcommit, hexec, foldl_updateElement_image]
    refine ⟨?_, fun _ => hreplayed, fun _ => hreplayed, fun _ _ => ?_⟩
    · simp only [onOwner, hcommit, hexec, foldl_updateElement_image]
    · refine iff_of_true (by rw [hreplayed]) fun rule hrule => ?_
      rw [hf] at hrule
      exact absurd hrule (by simp)
  | some rule =>
    have hexec : executed = admitted z.score rule noneAccepted (viewed args) := by
      simp only [executed, execute, hf] at hwrite ⊢
      split at hwrite
      · exact absurd hwrite (by simp)
      · rename_i hsize
        simp only [hsize, if_false, runFilter_viewed]
    have hcommit : ∀ (host : Host) (es : List (Element S)), commitZAdd host p z es =
        (runFilter host z.score rule es).kept.foldl RedisZsetObject.updateElement z := by
      intro host es
      simp only [commitZAdd, hf]
    have hagain : admitted z.score rule noneAccepted executed = executed := by
      rw [hexec, admitted_admitted]
    have howner : onOwner = (image executed).foldl RedisZsetObject.updateElement z := by
      simp only [onOwner, hcommit]
      rw [runFilter_of_admitted owner z.score rule executed hagain, foldl_updateElement_image]
    have hrecognised : ReplayRecognises replica p z args → replayed = onOwner := by
      intro hrec
      rw [howner, hexec, ← admitted_image, ← runFilter_kept (hrec rule hf), ← hcommit]
    refine ⟨?_, fun hsafe => ?_, hrecognised, fun hz hshow => ⟨fun hpairs => ?_, fun hrec => ?_⟩⟩
    · have himage : admitted z.score rule noneAccepted (image executed) = image executed := by
        rw [admitted_image, hagain]
      rw [hcommit, runFilter_of_admitted replica z.score rule _ himage, howner]
    · exact hrecognised fun rule' hrule' => (hsafe rule' hrule').recognises replica
    · -- equal pairs are equal scores, and these show that no element was misjudged
      intro rule' hrule'
      obtain rfl := Option.some.inj (hf.symm.trans hrule')
      rw [howner, hexec, ← admitted_image] at hpairs
      simp only [replayed, hcommit] at hpairs
      obtain ⟨hwf, hscore⟩ :=
        hz.foldl_updateElement (runFilter replica z.score rule (image (viewed args))).kept
      obtain ⟨hwf', hscore'⟩ :=
        hz.foldl_updateElement (admitted z.score rule noneAccepted (image (viewed args)))
      have heq := hwf.score_congr hwf'.toCoherent hpairs
      rw [hscore, hscore'] at heq
      exact recognised_of_stored_eq replica z.score rule (image (viewed args)) noneAccepted 0
        ⟨[], buffersOf (image (viewed args)), [], 0, false⟩ (fun _ => rfl)
        (unmasked_of_errorsShow hshow hf) heq
    · rw [hrecognised hrec]

end Commit

/-! ## A replay that differs -/

/-- The sorted set with the one member `x` at score 0. -/
def onlyX : RedisZsetObject Nat :=
  RedisZsetObject.empty.updateElement (0, EloqString.ofView (ascii "x"))

/-- The elements `5 x 1 b 2 c 3 b`. -/
def overwriting : List (Nat × Bytes) :=
  [(5, ascii "x"), (1, ascii "b"), (2, ascii "c"), (3, ascii "b")]

/-- ZADD NX on `onlyX`: moving `c` into the slot that `b` came from makes the replay forget
`b`, so it stores the second score of `b` where the owner stored the first. -/
theorem zadd_nx_replay_differs :
    let p : ZParams := ⟨true, false, false, false, false⟩
    (execute plainHost p onlyX (viewed overwriting)).write = true ∧ (commitZAdd plainHost p onlyX
        (execute plainHost p onlyX (viewed overwriting)).elements).pairs =
          [(ascii "x", 0), (ascii "b", 1), (ascii "c", 2)] ∧
      (commitZAdd plainHost p onlyX (image (viewed overwriting))).pairs =
          [(ascii "x", 0), (ascii "c", 2), (ascii "b", 3)] := by
  decide +kernel

/-- Without the repetition the same command is replayed faithfully from both images: `c` is
the last element, so nothing is looked up after its move. -/
theorem zadd_nx_distinct_replay :
    let p : ZParams := ⟨true, false, false, false, false⟩
    let args := overwriting.take 3
    let executed := (execute plainHost p onlyX (viewed args)).elements
    (execute plainHost p onlyX (viewed args)).write = true ∧
      commitZAdd plainHost p onlyX (image executed) = commitZAdd plainHost p onlyX executed ∧
      commitZAdd plainHost p onlyX (image (viewed args)) =
        commitZAdd plainHost p onlyX executed := by
  intro p args executed
  have hwrite : (execute plainHost p onlyX (viewed args)).write = true := by decide +kernel
  have hsafe : ReplaySafe p onlyX args := by
    intro rule hrule
    obtain rfl : zAddNX = rule := some.inj hrule
    decide +kernel
  have h := zadd_replay_eq_owner plainHost plainHost p (by decide) onlyX args hwrite
  exact ⟨hwrite, h.1, h.2.1 hsafe⟩

end EloqKV.Zset
