/-
  What `ZREMRANGEBYSCORE`, `ZREMRANGEBYLEX` and `ZREMRANGEBYRANK` walk over.

  A walk between two bounds selects the nodes that satisfy two one-sided conditions.  The counting
  `Execute` functions and the erasing commit function walk separately and come to the same
  selection.  The only walk that leaves the set is the one of a score range whose two ends are the
  same excluded score of some member.
-/
import EloqKV.Zset.Invariant

open List hiding range

namespace EloqKV.Zset

open RedisZsetObject Lib.OrderedSet LexSpec

open Lib.OrderedSet (Initial Sorted partitionPoint range)

/-! ## Members of a lexicographical range -/

namespace LexSpec

def belowStart (spec : LexSpec) (field : Bytes) : Bool :=
  !spec.negative &&
    (if spec.minex then !decide (spec.start < field) else decide (field < spec.start))

def belowStop (spec : LexSpec) (field : Bytes) : Bool :=
  spec.positive || (if spec.maxex then decide (field < spec.stop) else !decide (spec.stop < field))

def contains (spec : LexSpec) (field : Bytes) : Bool :=
  !spec.belowStart field && spec.belowStop field

end LexSpec

section Bounds

variable {S : Type} [LinearOrder S]

/-! ## One-sided conditions -/

lemma score_le_of_cmp {a b : ZNode S} (h : cmp a b = true) : a.score ≤ b.score := by
  rcases (cmp_iff a b).mp h with h | ⟨h, _⟩
  · exact le_of_lt h
  · exact le_of_eq h

variable {nodes : List (ZNode S)} {below : ZNode S → Bool}

lemma initial_of_sorted (hs : Sorted cmp nodes)
    (h : ∀ a b : ZNode S, cmp a b = true → below b = true → below a = true) : Initial below nodes :=
  hs.imp fun hab => h _ _ hab

lemma scoreBelowStart_iff (minex : Bool) (start : S) (n : ZNode S) :
    scoreBelowStart minex start n = true ↔ n.score < start ∨ minex = true ∧ n.score = start := by
  cases minex <;> simp [scoreBelowStart, le_iff_lt_or_eq]

lemma scoreBelowStop_iff (maxex : Bool) (stop : S) (n : ZNode S) :
    scoreBelowStop maxex stop n = true ↔ n.score < stop ∨ maxex = false ∧ n.score = stop := by
  cases maxex <;> simp [scoreBelowStop, le_iff_lt_or_eq]

lemma initial_scoreBelow (hs : Sorted cmp nodes) {bound : S} {p : Prop}
    (hbelow : ∀ n, below n = true ↔ n.score < bound ∨ p ∧ n.score = bound) :
    Initial below nodes := by
  refine initial_of_sorted hs fun a b hcmp hb => ?_
  have hab := score_le_of_cmp hcmp
  rw [hbelow] at hb ⊢
  rcases hb with hb | ⟨hp, hb⟩
  · exact Or.inl (lt_of_le_of_lt hab hb)
  · exact (lt_or_eq_of_le (hb ▸ hab)).imp_right fun h => ⟨hp, h⟩

lemma initial_scoreBelowStart (hs : Sorted cmp nodes) (minex : Bool) (start : S) :
    Initial (scoreBelowStart minex start) nodes :=
  initial_scoreBelow hs (scoreBelowStart_iff minex start)

lemma initial_scoreBelowStop (hs : Sorted cmp nodes) (maxex : Bool) (stop : S) :
    Initial (scoreBelowStop maxex stop) nodes :=
  initial_scoreBelow hs (scoreBelowStop_iff maxex stop)

/-- The condition under which a score range can be walked. -/
def ScoreWalkable (minex maxex : Bool) (start stop : S) (nodes : List (ZNode S)) : Prop :=
  minex = true → maxex = true → start = stop → ∀ n ∈ nodes, n.score ≠ start

variable {start stop : S}

lemma scoreBelow_mono {minex maxex : Bool}
    (hle : ¬stop < start) (hwalk : ScoreWalkable minex maxex start stop nodes) :
    ∀ n ∈ nodes, scoreBelowStart minex start n = true → scoreBelowStop maxex stop n = true := by
  intro n hn h
  rw [scoreBelowStart_iff] at h
  rw [scoreBelowStop_iff]
  rcases lt_or_eq_of_le (not_lt.mp hle) with hlt | heq
  · rcases h with h | ⟨_, h⟩
    · exact Or.inl (lt_trans h hlt)
    · exact Or.inl (h ▸ hlt)
  · rcases h with h | ⟨hmin, h⟩
    · exact Or.inl (heq ▸ h)
    · -- The ends are one score, which is a member's: they are not both excluded.
      refine Or.inr ⟨?_, h.trans heq⟩
      cases maxex with
      | false => rfl
      | true => exact absurd h (hwalk hmin rfl heq n hn)

lemma range_score_eq_none (hs : Sorted cmp nodes)
    {n : ZNode S} (hn : n ∈ nodes) (hstart : n.score = start) (hstop : start = stop) :
    range (partitionPoint (scoreBelowStart true start) nodes)
        (partitionPoint (scoreBelowStop true stop) nodes) nodes = none := by
  refine range_partitionPoint_eq_none (initial_scoreBelowStart hs true start)
    (initial_scoreBelowStop hs true stop) hn ?_ ?_
  · simp [scoreBelowStart, hstart]
  · simp [scoreBelowStop, hstart, hstop]

/-! ## Lexicographical ranges of one score -/

lemma not_cmp_iff (addr : Nat) (field : Bytes) (score : S) (n : ZNode S) :
    cmp ⟨addr, field, score⟩ n = false ↔
      n.score < score ∨ (n.score = score ∧ ¬field < n.field) := by
  rw [← Bool.not_eq_true, cmp_iff, not_or, not_lt, not_and]
  constructor
  · rintro ⟨hle, hfield⟩
    rcases lt_or_eq_of_le hle with h | h
    · exact Or.inl h
    · exact Or.inr ⟨h, hfield h.symm⟩
  · rintro (h | ⟨h, hfield⟩)
    · exact ⟨le_of_lt h, fun heq => absurd heq (ne_of_gt h)⟩
    · exact ⟨le_of_eq h, fun _ => hfield⟩

variable (spec : LexSpec)

lemma lexBelowStart_iff (score : S) (n : ZNode S) : lexBelowStart spec score n = true ↔
      n.score < score ∨ (n.score = score ∧ spec.belowStart n.field = true) := by
  unfold lexBelowStart belowStart
  cases spec.negative with
  | true => simp
  | false =>
    cases spec.minex with
    | true => simp [not_cmp_iff]
    | false => simp [cmp_iff]

lemma lexBelowStop_iff (score : S) (n : ZNode S) : lexBelowStop spec score n = true ↔
      n.score < score ∨ (n.score = score ∧ spec.belowStop n.field = true) := by
  unfold lexBelowStop belowStop
  cases spec.positive with
  | true => simp [le_iff_lt_or_eq]
  | false =>
    cases spec.maxex with
    | true => simp [cmp_iff]
    | false => simp [not_cmp_iff]

lemma lexBetween_iff (score : S) (n : ZNode S) :
    (!lexBelowStart spec score n && lexBelowStop spec score n) = true ↔
      n.score = score ∧ spec.contains n.field = true := by
  rw [Bool.and_eq_true, Bool.not_eq_true', ← Bool.not_eq_true, lexBelowStart_iff,
    lexBelowStop_iff, LexSpec.contains, Bool.and_eq_true, Bool.not_eq_true', ← Bool.not_eq_true]
  constructor
  · rintro ⟨hstart, h | ⟨h, hstop⟩⟩
    · exact absurd (Or.inl h) hstart
    · exact ⟨h, fun hlt => hstart (Or.inr ⟨h, hlt⟩), hstop⟩
  · rintro ⟨h, hstart, hstop⟩
    refine ⟨?_, Or.inr ⟨h, hstop⟩⟩
    rintro (hlt | ⟨_, hlt⟩)
    · exact absurd h (ne_of_lt hlt)
    · exact hstart hlt

lemma initial_lex (hs : Sorted cmp nodes) {score : S} {p : Bytes → Bool}
    (hbelow : ∀ n, below n = true ↔ n.score < score ∨ (n.score = score ∧ p n.field = true))
    (hp : ∀ f g : Bytes, f < g → p g = true → p f = true) : Initial below nodes := by
  refine initial_of_sorted hs fun a b hab hb => ?_
  rw [hbelow] at hb ⊢
  rcases (cmp_iff a b).mp hab with hlt | ⟨heq, hlt⟩
  · refine Or.inl ?_
    rcases hb with hb | ⟨hb, _⟩
    · exact lt_trans hlt hb
    · exact hb ▸ hlt
  · rw [heq]
    exact hb.imp_right fun ⟨hscore, hpb⟩ => ⟨hscore, hp _ _ hlt hpb⟩

lemma LexSpec.belowStart_iff (f : Bytes) : spec.belowStart f = true ↔
      spec.negative = false ∧ (f < spec.start ∨ spec.minex = true ∧ f = spec.start) := by
  unfold LexSpec.belowStart
  cases spec.minex <;> simp [List.le_iff_lt_or_eq]

lemma LexSpec.belowStop_iff (f : Bytes) : spec.belowStop f = true ↔
      spec.positive = true ∨ f < spec.stop ∨ spec.maxex = false ∧ f = spec.stop := by
  unfold LexSpec.belowStop
  cases spec.maxex <;> simp [List.le_iff_lt_or_eq]

lemma LexSpec.belowStart_of_lt (f g : Bytes) (hfg : f < g)
    (hg : spec.belowStart g = true) : spec.belowStart f = true := by
  rw [spec.belowStart_iff] at hg ⊢
  obtain ⟨hneg, hg | ⟨_, rfl⟩⟩ := hg
  · exact ⟨hneg, Or.inl (List.lt_trans hfg hg)⟩
  · exact ⟨hneg, Or.inl hfg⟩

lemma LexSpec.belowStop_of_lt (f g : Bytes) (hfg : f < g)
    (hg : spec.belowStop g = true) : spec.belowStop f = true := by
  rw [spec.belowStop_iff] at hg ⊢
  rcases hg with hpos | hg | ⟨_, rfl⟩
  · exact Or.inl hpos
  · exact Or.inr (Or.inl (List.lt_trans hfg hg))
  · exact Or.inr (Or.inl hfg)

variable {spec : LexSpec}

lemma LexSpec.belowStop_of_belowStart (hspec : spec.isEmpty = false)
    {f : Bytes} (h : spec.belowStart f = true) : spec.belowStop f = true := by
  rw [spec.belowStop_iff]
  obtain ⟨hneg, h⟩ := spec.belowStart_iff f |>.mp h
  cases hpos : spec.positive with
  | true => exact Or.inl rfl
  | false =>
    refine Or.inr ?_
    simp only [isEmpty, hneg, hpos, Bool.not_false, Bool.true_and, Bool.or_eq_false_iff,
      decide_eq_false_iff_not] at hspec
    obtain ⟨hle, hends⟩ := hspec
    by_cases heq : spec.start = spec.stop
    · -- Equal ends are both included, so `f` lies strictly below the one value.
      simp only [heq, beq_self_eq_true, Bool.true_and, Bool.or_eq_false_iff] at hends
      rw [hends.1, heq] at h
      exact Or.inl (h.resolve_right nofun)
    · have hlt : spec.start < spec.stop := by
        by_contra hge
        exact heq (List.le_antisymm hle hge)
      rcases h with h | ⟨_, rfl⟩
      · exact Or.inl (List.lt_trans h hlt)
      · exact Or.inl hlt

/-- **The lex range of a score** selects its members between the ends, whatever is reported. -/
theorem lexRange_eq (hspec : spec.isEmpty = false) (hs : Sorted cmp nodes) (score : S) :
    lexRange spec score nodes =
      some (nodes.filter fun n => decide (n.score = score) && spec.contains n.field) := by
  have hlo : Initial (lexBelowStart spec score) nodes :=
    initial_lex hs (lexBelowStart_iff spec score) spec.belowStart_of_lt
  have hhi : Initial (lexBelowStop spec score) nodes :=
    initial_lex hs (lexBelowStop_iff spec score) spec.belowStop_of_lt
  have hle : ∀ n ∈ nodes, lexBelowStart spec score n = true → lexBelowStop spec score n = true := by
    intro n _ h
    rw [lexBelowStart_iff] at h
    rw [lexBelowStop_iff]
    exact h.imp_right fun ⟨hscore, h⟩ => ⟨hscore, belowStop_of_belowStart hspec h⟩
  have hfilter : nodes.filter (fun n => decide (n.score = score) && spec.contains n.field) =
      nodes.filter fun n => !lexBelowStart spec score n && lexBelowStop spec score n := by
    refine filter_congr fun n _ => ?_
    rw [Bool.eq_iff_iff, lexBetween_iff, Bool.and_eq_true, decide_eq_true_eq]
  rw [hfilter]
  simp only [lexRange, getElem?_partitionPoint]
  cases hfind : nodes.find? (fun n => !lexBelowStart spec score n) with
  | none =>
    have hall := find?_eq_none.mp hfind
    have hnil : nodes.filter (fun n => !lexBelowStart spec score n && lexBelowStop spec score n) =
        [] := filter_eq_nil_iff.mpr fun n hn => by
      simp only [Bool.and_eq_true, not_and]
      exact fun h => absurd h (hall n hn)
    rw [hnil]
  | some n =>
    dsimp only
    split
    · rename_i hexit
      -- The function gives up at `n`, which then lies behind the upper end.
      have hnstart : ¬lexBelowStart spec score n = true := by simpa using find?_some hfind
      have hnstop : lexBelowStop spec score n = false := by
        rw [← Bool.not_eq_true, lexBelowStop_iff]
        rintro (hlt | ⟨heq, hstop⟩)
        · exact hnstart ((lexBelowStart_iff _ _ _).mpr (Or.inl hlt))
        · rcases hexit with hgt | ⟨hfield, hpos⟩
          · exact absurd heq (ne_of_gt hgt)
          · rw [spec.belowStop_iff, hpos] at hstop
            rcases hstop with hstop | hstop | ⟨_, hstop⟩
            · cases hstop
            · exact List.lt_asymm hfield hstop
            · exact List.lt_irrefl _ (hstop ▸ hfield)
      rw [filter_eq_nil_of_find? hhi hfind hnstop]
    · exact range_partitionPoint hlo hhi hle

/-! ## The loops over the scores

The position of a loop is the bound of a condition on the score: what lies in front of it has
been dealt with.  The condition of the next round is "not above the current score". -/

lemma score_lt_iff_of_find? (hs : Sorted cmp nodes)
    {lo : ZNode S → Bool} (hlo : ∀ a b : ZNode S, a.score ≤ b.score → lo b = true → lo a = true)
    {n : ZNode S} (hn : nodes.find? (fun n => !lo n) = some n) :
    ∀ x ∈ nodes, lo x = true ↔ x.score < n.score := by
  intro x hx
  obtain ⟨hnlo, before, after, rfl, hbefore⟩ := find?_eq_some_iff_append.mp hn
  have hnlo : ¬lo n = true := by simpa using hnlo
  constructor
  · intro h
    by_contra hge
    exact hnlo (hlo n x (not_lt.mp hge) h)
  · intro hlt
    rcases mem_append.mp hx with hx | hx
    · simpa using hbefore x hx
    · exfalso
      rcases mem_cons.mp hx with rfl | hx
      · exact lt_irrefl _ hlt
      · have hrest := (pairwise_append.mp hs).2.1
        have hle := score_le_of_cmp ((pairwise_cons.mp hrest).1 x hx)
        exact absurd hlt (not_lt.mpr hle)

lemma notAbove_mono (score : S) (a b : ZNode S) (hab : a.score ≤ b.score)
    (hb : (!decide (score < b.score)) = true) : (!decide (score < a.score)) = true := by
  simp only [Bool.not_eq_true', decide_eq_false_iff_not, not_lt] at hb ⊢
  exact le_trans hab hb

lemma countP_notAbove_lt {lo : ZNode S → Bool} {n : ZNode S}
    (hn : n ∈ nodes) (hlo : ∀ x ∈ nodes, lo x = true ↔ x.score < n.score) :
    nodes.countP (fun x => !(!decide (n.score < x.score))) < nodes.countP fun x => !lo x := by
  have hsplit := countP_eq_countP_filter_add nodes (fun x => !lo x)
    fun x => !decide (n.score < x.score)
  have hrest : (nodes.filter fun a => !(!decide (n.score < a.score))).countP (fun x => !lo x) =
      nodes.countP fun x => !(!decide (n.score < x.score)) := by
    rw [countP_filter]
    refine countP_congr fun x hx => ?_
    have hx := hlo x hx
    simp only [Bool.not_not, Bool.and_eq_true, Bool.not_eq_true', decide_eq_true_eq,
      ← Bool.not_eq_true, hx, not_lt]
    exact ⟨And.right, fun h => ⟨le_of_lt h, h⟩⟩
  have hpos : 0 < (nodes.filter fun a => !decide (n.score < a.score)).countP fun x => !lo x := by
    refine countP_pos_iff.mpr ⟨n, mem_filter.mpr ⟨hn, by simp⟩, ?_⟩
    simp only [Bool.not_eq_true', ← Bool.not_eq_true, hlo n hn]
    exact lt_irrefl _
  omega

/-- One round per score: `lo` is what the rounds before have passed. -/
lemma lexCountLoop_eq (hspec : spec.isEmpty = false) (hs : Sorted cmp nodes) (fuel : Nat) :
    ∀ (lo : ZNode S → Bool), (∀ a b : ZNode S, a.score ≤ b.score → lo b = true → lo a = true) →
      nodes.countP (fun x => !lo x) < fuel → ∀ cnt,
      lexCountLoop spec nodes fuel (partitionPoint lo nodes) cnt =
        some (cnt + nodes.countP fun x => !lo x && spec.contains x.field) := by
  induction fuel with
  | zero => exact fun _ _ hfuel => absurd hfuel (by simp)
  | succ fuel ih =>
    intro lo hlo hfuel cnt
    rw [lexCountLoop, getElem?_partitionPoint]
    cases hfind : nodes.find? (fun n => !lo n) with
    | none =>
      have hzero : nodes.countP (fun x => !lo x && spec.contains x.field) = 0 :=
        countP_eq_zero.mpr fun x hx => by
          have hx := find?_eq_none.mp hfind x hx
          simp only [Bool.and_eq_true, not_and]
          exact fun h => absurd h hx
      simp [hzero]
    | some n =>
      have hn := mem_of_find?_eq_some hfind
      have hfirst := score_lt_iff_of_find? hs hlo hfind
      have hnext := countP_notAbove_lt hn hfirst
      simp only [lexRange_eq hspec hs, nextScore]
      rw [ih _ (notAbove_mono n.score) (by omega), Option.some.injEq, Nat.add_assoc]
      -- What is left is what has this score and what lies above it.
      congr 1
      rw [← countP_eq_length_filter,
        countP_eq_countP_filter_add nodes (fun x => !lo x && spec.contains x.field)
          fun x => decide (x.score = n.score),
        countP_filter, countP_filter]
      congr 1 <;> refine countP_congr fun x hx => ?_
      · simp only [Bool.and_eq_true, Bool.not_eq_true', decide_eq_true_eq, ← Bool.not_eq_true,
          hfirst x hx]
        constructor
        · exact fun ⟨heq, hc⟩ => ⟨⟨by simp [heq], hc⟩, heq⟩
        · exact fun ⟨⟨_, hc⟩, heq⟩ => ⟨heq, hc⟩
      · simp only [Bool.and_eq_true, Bool.not_eq_true', decide_eq_true_eq, ← Bool.not_eq_true,
          hfirst x hx, not_lt, not_le]
        constructor
        · exact fun ⟨hlt, hc⟩ => ⟨⟨le_of_lt hlt, hc⟩, ne_of_gt hlt⟩
        · exact fun ⟨⟨hle, hc⟩, hne⟩ => ⟨lt_of_le_of_ne hle (Ne.symm hne), hc⟩

/-- **`ZRemRangeByLex` counts the members of the range.** -/
theorem zRemRangeByLex_eq (hspec : spec.isEmpty = false) (hs : Sorted cmp nodes) :
    zRemRangeByLex spec nodes = some (nodes.countP fun n => spec.contains n.field) := by
  have hloop := lexCountLoop_eq hspec hs (nodes.length + 1) (fun _ => false) (by simp)
    (Nat.lt_succ_of_le countP_le_length) 0
  have hzero : partitionPoint (fun _ : ZNode S => false) nodes = 0 := by
    cases nodes <;> rfl
  rw [hzero] at hloop
  simpa [zRemRangeByLex, hspec] using hloop

/-- The elements at ranks `start` to `stop`, where a negative rank counts from the end. -/
def rankSlice {α : Type} (start stop : Int) (l : List α) : List α :=
  (l.take ((if stop < 0 then stop + l.length else stop) + 1).toNat).drop
    (if start < 0 then start + l.length else start).toNat

/-- Negative ranks count from the end; both bounds are cut to the list. -/
lemma rankBounds_spec {α : Type} (start stop : Int) (l : List α) :
    (rankBounds start stop l.length = none ∧ rankSlice start stop l = []) ∨
    ∃ first last, rankBounds start stop l.length = some (first, last) ∧ first ≤ last ∧
      rankSlice start stop l = (l.take last).drop first := by
  have hnil : ∀ {first last : Nat}, last ≤ first ∨ l.length ≤ first →
      (l.take last).drop first = [] := by
    intro first last h
    rw [drop_eq_nil_iff, length_take]
    omega
  unfold rankBounds rankSlice
  obtain ⟨first, hfirst⟩ : ∃ s, s = if start < 0 then start + l.length else start := ⟨_, rfl⟩
  obtain ⟨last, hlast⟩ : ∃ e, e = if stop < 0 then stop + l.length else stop := ⟨_, rfl⟩
  have hstart : (if start < 0 then some (if start + l.length < 0 then 0 else start + l.length)
      else if 0 < start ∧ (l.length : Int) ≤ start then none else some start)
      = if 0 < first ∧ (l.length : Int) ≤ first then none else some (max 0 first) := by
    grind
  have hstop : (if stop < 0 then (if (l.length : Int) < -stop then none else some (stop + l.length))
      else if (l.length : Int) ≤ stop then some ((l.length : Int) - 1) else some stop)
      = if last < 0 then none else some (min last (l.length - 1)) := by
    grind
  rw [hstart, hstop, ← hfirst, ← hlast]
  by_cases hbehind : 0 < first ∧ (l.length : Int) ≤ first
  · rw [if_pos hbehind]
    exact .inl ⟨rfl, hnil (.inr (by omega))⟩
  · by_cases hbefore : last < 0
    · rw [if_pos hbefore, if_neg hbehind]
      exact .inl ⟨rfl, hnil (.inl (by omega))⟩
    · rw [if_neg hbehind, if_neg hbefore]
      dsimp only
      by_cases hcross : min last (l.length - 1) + 1 ≤ max 0 first
      · rw [if_pos hcross]
        exact .inl ⟨rfl, hnil (by omega)⟩
      · rw [if_neg hcross]
        refine .inr ⟨_, _, rfl, by omega, ?_⟩
        rw [show (max 0 first).toNat = first.toNat by omega,
          show l.take (last + 1).toNat = l.take (min last (l.length - 1) + 1).toNat by
            rw [take_eq_take_iff]; omega]

end Bounds

/-! ## The commit -/

namespace RedisZsetObject

variable {S : Type} [LinearOrder S]

/-- The erasing loop removes the members that are left and lie in the range.  Erasing the
members of one score changes neither the order of the others nor what the later walks
select. -/
lemma WellFormed.lexEraseLoop {spec : LexSpec} (hspec : spec.isEmpty = false) (fuel : Nat) :
    ∀ (lo : ZNode S → Bool), (∀ a b : ZNode S, a.score ≤ b.score → lo b = true → lo a = true) →
      ∀ z : RedisZsetObject S, z.WellFormed → z.zOrderedSet.countP (fun x => !lo x) < fuel →
      ∃ z', lexEraseLoop spec fuel (partitionPoint lo z.zOrderedSet) z = some z' ∧ z'.WellFormed ∧
        z'.zOrderedSet = z.zOrderedSet.filter fun x => lo x || !spec.contains x.field := by
  induction fuel with
  | zero => exact fun _ _ _ _ hfuel => absurd hfuel (by simp)
  | succ fuel ih =>
    intro lo hlo z hz hfuel
    rw [RedisZsetObject.lexEraseLoop, Lib.OrderedSet.getElem?_partitionPoint]
    cases hfind : z.zOrderedSet.find? (fun n => !lo n) with
    | none =>
      refine ⟨z, rfl, hz, (filter_eq_self.mpr fun x hx => ?_).symm⟩
      have hx := find?_eq_none.mp hfind x hx
      simp only [Bool.not_eq_true', Bool.not_eq_false] at hx
      simp [hx]
    | some n =>
      have hn := mem_of_find?_eq_some hfind
      have hfirst := score_lt_iff_of_find? hz.sorted hlo hfind
      have hnext := countP_notAbove_lt hn hfirst
      have hsel := filter_sublist (l := z.zOrderedSet)
        (p := fun x => decide (x.score = n.score) && spec.contains x.field)
      obtain ⟨hwf, hnodes⟩ := hz.eraseNodes (hz.nodup.sublist hsel) fun _ h => hsel.mem h
      have hsub : (z.eraseNodes (z.zOrderedSet.filter fun x =>
          decide (x.score = n.score) && spec.contains x.field)).zOrderedSet.Sublist
            z.zOrderedSet := hnodes ▸ filter_sublist
      simp only [lexRange_eq hspec hz.sorted, nextScore]
      obtain ⟨z', hz', hwf', hnodes'⟩ := ih _ (notAbove_mono n.score) _ hwf (by
        have hle := hsub.countP_le (p := fun x => !(!decide (n.score < x.score)))
        omega)
      refine ⟨z', hz', hwf', ?_⟩
      rw [hnodes', hnodes, filter_filter]
      refine filter_congr fun x hx => ?_
      have hx' := hfirst x hx
      rw [Bool.eq_iff_iff]
      simp only [mem_filter, hx, true_and, Bool.and_eq_true, Bool.or_eq_true,
        Bool.not_eq_true', decide_eq_true_eq, decide_eq_false_iff_not, hx', not_lt]
      cases hc : spec.contains x.field with
      | false => simp
      | true =>
        simp only [and_true, Bool.true_eq_false, or_false]
        exact ⟨fun ⟨hle, hne⟩ => lt_of_le_of_ne hle hne, fun hlt => ⟨le_of_lt hlt, ne_of_lt hlt⟩⟩

/-- What a range can be walked over.  Only `ZREMRANGEBYSCORE` with the same excluded score at
both ends fails on members; a specification with `null_` has no ends to walk between. -/
def Walkable (z : RedisZsetObject S) : ZRangeSpec S → Prop
  | .score minex maxex start stop => ScoreWalkable minex maxex start stop z.zOrderedSet
  | .lexNull => False
  | .lex _ => True
  | .rank _ _ => True

instance decidableWalkable (z : RedisZsetObject S) :
    ∀ spec : ZRangeSpec S, Decidable (z.Walkable spec)
  | .score minex maxex start stop =>
    inferInstanceAs (Decidable (minex = true → maxex = true → start = stop →
      ∀ n ∈ z.zOrderedSet, n.score ≠ start))
  | .lexNull => inferInstanceAs (Decidable False)
  | .lex _ => inferInstanceAs (Decidable True)
  | .rank _ _ => inferInstanceAs (Decidable True)

def selected (spec : ZRangeSpec S) (nodes : List (ZNode S)) : List (ZNode S) :=
  match spec with
  | .score minex maxex start stop =>
    if stop < start then []
    else nodes.filter fun n => !scoreBelowStart minex start n && scoreBelowStop maxex stop n
  | .lexNull => []
  | .lex spec => if spec.isEmpty then [] else nodes.filter fun n => spec.contains n.field
  | .rank start stop => rankSlice start stop nodes

variable {z : RedisZsetObject S}

variable {spec : ZRangeSpec S}

/-- **A range commit removes the nodes of the range**, keeps the containers together and reports. -/
theorem WellFormed.commitZRemRange_selected (hz : z.WellFormed)
    (hspec : z.Walkable spec) :
    ∃ z' isEmpty, z.removeCnt spec = some (selected spec z.zOrderedSet).length ∧
      z.commitZRemRange spec = some (z', isEmpty) ∧ z'.WellFormed ∧
      (selected spec z.zOrderedSet).Sublist z.zOrderedSet ∧
      z'.zOrderedSet = z.zOrderedSet.filter (· ∉ selected spec z.zOrderedSet) ∧
      (selected spec z.zOrderedSet ≠ [] → isEmpty = z'.zOrderedSet.isEmpty) := by
  -- three of the ranges erase the nodes they select
  have herase : ∀ {nodes : List (ZNode S)}, nodes.Sublist z.zOrderedSet →
      (z.eraseNodes nodes).WellFormed ∧
        (z.eraseNodes nodes).zOrderedSet = z.zOrderedSet.filter (· ∉ nodes) :=
    fun hsub => hz.eraseNodes (hz.nodup.sublist hsub) fun _ h => hsub.mem h
  have hnone : z.zOrderedSet = z.zOrderedSet.filter (· ∉ ([] : List (ZNode S))) :=
    (filter_eq_self.mpr (by simp)).symm
  obtain ⟨picked, hpicked⟩ : ∃ picked, selected spec z.zOrderedSet = picked := ⟨_, rfl⟩
  rw [hpicked]
  cases spec with
  | score minex maxex start stop =>
    rw [removeCnt, zRemRangeByScore, commitZRemRange]
    rw [selected] at hpicked
    by_cases hlt : stop < start
    · rw [if_pos hlt] at hpicked ⊢
      obtain rfl := hpicked
      exact ⟨z, false, rfl, if_pos hlt, hz, nil_sublist _, hnone, fun h => absurd rfl h⟩
    · rw [if_neg hlt] at hpicked ⊢
      obtain rfl := hpicked
      rw [if_neg hlt, range_partitionPoint (initial_scoreBelowStart hz.sorted minex _)
        (initial_scoreBelowStop hz.sorted maxex _) (scoreBelow_mono hlt hspec)]
      obtain ⟨hwf, hnodes⟩ := herase filter_sublist
      exact ⟨_, _, rfl, rfl, hwf, filter_sublist, hnodes, fun _ => rfl⟩
  | lexNull => exact absurd hspec (by simp [Walkable])
  | lex spec =>
    rw [removeCnt, commitZRemRange]
    rw [selected] at hpicked
    by_cases hempty : spec.isEmpty = true
    · rw [if_pos hempty] at hpicked ⊢
      obtain rfl := hpicked
      exact ⟨z, false, if_pos hempty, rfl, hz, nil_sublist _, hnone, fun h => absurd rfl h⟩
    · rw [if_neg hempty] at hpicked ⊢
      rw [Bool.not_eq_true] at hempty
      obtain rfl := hpicked
      obtain ⟨z', hloop, hwf, hnodes⟩ := WellFormed.lexEraseLoop hempty (z.zOrderedSet.length + 1)
        (fun _ => false) (by simp) z hz (Nat.lt_succ_of_le countP_le_length)
      have hzero : partitionPoint (fun _ : ZNode S => false) z.zOrderedSet = 0 := by
        cases z.zOrderedSet <;> rfl
      rw [hzero] at hloop
      rw [zRemRangeByLex_eq hempty hz.sorted, countP_eq_length_filter, hloop]
      refine ⟨z', _, rfl, rfl, hwf, filter_sublist, ?_, fun _ => rfl⟩
      rw [hnodes]
      refine filter_congr fun n hn => ?_
      simp [hn]
  | rank start stop =>
    rw [removeCnt, zRemRangeByRank, commitZRemRange]
    rw [selected] at hpicked
    rcases rankBounds_spec start stop z.zOrderedSet with
      ⟨hbounds, hslice⟩ | ⟨first, last, hbounds, hle, hslice⟩
    · obtain rfl := hslice.symm.trans hpicked
      rw [hbounds]
      exact ⟨z, false, rfl, rfl, hz, nil_sublist _, hnone, fun h => absurd rfl h⟩
    · obtain rfl := hslice.symm.trans hpicked
      have hsub : ((z.zOrderedSet.take last).drop first).Sublist z.zOrderedSet :=
        (drop_sublist _ _).trans (take_sublist _ _)
      obtain ⟨hwf, hnodes⟩ := herase hsub
      rw [hbounds]
      dsimp only
      rw [range, if_pos hle, ← drop_take]
      exact ⟨_, _, rfl, rfl, hwf, hsub, hnodes, fun _ => rfl⟩

lemma WellFormed.commitZRemRange (hz : z.WellFormed)
    (hspec : z.Walkable spec) : ∃ cnt z' isEmpty, z.removeCnt spec = some cnt ∧
      z.commitZRemRange spec = some (z', isEmpty) ∧ z'.WellFormed ∧
      z'.zOrderedSet.length + cnt = z.zOrderedSet.length ∧
      (cnt ≠ 0 → isEmpty = z'.zOrderedSet.isEmpty) := by
  obtain ⟨z', isEmpty, hcnt, hcommit, hwf, hsub, hnodes, hisEmpty⟩ :=
    hz.commitZRemRange_selected hspec
  refine ⟨_, z', isEmpty, hcnt, hcommit, hwf, ?_, fun h => hisEmpty (ne_nil_of_length_pos
    (Nat.pos_of_ne_zero h))⟩
  rw [hnodes]
  exact length_filter_add_of_sublist hz.nodup hsub

lemma WellFormed.commitZRemRange_eq_none (hz : z.WellFormed)
    (hspec : ¬z.Walkable spec) : z.commitZRemRange spec = none := by
  cases spec with
  | score minex maxex start stop =>
    simp only [Walkable, ScoreWalkable] at hspec
    push Not at hspec
    obtain ⟨rfl, rfl, rfl, n, hn, hscore⟩ := hspec
    simp [RedisZsetObject.commitZRemRange, range_score_eq_none hz.sorted hn hscore rfl]
  | lexNull => rfl
  | _ => exact absurd trivial hspec

end RedisZsetObject

end EloqKV.Zset
