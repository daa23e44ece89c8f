/-
  What a ZRANGE lists (`RedisZsetObject::GetZrangeResult` in `src/redis_zset_object.cpp`).

  Whether the scores are asked for changes the texts of the nodes only, and no node is listed twice.
  The second is not obvious for the lexicographical ranges: an offset below zero, which the parser
  lets through, makes the first round that lists anything start among the nodes of an earlier score.
-/
import EloqKV.Zset.RangeCommands

open List

namespace EloqKV.ZRange

open ZRangeConstraint Zset

open Lib.OrderedSet (partitionPoint Initial Sorted)
open Zset (LexSpec RedisZsetObject ZNode cmp)

/-- The constraint with or without the scores. -/
def ZRangeConstraint.scored (arg : ZRangeConstraint) (withscores : Bool) : ZRangeConstraint :=
  { arg with optWithscores := withscores }

section Listings

variable {S : Type} [ScoreTexts S]

/-- With and without scores a walk has no result or lists the same `good` nodes. -/
def Picks (walk : ZRangeConstraint → Except Fault Found) (arg : ZRangeConstraint)
    (good : List (ZNode S) → ZRangeConstraint → Prop) : Prop :=
  (∃ fault, ∀ withscores, walk (arg.scored withscores) = .error fault) ∨
    ∃ picked after, good picked after ∧ ∀ withscores, walk (arg.scored withscores)
        = .ok (picked.flatMap (nodeTexts withscores), after.scored withscores)

variable {walk : ZRangeConstraint → Except Fault Found} {arg : ZRangeConstraint}

lemma Picks.mono {good good' : List (ZNode S) → ZRangeConstraint → Prop} (h : Picks walk arg good)
    (himp : ∀ picked after, good picked after → good' picked after) : Picks walk arg good' := by
  rcases h with hfault | ⟨picked, after, hgood, hwalk⟩
  · exact .inl hfault
  · exact .inr ⟨picked, after, himp picked after hgood, hwalk⟩

lemma Picks.of_nil {good : List (ZNode S) → ZRangeConstraint → Prop} (hgood : good [] arg)
    (hwalk : ∀ withscores, walk (arg.scored withscores) = .ok ([], arg.scored withscores)) :
    Picks walk arg good :=
  .inr ⟨[], arg, hgood, hwalk⟩

/-! ## The nodes between two iterators -/

lemma emplaceLoop_take (nodes : List (ZNode S)) (limit : Int) : ∃ count left, ∀ withscores,
    emplaceLoop withscores nodes limit
      = ((nodes.take count).flatMap (nodeTexts withscores), left) := by
  induction nodes generalizing limit with
  | nil => exact ⟨0, limit, fun _ => rfl⟩
  | cons n nodes ih =>
    by_cases hlimit : limit = -1 ∨ 0 < limit
    · obtain ⟨count, left, hrest⟩ := ih (if 0 < limit then limit - 1 else limit)
      refine ⟨count + 1, left, fun withscores => ?_⟩
      rw [emplaceLoop, if_pos hlimit, hrest, take_succ_cons, flatMap_cons]
    · exact ⟨0, limit, fun _ => if_neg hlimit⟩

/-- The nodes between two iterators; a negative offset may reach beyond the first one. -/
structure Between (reverse : Bool) (posBegin posEnd : Nat) (nodes : List (ZNode S)) (offset : Int)
    (picked : List (ZNode S)) : Prop where
  nodup : picked.Nodup
  subset : picked ⊆ nodes
  behind : reverse = true → picked ⊆ nodes.drop posBegin
  before : reverse = false → picked ⊆ nodes.take posEnd
  inside : 0 ≤ offset → picked ⊆ nodes.take posEnd ∧ picked ⊆ nodes.drop posBegin

variable {nodes : List (ZNode S)}

omit [ScoreTexts S] in
lemma Between.sublist {reverse : Bool} {posBegin posEnd : Nat}
    {offset : Int} {picked visited : List (ZNode S)}
    (h : Between reverse posBegin posEnd nodes offset visited) (hsub : picked.Sublist visited) :
    Between reverse posBegin posEnd nodes offset picked where
  nodup := h.nodup.sublist hsub
  subset := List.Subset.trans hsub.subset h.subset
  behind hreverse := List.Subset.trans hsub.subset (h.behind hreverse)
  before hforward := List.Subset.trans hsub.subset (h.before hforward)
  inside hoffset := (h.inside hoffset).imp (List.Subset.trans hsub.subset)
    (List.Subset.trans hsub.subset)

omit [ScoreTexts S] in
lemma between_nil {reverse : Bool} {posBegin posEnd : Nat}
    {offset : Int} : Between reverse posBegin posEnd nodes offset [] :=
  ⟨nodup_nil, nil_subset _, fun _ => nil_subset _, fun _ => nil_subset _,
    fun _ => ⟨nil_subset _, nil_subset _⟩⟩

omit [ScoreTexts S] in
lemma between_forward (hnodup : nodes.Nodup) {posBegin : Nat} (posEnd : Nat) (offset : Int) :
    Between false posBegin posEnd nodes offset
      ((nodes.take posEnd).drop (posBegin + offset).toNat) := by
  have hsub := drop_sublist (posBegin + offset).toNat (nodes.take posEnd)
  have hall := hsub.trans (take_sublist posEnd nodes)
  refine ⟨hnodup.sublist hall, hall.subset, nofun, fun _ => hsub.subset,
    fun hoffset => ⟨hsub.subset, fun n hn => ?_⟩⟩
  have hadd : (posBegin + offset).toNat = posBegin + offset.toNat := by omega
  rw [drop_take, hadd, ← drop_drop] at hn
  exact mem_of_mem_drop (mem_of_mem_take hn)

omit [ScoreTexts S] in
lemma between_reverse (hnodup : nodes.Nodup) (posBegin : Nat) {posEnd : Nat} (offset : Int) :
    Between true posBegin posEnd nodes offset
      ((nodes.take (posEnd - offset).toNat).drop posBegin).reverse := by
  set visited := (nodes.take (posEnd - offset).toNat).drop posBegin with hvisited
  have hsub : visited.Sublist nodes := (drop_sublist _ _).trans (take_sublist _ _)
  have hbehind : visited.reverse ⊆ nodes.drop posBegin := by
    intro n hn
    rw [mem_reverse, hvisited, drop_take] at hn
    exact mem_of_mem_take hn
  refine ⟨nodup_reverse.mpr (hnodup.sublist hsub),
    fun n hn => hsub.subset (mem_reverse.mp hn), fun _ => hbehind, nofun,
    fun hoffset => ⟨fun n hn => ?_, hbehind⟩⟩
  have hmin : (posEnd - offset).toNat ≤ posEnd := by omega
  exact take_subset_take_left nodes hmin (mem_of_mem_drop (mem_reverse.mp hn))

lemma picks_emplaceElements (hnodup : nodes.Nodup)
    (posBegin posEnd : Nat) (arg : ZRangeConstraint) :
    Picks (emplaceElements posBegin posEnd · nodes) arg fun picked after =>
      0 ≤ after.optOffset ∧ after.direction = arg.direction ∧
        Between (decide (arg.direction = .reverse)) posBegin posEnd nodes arg.optOffset picked := by
  by_cases hle : posEnd < posBegin
  · refine .inl ⟨.outOfSet, fun withscores => ?_⟩
    simp [emplaceElements, emplaceRevElements, emplaceForwardElements, hle]
  by_cases hsize : (posEnd : Int) - posBegin ≤ arg.optOffset
  · refine .inr ⟨[], { arg with optOffset := arg.optOffset - (posEnd - posBegin) },
      ⟨Int.sub_nonneg_of_le hsize, rfl, between_nil⟩, fun withscores => ?_⟩
    simp [emplaceElements, emplaceRevElements, emplaceForwardElements, hle, scored, hsize]
  by_cases hreverse : arg.direction = .reverse
  · rw [decide_eq_true hreverse]
    by_cases hstart : nodes.length < posEnd - arg.optOffset
    · refine .inl ⟨.outOfSet, fun withscores => ?_⟩
      simp [emplaceElements, emplaceRevElements, scored, hreverse, hle, hsize, hstart]
    · set visited := ((nodes.take (posEnd - arg.optOffset).toNat).drop posBegin).reverse
        with hvisited
      obtain ⟨count, left, hloop⟩ := emplaceLoop_take visited arg.optLimit
      refine .inr ⟨visited.take count, { arg with optOffset := 0, optLimit := left },
        ⟨le_refl 0, rfl, (between_reverse hnodup posBegin _).sublist (take_sublist _ _)⟩,
        fun withscores => ?_⟩
      simp [emplaceElements, emplaceRevElements, scored, hreverse, hle, hsize, hstart,
        ← hvisited, hloop]
  · rw [decide_eq_false hreverse]
    by_cases hstart : posBegin + arg.optOffset < 0
    · refine .inl ⟨.outOfSet, fun withscores => ?_⟩
      simp [emplaceElements, emplaceForwardElements, scored, hreverse, hle, hsize, hstart]
    · set visited := (nodes.take posEnd).drop (posBegin + arg.optOffset).toNat with hvisited
      obtain ⟨count, left, hloop⟩ := emplaceLoop_take visited arg.optLimit
      refine .inr ⟨visited.take count, { arg with optOffset := 0, optLimit := left },
        ⟨le_refl 0, rfl, (between_forward hnodup _ _).sublist (take_sublist _ _)⟩,
        fun withscores => ?_⟩
      simp [emplaceElements, emplaceForwardElements, scored, hreverse, hle, hsize, hstart,
        ← hvisited, hloop]

/-! ## Lexicographical ranges -/

/-- What one round of the loop lists: nodes that are not beyond its score, and if the offset was
not below zero, nodes of its score.  Either it leaves an offset that is not below zero, or it
has done nothing. -/
structure Round (beyond : S → S → Bool) (nodes : List (ZNode S)) (score : S)
    (arg : ZRangeConstraint) (picked : List (ZNode S)) (after : ZRangeConstraint) : Prop where
  nodup : picked.Nodup
  subset : picked ⊆ nodes
  notBeyond : ∀ n ∈ picked, beyond score n.score = false
  ofScore : 0 ≤ arg.optOffset → ∀ n ∈ picked, n.score = score
  offset : 0 ≤ after.optOffset ∨ (picked = [] ∧ after = arg)
  direction : after.direction = arg.direction

/-- What the loop lists: no node twice, and behind the last score only nodes beyond it. -/
structure Rounds (beyond : S → S → Bool) (nodes : List (ZNode S)) (last : Option S)
    (arg : ZRangeConstraint) (picked : List (ZNode S)) : Prop where
  nodup : picked.Nodup
  subset : picked ⊆ nodes
  beyond : 0 ≤ arg.optOffset → ∀ score ∈ last, ∀ n ∈ picked, beyond score n.score = true

variable {beyond : S → S → Bool}

omit [ScoreTexts S] in
lemma rounds_nil {last : Option S} : Rounds beyond nodes last arg [] :=
  ⟨nodup_nil, nil_subset _, nofun⟩

omit [ScoreTexts S] in
lemma Round.append {last : Option S}
    {score : S} {arg after : ZRangeConstraint} {picked rest : List (ZNode S)}
    (htrans : ∀ a b c, beyond a b = true → beyond b c = true → beyond a c = true)
    (hlast : ∀ l ∈ last, beyond l score = true) (h : Round beyond nodes score arg picked after)
    (hrest : Rounds beyond nodes (some score) after rest) :
    Rounds beyond nodes last arg (picked ++ rest) := by
  refine ⟨nodup_append'.mpr ⟨h.nodup, hrest.nodup, fun n hn hn' => ?_⟩,
    append_subset.mpr ⟨h.subset, hrest.subset⟩, fun hoffset l hl n hn => ?_⟩
  · -- the round had its score, so the offset is used up and the rest lies beyond
    rcases h.offset with hafter | ⟨hnil, -⟩
    · have hbeyond := hrest.beyond hafter score rfl n hn'
      rw [h.notBeyond n hn] at hbeyond
      exact nomatch hbeyond
    · rw [hnil] at hn
      exact nomatch hn
  · have hafter : 0 ≤ after.optOffset := by
      rcases h.offset with hafter | ⟨-, heq⟩
      · exact hafter
      · rwa [heq]
    rcases mem_append.mp hn with hn | hn
    · rw [h.ofScore hoffset n hn]
      exact hlast l hl
    · exact htrans l score n.score (hlast l hl) (hrest.beyond hafter score rfl n hn)

/-- Each score has a round of its own, and what a later round picks lies beyond it. -/
lemma picks_lexLoop {body : S → ZRangeConstraint → Except Fault Found}
    {direction : ZRangeDirection}
    (htrans : ∀ a b c, beyond a b = true → beyond b c = true → beyond a c = true)
    (hbody : ∀ score arg, arg.direction = direction →
      Picks (body score) arg (Round beyond nodes score arg))
    (rest : List (ZNode S)) : ∀ (last : Option S) (arg : ZRangeConstraint),
      arg.direction = direction → Picks (lexLoop beyond body rest last) arg fun picked _ =>
        Rounds beyond nodes last arg picked := by
  induction rest with
  | nil => exact fun last arg _ => .of_nil rounds_nil fun _ => rfl
  | cons n rest ih =>
    intro last arg hdirection
    by_cases hskip : last.any (fun score => !beyond score n.score) = true
    · have hwalk : ∀ withscores, lexLoop beyond body (n :: rest) last (arg.scored withscores)
          = lexLoop beyond body rest last (arg.scored withscores) := fun _ => if_pos hskip
      simpa only [Picks, hwalk] using ih last arg hdirection
    by_cases hlimit : arg.optLimit = 0
    · refine .of_nil rounds_nil fun withscores => ?_
      rw [lexLoop, if_neg hskip]
      exact if_pos hlimit
    have hwalk : ∀ withscores, lexLoop beyond body (n :: rest) last (arg.scored withscores) = (do
          let found ← body n.score (arg.scored withscores)
          let others ← lexLoop beyond body rest (some n.score) found.2
          pure (found.1 ++ others.1, others.2)) := by
      intro withscores
      rw [lexLoop, if_neg hskip]
      exact if_neg hlimit
    have hlast : ∀ l ∈ last, beyond l n.score = true := by
      rintro l rfl
      simpa using hskip
    rcases hbody n.score arg hdirection with ⟨fault, hfault⟩ | ⟨picked, after, hround, hpicked⟩
    · refine .inl ⟨fault, fun withscores => ?_⟩
      rw [hwalk, hfault]
      rfl
    have hafter := hround.direction.trans hdirection
    rcases ih (some n.score) after hafter with ⟨fault, hfault⟩ | ⟨others, final, hothers, hrest⟩
    · refine .inl ⟨fault, fun withscores => ?_⟩
      rw [hwalk, hpicked]
      simp [bind, Except.bind, hfault]
    · refine .inr ⟨picked ++ others, final, hround.append htrans hlast hothers,
        fun withscores => ?_⟩
      rw [hwalk, hpicked, flatMap_append]
      simp only [bind, Except.bind, hrest]
      rfl

variable [LinearOrder S]

/-- Members of one score stand together in order of their names, so the bounds cut out a block. -/
lemma picks_emplaceScore (hs : Sorted cmp nodes)
    (hnodup : nodes.Nodup) (spec : LexSpec) (score : S) (arg : ZRangeConstraint) :
    Picks (emplaceScore spec nodes score) arg
      (Round (fun a b => if arg.direction = .reverse then decide (b < a) else decide (a < b)) nodes
        score arg) := by
  have hlo : Initial (lexBelowStart spec score) nodes :=
    initial_lex hs (lexBelowStart_iff spec score) spec.belowStart_of_lt
  have hhi : Initial (lexBelowStop spec score) nodes :=
    initial_lex hs (lexBelowStop_iff spec score) spec.belowStop_of_lt
  cases hrange : getRangeByLexForCurrentScore spec score nodes with
  | none =>
    refine .of_nil ⟨nodup_nil, nil_subset _, nofun, fun _ => nofun, .inr ⟨rfl, rfl⟩, rfl⟩
      fun withscores => ?_
    rw [emplaceScore, hrange]
  | some bounds =>
    have hwalk : ∀ arg, emplaceScore spec nodes score arg
        = emplaceElements bounds.1 bounds.2 arg nodes := fun arg => by rw [emplaceScore, hrange]
    have hbounds : bounds = (partitionPoint (lexBelowStart spec score) nodes,
        partitionPoint (lexBelowStop spec score) nodes) := by
      unfold getRangeByLexForCurrentScore at hrange
      dsimp only at hrange
      split at hrange
      · exact nomatch hrange
      · split at hrange
        · exact nomatch hrange
        · exact (Option.some.inj hrange).symm
    have hbefore : ∀ n ∈ nodes.take bounds.2, n.score ≤ score := by
      intro n hn
      rw [hbounds, Lib.OrderedSet.take_partitionPoint hhi, mem_filter, lexBelowStop_iff] at hn
      rcases hn.2 with hlt | ⟨heq, -⟩
      · exact le_of_lt hlt
      · exact le_of_eq heq
    have hbehind : ∀ n ∈ nodes.drop bounds.1, score ≤ n.score := by
      intro n hn
      rw [hbounds, Lib.OrderedSet.drop_partitionPoint hlo, mem_filter, Bool.not_eq_true',
        ← Bool.not_eq_true, lexBelowStart_iff] at hn
      exact not_lt.mp fun hlt => hn.2 (.inl hlt)
    have hpicks := picks_emplaceElements hnodup bounds.1 bounds.2 arg
    rw [← funext hwalk] at hpicks
    refine hpicks.mono fun picked after ⟨hoffset, hdirection, h⟩ => ?_
    refine ⟨h.nodup, h.subset, fun n hn => ?_, fun hstart n hn => ?_, .inl hoffset, hdirection⟩
    · by_cases hreverse : arg.direction = .reverse
      · rw [if_pos hreverse, decide_eq_false_iff_not, not_lt]
        exact hbehind n (h.behind (decide_eq_true hreverse) hn)
      · rw [if_neg hreverse, decide_eq_false_iff_not, not_lt]
        exact hbefore n (h.before (decide_eq_false hreverse) hn)
    · obtain ⟨htake, hdrop⟩ := h.inside hstart
      exact le_antisymm (hbefore n (htake hn)) (hbehind n (hdrop hn))

/-- No node is listed twice, and all of them are in the set. -/
def Distinct (nodes picked : List (ZNode S)) : Prop :=
  picked.Nodup ∧ picked ⊆ nodes

lemma picks_zRangeByLex (hs : Sorted cmp nodes)
    (hnodup : nodes.Nodup) (spec : ZRangeSpec S) (arg : ZRangeConstraint) :
    Picks (zRangeByLex · spec nodes) arg fun picked _ => Distinct nodes picked := by
  have hnone : Distinct nodes [] := ⟨nodup_nil, nil_subset _⟩
  by_cases hnull : spec.null = true
  · exact .of_nil hnone fun withscores => if_pos hnull
  cases hlex : spec.lexSpec with
  | error fault =>
    refine .inl ⟨fault, fun withscores => ?_⟩
    beta_reduce
    rw [zRangeByLex, if_neg hnull, hlex]
    rfl
  | ok lexSpec =>
    by_cases hempty : lexSpec.isEmpty = true
    · refine .of_nil hnone fun withscores => ?_
      rw [zRangeByLex, if_neg hnull, hlex]
      exact if_pos hempty
    · set beyond : S → S → Bool := fun a b =>
        if arg.direction = .reverse then decide (b < a) else decide (a < b) with hbeyond
      have hwalk : ∀ withscores, zRangeByLex (arg.scored withscores) spec nodes
          = lexLoop beyond (emplaceScore lexSpec nodes)
            (if arg.direction = .reverse then nodes.reverse else nodes) none
            (arg.scored withscores) := by
        intro withscores
        rw [zRangeByLex, if_neg hnull, hlex]
        refine (if_neg hempty).trans ?_
        by_cases hreverse : arg.direction = .reverse
        · simp only [hbeyond, hreverse, if_true]
          exact if_pos hreverse
        · simp only [hbeyond, hreverse, if_false]
          exact if_neg hreverse
      have htrans : ∀ a b c, beyond a b = true → beyond b c = true → beyond a c = true := by
        intro a b c
        simp only [hbeyond]
        by_cases hreverse : arg.direction = .reverse
        · simp only [hreverse, if_true, decide_eq_true_eq]
          exact fun hab hbc => lt_trans hbc hab
        · simp only [hreverse, if_false, decide_eq_true_eq]
          exact lt_trans
      have hbody : ∀ score arg', arg'.direction = arg.direction →
          Picks (emplaceScore lexSpec nodes score) arg' (Round beyond nodes score arg') := by
        intro score arg' hdirection
        rw [hbeyond, ← hdirection]
        exact picks_emplaceScore hs hnodup lexSpec score arg'
      have hpicks := picks_lexLoop htrans hbody
        (if arg.direction = .reverse then nodes.reverse else nodes) none arg rfl
      simp only [Picks, ← hwalk] at hpicks
      exact Picks.mono hpicks fun picked after h => ⟨h.nodup, h.subset⟩

/-! ## All ranges -/

lemma picks_zRangeByScore (hnodup : nodes.Nodup) (spec : ZRangeSpec S) (arg : ZRangeConstraint) :
    Picks (zRangeByScore · spec nodes) arg fun picked _ => Distinct nodes picked := by
  cases hstart : spec.optStart.getDouble with
  | error fault =>
    refine .inl ⟨fault, fun withscores => ?_⟩
    beta_reduce
    rw [zRangeByScore, hstart]
    rfl
  | ok numStart =>
    cases hend : spec.optEnd.getDouble with
    | error fault =>
      refine .inl ⟨fault, fun withscores => ?_⟩
      beta_reduce
      rw [zRangeByScore, hstart, hend]
      rfl
    | ok numEnd =>
      by_cases hempty : numEnd < numStart
      · refine .of_nil ⟨nodup_nil, nil_subset _⟩ fun withscores => ?_
        rw [zRangeByScore, hstart, hend]
        exact if_pos hempty
      · have hwalk : ∀ arg, zRangeByScore arg spec nodes = emplaceElements
            (partitionPoint (scoreBelowStart spec.minex numStart) nodes)
            (partitionPoint (scoreBelowStop spec.maxex numEnd) nodes) arg nodes := by
          intro arg
          rw [zRangeByScore, hstart, hend]
          exact if_neg hempty
        have hpicks := picks_emplaceElements hnodup
          (partitionPoint (scoreBelowStart spec.minex numStart) nodes)
          (partitionPoint (scoreBelowStop spec.maxex numEnd) nodes) arg
        rw [← funext hwalk] at hpicks
        exact hpicks.mono fun picked after h => ⟨h.2.2.nodup, h.2.2.subset⟩

/-- The texts a walk lists, with and without scores: each member once, with its score's text. -/
def ListsRows (walk : ZRangeConstraint → Except Fault Found) (arg : ZRangeConstraint)
    (rows : List (Bytes × Bytes)) : Prop :=
  (rows.map Prod.fst).Nodup ∧ ∀ withscores, ∃ after, walk (arg.scored withscores)
    = .ok (rows.flatMap fun row => if withscores then [row.1, row.2] else [row.1], after)

omit [LinearOrder S] [ScoreTexts S] in
lemma nodup_rows {nodes picked : List (ZNode S)} (hfields : (nodes.map ZNode.field).Nodup)
    (h : Distinct nodes picked) (text : ZNode S → Bytes) :
    ((picked.map fun n => (n.field, text n)).map Prod.fst).Nodup := by
  rw [map_map]
  exact List.Nodup.map_on (fun a ha b hb hab =>
    inj_on_of_nodup_map hfields (h.2 ha) (h.2 hb) hab) h.1

omit [LinearOrder S] in
lemma Picks.listsRows (hfields : (nodes.map ZNode.field).Nodup)
    (h : Picks walk arg fun picked _ => Distinct nodes picked) :
    (∃ fault, ∀ withscores, walk (arg.scored withscores) = .error fault) ∨
      ∃ rows, ListsRows walk arg rows := by
  refine h.imp_right fun ⟨picked, after, hdistinct, hwalk⟩ => ?_
  refine ⟨picked.map fun n => (n.field, ScoreTexts.d2string n.score),
    nodup_rows hfields hdistinct _, fun withscores => ⟨after.scored withscores, ?_⟩⟩
  rw [hwalk, flatMap_map]
  rfl

/-- Positions of the ordered set, each read once; bounds that are no numbers fail in both forms. -/
lemma listsRows_zRangeByRank
    (hfields : (nodes.map ZNode.field).Nodup) (spec : ZRangeSpec S) (arg : ZRangeConstraint) :
    (∃ fault, ∀ withscores, zRangeByRank (arg.scored withscores) spec nodes = .error fault) ∨
      ∃ rows, ListsRows (zRangeByRank · spec nodes) arg rows := by
  have hnodup : nodes.Nodup := hfields.of_map
  cases hstart : spec.optStart.getInt with
  | error fault =>
    refine .inl ⟨fault, fun withscores => ?_⟩
    rw [zRangeByRank, hstart]
    rfl
  | ok posStart =>
    cases hend : spec.optEnd.getInt with
    | error fault =>
      refine .inl ⟨fault, fun withscores => ?_⟩
      rw [zRangeByRank, hstart, hend]
      rfl
    | ok posEnd =>
      cases hbounds : rankBounds posStart posEnd nodes.length with
      | none =>
        refine .inr ⟨[], nodup_nil, fun withscores => ⟨arg.scored withscores, ?_⟩⟩
        beta_reduce
        rw [zRangeByRank, hstart, hend]
        simp only [bind, Except.bind, hbounds]
        rfl
      | some bounds =>
        have hwalk : ∀ arg, zRangeByRank arg spec nodes =
            if arg.direction = .reverse then
              .ok (((nodes.reverse.take bounds.2).drop bounds.1).flatMap
                (revRankTexts arg.optWithscores), arg)
            else emplaceForwardElements bounds.1 bounds.2 arg nodes := by
          intro arg
          rw [zRangeByRank, hstart, hend]
          simp only [bind, Except.bind, hbounds]
          rfl
        by_cases hreverse : arg.direction = .reverse
        · set picked := (nodes.reverse.take bounds.2).drop bounds.1 with hpicked
          have hsub : picked.Sublist nodes.reverse := (drop_sublist _ _).trans (take_sublist _ _)
          have hdistinct : Distinct nodes picked := ⟨(nodup_reverse.mpr hnodup).sublist hsub,
              fun n hn => mem_reverse.mp (hsub.subset hn)⟩
          refine .inr ⟨picked.map fun n => (n.field,
            if n.score = ScoreTexts.infinity then ascii "inf"
            else if n.score = ScoreTexts.negativeInfinity then ascii "-inf"
            else ScoreTexts.d2string n.score), nodup_rows hfields hdistinct _,
            fun withscores => ⟨arg.scored withscores, ?_⟩⟩
          beta_reduce
          rw [hwalk, flatMap_map]
          exact if_pos hreverse
        · -- forwards the offset and the limit are looked at
          have hforward : ∀ withscores, zRangeByRank (arg.scored withscores) spec nodes
              = emplaceElements bounds.1 bounds.2 (arg.scored withscores) nodes := by
            intro withscores
            rw [hwalk]
            exact (if_neg hreverse).trans (if_neg hreverse).symm
          have hpicks := picks_emplaceElements hnodup bounds.1 bounds.2 arg
          simp only [Picks, ← hforward] at hpicks
          have hdistinct : Picks (zRangeByRank · spec nodes) arg fun picked _ =>
              Distinct nodes picked :=
            Picks.mono hpicks fun picked after h => ⟨h.2.2.nodup, h.2.2.subset⟩
          exact hdistinct.listsRows hfields

/-- **What a ZRANGE lists.**  On a sorted set that keeps its invariant every range either has no
result, with or without scores, or lists the same members with and without, each once. -/
theorem listsRows_getZrangeResult {z : RedisZsetObject S} (hz : z.WellFormed)
    (arg : ZRangeConstraint) (spec : ZRangeSpec S) :
    (∃ fault, ∀ withscores,
        getZrangeResult (arg.scored withscores) spec z.zOrderedSet = .error fault) ∨
      ∃ rows, ListsRows (getZrangeResult · spec z.zOrderedSet) arg rows := by
  have hfields : (z.zOrderedSet.map ZNode.field).Nodup := hz.distinct
  have hnodup : z.zOrderedSet.Nodup := hfields.of_map
  have hrange : ∀ withscores, (arg.scored withscores).rangetype = arg.rangetype := fun _ => rfl
  simp only [ListsRows, getZrangeResult, hrange]
  cases arg.rangetype with
  | rank => exact listsRows_zRangeByRank hfields spec arg
  | score => exact (picks_zRangeByScore hnodup spec arg).listsRows hfields
  | lex => exact (picks_zRangeByLex hz.sorted hnodup spec arg).listsRows hfields
  | auto => exact .inr ⟨[], nodup_nil, fun withscores => ⟨_, rfl⟩⟩

end Listings

end EloqKV.ZRange
