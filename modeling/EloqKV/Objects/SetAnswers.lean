/-
  What union, intersection and difference answer.

  ZINTER with one key is not: its loops report a member when the last of the other sets has it, and
  there is no other set.
-/
import EloqKV.Objects.SetQueries
import EloqKV.Zset.RangeAnswers

open List Function

namespace EloqKV.SetQueries

open Lib.SetAlgebra
open Objects (HashOrder RedisObject)
open ZRange (Fault getZrangeResult nodeTexts)
open Zset (RedisZsetObject ZNode)

section Answers

variable {S W : Type}

/-! ## What the sources have -/

def members : Option (RedisObject S) → List Bytes
  | some ⟨.set s, _⟩ => s.hashSet
  | some ⟨.zset z, _⟩ => z.members
  | _ => []

/-- A key a command on sets can read: none, or a set. -/
def IsSetSource : Option (RedisObject S) → Prop
  | none | some ⟨.set _, _⟩ => True
  | _ => False

/-- A key a command on sorted sets can read: none, a set, or a well-formed sorted set. -/
def IsZsetSource [LinearOrder S] : Option (RedisObject S) → Prop
  | none | some ⟨.set _, _⟩ => True
  | some ⟨.zset z, _⟩ => z.WellFormed
  | _ => False

variable {src : Option (RedisObject S)}

lemma IsSetSource.isZsetSource [LinearOrder S] (h : IsSetSource src) : IsZsetSource src := by
  rcases src with _ | ⟨payload, ttl⟩
  · trivial
  · cases payload with
    | set s => trivial
    | _ => exact h.elim

lemma nodup_members [LinearOrder S] (h : IsZsetSource src) : (members src).Nodup := by
  rcases src with _ | ⟨payload, ttl⟩
  · exact nodup_nil
  · cases payload with
    | set s => exact s.nodup
    | zset z => exact Zset.RedisZsetObject.Coherent.distinct h.toCoherent
    | _ => exact h.elim

/-! ## The child commands -/

lemma sMembers_spec (order : HashOrder) (h : IsSetSource src) :
    ((sMembers order src).errCode = .ok ∨ (sMembers order src).errCode = .nil) ∧
      (sMembers order src).ret = (members src).length ∧
      (sMembers order src).stringList.Perm (members src) := by
  rcases src with _ | ⟨payload, ttl⟩
  · exact ⟨.inr rfl, rfl, .refl _⟩
  · cases payload with
    | set s => exact ⟨.inl rfl, rfl, order.perm _⟩
    | _ => exact h.elim

lemma szScan_spec [LinearOrder S] (order : HashOrder) (one : S) (h : IsZsetSource src) :
    ((szScan order one src).errCode = .ok ∨
        ((szScan order one src).errCode = .nil ∧ (szScan order one src).result = [])) ∧
      (szScan order one src).names.Perm (members src) := by
  rcases src with _ | ⟨payload, ttl⟩
  · exact ⟨.inr ⟨rfl, rfl⟩, .refl _⟩
  · cases payload with
    | set s =>
      refine ⟨.inl rfl, ?_⟩
      simp only [szScan, ScanResult.names, map_map, comp_def, map_id']
      exact order.perm _
    | zset z =>
      refine ⟨.inl rfl, ?_⟩
      simp only [szScan, ScanResult.names, map_map, comp_def]
      exact .refl _
    | _ => exact h.elim

lemma names_weighted (scoring : Scoring S W) (cmd : ScanResult S × W) :
    (weighted scoring cmd).map Prod.fst = cmd.1.names := by
  rw [weighted, map_map]
  rfl

section Range

variable [LinearOrder S] [ScoreTexts S]

lemma getZrangeResult_all (withscores : Bool) (nodes : List (ZNode S)) :
    ∃ arg, getZrangeResult (diffConstraint withscores) diffSpec nodes
      = .ok (nodes.flatMap (nodeTexts withscores), arg) := by
  have hall : Zset.rankSlice 0 (-1) nodes = nodes := by
    rw [Zset.rankSlice]
    simp
  refine ⟨diffConstraint withscores, (ZRange.zRangeByRank_unlimited ⟨rfl, rfl⟩ rfl rfl).trans ?_⟩
  rw [hall]
  rfl

/-- What a row of a reply is. -/
def pairTexts (withscores : Bool) (rows : List (Bytes × Bytes)) : List Bytes :=
  rows.flatMap fun row => if withscores then [row.1, row.2] else [row.1]

omit [LinearOrder S] [ScoreTexts S] in
lemma pairTexts_false (rows : List (Bytes × Bytes)) : pairTexts false rows = rows.map Prod.fst :=
  (map_eq_flatMap).symm

lemma zRange_spec (order : HashOrder) (withscores : Bool) {src : Option (RedisObject S)}
    (h : IsZsetSource src) : ∃ (res : RangeResult) (rows : List (Bytes × Bytes)),
      zRange order true (diffConstraint withscores) diffSpec src = .ok res ∧
        (res.errCode = .ok ∨ res.errCode = .nil) ∧
        res.result.getD [] = pairTexts withscores rows ∧
        (rows.map Prod.fst).Perm (members src) := by
  rcases src with _ | ⟨payload, ttl⟩
  · exact ⟨⟨.nil, none⟩, [], rfl, .inr rfl, rfl, .refl _⟩
  · cases payload with
    | set s =>
      refine ⟨_, (order.walk s.hashSet).map (·, ascii "1"), rfl, .inl rfl, ?_, ?_⟩
      · rw [pairTexts, flatMap_map]
        rfl
      · rw [map_map, comp_def, map_id']
        exact order.perm _
    | zset z =>
      obtain ⟨arg, hall⟩ := getZrangeResult_all withscores z.zOrderedSet
      refine ⟨⟨.ok, some (z.zOrderedSet.flatMap (nodeTexts withscores))⟩,
        z.zOrderedSet.map fun n => (n.field, ScoreTexts.d2string n.score), ?_, .inl rfl, ?_, ?_⟩
      · rw [zRange, hall]
        rfl
      · rw [pairTexts, flatMap_map]
        rfl
      · rw [map_map]
        exact .refl _
    | _ => exact h.elim

end Range

/-! ## Lists of a set -/

/-- A list that has the members of a set, each once. -/
def Lists (l : List Bytes) (p : Bytes → Prop) : Prop := l.Nodup ∧ ∀ m, m ∈ l ↔ p m

lemma Lists.perm {l l' : List Bytes} {p : Bytes → Prop} (h : Lists l p) (hperm : l'.Perm l) :
    Lists l' p :=
  ⟨hperm.nodup_iff.mpr h.1, fun m => hperm.mem_iff.trans (h.2 m)⟩

lemma firstError_of_ok {codes : List RdCode} (h : ∀ code ∈ codes, code = .ok ∨ code = .nil) :
    firstError codes = none := by
  refine find?_eq_none.mpr fun code hcode => ?_
  rcases h code hcode with rfl | rfl <;> decide

lemma unlessError_of_ok {codes : List RdCode} (h : ∀ code ∈ codes, code = .ok ∨ code = .nil)
    (reply : Reply) : unlessError codes reply = reply := by
  rw [unlessError, firstError_of_ok h]

def InAll (sources : List (Option (RedisObject S))) (m : Bytes) : Prop :=
  ∀ src ∈ sources, m ∈ members src

def InAny (sources : List (Option (RedisObject S))) (m : Bytes) : Prop :=
  ∃ src ∈ sources, m ∈ members src

/-- The members the first source has and no other. -/
def InFirst (sources : List (Option (RedisObject S))) (m : Bytes) : Prop :=
  (∃ src ∈ sources.head?, m ∈ members src) ∧ ∀ src ∈ sources.tail, m ∉ members src

/-- The lists of the sources, in whatever order they were walked. -/
def Listed (sources : List (Option (RedisObject S))) (lists : List (List Bytes)) : Prop :=
  List.Forall₂ (fun src l => l.Perm (members src)) sources lists

lemma Listed.of_map {α : Type} {sources : List (Option (RedisObject S) × W)}
    {f : Option (RedisObject S) × W → α} {g : α → List Bytes}
    (h : ∀ src ∈ sources, (g (f src)).Perm (members src.1)) :
    Listed (sources.map Prod.fst) ((sources.map f).map g) := by
  rw [map_map, Listed, forall₂_map_left_iff, forall₂_map_right_iff, forall₂_same]
  exact h

variable {lists : List (List Bytes)} {sources : List (Option (RedisObject S))}

lemma Listed.inAll
    (h : Listed sources lists) (m : Bytes) : (∀ l ∈ lists, m ∈ l) ↔ InAll sources m := by
  unfold InAll
  induction h with
  | nil => simp
  | cons hperm _ ih => rw [forall_mem_cons, forall_mem_cons, ih, hperm.mem_iff]

lemma Listed.nodup [LinearOrder S] (h : Listed sources lists)
    (hsources : ∀ src ∈ sources, IsZsetSource src) : ∀ l ∈ lists, l.Nodup := by
  induction h with
  | nil => simp
  | cons hperm _ ih =>
    rw [forall_mem_cons] at hsources ⊢
    exact ⟨hperm.nodup_iff.mpr (nodup_members hsources.1), ih hsources.2⟩

lemma Listed.length_le (h : Listed sources lists) {bound : Nat}
    (hsources : ∀ src ∈ sources, (members src).length ≤ bound) : ∀ l ∈ lists, l.length ≤ bound := by
  induction h with
  | nil => simp
  | cons hperm _ ih =>
    rw [forall_mem_cons] at hsources ⊢
    exact ⟨hperm.length_eq ▸ hsources.1, ih hsources.2⟩

lemma findInter_spec (hne : lists ≠ [])
    (hnodup : ∀ l ∈ lists, l.Nodup) : ∃ base : List Bytes,
      Lists base (fun m => ∀ l ∈ lists, m ∈ l) ∧ (∃ l ∈ lists, base.length ≤ l.length) ∧
        ∀ limit, findInter lists limit = base.take limit := by
  have hlt : smallestIndex (lists.map List.length) < lists.length := by
    have hsizes : lists.map List.length ≠ [] := fun h => hne (map_eq_nil_iff.mp h)
    have h := smallestIndex_lt hsizes
    rwa [length_map] at h
  set i := smallestIndex (lists.map List.length)
  have hsub := retain_sublist lists[i] (lists.eraseIdx i)
  have hmem : lists[i] ∈ lists := getElem_mem hlt
  refine ⟨retain lists[i] (lists.eraseIdx i), ⟨(hnodup _ hmem).sublist hsub, fun m => ?_⟩,
    ⟨_, hmem, hsub.length_le⟩, fun limit => ?_⟩
  · exact (mem_retain _ _ m).trans (forall_mem_iff_eraseIdx hlt).symm
  · rw [findInter, getD_eq_getElem _ _ hlt]

lemma nodup_diffMembers (hnodup : ∀ l ∈ lists, l.Nodup) : (diffMembers lists).Nodup := by
  refine List.Nodup.filter _ ?_
  cases lists with
  | nil => exact nodup_nil
  | cons l lists => exact hnodup l mem_cons_self

lemma Listed.inFirst (h : Listed sources lists) (m : Bytes) :
    m ∈ diffMembers lists ↔ InFirst sources m := by
  have hnone : ∀ {sources : List (Option (RedisObject S))} {lists : List (List Bytes)},
      Listed sources lists → (m ∉ lists.flatten ↔ ∀ src ∈ sources, m ∉ members src) := by
    intro sources lists h
    induction h with
    | nil => simp
    | cons hperm _ ih =>
      rw [flatten_cons, mem_append, not_or, ih, forall_mem_cons, hperm.mem_iff]
  cases h with
  | nil => simp [diffMembers, InFirst]
  | cons hperm htail =>
    rw [diffMembers, mem_filter, InFirst, decide_eq_true_eq, headD_cons, tail_cons, hnone htail,
      hperm.mem_iff]
    simp

/-! ## The rows of sorted sets -/

section Rows

variable [LinearOrder S] (order : HashOrder) (scoring : Scoring S W)

/-- The child commands of ZUNION and ZINTER, with the weights. -/
def scans (sources : List (Option (RedisObject S) × W)) : List (ScanResult S × W) :=
  sources.map fun src => (szScan order scoring.one src.1, src.2)

variable {sources : List (Option (RedisObject S) × W)} (agg : AggregateType)

def SomeEmpty (sources : List (Option (RedisObject S) × W)) : Prop :=
  ∃ src ∈ sources, members src.1 = []

omit [LinearOrder S] in
lemma SomeEmpty.not_inAll (h : SomeEmpty sources)
    (m : Bytes) : ¬InAll (sources.map Prod.fst) m := by
  obtain ⟨src, hsrc, hnone⟩ := h
  intro hall
  have hmem := hall src.1 (mem_map_of_mem hsrc)
  rw [hnone] at hmem
  exact not_mem_nil hmem

omit [LinearOrder S] in
lemma smallestSet_spec {cmds : List (ScanResult S × W)}
    (hcmds : ∀ cmd ∈ cmds, cmd.1.errCode = .ok ∨ (cmd.1.errCode = .nil ∧ cmd.1.result = []))
    (i : Nat) (best : Nat × Nat) :
    ∃ best', smallestSet i best cmds = .ok best' ∧
      (best'.1 = best.1 ∨ (i ≤ best'.1 ∧ best'.1 < i + cmds.length)) ∧
      (best'.2 = 0 ↔ best.2 = 0 ∨ ∃ cmd ∈ cmds, cmd.1.result = []) := by
  induction cmds generalizing i best with
  | nil => exact ⟨best, rfl, .inl rfl, by simp⟩
  | cons cmd cmds ih =>
    rw [forall_mem_cons] at hcmds
    have hplace : ∀ {next best' : Nat × Nat}, next.1 = best.1 ∨ next.1 = i →
        (best'.1 = next.1 ∨ (i + 1 ≤ best'.1 ∧ best'.1 < i + 1 + cmds.length)) →
        best'.1 = best.1 ∨ (i ≤ best'.1 ∧ best'.1 < i + (cmd :: cmds).length) := by
      intro next best' hnext hbest'
      rw [length_cons]
      omega
    rw [smallestSet]
    rcases hcmds.1 with hok | ⟨hnil, hresult⟩
    · obtain ⟨best', hrun, hidx, hzero⟩ := ih hcmds.2 (i + 1)
        (if cmd.1.result.length < best.2 then (i, cmd.1.result.length) else best)
      refine ⟨best', by rw [hok]; exact hrun, hplace ?_ hidx, ?_⟩
      · split
        · exact .inr rfl
        · exact .inl rfl
      · rw [hzero, exists_mem_cons_iff, ← or_assoc, ← length_eq_zero_iff]
        refine or_congr ?_ Iff.rfl
        -- the smaller of two sizes is zero if one of them is
        split <;> omega
    · obtain ⟨best', hrun, hidx, hzero⟩ := ih hcmds.2 (i + 1) (i, 0)
      refine ⟨best', by rw [hnil]; exact hrun, hplace (.inr rfl) hidx, ?_⟩
      rw [exists_mem_cons_iff]
      exact iff_of_true (hzero.mpr (.inl rfl)) (.inr (.inl hresult))

section Scans

variable (hsources : ∀ src ∈ sources, IsZsetSource src.1)

include hsources

/-- A merge of two scores keeps the keys, so every member of any source stays. -/
lemma mem_unionVals (m : Bytes) :
    m ∈ (unionVals scoring agg (scans order scoring sources)).keys ↔
      InAny (sources.map Prod.fst) m := by
  have hfold : ∀ vals : AList fun _ : Bytes => S,
      m ∈ ((scans order scoring sources).foldl (fun vals cmd =>
        if cmd.1.errCode = .nil then vals
        else (weighted scoring cmd).foldl (collect (scoring.updateFunction agg)) vals) vals).keys ↔
        InAny (sources.map Prod.fst) m ∨ m ∈ vals.keys := by
    induction sources with
    | nil =>
      simp [scans, InAny]
    | cons src sources ih =>
      intro vals
      rw [forall_mem_cons] at hsources
      obtain ⟨hcode, hperm⟩ := szScan_spec order scoring.one hsources.1
      have hstep : ∀ vals : AList fun _ : Bytes => S,
          m ∈ (if (szScan order scoring.one src.1).errCode = .nil then vals
            else (weighted scoring (szScan order scoring.one src.1, src.2)).foldl
              (collect (scoring.updateFunction agg)) vals).keys ↔
            m ∈ members src.1 ∨ m ∈ vals.keys := by
        intro vals
        by_cases hnil : (szScan order scoring.one src.1).errCode = .nil
        · have hempty : m ∉ members src.1 := by
            rcases hcode with hok | ⟨-, hresult⟩
            · exact absurd (hok.symm.trans hnil) (by decide)
            · rw [← hperm.mem_iff, ScanResult.names, hresult]
              exact not_mem_nil
          rw [if_pos hnil, or_iff_right hempty]
        · rw [if_neg hnil, mem_keys_foldl_collect, names_weighted, hperm.mem_iff]
      have hcons : InAny ((src :: sources).map Prod.fst) m ↔
          m ∈ members src.1 ∨ InAny (sources.map Prod.fst) m := by
        simp [InAny]
      have hrest := ih hsources.2
      rw [scans, map_cons, foldl_cons, ← scans, hrest, hstep]
      tauto
  have hempty : m ∉ (∅ : AList fun _ : Bytes => S).keys := AList.notMem_empty m
  rw [unionVals, hfold, or_iff_left hempty]

theorem unionRows_spec :
    Lists ((unionRows scoring order agg (scans order scoring sources)).map Prod.fst)
      (InAny (sources.map Prod.fst)) := by
  set vals := unionVals scoring agg (scans order scoring sources) with hvals
  have hperm : ((unionRows scoring order agg (scans order scoring sources)).map Prod.fst).Perm
      vals.keys := by
    refine ((mergeSort_perm _ _).map Prod.fst).trans ?_
    rw [map_map]
    exact (order.perm _).map _
  exact Lists.perm ⟨vals.nodupKeys, mem_unionVals order scoring agg hsources⟩ hperm

lemma scans_codes : ∀ cmd ∈ scans order scoring sources,
      cmd.1.errCode = .ok ∨ (cmd.1.errCode = .nil ∧ cmd.1.result = []) := by
  intro cmd hcmd
  obtain ⟨src, hsrc, rfl⟩ := mem_map.mp hcmd
  exact (szScan_spec order scoring.one (hsources src hsrc)).1

lemma not_any_wrongType_scans :
    ¬(scans order scoring sources).any (·.1.errCode = .wrongType) := by
  intro hany
  obtain ⟨cmd, hcmd, hcode⟩ := any_eq_true.mp hany
  rcases scans_codes order scoring hsources cmd hcmd with h | ⟨h, -⟩ <;> simp [h] at hcode

lemma listed_scans : Listed (sources.map Prod.fst)
      ((scans order scoring sources).map fun cmd => (weighted scoring cmd).map Prod.fst) := by
  refine Listed.of_map fun src hsrc => ?_
  rw [names_weighted]
  exact (szScan_spec order scoring.one (hsources src hsrc)).2

lemma interResults_spec {i : Nat} (hi : i < sources.length) (htwo : sources.length ≠ 1) :
    Lists ((interResults scoring agg (scans order scoring sources) i).map Prod.fst)
      (InAll (sources.map Prod.fst)) := by
  set cmds := scans order scoring sources with hcmds
  have hlength : cmds.length = sources.length := by rw [hcmds, scans, length_map]
  have hlt : i < cmds.length := hlength ▸ hi
  have hothers : ((cmds.eraseIdx i).map (weighted scoring)).length + 1 = cmds.length := by
    rw [length_map, length_eraseIdx_of_lt hlt]
    omega
  have hne : (cmds.eraseIdx i).map (weighted scoring) ≠ [] := by
    intro hnil
    rw [hnil] at hothers
    exact htwo (hlength ▸ hothers.symm)
  obtain ⟨hnodup, hmem⟩ := Tally.run_start (scoring.updateFunction agg)
    (weighted scoring cmds[i]) hne
  rw [Nat.add_comm, hothers] at hnodup hmem
  rw [interResults, List.getElem?_eq_getElem hlt]
  refine ⟨hnodup, fun m => (hmem m).trans ?_⟩
  rw [← (listed_scans order scoring hsources).inAll, forall_mem_map, forall_mem_map]
  exact (forall_mem_iff_eraseIdx (p := fun cmd => m ∈ (weighted scoring cmd).map Prod.fst) hlt).symm

lemma scans_someEmpty :
    (∃ cmd ∈ scans order scoring sources, cmd.1.result = []) ↔ SomeEmpty sources := by
  constructor
  · rintro ⟨cmd, hcmd, hempty⟩
    obtain ⟨src, hsrc, rfl⟩ := mem_map.mp hcmd
    have hperm := (szScan_spec order scoring.one (hsources src hsrc)).2
    rw [ScanResult.names, hempty] at hperm
    exact ⟨src, hsrc, hperm.symm.eq_nil⟩
  · rintro ⟨src, hsrc, hempty⟩
    have hperm := (szScan_spec order scoring.one (hsources src hsrc)).2
    rw [hempty] at hperm
    exact ⟨_, mem_map_of_mem hsrc, map_eq_nil_iff.mp hperm.eq_nil⟩

/-- A row is reported at the last of the other sources, and a single source has none. -/
theorem interRows_spec (hne : sources ≠ []) :
    ∃ rows, interRows scoring agg (scans order scoring sources) = .ok rows ∧
      (SomeEmpty sources → rows = []) ∧ (sources.length = 1 → rows = []) ∧
      (sources.length ≠ 1 → Lists (rows.map Prod.fst) (InAll (sources.map Prod.fst))) := by
  obtain ⟨best, hbest, hidx, hzero⟩ :=
    smallestSet_spec (scans_codes order scoring hsources) 0 (0, sizeMax)
  rw [scans_someEmpty order scoring hsources] at hzero
  have hsize : ¬sizeMax = 0 := by decide
  rw [or_iff_right hsize] at hzero
  have hpos := length_pos_of_ne_nil hne
  have hlt : best.1 < sources.length := by
    rw [scans, length_map, Nat.zero_add] at hidx
    rcases hidx with h | h
    · exact h ▸ hpos
    · exact h.2
  rw [interRows, hbest]
  by_cases hempty : best.2 = 0
  · refine ⟨[], if_pos hempty, fun _ => rfl, fun _ => rfl, fun _ => ⟨nodup_nil, fun m => ?_⟩⟩
    exact iff_of_false not_mem_nil ((hzero.mp hempty).not_inAll m)
  · refine ⟨_, if_neg hempty, fun h => absurd (hzero.mpr h) hempty, fun hone => ?_, fun htwo => ?_⟩
    · -- without another set nothing is ever reported
      obtain ⟨src, rfl⟩ := length_eq_one_iff.mp hone
      have hfirst : best.1 = 0 := Nat.lt_one_iff.mp hlt
      rw [hfirst]
      exact mergeSort_nil
    · exact (interResults_spec order scoring agg hsources hlt htwo).perm
        ((mergeSort_perm _ _).map Prod.fst)

end Scans

/-! ## The replies -/

omit [LinearOrder S] in
lemma rowTexts_eq [ScoreTexts S] (withscores : Bool) (rows : List (Bytes × S)) :
    rowTexts withscores rows
      = pairTexts withscores (rows.map fun row => (row.1, ScoreTexts.d2string row.2)) := by
  rw [rowTexts, pairTexts, flatMap_map]

inductive Query where
  | zinter (withscores : Bool) (agg : AggregateType)
  | zinterCard (limit : Option Nat)
  | zunion (withscores : Bool) (agg : AggregateType)
  | zdiff (withscores : Bool)
  | sinter
  | sinterCard (limit : Option Nat)
  | sdiff
  | sunion
  deriving DecidableEq, Repr

namespace Query

/-- The reply to a command on what is under its keys; only ZINTER and ZUNION have weights. -/
def reply [ScoreTexts S] (q : Query) (sources : List (Option (RedisObject S) × W)) :
    Except Fault Reply :=
  match q with
  | zinter withscores agg => .ok (zInter scoring withscores agg (scans order scoring sources))
  | zinterCard limit =>
    .ok (zInterCard limit (sources.map fun src => szScan order scoring.one src.1))
  | zunion withscores agg =>
    .ok (zUnion scoring order withscores agg (scans order scoring sources))
  | zdiff withscores => (diffResults order withscores (sources.map Prod.fst)).map (zDiff withscores)
  | sinter => .ok (sInter (sources.map fun src => sMembers order src.1))
  | sinterCard limit => .ok (sInterCard limit (sources.map fun src => sMembers order src.1))
  | sdiff => .ok (sDiff (sources.map fun src => sMembers order src.1))
  | sunion => .ok (sUnion order (sources.map fun src => sMembers order src.1))

/-- The sources a command takes; no container has as many members as `INT64_MAX`. -/
def Takes (q : Query) (src : Option (RedisObject S)) : Prop :=
  (members src).length ≤ 2 ^ 63 - 1 ∧
    match q with
    | zinter _ _ | zinterCard _ | zunion _ _ | zdiff _ => IsZsetSource src
    | sinter | sinterCard _ | sdiff | sunion => IsSetSource src

/-- The set a command is about. -/
def Selects (q : Query) (sources : List (Option (RedisObject S))) : Bytes → Prop :=
  match q with
  | zinter _ _ | zinterCard _ | sinter | sinterCard _ => InAll sources
  | zunion _ _ | sunion => InAny sources
  | zdiff _ | sdiff => InFirst sources

def withscores : Query → Bool
  | zinter withscores _ | zunion withscores _ | zdiff withscores => withscores
  | _ => false

/-- The count under a limit; 0 stands for none. -/
def capped : Option Nat → Nat → Nat
  | none, size | some 0, size => size
  | some n, size => Nat.min n size

/-- What a command promises: the members, each once, or their number up to the limit. -/
def Right [ScoreTexts S] (q : Query) (sources : List (Option (RedisObject S) × W)) : Prop :=
  match q with
  | zinterCard limit | sinterCard limit =>
    ∃ l, Lists l (q.Selects (sources.map Prod.fst)) ∧
      q.reply order scoring sources = .ok (.int (capped limit l.length))
  | _ =>
    ∃ rows : List (Bytes × Bytes), Lists (rows.map Prod.fst) (q.Selects (sources.map Prod.fst)) ∧
      q.reply order scoring sources = .ok (.array (pairTexts q.withscores rows))

/-! ### Sets -/

variable {sources : List (Option (RedisObject S) × W)}

omit [LinearOrder S] in
lemma sMembers_ok (hsources : ∀ src ∈ sources, IsSetSource src.1) :
    (∀ code ∈ (sources.map fun src => sMembers order src.1).map MembersResult.errCode,
        code = .ok ∨ code = .nil) ∧
      Listed (sources.map Prod.fst)
        ((sources.map fun src => sMembers order src.1).map (·.stringList)) := by
  constructor
  · intro code hcode
    rw [map_map] at hcode
    obtain ⟨src, hsrc, rfl⟩ := mem_map.mp hcode
    exact (sMembers_spec order (hsources src hsrc)).1
  · exact Listed.of_map fun src hsrc => (sMembers_spec order (hsources src hsrc)).2.2

lemma not_any_wrongType_of_ok {cmds : List MembersResult}
    (h : ∀ code ∈ cmds.map MembersResult.errCode, code = .ok ∨ code = .nil) :
    ¬cmds.any (·.errCode = .wrongType) := by
  intro hany
  obtain ⟨cmd, hcmd, hcode⟩ := any_eq_true.mp hany
  rcases h _ (mem_map_of_mem hcmd) with h | h <;> simp [h] at hcode

omit [LinearOrder S] in
lemma exists_rows {l : List Bytes} {p : Bytes → Prop} (h : Lists l p) :
    ∃ rows : List (Bytes × Bytes), Lists (rows.map Prod.fst) p ∧ pairTexts false rows = l := by
  have hfst : (l.map (·, ([] : Bytes))).map Prod.fst = l := by
    rw [map_map, comp_def, map_id']
  exact ⟨l.map (·, []), by rwa [hfst], by rw [pairTexts_false, hfst]⟩

omit [LinearOrder S] in
lemma length_take_cardLimit (limit : Option Nat) {l : List Bytes}
    (hl : l.length ≤ 2 ^ 63 - 1) : (l.take (cardLimit limit)).length = capped limit l.length := by
  rw [length_take]
  match limit with
  | none => exact Nat.min_eq_right hl
  | some 0 => exact Nat.min_eq_right hl
  | some (n + 1) => rfl

lemma exists_inter {lists : List (List Bytes)} (hne : sources ≠ [])
    (hlisted : Listed (sources.map Prod.fst) lists)
    (hsources : ∀ src ∈ sources, (members src.1).length ≤ 2 ^ 63 - 1 ∧ IsZsetSource src.1) :
    ∃ base, Lists base (InAll (sources.map Prod.fst)) ∧ base.length ≤ 2 ^ 63 - 1 ∧
      ∀ limit, findInter lists limit = base.take limit := by
  have hlists : lists ≠ [] := by
    rintro rfl
    exact hne (map_eq_nil_iff.mp (forall₂_nil_right_iff.mp hlisted))
  obtain ⟨base, hbase, ⟨l, hl, hle⟩, hfind⟩ := findInter_spec hlists
    (hlisted.nodup (forall_mem_map.mpr fun src hsrc => (hsources src hsrc).2))
  refine ⟨base, ⟨hbase.1, fun m => (hbase.2 m).trans (hlisted.inAll m)⟩, ?_, hfind⟩
  exact hle.trans
    (hlisted.length_le (forall_mem_map.mpr fun src hsrc => (hsources src hsrc).1) l hl)

variable [ScoreTexts S]

lemma sinter_right (hne : sources ≠ [])
    (hsources : ∀ src ∈ sources, sinter.Takes src.1) : sinter.Right order scoring sources := by
  obtain ⟨hcodes, hlisted⟩ := sMembers_ok order fun src hsrc => (hsources src hsrc).2
  obtain ⟨base, hbase, hsize, hfind⟩ := exists_inter hne hlisted fun src hsrc =>
    (hsources src hsrc).imp_right IsSetSource.isZsetSource
  obtain ⟨rows, hrows, htexts⟩ := exists_rows hbase
  have hall : base.take noLimit = base := take_of_length_le (hsize.trans (by decide))
  refine ⟨rows, hrows, ?_⟩
  rw [reply, sInter, unlessError_of_ok hcodes, hfind, hall, ← htexts]
  rfl

lemma sinterCard_right (limit : Option Nat)
    (hne : sources ≠ []) (hsources : ∀ src ∈ sources, (sinterCard limit).Takes src.1) :
    (sinterCard limit).Right order scoring sources := by
  obtain ⟨hcodes, hlisted⟩ := sMembers_ok order fun src hsrc => (hsources src hsrc).2
  obtain ⟨base, hbase, hsize, hfind⟩ := exists_inter hne hlisted fun src hsrc =>
    (hsources src hsrc).imp_right IsSetSource.isZsetSource
  refine ⟨base, hbase, ?_⟩
  rw [reply, sInterCard, unlessError_of_ok hcodes, hfind, length_take_cardLimit limit hsize]

lemma sdiff_right
    (hsources : ∀ src ∈ sources, sdiff.Takes src.1) : sdiff.Right order scoring sources := by
  obtain ⟨hcodes, hlisted⟩ := sMembers_ok order fun src hsrc => (hsources src hsrc).2
  have hnodup : ∀ l ∈ (sources.map fun src => sMembers order src.1).map (·.stringList), l.Nodup :=
    hlisted.nodup (forall_mem_map.mpr fun src hsrc => (hsources src hsrc).2.isZsetSource)
  have hlists : Lists (diffMembers ((sources.map fun src => sMembers order src.1).map
      (·.stringList))) (InFirst (sources.map Prod.fst)) :=
    ⟨nodup_diffMembers hnodup, hlisted.inFirst⟩
  obtain ⟨rows, hrows, htexts⟩ := exists_rows hlists
  refine ⟨rows, hrows, ?_⟩
  rw [reply, sDiff, unlessError_of_ok hcodes, ← htexts]
  rfl

lemma sunion_right
    (hsources : ∀ src ∈ sources, sunion.Takes src.1) : sunion.Right order scoring sources := by
  obtain ⟨hcodes, -⟩ := sMembers_ok order fun src hsrc => (hsources src hsrc).2
  have hlists : Lists (unionSet (sources.map fun src => sMembers order src.1))
      (InAny (sources.map Prod.fst)) := by
    refine ⟨nodup_dedup _, fun m => ?_⟩
    have hany : InAny (sources.map Prod.fst) m ↔ ∃ src ∈ sources, m ∈ members src.1 := by
      simp [InAny]
    rw [unionSet, mem_dedup, flatMap_map, mem_flatMap, hany]
    refine exists_congr fun src => and_congr_right fun hsrc => ?_
    obtain ⟨-, hret, hperm⟩ := sMembers_spec order (hsources src hsrc).2
    by_cases hzero : (sMembers order src.1).ret = 0
    · rw [if_pos hzero, length_eq_zero_iff.mp (hret.symm.trans hzero)]
    · rw [if_neg hzero, hperm.mem_iff]
  obtain ⟨rows, hrows, htexts⟩ := exists_rows (hlists.perm (order.perm _))
  refine ⟨rows, hrows, ?_⟩
  rw [reply, sUnion, if_neg (not_any_wrongType_of_ok hcodes), ← htexts]
  rfl

/-! ### Sorted sets -/

variable (withscores : Bool)

lemma zunion_right (agg : AggregateType)
    (hsources : ∀ src ∈ sources, (zunion withscores agg).Takes src.1) :
    (zunion withscores agg).Right order scoring sources := by
  have hzsets : ∀ src ∈ sources, IsZsetSource src.1 := fun src hsrc => (hsources src hsrc).2
  have hno := not_any_wrongType_scans order scoring hzsets
  have hlists := unionRows_spec order scoring agg hzsets
  refine ⟨(unionRows scoring order agg (scans order scoring sources)).map
    fun row => (row.1, ScoreTexts.d2string row.2), ?_, ?_⟩
  · rw [map_map]
    exact hlists
  · rw [reply, zUnion, if_neg hno, rowTexts_eq]
    rfl

/-- With one source nothing is ever reported, which is right only if it is empty. -/
lemma zinter_right_iff (agg : AggregateType) (hne : sources ≠ [])
    (hsources : ∀ src ∈ sources, (zinter withscores agg).Takes src.1) :
    (zinter withscores agg).Right order scoring sources ↔
      (sources.length = 1 → SomeEmpty sources) := by
  obtain ⟨rows, hrows, -, hone, htwo⟩ :=
    interRows_spec order scoring agg (fun src hsrc => (hsources src hsrc).2) hne
  have hreply : (zinter withscores agg).reply order scoring sources
      = .ok (.array (pairTexts withscores
          (rows.map fun row => (row.1, ScoreTexts.d2string row.2)))) := by
    rw [reply, zInter, hrows, ← rowTexts_eq]
  by_cases hlength : sources.length = 1
  · obtain ⟨src, rfl⟩ := length_eq_one_iff.mp hlength
    rw [hone rfl] at hreply
    constructor
    · rintro ⟨rows', hlists, hreply'⟩ -
      -- the reply is empty, so the source has no members
      have htexts := Reply.array.inj (Except.ok.inj (hreply.symm.trans hreply'))
      have hnil : rows' = [] := by
        cases rows' with
        | nil => rfl
        | cons row rows' =>
          cases withscores <;> exact nomatch htexts
      refine ⟨src, mem_singleton_self src, eq_nil_iff_forall_not_mem.mpr fun m hm => ?_⟩
      have hmem := (hlists.2 m).mpr fun s hs => by
        obtain rfl := mem_singleton.mp hs
        exact hm
      rw [hnil] at hmem
      exact not_mem_nil hmem
    · intro hempty
      refine ⟨[], ⟨nodup_nil, fun m => ?_⟩, hreply⟩
      exact iff_of_false not_mem_nil ((hempty rfl).not_inAll m)
  · refine iff_of_true ⟨_, ?_, hreply⟩ fun h => absurd h hlength
    rw [map_map]
    exact htwo hlength

omit [ScoreTexts S] in
lemma hasEmptySet_spec
    (hsources : ∀ src ∈ sources, IsZsetSource src.1) : ∃ empty,
      hasEmptySet (sources.map fun src => szScan order scoring.one src.1) = .ok empty ∧
        (empty = true ↔ SomeEmpty sources) := by
  induction sources with
  | nil => exact ⟨false, rfl, by simp [SomeEmpty]⟩
  | cons src sources ih =>
    rw [forall_mem_cons] at hsources
    obtain ⟨empty, hrun, hempty⟩ := ih hsources.2
    obtain ⟨hcode, hperm⟩ := szScan_spec order scoring.one hsources.1
    have hcons : SomeEmpty (src :: sources) ↔ members src.1 = [] ∨ SomeEmpty sources :=
      exists_mem_cons_iff ..
    rw [map_cons, hasEmptySet, hcons]
    by_cases hnone : members src.1 = []
    · have hnames : (szScan order scoring.one src.1).names.isEmpty = true := by
        rw [hnone] at hperm
        rw [hperm.eq_nil]
        rfl
      refine ⟨true, ?_, iff_of_true rfl (.inl hnone)⟩
      rcases hcode with hok | ⟨hnil, -⟩
      · rw [hok]
        exact if_pos hnames
      · rw [hnil]
    · have hnames : ¬(szScan order scoring.one src.1).names.isEmpty = true := by
        rw [List.isEmpty_iff]
        intro hnil
        rw [hnil] at hperm
        exact hnone hperm.symm.eq_nil
      refine ⟨empty, ?_, by rw [or_iff_right hnone]; exact hempty⟩
      rcases hcode with hok | ⟨-, hresult⟩
      · rw [hok]
        simp only [hnames, Bool.false_eq_true, if_false]
        exact hrun
      · rw [ScanResult.names, hresult] at hnames
        exact absurd rfl hnames

lemma zinterCard_right (limit : Option Nat)
    (hne : sources ≠ []) (hsources : ∀ src ∈ sources, (zinterCard limit).Takes src.1) :
    (zinterCard limit).Right order scoring sources := by
  have hzsets : ∀ src ∈ sources, IsZsetSource src.1 := fun src hsrc => (hsources src hsrc).2
  obtain ⟨empty, hrun, hempty⟩ := hasEmptySet_spec order scoring hzsets
  cases empty with
  | true =>
    have hlists : Lists [] (InAll (sources.map Prod.fst)) :=
      ⟨nodup_nil, fun m => iff_of_false not_mem_nil ((hempty.mp rfl).not_inAll m)⟩
    refine ⟨[], hlists, ?_⟩
    rw [reply, zInterCard, hrun]
    match limit with
    | none => rfl
    | some 0 => rfl
    | some (n + 1) => rfl
  | false =>
    have hlisted : Listed (sources.map Prod.fst)
        ((sources.map fun src => szScan order scoring.one src.1).map ScanResult.names) :=
      Listed.of_map fun src hsrc => (szScan_spec order scoring.one (hzsets src hsrc)).2
    obtain ⟨base, hbase, hsize, hfind⟩ := exists_inter hne hlisted hsources
    refine ⟨base, hbase, ?_⟩
    rw [reply, zInterCard, hrun]
    simp only [hfind, length_take_cardLimit limit hsize]

omit [LinearOrder S] [ScoreTexts S] in
lemma diffPairs_pairTexts (others : List Bytes) (rows : List (Bytes × Bytes)) :
    diffPairs others (pairTexts true rows)
      = pairTexts true (rows.filter fun row => row.1 ∉ others) := by
  induction rows with
  | nil => rfl
  | cons row rows ih =>
    have hcons : ∀ rows, pairTexts true (row :: rows) = row.1 :: row.2 :: pairTexts true rows :=
      fun _ => rfl
    rw [hcons, diffPairs, ih]
    by_cases hmem : row.1 ∈ others
    · rw [if_neg (not_not.mpr hmem), filter_cons_of_neg (by simpa using hmem)]
    · rw [if_pos hmem, filter_cons_of_pos (by simpa using hmem), hcons]

lemma exists_others {rest : List (Option (RedisObject S))}
    (hrest : ∀ src ∈ rest, IsZsetSource src) : ∃ results : List RangeResult,
      rest.mapM (zRange order true (diffConstraint false) diffSpec) = .ok results ∧
        (∀ res ∈ results, res.errCode = .ok ∨ res.errCode = .nil) ∧
        ∀ m, m ∈ results.flatMap (fun cmd => cmd.result.getD []) ↔
          ∃ src ∈ rest, m ∈ members src := by
  induction rest with
  | nil => exact ⟨[], rfl, by simp, by simp⟩
  | cons src rest ih =>
    rw [forall_mem_cons] at hrest
    obtain ⟨res, rows, hrun, hcode, htexts, hperm⟩ := zRange_spec order false hrest.1
    obtain ⟨results, hruns, hcodes, hmem⟩ := ih hrest.2
    refine ⟨res :: results, ?_, forall_mem_cons.mpr ⟨hcode, hcodes⟩, fun m => ?_⟩
    · rw [mapM_cons, hrun, hruns]
      rfl
    · rw [flatMap_cons, mem_append, hmem, htexts, pairTexts_false, hperm.mem_iff,
        exists_mem_cons_iff]

/-- Scores are read from the first list alone, so the others may be sets. -/
lemma findZDiff_spec (hne : sources ≠ []) (hsources : ∀ src ∈ sources, IsZsetSource src.1) :
    ∃ (cmds : List RangeResult) (rows : List (Bytes × Bytes)),
      diffResults order withscores (sources.map Prod.fst) = .ok cmds ∧
        (∀ code ∈ cmds.map RangeResult.errCode, code = .ok ∨ code = .nil) ∧
        findZDiff withscores cmds = pairTexts withscores rows ∧
        Lists (rows.map Prod.fst) (InFirst (sources.map Prod.fst)) := by
  cases sources with
  | nil => exact absurd rfl hne
  | cons src rest =>
    rw [forall_mem_cons] at hsources
    obtain ⟨first, rows, hfirst, hcode, htexts, hperm⟩ := zRange_spec order withscores hsources.1
    obtain ⟨results, hrest, hcodes, hmem⟩ := exists_others order (forall_mem_map.mpr hsources.2)
    set others := results.flatMap fun cmd => cmd.result.getD [] with hothers
    refine ⟨first :: results, rows.filter fun row => row.1 ∉ others, ?_,
      forall_mem_map.mpr (forall_mem_cons.mpr ⟨hcode, hcodes⟩), ?_, ?_, fun m => ?_⟩
    · rw [map_cons, diffResults, hfirst]
      simp only [bind, Except.bind, hrest]
      rfl
    · rw [findZDiff, head?_cons, Option.bind_some]
      cases hresult : first.result with
      | none =>
        rw [hresult] at htexts
        have hnil : rows = [] := by
          cases rows with
          | nil => rfl
          | cons row rows => cases withscores <;> exact nomatch htexts
        rw [hnil]
        rfl
      | some target =>
        obtain rfl : target = pairTexts withscores rows := by rw [← htexts, hresult]; rfl
        cases withscores with
        | true => exact diffPairs_pairTexts others rows
        | false =>
          simp only [pairTexts_false, filter_map, tail_cons, Bool.false_eq_true, if_false]
          rfl
    · exact (hperm.nodup_iff.mpr (nodup_members hsources.1)).sublist (filter_sublist.map Prod.fst)
    · have hrows : m ∈ (rows.filter fun row => row.1 ∉ others).map Prod.fst ↔
          m ∈ rows.map Prod.fst ∧ m ∉ others := by
        simp only [mem_map, mem_filter, decide_eq_true_eq]
        constructor
        · rintro ⟨row, ⟨hrow, hnot⟩, rfl⟩
          exact ⟨⟨row, hrow, rfl⟩, hnot⟩
        · rintro ⟨⟨row, hrow, rfl⟩, hnot⟩
          exact ⟨row, ⟨hrow, hnot⟩, rfl⟩
      rw [hrows, hperm.mem_iff, hmem]
      simp [InFirst]

lemma zdiff_right
    (hne : sources ≠ []) (hsources : ∀ src ∈ sources, (zdiff withscores).Takes src.1) :
    (zdiff withscores).Right order scoring sources := by
  obtain ⟨cmds, rows, hcmds, hcodes, hfound, hlists⟩ :=
    findZDiff_spec order withscores hne fun src hsrc => (hsources src hsrc).2
  refine ⟨rows, hlists, ?_⟩
  rw [reply, hcmds]
  show Except.ok (zDiff withscores cmds) = _
  rw [zDiff, unlessError_of_ok hcodes, hfound]
  rfl

/-- **The answers are the sets they should be**, missing and repeated sources included, whatever
order the hash tables are walked in. The only exception is ZINTER with a single source that has
members. -/
theorem query_right_iff (q : Query) {sources : List (Option (RedisObject S) × W)}
    (hne : sources ≠ []) (hsources : ∀ src ∈ sources, q.Takes src.1) :
    q.Right order scoring sources ↔
      ∀ withscores agg, q = zinter withscores agg → sources.length = 1 → SomeEmpty sources := by
  cases q with
  | zinter withscores agg =>
    rw [zinter_right_iff order scoring withscores agg hne hsources]
    exact ⟨fun h _ _ _ => h, fun h => h withscores agg rfl⟩
  | zinterCard limit => exact iff_of_true (zinterCard_right order scoring limit hne hsources) nofun
  | zunion withscores agg =>
    exact iff_of_true (zunion_right order scoring withscores agg hsources) nofun
  | zdiff withscores => exact iff_of_true (zdiff_right order scoring withscores hne hsources) nofun
  | sinter => exact iff_of_true (sinter_right order scoring hne hsources) nofun
  | sinterCard limit => exact iff_of_true (sinterCard_right order scoring limit hne hsources) nofun
  | sdiff => exact iff_of_true (sdiff_right order scoring hsources) nofun
  | sunion => exact iff_of_true (sunion_right order scoring hsources) nofun

end Query

end Rows

end Answers

/-! ## Two requests -/

section Requests

open Objects (Double listedOrder)
open Zset (RedisZsetObject)

def oneMember : RedisZsetObject Double :=
  .deserialize [(ascii "a", ScoreTexts.infinity)]

/-- Scores that ignore the weights and keep the larger one. -/
def maxScoring : Scoring Double Double where
  one := ⟨0x3FF0000000000000, by decide⟩
  caculateNewScore score _ := score
  updateFunction _ a b := max a b

def oneSource : Option (RedisObject Double) × Double :=
  (some ⟨.zset oneMember, none⟩, ScoreTexts.infinity)

def missingSource : Option (RedisObject Double) × Double :=
  (none, ScoreTexts.infinity)

lemma oneMember_spec : oneMember.WellFormed ∧ oneMember.members = [ascii "a"] := by
  have hnodup : ([(ascii "a", (ScoreTexts.infinity : Double))].map Prod.fst).Nodup :=
    nodup_singleton _
  obtain ⟨hwf, hpairs⟩ := RedisZsetObject.wellFormed_deserialize hnodup
  refine ⟨hwf, ?_⟩
  exact perm_singleton.mp (hpairs.map Prod.fst)

lemma zinter_takes (withscores : Bool) (agg : AggregateType) :
    (Query.zinter withscores agg).Takes oneSource.1 := by
  refine ⟨?_, oneMember_spec.1⟩
  decide

/-- `ZINTER 3 z z z`; the member of `z` is to be in the answer. -/
theorem zinter_three_keys_right :
    (Query.zinter true .sum).Selects [oneSource.1, oneSource.1, oneSource.1] (ascii "a") ∧
      (Query.zinter true .sum).Right listedOrder maxScoring [oneSource, oneSource, oneSource] := by
  have htakes : ∀ src ∈ [oneSource, oneSource, oneSource],
      (Query.zinter true .sum).Takes src.1 := by
    simp [zinter_takes]
  have hmembers : members oneSource.1 = [ascii "a"] := oneMember_spec.2
  refine ⟨?_, (Query.query_right_iff _ _ _ (cons_ne_nil _ _) htakes).mpr nofun⟩
  simp [Query.Selects, InAll, hmembers]

/-- `ZINTER 1 z` on a sorted set with one member replies with nothing. -/
theorem zinter_one_key_empty :
    members oneSource.1 = [ascii "a"] ∧
      (Query.zinter false .sum).reply listedOrder maxScoring [oneSource] = .ok (.array []) ∧
        ¬(Query.zinter false .sum).Right listedOrder maxScoring [oneSource] := by
  have hmembers : members oneSource.1 = [ascii "a"] := oneMember_spec.2
  have htakes : ∀ src ∈ [oneSource], (Query.zinter false .sum).Takes src.1 :=
    forall_mem_singleton.mpr (zinter_takes false .sum)
  obtain ⟨rows, hrows, -, hone, -⟩ := interRows_spec listedOrder maxScoring .sum
    (fun src hsrc => (htakes src hsrc).2) (cons_ne_nil _ _)
  refine ⟨hmembers, ?_, ?_⟩
  · rw [hone rfl] at hrows
    rw [Query.reply, zInter, hrows]
    rfl
  · rw [Query.zinter_right_iff _ _ _ _ (cons_ne_nil _ _) htakes]
    intro hempty
    obtain ⟨src, hsrc, hnone⟩ := hempty rfl
    obtain rfl := mem_singleton.mp hsrc
    exact nomatch hnone

end Requests

end EloqKV.SetQueries
