/-
  The write commands on sorted sets, decision and mutation together (`ExecuteOn` and
  `CommitOn` of the sorted set commands in `src/redis_command.cpp`).

  ZADD leaves the accepted elements in the command and its commit filters them once more.
  The STORE commands send a ZADD with `ForceClear`, which replaces whatever is there and
  checks nothing.
-/
import EloqKV.Zset.Ranges

open List

namespace EloqKV.Zset

open CommandExecuteState List.Sublist ExecResult Elements Option

/-- What the commands use of the arithmetic of scores. -/
structure ScoreArith (S : Type) where
  add : S → S → S
  isNegInf : S → Bool
  isPosInf : S → Bool

/-- The sorted set commands that write; a count of ZPOPMIN and ZPOPMAX is not negative. -/
inductive ZsetCommand (S : Type) where
  | zadd (flags : ZAddFlags) (elements : Elements S)
  | zrem (elements : List Bytes)
  | zpop (popMax : Bool) (count : Nat)
  | zremrange (spec : ZRangeSpec S)

section Commands

variable {S : Type} [LinearOrder S]

def Elements.sizeIncreased : Elements S → Nat
  | .monostate => 0
  | .pair e => elementLength e.2.stringView
  | .vector es => (es.map fun e => elementLength e.2.stringView).sum

namespace RedisZsetObject

/-- `ZAddIncr`: whether the increment goes through; otherwise the element is taken out. -/
def zAddIncr (arith : ScoreArith S) (p : ZParams) (z : RedisZsetObject S) (e : Element S) : Bool :=
  let num := e.1
  match z.score e.2.stringView with
  | none => !p.gt && !p.lt && !p.xx
  | some old =>
    if p.nx then false
    else if p.gt && decide (arith.add old num ≤ old) then false
    else if p.lt && decide (old ≤ arith.add old num) then false
    else
      !((arith.isNegInf num || arith.isNegInf old) && (arith.isPosInf num || arith.isPosInf old))

/-- The dispatch of `Execute(ZAddCommand &)`: the decision, and the elements it leaves in the
command.  The parser sends a pair with INCR and a vector without; `std::get` throws on anything
else. -/
def dispatchZAdd (arith : ScoreArith S) (host : Host) (flags : ZAddFlags)
    (z : RedisZsetObject S) : Elements S → CommandExecuteState × Elements S
  | .monostate => (.noChange, .monostate)
  | .pair e =>
    if flags.incr then
      if z.zAddIncr arith flags.toZParams e then (.modified, .pair e) else (.noChange, .monostate)
    else (.noChange, .pair e)
  | .vector es =>
    if flags.incr then (.noChange, .vector es)
    else
      let done := execute host flags.toZParams z es
      (if done.write then .modified else .noChange, .vector done.elements)

def executeZAdd (arith : ScoreArith S) (host : Host) (flags : ZAddFlags) (z : RedisZsetObject S)
    (elements : Elements S) : CommandExecuteState × Elements S :=
  if maxObjectSize < z.serializedLength + elements.sizeIncreased then (.noChange, elements)
  else z.dispatchZAdd arith host flags elements

end RedisZsetObject

/-! ### ZADD as the last step of a STORE command -/

/-- `ZAddCommand::ExecuteOn` with `ForceClear`, on the vector or an empty variant. -/
def executeForceClear : Option (List (Element S)) → ExecResult
  | none => .delete
  | some es => if es.length = 0 then .delete else .write

/-- `ZAddCommand::CommitOn` with `ForceClear`: a vector gives a new object, even an empty one. -/
def commitForceClear : Option (List (Element S)) → Option (RedisZsetObject S)
  | none => none
  | some es => some (es.foldl RedisZsetObject.updateElement RedisZsetObject.empty)

namespace ZsetCommand

open RedisZsetObject

variable (arith : ScoreArith S)

/-- `ExecuteOn` for an object of the right type, if it has a result. -/
def executeOn (host : Host) (cmd : ZsetCommand S) (z : RedisZsetObject S) : Option ExecResult :=
  match cmd with
  | zadd flags elements => some (z.executeZAdd arith host flags elements).1.toWriteResult
  | zrem elements => some (z.executeZRem elements).toExecResult
  | zpop _ count => some (z.executeZPop count).toExecResult
  | zremrange spec => (z.executeZRemRange spec).map CommandExecuteState.toExecResult

/-- The command as `ExecuteOn` leaves it. -/
def executed (host : Host) (cmd : ZsetCommand S) (z : RedisZsetObject S) : ZsetCommand S :=
  match cmd with
  | zadd flags elements => zadd flags (z.executeZAdd arith host flags elements).2
  | cmd => cmd

/-- The mutation, if it has a result: the object, and whether the key is to go. -/
def commit (host : Host) (cmd : ZsetCommand S)
    (z : RedisZsetObject S) : Option (RedisZsetObject S × Bool) :=
  match cmd with
  | zadd flags elements => some (z.commitZAddElements arith.add host flags elements, false)
  | zrem elements =>
    let z := z.commitZRem elements
    some (z, z.zOrderedSet.isEmpty)
  | zpop popMax count => some (z.commitZPop popMax count)
  | zremrange spec => z.commitZRemRange spec

/-- `CommitOn`, if it has a result: the object left, or none if the key is to go. -/
def commitOn (host : Host) (cmd : ZsetCommand S)
    (z : RedisZsetObject S) : Option (Option (RedisZsetObject S)) :=
  (cmd.commit arith host z).map fun done => if done.2 then none else some done.1

end ZsetCommand

/-! ## What ZADD commits -/

/-- The elements `CommitZAdd` works through. -/
def Elements.toCommit (host : Host) (flags : ZAddFlags) (z : RedisZsetObject S) :
    Elements S → List (Element S)
  | .monostate => []
  | .pair e => [e]
  | .vector es =>
    if flags.incr then es
    else
      match (flags.filter : Option (Rule S)) with
      | some rule => (runFilter host z.score rule es).kept
      | none => es

namespace RedisZsetObject

variable (add : S → S → S)

/-- `update_element` of `CommitZAdd`. -/
def addElement (flags : ZAddFlags) (z : RedisZsetObject S) (e : Element S) : RedisZsetObject S :=
  if flags.incr then z.incrElement add e else z.updateElement e

lemma commitZAddElements_eq (host : Host) (flags : ZAddFlags)
    (z : RedisZsetObject S) (elements : Elements S) :
    z.commitZAddElements add host flags elements =
      (elements.toCommit host flags z).foldl (addElement add flags) z := by
  cases elements with
  | monostate => rfl
  | pair e => rfl
  | vector es =>
    cases hincr : flags.incr
    · have hstep : (addElement add flags : RedisZsetObject S → _) = updateElement := by
        funext z e
        simp [addElement, hincr]
      simp only [commitZAddElements, toCommit, hincr, Bool.false_eq_true, if_false, hstep]
      rfl
    · have hstep : (addElement add flags : RedisZsetObject S → _) = incrElement add := by
        funext z e
        simp [addElement, hincr]
      simp [commitZAddElements, toCommit, hincr, hstep]

lemma WellFormed.addElement {z : RedisZsetObject S} (hz : z.WellFormed) (add : S → S → S)
    (flags : ZAddFlags) (e : Element S) :
    (z.addElement add flags e).WellFormed ∧
      ∀ sv, sv ∈ (z.addElement add flags e).members ↔ sv ∈ z.members ∨ sv = e.2.stringView := by
  unfold RedisZsetObject.addElement
  split
  · exact hz.incrElement add e
  · exact hz.updateElement e

lemma serializedLength_updateElement_le (z : RedisZsetObject S) (e : Element S) :
    (z.updateElement e).serializedLength ≤ z.serializedLength + elementLength e.2.stringView := by
  unfold updateElement
  split
  · exact Nat.le_refl _
  · rw [serializedLength_insertNode]
    exact Nat.le_add_right _ _

lemma serializedLength_addElement_le (flags : ZAddFlags) (z : RedisZsetObject S) (e : Element S) :
    (z.addElement add flags e).serializedLength ≤
      z.serializedLength + elementLength e.2.stringView := by
  unfold addElement incrElement
  split
  · split <;> exact serializedLength_updateElement_le z _
  · exact serializedLength_updateElement_le z e

lemma serializedLength_foldl_addElement_le (flags : ZAddFlags)
    (es : List (Element S)) (z : RedisZsetObject S) :
    (es.foldl (addElement add flags) z).serializedLength ≤
      z.serializedLength + (es.map fun e => elementLength e.2.stringView).sum := by
  induction es generalizing z with
  | nil => exact Nat.le_refl _
  | cons e es ih =>
    have hhead := serializedLength_addElement_le add flags z e
    have htail := ih (z.addElement add flags e)
    rw [foldl_cons, map_cons, sum_cons]
    omega

end RedisZsetObject

open RedisZsetObject

lemma sum_toCommit_le (host : Host) (flags : ZAddFlags) (z : RedisZsetObject S)
    (elements : Elements S) :
    ((elements.toCommit host flags z).map fun e => elementLength e.2.stringView).sum ≤
      elements.sizeIncreased := by
  cases elements with
  | monostate => exact Nat.le_refl _
  | pair e => exact Nat.le_refl _
  | vector es =>
    have hsub : ((vector es).toCommit host flags z).Sublist es := by
      simp only [toCommit]
      split
      · exact refl _
      · split
        · exact runFilter_sublist _ _ _ _
        · exact refl _
    exact (hsub.map _).sum_le_sum fun _ _ => Nat.zero_le _

lemma execute_sublist (host : Host) (p : ZParams) (z : RedisZsetObject S)
    (es : List (Element S)) : (execute host p z es).elements.Sublist es := by
  simp only [execute]
  split
  · exact refl _
  · split
    · exact runFilter_sublist _ _ _ _
    · exact refl _

lemma sizeIncreased_executeZAdd_le (arith : ScoreArith S) (host : Host) (flags : ZAddFlags)
    (z : RedisZsetObject S) (elements : Elements S) :
    (z.executeZAdd arith host flags elements).2.sizeIncreased ≤ elements.sizeIncreased := by
  unfold executeZAdd
  split
  · exact Nat.le_refl _
  cases elements with
  | monostate => exact Nat.le_refl _
  | pair e =>
    simp only [dispatchZAdd]
    split_ifs
    · exact Nat.le_refl _
    · exact Nat.zero_le _
    · exact Nat.le_refl _
  | vector es =>
    simp only [dispatchZAdd]
    split
    · exact Nat.le_refl _
    · exact ((execute_sublist host _ z es).map _).sum_le_sum fun _ _ => Nat.zero_le _

variable {z : RedisZsetObject S} {flags : ZAddFlags}

variable {arith : ScoreArith S}

lemma executeZAdd_eq_modified {host : Host} {elements : Elements S}
    (hmod : (z.executeZAdd arith host flags elements).1 = .modified) :
    z.serializedLength + elements.sizeIncreased ≤ maxObjectSize ∧
      z.executeZAdd arith host flags elements = z.dispatchZAdd arith host flags elements := by
  unfold executeZAdd at hmod ⊢
  split at hmod
  · contradiction
  · next hfits => exact ⟨Nat.le_of_not_lt hfits, if_neg hfits⟩

lemma toCommit_execute_ne_nil {host : Host} {es : List (Element S)} (hincr : flags.incr = false)
    (hwrite : (execute host flags.toZParams z es).write = true) :
    (vector (execute host flags.toZParams z es).elements).toCommit host flags z ≠ [] := by
  simp only [hincr, toCommit, Bool.false_eq_true, if_false]
  simp only [execute] at hwrite ⊢
  split at hwrite
  · contradiction
  · next hsize =>
    rw [if_neg hsize]
    cases hfilter : (flags.filter : Option (Rule S)) with
    | some rule =>
      simp only [hfilter] at hwrite ⊢
      exact runFilter_runFilter_ne_nil host _ _ (runFilter_kept_ne_nil host _ _ hwrite)
    | none =>
      simp only [hfilter] at hwrite ⊢
      intro hnil
      have hkept := runFilter_kept_ne_nil host _ _ hwrite
      have hsub := runFilter_sublist host z.score (zAdd flags.ch) es
      rw [hnil] at hkept hsub
      exact hkept (sublist_nil.1 hsub)

lemma toCommit_executeZAdd_ne_nil {host : Host} {elements : Elements S}
    (hmod : (z.executeZAdd arith host flags elements).1 = .modified) :
    (z.executeZAdd arith host flags elements).2.toCommit host flags z ≠ [] := by
  obtain ⟨-, heq⟩ := executeZAdd_eq_modified hmod
  rw [heq] at hmod ⊢
  cases elements with
  | monostate => contradiction
  | pair e =>
    simp only [dispatchZAdd] at hmod ⊢
    split_ifs at hmod ⊢
    simp [toCommit]
  | vector es =>
    simp only [dispatchZAdd] at hmod ⊢
    cases hincr : flags.incr
    · simp only [hincr, Bool.false_eq_true, if_false] at hmod ⊢
      refine toCommit_execute_ne_nil hincr ?_
      by_contra hno
      simp [hno] at hmod
    · simp [hincr] at hmod

/-! ## The size limit -/

namespace RedisZsetObject

variable (z : RedisZsetObject S)

lemma serializedLength_remElement_le (element : Bytes) :
    (z.remElement element).serializedLength ≤ z.serializedLength := by
  unfold remElement
  split
  · exact Nat.le_refl _
  · exact Nat.sub_le _ _

lemma serializedLength_eraseKey_le (n : ZNode S) :
    (z.eraseKey n).serializedLength ≤ z.serializedLength := by
  unfold eraseKey
  split
  · exact Nat.le_refl _
  · exact Nat.sub_le _ _

omit [LinearOrder S] in
lemma serializedLength_foldl_le {α : Type} {f : RedisZsetObject S → α → RedisZsetObject S}
    (hf : ∀ z a, (f z a).serializedLength ≤ z.serializedLength) (as : List α)
    (z : RedisZsetObject S) : (as.foldl f z).serializedLength ≤ z.serializedLength := by
  induction as generalizing z with
  | nil => exact Nat.le_refl _
  | cons a as ih => exact Nat.le_trans (ih (f z a)) (hf z a)

lemma serializedLength_eraseNodes_le (nodes : List (ZNode S)) :
    (z.eraseNodes nodes).serializedLength ≤ z.serializedLength :=
  serializedLength_foldl_le (f := eraseNode) serializedLength_eraseKey_le nodes z

lemma serializedLength_lexEraseLoop_le {spec : LexSpec} {fuel lexStart : Nat}
    {z z' : RedisZsetObject S} (hloop : lexEraseLoop spec fuel lexStart z = some z') :
    z'.serializedLength ≤ z.serializedLength := by
  induction fuel generalizing lexStart z with
  | zero => contradiction
  | succ fuel ih =>
    simp only [lexEraseLoop] at hloop
    split at hloop
    · exact some.inj hloop ▸ Nat.le_refl _
    · split at hloop
      · contradiction
      · exact Nat.le_trans (ih hloop) (serializedLength_eraseNodes_le z _)

variable {z : RedisZsetObject S}

lemma serializedLength_commitZRemRange_le {spec : ZRangeSpec S} {z' : RedisZsetObject S}
    {isEmpty : Bool} (hcommit : z.commitZRemRange spec = some (z', isEmpty)) :
    z'.serializedLength ≤ z.serializedLength := by
  have hrange : ∀ {selected : Option (List (ZNode S))},
      (selected.map fun nodes => (z.eraseNodes nodes, (z.eraseNodes nodes).zOrderedSet.isEmpty)) =
        some (z', isEmpty) → z'.serializedLength ≤ z.serializedLength := by
    intro selected hmap
    obtain ⟨nodes, -, heq⟩ := map_eq_some_iff.1 hmap
    exact (Prod.mk.inj heq).1 ▸ serializedLength_eraseNodes_le z nodes
  cases spec with
  | score minex maxex start stop =>
    simp only [commitZRemRange] at hcommit
    split at hcommit
    · exact (Prod.mk.inj (some.inj hcommit)).1 ▸ Nat.le_refl _
    · exact hrange hcommit
  | lexNull => contradiction
  | lex spec =>
    simp only [commitZRemRange] at hcommit
    split at hcommit
    · exact (Prod.mk.inj (some.inj hcommit)).1 ▸ Nat.le_refl _
    · obtain ⟨z'', hloop, heq⟩ := map_eq_some_iff.1 hcommit
      exact (Prod.mk.inj heq).1 ▸ serializedLength_lexEraseLoop_le hloop
  | rank start stop =>
    simp only [commitZRemRange] at hcommit
    split at hcommit
    · exact (Prod.mk.inj (some.inj hcommit)).1 ▸ Nat.le_refl _
    · exact hrange hcommit

lemma serializedLength_commitZPop_le (hmax : z.serializedLength ≤ maxObjectSize) (popMax : Bool)
    (count : Nat) : (z.commitZPop popMax count).1.serializedLength ≤ maxObjectSize := by
  simp only [commitZPop]
  split
  · exact (by decide : 1 + 4 ≤ maxObjectSize)
  · exact Nat.le_trans (serializedLength_foldl_le serializedLength_eraseKey_le _ z) hmax

lemma WellFormed.executeZRemRange_eq_none (hz : z.WellFormed)
    {minex maxex : Bool} {start stop : S} (hspec : ¬z.Walkable (.score minex maxex start stop)) :
    z.executeZRemRange (.score minex maxex start stop) = none := by
  simp only [Walkable, ScoreWalkable] at hspec
  push Not at hspec
  obtain ⟨rfl, rfl, rfl, n, hn, hscore⟩ := hspec
  simp [executeZRemRange, removeCnt, zRemRangeByScore, range_score_eq_none hz.sorted hn hscore rfl]

end RedisZsetObject

namespace ZsetCommand

open RedisZsetObject

theorem size_commit_le (arith : ScoreArith S) (host : Host) (cmd : ZsetCommand S)
    {z z' : RedisZsetObject S} {gone : Bool} (hmax : z.serializedLength ≤ maxObjectSize)
    (hwrite : cmd.executeOn arith host z = some .write)
    (hcommit : (cmd.executed arith host z).commit arith host z = some (z', gone)) :
    z'.serializedLength ≤ maxObjectSize := by
  cases cmd with
  | zadd flags elements =>
    cases hcommit
    simp only [executeOn, some.injEq, toWriteResult_eq_write] at hwrite
    rw [commitZAddElements_eq]
    calc _ ≤ _ := serializedLength_foldl_addElement_le arith.add flags _ z
      _ ≤ z.serializedLength + elements.sizeIncreased :=
        Nat.add_le_add_left (Nat.le_trans (sum_toCommit_le host flags z _)
          (sizeIncreased_executeZAdd_le arith host flags z elements)) _
      _ ≤ maxObjectSize := (executeZAdd_eq_modified hwrite).1
  | zrem elements =>
    cases hcommit
    exact Nat.le_trans (serializedLength_foldl_le serializedLength_remElement_le elements z) hmax
  | zpop popMax count =>
    have hpop := serializedLength_commitZPop_le hmax popMax count
    rwa [some.inj hcommit] at hpop
  | zremrange spec => exact Nat.le_trans (serializedLength_commitZRemRange_le hcommit) hmax

variable {z : RedisZsetObject S}

lemma exists_commit {host : Host} (cmd : ZsetCommand S) (hz : z.WellFormed)
    (hwrite : cmd.executeOn arith host z = some .write) :
    ∃ done, (cmd.executed arith host z).commit arith host z = some done := by
  cases cmd with
  | zadd flags elements => exact ⟨_, rfl⟩
  | zrem elements => exact ⟨_, rfl⟩
  | zpop popMax count => exact ⟨_, rfl⟩
  | zremrange spec =>
    by_cases hspec : z.Walkable spec
    · obtain ⟨-, z', isEmpty, -, hcommit, -⟩ := hz.commitZRemRange hspec
      exact ⟨(z', isEmpty), hcommit⟩
    · -- without a result the decision has none either, or it is to do nothing
      cases spec with
      | score minex maxex start stop =>
        rw [executeOn, hz.executeZRemRange_eq_none hspec] at hwrite
        contradiction
      | lexNull =>
        simp [executeOn, executeZRemRange, removeCnt, ofRemoved] at hwrite
      | _ => exact absurd trivial hspec

/-! ### Emptiness -/

/-- `ParseZRemCommand` drops a member that is listed again. -/
def Distinct : ZsetCommand S → Prop
  | zrem elements => elements.Nodup
  | _ => True

/-- When both have a result: a score range is not one excluded score. -/
def SameWalk (cmd : ZsetCommand S) (z : RedisZsetObject S) : Prop :=
  match cmd with
  | zremrange .lexNull => True
  | zremrange spec => z.Walkable spec
  | _ => True

def isEmptyZset (z : RedisZsetObject S) : Bool := z.zOrderedSet.isEmpty

omit [LinearOrder S] in
lemma isEmptyZset_iff (z : RedisZsetObject S) : isEmptyZset z = true ↔ z.members = [] := by
  simp [isEmptyZset, members]

lemma announces_zadd (hz : z.WellFormed) (arith : ScoreArith S)
    (host : Host) (flags : ZAddFlags) (elements : Elements S) :
    (z.executeZAdd arith host flags elements).1.toWriteResult.Announces isEmptyZset
      (some (z.commitZAddElements arith.add host flags
        (z.executeZAdd arith host flags elements).2)) := by
  refine announces_toWriteResult _ fun hmod => ?_
  obtain ⟨e, he⟩ := exists_mem_of_ne_nil _ (toCommit_executeZAdd_ne_nil hmod)
  have hmembers := (WellFormed.foldl_update (fun z e hz => hz.addElement arith.add flags e)
    ((z.executeZAdd arith host flags elements).2.toCommit host flags z) hz).2
  rw [← commitZAddElements_eq] at hmembers
  rw [Bool.eq_false_iff, ne_eq, isEmptyZset_iff]
  exact ne_nil_of_mem ((hmembers e.2.stringView).2 (Or.inr ⟨e, he, rfl⟩))

lemma announces_zrem (hz : z.WellFormed) {elements : List Bytes} (hdistinct : elements.Nodup) :
    (z.executeZRem elements).toExecResult.Announces isEmptyZset
      (if isEmptyZset (z.commitZRem elements) then none else some (z.commitZRem elements)) := by
  have hlength : z.zOrderedSet.length = z.members.length := (length_map _).symm
  have hcount : (elements.countP fun e => (z.find e).isSome) = elements.countP (· ∈ z.members) :=
    countP_congr fun e _ => by rw [hz.find_isSome, decide_eq_true_iff]
  rw [executeZRem, hlength, hcount]
  refine announces_keyed_removal hz.distinct hdistinct (fun _ => decide_eq_true_iff) ?_
  rw [isEmptyZset_iff, eq_nil_iff_forall_not_mem]
  simp [(hz.commitZRem elements).2]

lemma announces_zpop (hz : z.WellFormed) (popMax : Bool) (count : Nat) :
    (z.executeZPop count).toExecResult.Announces isEmptyZset
      (if (z.commitZPop popMax count).2 then none else some (z.commitZPop popMax count).1) := by
  obtain ⟨-, hlength, hflag⟩ := hz.commitZPop popMax count
  rw [hflag]
  refine (announces_removal_iff isEmptyZset _ _ _).2 fun _ => ?_
  rw [isEmptyZset, List.isEmpty_iff, ← List.length_eq_zero_iff]
  omega

lemma announced_zremrange (hz : z.WellFormed) {spec : ZRangeSpec S} (hspec : z.Walkable spec) :
    ExecResult.Announced isEmptyZset
      ((z.executeZRemRange spec).map toExecResult)
      ((z.commitZRemRange spec).map fun done => if done.2 then none else some done.1) := by
  obtain ⟨cnt, z', isEmpty, hcnt, hcommit, -, hlength, hflag⟩ := hz.commitZRemRange hspec
  rw [executeZRemRange, hcnt, hcommit, map_some, map_some, map_some,
    announced_some]
  by_cases hzero : cnt = 0
  · subst hzero
    exact ⟨fun hdelete => absurd hdelete (by simp [ofRemoved]),
      fun hwrite => absurd hwrite (by simp [ofRemoved])⟩
  · rw [hflag hzero]
    refine (announces_removal_iff isEmptyZset _ _ _).2 fun _ => ?_
    rw [isEmptyZset, List.isEmpty_iff, ← List.length_eq_zero_iff]
    omega

theorem announced_iff (hz : z.WellFormed) (arith : ScoreArith S)
    (host : Host) {cmd : ZsetCommand S} (hdistinct : cmd.Distinct) :
    ExecResult.Announced isEmptyZset (cmd.executeOn arith host z)
        ((cmd.executed arith host z).commitOn arith host z) ↔ cmd.SameWalk z := by
  cases cmd with
  | zadd flags elements =>
    exact iff_of_true ((announced_some _ _ _).2
      (announces_zadd hz arith host flags elements)) trivial
  | zrem elements =>
    exact iff_of_true ((announced_some _ _ _).2 (announces_zrem hz hdistinct)) trivial
  | zpop popMax count =>
    exact iff_of_true ((announced_some _ _ _).2 (announces_zpop hz popMax count)) trivial
  | zremrange spec =>
    cases spec with
    | lexNull =>
      refine iff_of_true ⟨.fail, rfl, fun hrun => ?_⟩ trivial
      rcases hrun with h | h <;> contradiction
    | lex spec => exact iff_of_true (announced_zremrange hz trivial) trivial
    | rank start stop => exact iff_of_true (announced_zremrange hz trivial) trivial
    | score minex maxex start stop =>
      by_cases hspec : z.Walkable (.score minex maxex start stop)
      · exact iff_of_true (announced_zremrange hz hspec) hspec
      · refine iff_of_false ?_ hspec
        rintro ⟨r, hr, -⟩
        rw [executeOn, hz.executeZRemRange_eq_none hspec] at hr
        contradiction

end ZsetCommand

/-! ## The STORE commands -/

/-- A STORE fits if the object it builds does: nothing else is checked. -/
def ForceClearFits : Option (List (Element S)) → Prop
  | none => True
  | some es =>
    1 + 4 + ((es.map fun e => e.2.stringView).dedup.map elementLength).sum ≤ maxObjectSize

lemma wellFormed_forceClear (es : List (Element S)) :
    (es.foldl updateElement .empty).WellFormed ∧
      (es.foldl updateElement .empty).members.Perm
        (es.map fun e => e.2.stringView).dedup := by
  obtain ⟨hwf, hmem⟩ := RedisZsetObject.WellFormed.foldl_update
    (fun z e hz => hz.updateElement e) es wellFormed_empty
  refine ⟨hwf, (perm_ext_iff_of_nodup hwf.distinct (nodup_dedup _)).2 fun sv => ?_⟩
  rw [hmem]
  simp [members, empty, eq_comm]

lemma pairs_forceClear {es : List (Element S)} (hnodup : (es.map fun e => e.2.stringView).Nodup) :
    (es.foldl updateElement .empty).pairs.Perm
      (es.map fun e => (e.2.stringView, e.1)) := by
  -- over any object that has none of the members, the new pairs come in front of the old
  have hfold : ∀ (es : List (Element S)) (z : RedisZsetObject S), z.WellFormed →
      (es.map fun e => e.2.stringView).Nodup → (∀ e ∈ es, e.2.stringView ∉ z.members) →
      (es.foldl updateElement z).pairs.Perm
        ((es.map fun e => (e.2.stringView, e.1)) ++ z.pairs) := by
    intro es
    induction es with
    | nil => exact fun z _ _ _ => .refl _
    | cons e es ih =>
      intro z hz hnodup hfresh
      rw [map_cons, nodup_cons] at hnodup
      rw [forall_mem_cons] at hfresh
      have hfind : z.find e.2.stringView = none := (hz.find_eq_none _).mpr hfresh.1
      obtain ⟨-, hinsert⟩ := hz.toCoherent.insertNode hfresh.1 e.1
      have hpairs : (z.updateElement e).pairs.Perm ((e.2.stringView, e.1) :: z.pairs) := by
        rw [updateElement, hfind]
        exact hinsert.map fun n => (n.field, n.score)
      have hmembers : ∀ e' ∈ es, e'.2.stringView ∉ (z.updateElement e).members := by
        intro e' he' hmem
        rw [members_eq_pairs, (hpairs.map Prod.fst).mem_iff, map_cons,
          mem_cons, ← members_eq_pairs] at hmem
        rcases hmem with heq | hmem
        · rw [← show e'.2.stringView = e.2.stringView from heq] at hnodup
          exact hnodup.1 (mem_map_of_mem he')
        · exact hfresh.2 e' he' hmem
      exact (ih _ (hz.updateElement e).1 hnodup.2 hmembers).trans
        ((hpairs.append_left _).trans perm_middle)
  have hempty : (empty : RedisZsetObject S).pairs = [] := rfl
  have hperm := hfold es .empty wellFormed_empty hnodup fun _ _ => not_mem_nil
  rwa [hempty, append_nil] at hperm

lemma serializedLength_forceClear (es : List (Element S)) :
    (es.foldl updateElement .empty).serializedLength =
      1 + 4 + ((es.map fun e => e.2.stringView).dedup.map elementLength).sum := by
  obtain ⟨hwf, hperm⟩ := wellFormed_forceClear es
  rw [hwf.sized, lengthOf_congr hperm, lengthOf]

theorem size_commitForceClear_iff (elements : Option (List (Element S))) :
    (executeForceClear elements = .write → ∀ z, commitForceClear elements = some z →
        z.serializedLength ≤ maxObjectSize) ↔ ForceClearFits elements := by
  match elements with
  | none => exact iff_of_true (fun hwrite => absurd hwrite (by simp [executeForceClear])) trivial
  | some [] =>
    exact iff_of_true (fun hwrite => absurd hwrite (by simp [executeForceClear]))
      (by decide : 1 + 4 + 0 ≤ maxObjectSize)
  | some (e :: es) =>
    rw [ForceClearFits, ← serializedLength_forceClear]
    exact ⟨fun hsize => hsize rfl _ rfl, fun hfits _ z hz => some.inj hz ▸ hfits⟩

lemma announces_forceClear_iff (elements : Option (List (Element S))) :
    (executeForceClear elements).Announces ZsetCommand.isEmptyZset (commitForceClear elements) ↔
      elements ≠ some [] := by
  match elements with
  | none =>
    exact iff_of_true ⟨fun _ => rfl, fun hwrite => absurd hwrite (by simp [executeForceClear])⟩
      (by simp)
  | some [] =>
    refine iff_of_false (fun ⟨hdelete, _⟩ => ?_) (by simp)
    exact absurd (hdelete rfl) (by simp [commitForceClear])
  | some (e :: es) =>
    refine iff_of_true ⟨fun hdelete => absurd hdelete (by simp [executeForceClear]),
      fun _ => ⟨_, rfl, ?_⟩⟩ (by simp)
    have hmem : e.2.stringView ∈ ((e :: es).foldl updateElement .empty).members :=
      (wellFormed_forceClear (e :: es)).2.mem_iff.2 (by simp)
    rw [Bool.eq_false_iff, ne_eq, ZsetCommand.isEmptyZset_iff]
    exact ne_nil_of_mem hmem

end Commands

end EloqKV.Zset
