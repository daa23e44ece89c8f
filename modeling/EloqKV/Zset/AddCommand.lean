/-
  ZADD on the node that owns the object and on the nodes that replay it (`ZAddCommand` in
  `src/redis_command.cpp`, `Execute(ZAddCommand &)` and `CommitZAdd` in
  `src/redis_zset_object.cpp`).

  The owner executes the command on views of the request and then commits it.  A standby and
  the log recovery only commit an image of the command, whose strings own their bytes; it is taken
  before or after the execution.
-/
import EloqKV.Zset.Object

namespace EloqKV.Zset

open RedisZsetObject

/-- `ZParams` without INCR and ForceClear. -/
structure ZParams where
  nx : Bool
  xx : Bool
  gt : Bool
  lt : Bool
  ch : Bool
  deriving DecidableEq, Repr

/-- The combinations `ParseZAddCommand` lets through. -/
def ZParams.Admitted (p : ZParams) : Prop :=
  ¬(p.xx ∧ p.nx) ∧ ¬(p.nx ∧ (p.gt ∨ p.lt)) ∧ ¬(p.gt ∧ p.lt)

instance (p : ZParams) : Decidable p.Admitted := by
  unfold ZParams.Admitted
  infer_instance

section Images

variable {S : Type}

/-- The elements as the parser leaves them: views of the request. -/
def viewed (args : List (S × Bytes)) : List (Element S) :=
  args.map fun a => (a.1, EloqString.ofView a.2)

/-- `Serialize` followed by `Deserialize`: every string owns its bytes. -/
def image (elements : List (Element S)) : List (Element S) :=
  elements.map fun e => (e.1, e.2.clone)

lemma admitted_image (z : Bytes → Option S) (rule : Rule S) (es : List (Element S))
    (last : Bytes → Option S) : admitted z rule last (image es) = image (admitted z rule last es) :=
  admitted_map z rule EloqString.clone EloqString.stringView_clone es last

lemma viewed_not_stack (args : List (S × Bytes)) (e : Element S) (he : e ∈ viewed args) :
    e.2.type ≠ .stack := by
  obtain ⟨a, _, rfl⟩ := List.mem_map.mp he
  simp

lemma runFilter_of_admitted (host : Host) (z : Bytes → Option S) (rule : Rule S)
    (es : List (Element S)) (hes : admitted z rule noneAccepted es = es) :
    (runFilter host z rule es).kept = es := by
  rw [runFilter_kept ((undisturbed_of_admitted_eq z rule es _ [] 0 hes).recognises host), hes]

lemma runFilter_viewed (host : Host) (z : Bytes → Option S) (rule : Rule S)
    (args : List (S × Bytes)) :
    (runFilter host z rule (viewed args)).kept = admitted z rule noneAccepted (viewed args) :=
  runFilter_kept ((undisturbed_of_not_stack z rule _ _ 0 0 (viewed_not_stack args)).recognises host)

end Images

section Command

variable {S : Type} [LinearOrder S]

/-- `ZAdd`, the loop without a filter: it drops nothing and hence moves nothing. -/
def zAdd (ch : Bool) : Rule S where
  accepts _ _ _ := true
  counts used hash num :=
    match used with
    | none => hash.isNone || (ch && hash != some num)
    | some old => ch && old != num
  modifies used hash num :=
    match used with
    | none => hash.isNone || hash != some num
    | some old => old != num
  insertsAfterMove := false

/-- The filter a command runs, in the order of the dispatch: LT, GT, NX, XX. -/
def ZParams.filter (p : ZParams) : Option (Rule S) :=
  if p.lt then some (zAddLT p.ch p.xx)
  else if p.gt then some (zAddGT p.ch p.xx)
  else if p.nx then some zAddNX
  else if p.xx then some (zAddXX p.ch)
  else none

/-- The outcome of `ExecuteOn`: the elements left, and whether it returns `Write`. -/
structure Executed (S : Type) where
  elements : List (Element S)
  write : Bool

def execute (host : Host) (p : ZParams) (z : RedisZsetObject S) (elements : List (Element S)) :
    Executed S :=
  let sizeIncreased := (elements.map fun e => 8 + 4 + e.2.stringView.length).sum
  if z.serializedLength + sizeIncreased > maxObjectSize then ⟨elements, false⟩
  else
    match (p.filter : Option (Rule S)) with
    | some rule =>
      let st := runFilter host z.score rule elements
      ⟨st.kept, st.modified⟩
    | none => ⟨elements, (runFilter host z.score (zAdd p.ch) elements).modified⟩

/-- `CommitZAdd` on a vector of elements. -/
def commitZAdd (host : Host) (p : ZParams) (z : RedisZsetObject S)
    (elements : List (Element S)) : RedisZsetObject S :=
  let vec := match (p.filter : Option (Rule S)) with
    | some rule => (runFilter host z.score rule elements).kept
    | none => elements
  vec.foldl RedisZsetObject.updateElement z

def RedisZsetObject.pairs (z : RedisZsetObject S) : List (Bytes × S) :=
  z.zOrderedSet.map fun n => (n.field, n.score)

/-! ## Commit looks at members and scores only -/

lemma updateElement_clone (z : RedisZsetObject S) (e : Element S) :
    z.updateElement (e.1, e.2.clone) = z.updateElement e := by
  simp [updateElement, EloqString.stringView_clone]

lemma foldl_updateElement_image (es : List (Element S)) (z : RedisZsetObject S) :
    (image es).foldl updateElement z =
      es.foldl updateElement z := by
  induction es generalizing z with
  | nil => rfl
  | cons e es ih =>
    have htail := ih (z.updateElement e)
    simpa only [image, List.map_cons, List.foldl_cons, updateElement_clone] using htail

end Command

/-- A hash table without collisions, and heap words that leave the inline buffer alone. -/
def plainHost : Host := ⟨fun _ k p => k == p, by simp, fun raw _ => raw⟩

end EloqKV.Zset
