/-
  The mutations of a sorted set (`CommitZAdd`, `CommitZRem`, `CommitZRemRange`, `CommitZPop`,
  the copy constructor and `Deserialize` in `src/redis_zset_object.cpp` and
  `include/redis_zset_object.h`), and the const `Execute` functions that decide beforehand
  what the removing ones will do.

  Where the first bound of a `ZREMRANGE` lies behind the second the walk leaves the set, which is
  undefined behaviour, and the model has no result (`none`).
-/
import EloqKV.Objects.Outcome
import EloqKV.Zset.AddCommand

namespace EloqKV.Zset

open Lib.OrderedSet (partitionPoint range)

/-! ## Specifications of ranges -/

/-- The fields of `ZRangeSpec` that a lexicographical range uses. -/
structure LexSpec where
  minex : Bool
  maxex : Bool
  negative : Bool
  positive : Bool
  start : Bytes
  stop : Bytes
  deriving DecidableEq, Repr

/-- `ZRangeType` with its `ZRangeSpec`; `null_` leaves both ends unset. -/
inductive ZRangeSpec (S : Type) where
  | score (minex maxex : Bool) (start stop : S)
  | lexNull
  | lex (spec : LexSpec)
  | rank (start stop : Int)
  deriving DecidableEq, Repr

/-- The test both lexicographical functions start with. -/
def LexSpec.isEmpty (spec : LexSpec) : Bool :=
  !spec.negative && !spec.positive && (decide (spec.stop < spec.start) ||
      (spec.start == spec.stop && (spec.minex || spec.maxex)))

/-- The ends of a rank range, as `ZRemRangeByRank` and `CommitZRemRange` compute them. -/
def rankBounds (posStart posEnd : Int) (zsetSize : Nat) : Option (Nat × Nat) :=
  let posStart? : Option Int :=
    if posStart < 0 then some (if posStart + zsetSize < 0 then 0 else posStart + zsetSize)
    else if 0 < posStart ∧ zsetSize ≤ posStart then none
    else some posStart
  let posEnd? : Option Int :=
    if posEnd < 0 then (if zsetSize < -posEnd then none else some (posEnd + zsetSize))
    else if zsetSize ≤ posEnd then some (zsetSize - 1)
    else some posEnd
  match posStart?, posEnd? with
  | some posStart, some posEnd =>
    if posEnd + 1 ≤ posStart then none else some (posStart.toNat, (posEnd + 1).toNat)
  | _, _ => none

section Bounds

variable {S : Type} [LinearOrder S]

/-- The nodes in front of `spec.minex_ ? upper_bound(start) : lower_bound(start)`. -/
def scoreBelowStart (minex : Bool) (start : S) (n : ZNode S) : Bool :=
  if minex then !decide (start < n.score) else decide (n.score < start)

/-- The nodes in front of `spec.maxex_ ? lower_bound(end) : upper_bound(end)`. -/
def scoreBelowStop (maxex : Bool) (stop : S) (n : ZNode S) : Bool :=
  if maxex then decide (n.score < stop) else !decide (stop < n.score)

variable (spec : LexSpec)

/-- The nodes in front of `pos_start` in `GetRangeByLexForCurrentScore`. -/
def lexBelowStart (score : S) (n : ZNode S) : Bool :=
  if spec.negative then decide (n.score < score)
  else if spec.minex then !cmp ⟨0, spec.start, score⟩ n
  else cmp n ⟨0, spec.start, score⟩

/-- The nodes in front of `pos_end`. -/
def lexBelowStop (score : S) (n : ZNode S) : Bool :=
  if spec.positive then !decide (score < n.score)
  else if spec.maxex then cmp n ⟨0, spec.stop, score⟩
  else !cmp ⟨0, spec.stop, score⟩ n

/-- `GetRangeByLexForCurrentScore` and its callers' walk: the nodes of one score in the range. -/
def lexRange (score : S) (nodes : List (ZNode S)) : Option (List (ZNode S)) :=
  let posStart := partitionPoint (lexBelowStart spec score) nodes
  let posEnd := partitionPoint (lexBelowStop spec score) nodes
  match nodes[posStart]? with
  | none => some []
  | some n =>
    if score < n.score ∨ (spec.stop < n.field ∧ spec.positive = false) then some []
    else range posStart posEnd nodes

/-- `z_ordered_set_.upper_bound(score)`. -/
def nextScore (score : S) (nodes : List (ZNode S)) : Nat :=
  partitionPoint (fun n => !decide (score < n.score)) nodes

/-! ## The decisions -/

def zRemRangeByScore (minex maxex : Bool) (start stop : S) (nodes : List (ZNode S)) : Option Nat :=
  if stop < start then some 0
  else
    (range (partitionPoint (scoreBelowStart minex start) nodes)
      (partitionPoint (scoreBelowStop maxex stop) nodes) nodes).map List.length

/-- The loop of `ZRemRangeByLex` over the scores, from position `lexStart`. -/
def lexCountLoop (spec : LexSpec) (nodes : List (ZNode S)) : Nat → Nat → Nat → Option Nat
  | 0, _, _ => none
  | fuel + 1, lexStart, removeCnt =>
    match nodes[lexStart]? with
    | none => some removeCnt
    | some n =>
      match lexRange spec n.score nodes with
      | none => none
      | some selected =>
        lexCountLoop spec nodes fuel (nextScore n.score nodes) (removeCnt + selected.length)

def zRemRangeByLex (nodes : List (ZNode S)) : Option Nat :=
  if spec.isEmpty then some 0 else lexCountLoop spec nodes (nodes.length + 1) 0 0

def zRemRangeByRank (start stop : Int) (nodes : List (ZNode S)) : Option Nat :=
  match rankBounds start stop nodes.length with
  | none => some 0
  | some (first, last) => (range first last nodes).map List.length

namespace RedisZsetObject

variable (z : RedisZsetObject S)

/-- `remove_cnt` in `Execute(ZRemRangeCommand &)`. -/
def removeCnt : ZRangeSpec S → Option Nat
  | .score minex maxex start stop => zRemRangeByScore minex maxex start stop z.zOrderedSet
  | .lexNull => some 0
  | .lex spec => zRemRangeByLex spec z.zOrderedSet
  | .rank start stop => zRemRangeByRank start stop z.zOrderedSet

def executeZRemRange (spec : ZRangeSpec S) : Option CommandExecuteState :=
  (z.removeCnt spec).map fun cnt => .ofRemoved cnt z.zOrderedSet.length

/-- `Execute(ZRemCommand &)`: an element is counted as often as it is listed. -/
def executeZRem (elements : List Bytes) : CommandExecuteState :=
  .ofRemoved (elements.countP fun e => (z.find e).isSome) z.zOrderedSet.length

def executeZPop (count : Nat) : CommandExecuteState :=
  .ofRemoved (min count z.zOrderedSet.length) z.zOrderedSet.length

end RedisZsetObject

end Bounds

/-! ## The mutations -/

section Mutations

variable {S : Type} [LinearOrder S]

def elementLength (field : Bytes) : Nat := 8 + 4 + field.length

/-- `ZParams` with INCR. -/
structure ZAddFlags extends ZParams where
  incr : Bool
  deriving DecidableEq, Repr

/-- The variant `elements_` of `ZAddCommand`. -/
inductive Elements (S : Type) where
  | monostate
  | pair (element : Element S)
  | vector (elements : List (Element S))

namespace RedisZsetObject

/-- `update_element` with INCR: the old score is added first. -/
def incrElement (add : S → S → S) (z : RedisZsetObject S) (e : Element S) : RedisZsetObject S :=
  match z.find e.2.stringView with
  | none => z.updateElement e
  | some m => z.updateElement (add e.1 m.score, e.2)

/-- `CommitZAdd`.  `add` is the addition of scores. -/
def commitZAddElements (add : S → S → S) (host : Host) (flags : ZAddFlags)
    (z : RedisZsetObject S) : Elements S → RedisZsetObject S
  | .monostate => z
  | .pair e => if flags.incr then z.incrElement add e else z.updateElement e
  | .vector es =>
    if flags.incr then es.foldl (incrElement add) z
    else commitZAdd host flags.toZParams z es

variable (z : RedisZsetObject S)

/-- The body of the loop of `CommitZRem`. -/
def remElement (element : Bytes) : RedisZsetObject S :=
  match z.find element with
  | none => z
  | some m =>
    { z.eraseEntry element m with
      serializedLength := z.serializedLength - elementLength element }

def commitZRem (elements : List Bytes) : RedisZsetObject S :=
  elements.foldl remElement z

/-- `z_hash_map_.erase` of a member, and its part of the length. -/
def eraseKey (n : ZNode S) : RedisZsetObject S :=
  match z.find n.field with
  | none => z
  | some m =>
    { z with
      zHashMap := z.zHashMap.erase m
      serializedLength := z.serializedLength - elementLength n.field }

/-- The body of the erasing loops of `CommitZRemRange`. -/
def eraseNode (n : ZNode S) : RedisZsetObject S :=
  { z.eraseKey n with zOrderedSet := z.zOrderedSet.erase n }

/-- An erasing loop of `CommitZRemRange`. -/
def eraseNodes (nodes : List (ZNode S)) : RedisZsetObject S :=
  nodes.foldl eraseNode z

/-- The loop of `CommitZRemRange` over the scores, from position `lexStart`. -/
def lexEraseLoop (spec : LexSpec) : Nat → Nat → RedisZsetObject S → Option (RedisZsetObject S)
  | 0, _, _ => none
  | fuel + 1, lexStart, z =>
    match z.zOrderedSet[lexStart]? with
    | none => some z
    | some n =>
      match lexRange spec n.score z.zOrderedSet with
      | none => none
      | some selected =>
        let z := z.eraseNodes selected
        lexEraseLoop spec fuel (nextScore n.score z.zOrderedSet) z

/-- `CommitZRemRange`: the object, and whether it is empty; `null_` ends are no strings. -/
def commitZRemRange : ZRangeSpec S → Option (RedisZsetObject S × Bool)
  | .score minex maxex start stop =>
    if stop < start then some (z, false)
    else
      (range (partitionPoint (scoreBelowStart minex start) z.zOrderedSet)
        (partitionPoint (scoreBelowStop maxex stop) z.zOrderedSet) z.zOrderedSet).map
        fun selected =>
          let z := z.eraseNodes selected
          (z, z.zOrderedSet.isEmpty)
  | .lexNull => none
  | .lex spec =>
    if spec.isEmpty then some (z, false)
    else
      (lexEraseLoop spec (z.zOrderedSet.length + 1) 0 z).map fun z => (z, z.zOrderedSet.isEmpty)
  | .rank start stop =>
    match rankBounds start stop z.zOrderedSet.length with
    | none => some (z, false)
    | some (first, last) =>
      (range first last z.zOrderedSet).map fun selected =>
        let z := z.eraseNodes selected
        (z, z.zOrderedSet.isEmpty)

def commitZPop (popMax : Bool) (count : Nat) : RedisZsetObject S × Bool :=
  let size := z.zOrderedSet.length
  if size ≤ count then
    ({ z with zOrderedSet := [], zHashMap := [], serializedLength := 1 + 4 }, true)
  else
    let popped := if popMax then z.zOrderedSet.reverse.take count else z.zOrderedSet.take count
    let kept := if popMax then z.zOrderedSet.take (size - count) else z.zOrderedSet.drop count
    let z := { popped.foldl eraseKey z with zOrderedSet := kept }
    (z, z.zOrderedSet.isEmpty)

/-- The loop of the copy constructor and of `Deserialize`. -/
def insertAll (pairs : List (Bytes × S)) : RedisZsetObject S :=
  pairs.foldl (fun z p => z.insertNode p.1 p.2) z

def copy : RedisZsetObject S :=
  { (empty : RedisZsetObject S).insertAll z.pairs with serializedLength := z.serializedLength }

/-- `Deserialize`, on the pairs in the order of the buffer. -/
def deserialize (pairs : List (Bytes × S)) : RedisZsetObject S :=
  { (empty : RedisZsetObject S).insertAll pairs with
    serializedLength := 1 + 4 + (pairs.map fun p => elementLength p.1).sum }

end RedisZsetObject

end Mutations

end EloqKV.Zset
