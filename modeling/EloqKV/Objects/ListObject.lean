/-
  The list object and its write commands (`src/redis_list_object.cpp`,
  `include/redis_list_object.h`, the list commands of `src/redis_command.cpp`).

  `Execute` looks at the object and decides, `Commit` changes it; the two are written independently,
  with their own loops and integer types.  Elements are their bytes.
-/
import EloqKV.EloqString
import EloqKV.Numbers
import EloqKV.Objects.Items
import EloqKV.Objects.Outcome

open List

namespace EloqKV.Lists

open CommandExecuteState ExecResult

structure RedisListObject where
  listObject : List Bytes
  serializedLength : Nat
  deriving DecidableEq, Repr

/-! ## The commands -/

/-- The list commands that write; a missing count is `none`, the source's `-1`. -/
inductive ListCommand where
  | lpush (elements : List Bytes)
  | rpush (elements : List Bytes)
  | lpushx (elements : List Bytes)
  | rpushx (elements : List Bytes)
  | lpop (count : Option Nat)
  | rpop (count : Option Nat)
  | blockPop (isLeft : Bool) (count : Nat)
  | lmovePop (isLeft : Bool)
  | lmovePush (isLeft : Bool) (element : Bytes)
  | linsert (isBefore : Bool) (pivot element : Bytes)
  | lset (index : Int) (element : Bytes)
  | lrem (count : Int) (element : Bytes)
  | ltrim (start stop : Int)
  deriving DecidableEq, Repr

namespace RedisListObject

def empty : RedisListObject := ⟨[], 1 + 4⟩

variable (l : RedisListObject)

def convertListIndex (index : Int) : Int :=
  if index < 0 then
    let index := l.listObject.length + index
    if index < 0 then 0 else index
  else index

def normalizeLTrimRange (start stop : Int) : Int × Int :=
  let size : Int := l.listObject.length
  let start :=
    if start < 0 then (if size + start < 0 then 0 else size + start)
    else if size < start then size
    else start
  if stop < 0 then
    if size + stop < 0 then (1, 0) else (start, size + stop)
  else if size ≤ stop then (start, size - 1)
  else (start, stop)

/-! ### The decisions -/

variable (elements : List Bytes)

def executePush : CommandExecuteState :=
  if maxObjectSize < l.serializedLength + itemsLength elements then .noChange else .modified

/-- `Execute(LPopCommand &)` and `Execute(RPopCommand &)`. -/
def executePop (count : Nat) : CommandExecuteState :=
  .ofRemoved (min count l.listObject.length) l.listObject.length

def executeLMovePop : CommandExecuteState :=
  if l.listObject = [] then .noChange
  else if l.listObject.length = 1 then .modifiedToEmpty
  else .modified

/-- `Execute(LMovePushCommand &)`: the four bytes of the element's length are not counted. -/
def executeLMovePush (element : Bytes) : CommandExecuteState :=
  if maxObjectSize < l.serializedLength + element.length then .noChange else .modified

def executeLInsert (pivot element : Bytes) : CommandExecuteState :=
  if pivot ∈ l.listObject then
    if maxObjectSize < l.serializedLength + 4 + element.length then .noChange else .modified
  else .noChange

def executeLSet (index : Int) (element : Bytes) : CommandExecuteState :=
  let index := l.convertListIndex index
  if 0 ≤ index then
    match l.listObject[index.toNat]? with
    | none => .noChange
    | some old =>
      if maxObjectSize < l.serializedLength - old.length + element.length then .noChange
      else .modified
  else .noChange

/-- A loop of `Execute(LRemCommand &)`, which stops at a bound if it has one. -/
def lremCountLoop (element : Bytes) (bound : Option Nat) : Nat → List Bytes → Nat
  | ret, [] => ret
  | ret, e :: es =>
    if bound.any (· ≤ ret) then ret
    else lremCountLoop element bound (if e = element then ret + 1 else ret) es

/-- `list_result.ret_` in `Execute(LRemCommand &)`. -/
def lremCount (count : Int) (element : Bytes) : Nat :=
  let toBeRemovedCnt := (abs64 count).toNat
  if count < 0 then lremCountLoop element (some toBeRemovedCnt) 0 l.listObject.reverse
  else if 0 < count then lremCountLoop element (some toBeRemovedCnt) 0 l.listObject
  else lremCountLoop element none 0 l.listObject

def executeLRem (count : Int) (element : Bytes) : CommandExecuteState :=
  .ofRemoved (l.lremCount count element) l.listObject.length

def executeLTrim (start stop : Int) : CommandExecuteState :=
  let (start, stop) := l.normalizeLTrimRange start stop
  let remaining := stop - start + 1
  if remaining ≤ 0 then .modifiedToEmpty
  else if l.listObject.length ≤ remaining then .noChange
  else .modified

/-! ### The mutations -/

def commitRPush : RedisListObject :=
  elements.foldl (fun l e => ⟨l.listObject ++ [e], l.serializedLength + itemLength e⟩) l

def commitLPush : RedisListObject :=
  elements.foldl (fun l e => ⟨e :: l.listObject, l.serializedLength + itemLength e⟩) l

def commitLPop (count : Nat) : RedisListObject :=
  ⟨l.listObject.drop count, l.serializedLength - itemsLength (l.listObject.take count)⟩

def commitRPop (count : Nat) : RedisListObject :=
  let keep := l.listObject.length - count
  ⟨l.listObject.take keep, l.serializedLength - itemsLength (l.listObject.drop keep)⟩

/-- `CommitBlockPop`, for a list that has elements. -/
def commitBlockPop (isLeft : Bool) (count : Nat) : RedisListObject :=
  if isLeft then l.commitLPop count else l.commitRPop count

/-- `CommitLMovePop`, for a list that has elements. -/
def commitLMovePop (isLeft : Bool) : RedisListObject :=
  if isLeft then l.commitLPop 1 else l.commitRPop 1

def commitLMovePush (isLeft : Bool) (element : Bytes) : RedisListObject :=
  if isLeft then l.commitLPush [element] else l.commitRPush [element]

/-- The position `CommitLInsert` inserts at, the end if the pivot is missing. -/
def insertPosition (isBefore : Bool) (pivot : Bytes) (elements : List Bytes) : Nat :=
  let found := elements.idxOf pivot
  if found < elements.length ∧ isBefore = false then found + 1 else found

def commitLInsert (isBefore : Bool) (pivot element : Bytes) : RedisListObject :=
  let pos := insertPosition isBefore pivot l.listObject
  ⟨l.listObject.take pos ++ element :: l.listObject.drop pos,
    l.serializedLength + itemLength element⟩

/-- `CommitLSet`, for an index inside the list. -/
def commitLSet (index : Int) (element : Bytes) : RedisListObject :=
  let index := (l.convertListIndex index).toNat
  ⟨l.listObject.set index element,
    l.serializedLength - (l.listObject.getD index []).length + element.length⟩

/-- A loop of `CommitLRem` that may still erase `budget` elements. -/
def lremLoop (element : Bytes) : Nat → List Bytes → Nat → List Bytes × Nat
  | 0, es, length => (es, length)
  | _ + 1, [], length => ([], length)
  | budget + 1, e :: es, length =>
    if e = element then lremLoop element budget es (length - itemLength e)
    else
      let (rest, length) := lremLoop element (budget + 1) es length
      (e :: rest, length)

/-- `CommitLRem`: `to_be_removed_cnt` is an `int`. -/
def commitLRem (count : Int) (element : Bytes) : RedisListObject :=
  let toBeRemovedCnt := (toInt32 (abs64 count)).toNat
  if 0 < count then
    let (es, length) := lremLoop element toBeRemovedCnt l.listObject l.serializedLength
    ⟨es, length⟩
  else if count < 0 then
    let (es, length) := lremLoop element toBeRemovedCnt l.listObject.reverse l.serializedLength
    ⟨es.reverse, length⟩
  else
    let (es, length) := lremLoop element l.listObject.length l.listObject l.serializedLength
    ⟨es, length⟩

/-- `CommitLTrim`: first the end is cut off, then the front. -/
def commitLTrim (start stop : Int) : RedisListObject :=
  let (start, stop) := l.normalizeLTrimRange start stop
  if stop - start + 1 ≤ 0 then
    ⟨[], l.serializedLength - itemsLength l.listObject⟩
  else
    (l.commitRPop (l.listObject.length - (stop + 1).toNat)).commitLPop start.toNat

end RedisListObject

namespace ListCommand

open RedisListObject

/-- `count_ == -1 ? 1 : count_`. -/
def popCount (count : Option Nat) : Nat := count.getD 1

variable (cmd : ListCommand) (l : RedisListObject)

/-- `ExecuteOn` for an object of the right type; a blocking pop of nothing is no change. -/
def executeOn : ExecResult :=
  match cmd with
  | lpush es | rpush es | lpushx es | rpushx es => (l.executePush es).toWriteResult
  | lpop count | rpop count => (l.executePop (popCount count)).toExecResult
  | blockPop _ count => (l.executePop count).toExecResult
  | lmovePop _ => l.executeLMovePop.toExecResult
  | lmovePush _ e => (l.executeLMovePush e).toWriteResult
  | linsert _ pivot e => (l.executeLInsert pivot e).toWriteResult
  | lset index e => (l.executeLSet index e).toWriteResult
  | lrem count e => (l.executeLRem count e).toExecResult
  | ltrim start stop => (l.executeLTrim start stop).toExecResult

/-- The command as `ExecuteOn` leaves it: LSET and LTRIM overwrite their indexes. -/
def executed : ListCommand :=
  match cmd with
  | lset index e => lset (l.convertListIndex index) e
  | ltrim start stop =>
    let (start, stop) := l.normalizeLTrimRange start stop
    ltrim start stop
  | cmd => cmd

/-- The object after `CommitOn`. -/
def commit : RedisListObject :=
  match cmd with
  | lpush es | lpushx es => l.commitLPush es
  | rpush es | rpushx es => l.commitRPush es
  | lpop count => l.commitLPop (popCount count)
  | rpop count => l.commitRPop (popCount count)
  | blockPop isLeft count => l.commitBlockPop isLeft count
  | lmovePop isLeft => l.commitLMovePop isLeft
  | lmovePush isLeft e => l.commitLMovePush isLeft e
  | linsert isBefore pivot e => l.commitLInsert isBefore pivot e
  | lset index e => l.commitLSet index e
  | lrem count e => l.commitLRem count e
  | ltrim start stop => l.commitLTrim start stop

/-- The commands whose `CommitOn` asks whether the list is empty. -/
def removes : ListCommand → Bool
  | lpop _ | rpop _ | blockPop _ _ | lmovePop _ | lrem _ _ | ltrim _ _ => true
  | _ => false

/-- `CommitOn`: the object left, or none if the key is to go. -/
def commitOn : Option RedisListObject :=
  let l' := cmd.commit l
  if cmd.removes && l'.listObject.isEmpty then none else some l'

end ListCommand

/-! ## What the mutations do -/

namespace RedisListObject

/-- The length field is the number of bytes the object serializes to. -/
def WellFormed (l : RedisListObject) : Prop :=
  l.serializedLength = 1 + 4 + itemsLength l.listObject

lemma commitRPush_eq (l : RedisListObject) (es : List Bytes) :
    l.commitRPush es = ⟨l.listObject ++ es, l.serializedLength + itemsLength es⟩ := by
  unfold commitRPush
  induction es generalizing l with
  | nil => simp
  | cons e es ih => simp [ih, Nat.add_assoc]

lemma commitLPush_eq (l : RedisListObject) (es : List Bytes) :
    l.commitLPush es = ⟨es.reverse ++ l.listObject, l.serializedLength + itemsLength es⟩ := by
  unfold commitLPush
  induction es generalizing l with
  | nil => simp
  | cons e es ih => simp [ih, Nat.add_assoc]

lemma itemsLength_take_add_drop (n : Nat) (es : List Bytes) :
    itemsLength (es.take n) + itemsLength (es.drop n) = itemsLength es := by
  rw [← itemsLength_append, take_append_drop]

variable {l : RedisListObject}

lemma WellFormed.commitRPush (hl : l.WellFormed) (es : List Bytes) :
    (l.commitRPush es).WellFormed := by
  unfold WellFormed at hl ⊢
  simp only [commitRPush_eq, hl, itemsLength_append]
  omega

lemma WellFormed.commitLPush (hl : l.WellFormed) (es : List Bytes) :
    (l.commitLPush es).WellFormed := by
  unfold WellFormed at hl ⊢
  simp only [commitLPush_eq, hl, itemsLength_append, itemsLength_reverse]
  omega

lemma WellFormed.commitLPop (hl : l.WellFormed) (count : Nat) :
    (l.commitLPop count).WellFormed := by
  have hsplit := itemsLength_take_add_drop count l.listObject
  unfold WellFormed at hl ⊢
  simp only [RedisListObject.commitLPop]
  omega

lemma WellFormed.commitRPop (hl : l.WellFormed) (count : Nat) :
    (l.commitRPop count).WellFormed := by
  have hsplit := itemsLength_take_add_drop (l.listObject.length - count) l.listObject
  unfold WellFormed at hl ⊢
  simp only [RedisListObject.commitRPop]
  omega

lemma WellFormed.commitLInsert (hl : l.WellFormed) (isBefore : Bool)
    (pivot element : Bytes) : (l.commitLInsert isBefore pivot element).WellFormed := by
  have hsplit := itemsLength_take_add_drop (insertPosition isBefore pivot l.listObject) l.listObject
  unfold WellFormed at hl ⊢
  simp only [RedisListObject.commitLInsert, itemsLength_append, itemsLength_cons]
  omega

lemma itemsLength_set {es : List Bytes} {index : Nat} {old : Bytes}
    (hold : es[index]? = some old) (element : Bytes) :
    itemsLength (es.set index element) + old.length = itemsLength es + element.length := by
  induction es generalizing index with
  | nil => exact absurd hold (by simp)
  | cons e es ih =>
    cases index with
    | zero =>
      obtain rfl : e = old := by simpa using hold
      simp only [set_cons_zero, itemsLength_cons, itemLength]
      omega
    | succ index =>
      have hrest := ih (by simpa using hold)
      simp only [set_cons_succ, itemsLength_cons]
      omega

lemma length_le_itemsLength {es : List Bytes} {index : Nat} {old : Bytes}
    (hold : es[index]? = some old) : old.length ≤ itemsLength es := by
  have hset := itemsLength_set hold []
  simp only [length_nil, Nat.add_zero] at hset
  omega

lemma WellFormed.commitLSet (hl : l.WellFormed) {index : Int}
    {old : Bytes} (hold : l.listObject[(l.convertListIndex index).toNat]? = some old)
    (element : Bytes) : (l.commitLSet index element).WellFormed := by
  have hset := itemsLength_set hold element
  have hle := length_le_itemsLength hold
  unfold WellFormed at hl ⊢
  simp only [RedisListObject.commitLSet, getD_eq_getElem?_getD, hold, Option.getD_some]
  omega

lemma lremLoop_spec (element : Bytes) (budget : Nat) (es : List Bytes) (base : Nat) :
    (lremLoop element budget es (base + itemsLength es)).1.length +
        min budget (es.count element) = es.length ∧
      (lremLoop element budget es (base + itemsLength es)).2 =
        base + itemsLength (lremLoop element budget es (base + itemsLength es)).1 := by
  induction es generalizing budget base with
  | nil => cases budget <;> simp [lremLoop]
  | cons e es ih =>
    cases budget with
    | zero => simp [lremLoop]
    | succ budget =>
      by_cases he : e = element
      · subst he
        obtain ⟨hlen, hsum⟩ := ih budget base
        have harg : base + itemsLength (e :: es) - itemLength e = base + itemsLength es := by
          rw [itemsLength_cons]
          omega
        simp only [lremLoop, if_true, harg, count_cons_self, length_cons]
        exact ⟨by omega, hsum⟩
      · obtain ⟨hlen, hsum⟩ := ih (budget + 1) (base + itemLength e)
        have harg : base + itemsLength (e :: es) = base + itemLength e + itemsLength es := by
          rw [itemsLength_cons]
          omega
        rw [harg]
        simp only [lremLoop, he, if_false, count_cons_of_ne he, length_cons, itemsLength_cons]
        exact ⟨by omega, by omega⟩

/-- How many elements `CommitLRem` may remove. -/
def lremBudget (l : RedisListObject) (count : Int) : Nat :=
  if count = 0 then l.listObject.length else (toInt32 (abs64 count)).toNat

lemma WellFormed.commitLRem (hl : l.WellFormed) (count : Int) (element : Bytes) :
    (l.commitLRem count element).WellFormed ∧ (l.commitLRem count element).listObject.length +
        min (l.lremBudget count) (l.listObject.count element) = l.listObject.length := by
  unfold WellFormed at hl ⊢
  unfold lremBudget
  simp only [RedisListObject.commitLRem, hl]
  rcases Int.lt_trichotomy count 0 with hneg | rfl | hpos
  · obtain ⟨hlen, hsum⟩ := lremLoop_spec element (toInt32 (abs64 count)).toNat
      l.listObject.reverse (1 + 4)
    simp only [itemsLength_reverse, count_reverse, length_reverse] at hlen hsum
    have hn : ¬0 < count := by omega
    have hz : ¬count = 0 := by omega
    simp only [hn, hneg, hz, if_false, if_true, itemsLength_reverse, length_reverse]
    exact ⟨hsum, hlen⟩
  · obtain ⟨hlen, hsum⟩ := lremLoop_spec element l.listObject.length l.listObject (1 + 4)
    exact ⟨hsum, hlen⟩
  · obtain ⟨hlen, hsum⟩ := lremLoop_spec element (toInt32 (abs64 count)).toNat l.listObject (1 + 4)
    have hz : ¬count = 0 := by omega
    simp only [hpos, hz, if_false, if_true]
    exact ⟨hsum, hlen⟩

lemma WellFormed.commitLTrim (hl : l.WellFormed) (start stop : Int) :
    (l.commitLTrim start stop).WellFormed := by
  simp only [RedisListObject.commitLTrim]
  split
  · unfold WellFormed at hl ⊢
    simp only [itemsLength_nil]
    omega
  · exact (hl.commitRPop _).commitLPop _

end RedisListObject

/-! ## Decisions against mutations -/

namespace ListCommand

open RedisListObject

lemma convertListIndex_idem (l : RedisListObject) (index : Int) :
    l.convertListIndex (l.convertListIndex index) = l.convertListIndex index := by
  simp only [convertListIndex]
  split_ifs <;> omega

variable {l : RedisListObject}

lemma commitLTrim_of_nil (hnil : l.listObject = []) (start stop : Int) :
    l.commitLTrim start stop = ⟨[], l.serializedLength⟩ := by
  have hremaining :
      (l.normalizeLTrimRange start stop).2 - (l.normalizeLTrimRange start stop).1 + 1 ≤ 0 := by
    simp only [normalizeLTrimRange, hnil, length_nil]
    split_ifs <;> simp only <;> omega
  simp [commitLTrim, hremaining, hnil, itemsLength_nil]

lemma normalizeLTrimRange_bounds (hne : l.listObject ≠ []) (start stop : Int) :
    0 ≤ (l.normalizeLTrimRange start stop).1 ∧
      (l.normalizeLTrimRange start stop).1 ≤ l.listObject.length ∧
      0 ≤ (l.normalizeLTrimRange start stop).2 ∧
      (l.normalizeLTrimRange start stop).2 < l.listObject.length := by
  have hpos := length_pos_iff.2 hne
  simp only [normalizeLTrimRange]
  split_ifs <;> simp only <;> omega

lemma normalizeLTrimRange_eq {start stop : Int} (hstart : 0 ≤ start)
    (hsize : start ≤ l.listObject.length) (hstop : 0 ≤ stop)
    (hlt : stop < l.listObject.length) : l.normalizeLTrimRange start stop = (start, stop) := by
  have h1 : ¬start < 0 := by omega
  have h2 : ¬(l.listObject.length : Int) < start := by omega
  have h3 : ¬stop < 0 := by omega
  have h4 : ¬(l.listObject.length : Int) ≤ stop := by omega
  simp [normalizeLTrimRange, h1, h2, h3, h4]

lemma commit_executed (cmd : ListCommand) (l : RedisListObject) :
    (cmd.executed l).commit l = cmd.commit l := by
  cases cmd with
  | lset index e => simp [executed, commit, commitLSet, convertListIndex_idem]
  | ltrim start stop =>
    simp only [executed, commit]
    by_cases hnil : l.listObject = []
    · rw [commitLTrim_of_nil hnil, commitLTrim_of_nil hnil]
    · obtain ⟨hstart, hsize, hstop, hlt⟩ := normalizeLTrimRange_bounds hnil start stop
      simp [commitLTrim, normalizeLTrimRange_eq hstart hsize hstop hlt]
  | _ => rfl

lemma commitOn_executed (cmd : ListCommand) (l : RedisListObject) :
    (cmd.executed l).commitOn l = cmd.commitOn l := by
  have hremoves : (cmd.executed l).removes = cmd.removes := by cases cmd <;> rfl
  simp [commitOn, commit_executed, hremoves]

variable {cmd : ListCommand}

lemma eq_commit_of_commitOn {l l' : RedisListObject}
    (hleft : cmd.commitOn l = some l') : cmd.commit l = l' := by
  simp only [commitOn] at hleft
  split at hleft
  · contradiction
  · exact Option.some.inj hleft

lemma executeLSet_eq_modified {index : Int} {element : Bytes}
    (hwrite : l.executeLSet index element = .modified) :
    ∃ old, l.listObject[(l.convertListIndex index).toNat]? = some old ∧
      l.serializedLength - old.length + element.length ≤ maxObjectSize := by
  simp only [executeLSet] at hwrite
  split at hwrite
  · cases hold : l.listObject[(l.convertListIndex index).toNat]? with
    | none => simp [hold] at hwrite
    | some old =>
      simp only [hold] at hwrite
      split at hwrite
      · contradiction
      · exact ⟨old, rfl, by omega⟩
  · contradiction

/-- What `CommitOn` takes for granted: the index of LSET lies inside the list. -/
def Committable (cmd : ListCommand) (l : RedisListObject) : Prop :=
  match cmd with
  | lset index _ => (l.convertListIndex index).toNat < l.listObject.length
  | _ => True

instance decidableCommittable : ∀ (cmd : ListCommand) (l : RedisListObject),
    Decidable (cmd.Committable l)
  | lset _ _, _ => inferInstanceAs (Decidable (_ < _))
  | lpush _, _ | rpush _, _ | lpushx _, _ | rpushx _, _ | lpop _, _ | rpop _, _
  | blockPop _ _, _ | lmovePop _, _ | lmovePush _ _, _ | linsert _ _ _, _ | lrem _ _, _
  | ltrim _ _, _ => inferInstanceAs (Decidable True)

lemma wellFormed_commit_of_committable
    (hl : l.WellFormed) (hcmd : cmd.Committable l) : (cmd.commit l).WellFormed := by
  cases cmd with
  | lpush es | lpushx es => exact hl.commitLPush es
  | rpush es | rpushx es => exact hl.commitRPush es
  | lpop count => exact hl.commitLPop _
  | rpop count => exact hl.commitRPop _
  | blockPop isLeft count =>
    cases isLeft
    · exact hl.commitRPop count
    · exact hl.commitLPop count
  | lmovePop isLeft =>
    cases isLeft
    · exact hl.commitRPop 1
    · exact hl.commitLPop 1
  | lmovePush isLeft e =>
    cases isLeft
    · exact hl.commitRPush [e]
    · exact hl.commitLPush [e]
  | linsert isBefore pivot e => exact hl.commitLInsert isBefore pivot e
  | lset index e => exact hl.commitLSet (List.getElem?_eq_getElem hcmd) e
  | lrem count e => exact (hl.commitLRem count e).1
  | ltrim start stop => exact hl.commitLTrim start stop

/-! ### The size limit -/

/-- When the check covers what the mutation adds; LMOVE forgets the bytes of the length. -/
def Fits (cmd : ListCommand) (l : RedisListObject) : Prop :=
  match cmd with
  | lmovePush _ e =>
    l.serializedLength + itemLength e ≤ maxObjectSize ∨
      maxObjectSize < l.serializedLength + e.length
  | _ => True

instance decidableFits (cmd : ListCommand) (l : RedisListObject) : Decidable (cmd.Fits l) := by
  unfold Fits
  split <;> infer_instance

lemma executePush_eq_modified {es : List Bytes} :
    l.executePush es = .modified ↔ l.serializedLength + itemsLength es ≤ maxObjectSize := by
  unfold executePush
  split <;> simp <;> omega

lemma executeLInsert_eq_modified {pivot e : Bytes} :
    l.executeLInsert pivot e = .modified ↔
      pivot ∈ l.listObject ∧ l.serializedLength + 4 + e.length ≤ maxObjectSize := by
  unfold executeLInsert
  by_cases hpivot : pivot ∈ l.listObject
  · split <;> simp [*]
  · simp [hpivot]

lemma executeLMovePush_eq_modified {e : Bytes} :
    l.executeLMovePush e = .modified ↔ l.serializedLength + e.length ≤ maxObjectSize := by
  unfold executeLMovePush
  split <;> simp <;> omega

lemma lremLoop_le (element : Bytes) (budget : Nat) (es : List Bytes) (length : Nat) :
    (lremLoop element budget es length).2 ≤ length := by
  induction es generalizing budget length with
  | nil => cases budget <;> exact Nat.le_refl _
  | cons e es ih =>
    cases budget with
    | zero => exact Nat.le_refl _
    | succ budget =>
      simp only [lremLoop]
      split
      · exact Nat.le_trans (ih budget _) (Nat.sub_le _ _)
      · exact ih (budget + 1) length

lemma commitLRem_le (l : RedisListObject) (count : Int) (e : Bytes) :
    (l.commitLRem count e).serializedLength ≤ l.serializedLength := by
  unfold commitLRem
  split_ifs <;> exact lremLoop_le _ _ _ _

lemma commitLTrim_le (l : RedisListObject) (start stop : Int) :
    (l.commitLTrim start stop).serializedLength ≤ l.serializedLength := by
  simp only [commitLTrim]
  split
  · exact Nat.sub_le _ _
  · exact Nat.le_trans (Nat.sub_le _ _) (Nat.sub_le _ _)

/-- What is added is tested, by LMOVE all but four bytes of it; the others only remove. -/
theorem size_commit_iff (cmd : ListCommand) (hmax : l.serializedLength ≤ maxObjectSize) :
    (cmd.executeOn l = .write → (cmd.commit l).serializedLength ≤ maxObjectSize) ↔ cmd.Fits l := by
  cases cmd with
  | lmovePush isLeft e =>
    have hlength : (l.commitLMovePush isLeft e).serializedLength
        = l.serializedLength + itemLength e := by
      cases isLeft <;> rfl
    simp only [executeOn, toWriteResult_eq_write,
      executeLMovePush_eq_modified, commit, hlength, Fits]
    omega
  | lpush es | lpushx es =>
    simp [executeOn, toWriteResult_eq_write, executePush_eq_modified, commit, commitLPush_eq, Fits]
  | rpush es | rpushx es =>
    simp [executeOn, toWriteResult_eq_write, executePush_eq_modified, commit, commitRPush_eq, Fits]
  | linsert isBefore pivot e =>
    refine iff_of_true (fun hwrite => ?_) trivial
    simp only [executeOn, toWriteResult_eq_write,
      executeLInsert_eq_modified] at hwrite
    simp only [commit, commitLInsert, itemLength]
    omega
  | lset index e =>
    refine iff_of_true (fun hwrite => ?_) trivial
    simp only [executeOn, toWriteResult_eq_write] at hwrite
    obtain ⟨old, hold, hle⟩ := executeLSet_eq_modified hwrite
    simpa only [commit, commitLSet, getD_eq_getElem?_getD, hold, Option.getD_some] using hle
  | lrem count e => exact iff_of_true (fun _ => Nat.le_trans (commitLRem_le l count e) hmax) trivial
  | ltrim start stop =>
    exact iff_of_true (fun _ => Nat.le_trans (commitLTrim_le l start stop) hmax) trivial
  | lpop count | rpop count =>
    exact iff_of_true (fun _ => Nat.le_trans (Nat.sub_le _ _) hmax) trivial
  | blockPop isLeft count | lmovePop isLeft =>
    refine iff_of_true (fun _ => ?_) trivial
    cases isLeft <;> exact Nat.le_trans (Nat.sub_le _ _) hmax

/-! ### Emptiness -/

/-- What the parser guarantees: a push has elements. -/
def Admitted : ListCommand → Prop
  | lpush es | rpush es | lpushx es | rpushx es => es ≠ []
  | _ => True

/-- When both walk the same elements: a narrowed LREM count empties the list only if it reaches it.
-/
def SameWalk (cmd : ListCommand) (l : RedisListObject) : Prop :=
  match cmd with
  | lrem count e =>
    l.listObject.count e = l.listObject.length → count ≠ 0 →
      l.listObject.length ≤ (abs64 count).toNat →
      l.listObject.length ≤ (toInt32 (abs64 count)).toNat
  | _ => True

lemma lremCountLoop_none (e : Bytes) (ret : Nat) (es : List Bytes) :
    lremCountLoop e none ret es = ret + es.count e := by
  induction es generalizing ret with
  | nil => rfl
  | cons e' es ih =>
    rw [lremCountLoop, if_neg (by simp), ih, count_cons]
    by_cases he : e' = e
    · simp [he]
      omega
    · simp [he]

/-- The bound is on all hits, those of the loop so far included. -/
lemma lremCountLoop_some (e : Bytes) {ret bound : Nat} (hret : ret ≤ bound) (es : List Bytes) :
    lremCountLoop e (some bound) ret es = min bound (ret + es.count e) := by
  induction es generalizing ret with
  | nil => simp [lremCountLoop, hret]
  | cons e' es ih =>
    rw [lremCountLoop]
    by_cases hfull : bound ≤ ret
    · rw [if_pos (by simpa using hfull)]
      omega
    · rw [if_neg (by simpa using hfull), count_cons]
      by_cases he : e' = e
      · rw [if_pos he, ih (by omega), if_pos (by simpa using he)]
        omega
      · rw [if_neg he, ih hret, if_neg (by simpa using he)]
        omega

/-- All hits, or `|count|` of them. -/
lemma lremCount_eq (l : RedisListObject) (count : Int) (e : Bytes) : l.lremCount count e =
    if count = 0 then l.listObject.count e
    else min (abs64 count).toNat (l.listObject.count e) := by
  rw [lremCount]
  rcases Int.lt_trichotomy count 0 with hneg | rfl | hpos
  · rw [if_pos hneg, if_neg hneg.ne, lremCountLoop_some e (Nat.zero_le _), count_reverse,
      Nat.zero_add]
  · simp [lremCountLoop_none]
  · rw [if_neg (by omega), if_pos hpos, if_neg hpos.ne', lremCountLoop_some e (Nat.zero_le _),
      Nat.zero_add]

lemma executeLMovePop_eq (l : RedisListObject) :
    l.executeLMovePop = .ofRemoved (min 1 l.listObject.length) l.listObject.length := by
  unfold executeLMovePop ofRemoved
  rcases hlist : l.listObject with _ | ⟨e, _ | ⟨e', es⟩⟩ <;> simp

def isEmptyList (l : RedisListObject) : Bool := l.listObject.isEmpty

lemma isEmptyList_commitLPop (l : RedisListObject) (count : Nat) :
    isEmptyList (l.commitLPop count) = true ↔ l.listObject.length ≤ count := by
  simp [isEmptyList, commitLPop, drop_eq_nil_iff]

lemma isEmptyList_commitRPop (l : RedisListObject) (count : Nat) :
    isEmptyList (l.commitRPop count) = true ↔ l.listObject.length ≤ count := by
  simp only [isEmptyList, commitRPop, List.isEmpty_iff, List.take_eq_nil_iff]
  constructor
  · rintro (hkeep | hnil)
    · omega
    · simp [hnil]
  · intro hle
    exact Or.inl (by omega)

lemma isEmptyList_commitLRem (hl : l.WellFormed) (count : Int) (e : Bytes) :
    isEmptyList (l.commitLRem count e) = true ↔
      l.listObject.length ≤ min (l.lremBudget count) (l.listObject.count e) := by
  have hlen := (hl.commitLRem count e).2
  rw [isEmptyList, List.isEmpty_iff, ← List.length_eq_zero_iff]
  omega

lemma toInt32_abs64_le (count : Int) : (toInt32 (abs64 count)).toNat ≤ (abs64 count).toNat := by
  by_cases hmin : count = -2 ^ 63
  · subst hmin
    decide
  · have hnonneg : 0 ≤ abs64 count := by
      unfold abs64
      rw [if_neg hmin]
      exact Int.natCast_nonneg _
    have := toInt32_le hnonneg
    omega

lemma announces_pop (l : RedisListObject) (count : Nat) {l' : RedisListObject}
    (hempty : isEmptyList l' = true ↔ l.listObject.length ≤ count) :
    (l.executePop count).toExecResult.Announces isEmptyList
      (if isEmptyList l' then none else some l') := by
  refine (announces_removal_iff _ _ _ _).2 fun _ => ?_
  rw [hempty]
  omega

lemma announces_lrem_iff (hl : l.WellFormed) (count : Int) (e : Bytes) :
    ((lrem count e).executeOn l).Announces isEmptyList ((lrem count e).commitOn l) ↔
      (lrem count e).SameWalk l := by
  refine (announces_removal_iff isEmptyList _ _ (l.commitLRem count e)).trans ?_
  have hle := toInt32_abs64_le count
  have hcount : l.listObject.count e ≤ l.listObject.length := count_le_length
  rw [isEmptyList_commitLRem hl]
  simp only [lremCount_eq, lremBudget, SameWalk]
  by_cases hzero : count = 0
  · simp only [hzero, if_true, ne_eq, not_true_eq_false, false_implies, implies_true, iff_true]
    omega
  · simp only [hzero, if_false, ne_eq, not_false_eq_true, true_implies]
    omega

lemma announces_ltrim (l : RedisListObject) (start stop : Int) :
    ((ltrim start stop).executeOn l).Announces isEmptyList ((ltrim start stop).commitOn l) := by
  by_cases hremaining :
      (l.normalizeLTrimRange start stop).2 - (l.normalizeLTrimRange start stop).1 + 1 ≤ 0
  · -- nothing remains, and both sides say so
    have hstate : l.executeLTrim start stop = .modifiedToEmpty := by
      simp [executeLTrim, hremaining]
    refine ⟨fun _ => ?_, fun hwrite => ?_⟩
    · simp [commitOn, commit, commitLTrim, hremaining, removes]
    · simp [executeOn, hstate] at hwrite
  · have hne : l.listObject ≠ [] := by
      intro hnil
      apply hremaining
      simp only [normalizeLTrimRange, hnil, length_nil]
      split_ifs <;> simp only <;> omega
    obtain ⟨hstart, hsize, hstop, hlt⟩ := normalizeLTrimRange_bounds hne start stop
    have hleft : ((ltrim start stop).commit l).listObject.isEmpty = false := by
      rw [isEmpty_eq_false_iff, ← length_pos_iff]
      simp only [commit, commitLTrim, hremaining, if_false, commitLPop, commitRPop,
        length_drop, length_take]
      omega
    refine ⟨fun hdelete => ?_, fun _ => ⟨(ltrim start stop).commit l, ?_, hleft⟩⟩
    · simp only [executeOn, executeLTrim, hremaining, if_false] at hdelete
      split at hdelete <;> simp [toExecResult] at hdelete
    · simp [commitOn, hleft]

/-- Execution decides on a count, the commit on a walk; they part where the two walks differ. -/
theorem announces_iff (hl : l.WellFormed) (hcmd : cmd.Admitted) :
    (cmd.executeOn l).Announces isEmptyList ((cmd.executed l).commitOn l) ↔ cmd.SameWalk l := by
  rw [commitOn_executed]
  cases cmd with
  | lrem count e => exact announces_lrem_iff hl count e
  | ltrim start stop => exact iff_of_true (announces_ltrim l start stop) trivial
  | lpop count =>
    exact iff_of_true (announces_pop l _ (isEmptyList_commitLPop l _)) trivial
  | rpop count =>
    exact iff_of_true (announces_pop l _ (isEmptyList_commitRPop l _)) trivial
  | blockPop isLeft count =>
    cases isLeft
    · exact iff_of_true (announces_pop l _ (isEmptyList_commitRPop l _)) trivial
    · exact iff_of_true (announces_pop l _ (isEmptyList_commitLPop l _)) trivial
  | lmovePop isLeft =>
    have hstate : (lmovePop isLeft).executeOn l = (l.executePop 1).toExecResult :=
      congrArg toExecResult (executeLMovePop_eq l)
    rw [hstate]
    cases isLeft
    · exact iff_of_true (announces_pop l _ (isEmptyList_commitRPop l _)) trivial
    · exact iff_of_true (announces_pop l _ (isEmptyList_commitLPop l _)) trivial
  | lpush es | lpushx es =>
    refine iff_of_true (announces_toWriteResult _ fun _ => ?_) trivial
    simpa [isEmptyList, commit, commitLPush_eq] using fun hnil => absurd hnil hcmd
  | rpush es | rpushx es =>
    refine iff_of_true (announces_toWriteResult _ fun _ => ?_) trivial
    have hne : es ≠ [] := hcmd
    simpa [isEmptyList, commit, commitRPush_eq] using fun _ => hne
  | lmovePush isLeft e =>
    refine iff_of_true (announces_toWriteResult _ fun _ => ?_) trivial
    cases isLeft <;> simp [isEmptyList, commit, commitLMovePush, commitLPush, commitRPush]
  | linsert isBefore pivot e =>
    refine iff_of_true (announces_toWriteResult _ fun _ => ?_) trivial
    simp [isEmptyList, commit, commitLInsert]
  | lset index e =>
    refine iff_of_true (announces_toWriteResult _ fun hwrite => ?_) trivial
    obtain ⟨old, hold, -⟩ := executeLSet_eq_modified hwrite
    have hne : l.listObject ≠ [] := fun hnil => by simp [hnil] at hold
    simpa [isEmptyList, commit, commitLSet] using hne

end ListCommand

end EloqKV.Lists
