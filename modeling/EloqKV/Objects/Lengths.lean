/-
  `serialized_length_` over the life of a collection.

  Each commit adds and subtracts the bytes of the elements it touches, and the serializers later
  trust the sum.  The amounts are written down here per commit, as the statements of the source
  make them.
-/
import EloqKV.Lib.Ledger
import EloqKV.Objects.RoundTrip
import EloqKV.Zset.ObjectRuns

open List Option

namespace EloqKV

open Lib.Ledger Hashes.RedisHashObject Zset

/-! ## The amounts of single commits -/

namespace Lists

open RedisListObject

/-- The elements a commit takes out, one subtraction each. -/
def subItems (elements : List Bytes) : List Charge := elements.map fun e => .sub (itemLength e)

/-- The elements a commit puts in, one addition each. -/
def addItems (elements : List Bytes) : List Charge := elements.map fun e => .add (itemLength e)

/-- The subtractions of a loop of `CommitLRem`. -/
def lremCharges (element : Bytes) : Nat → List Bytes → List Charge
  | 0, _ => []
  | _ + 1, [] => []
  | budget + 1, e :: es =>
    if e = element then .sub (itemLength e) :: lremCharges element budget es
    else lremCharges element (budget + 1) es

/-- The subtractions of `CommitLTrim`. -/
def ltrimCharges (l : RedisListObject) (start stop : Int) : List Charge :=
  let (start, stop) := l.normalizeLTrimRange start stop
  if stop - start + 1 ≤ 0 then subItems l.listObject
  else
    let size := l.listObject.length
    let keep := size - (size - (stop + 1).toNat)
    subItems (l.listObject.drop keep) ++ subItems ((l.listObject.take keep).take start.toNat)

/-- The changes of `serialized_length_` in the commit of a list command. -/
def charges (cmd : ListCommand) (l : RedisListObject) : List Charge :=
  let es := l.listObject
  match cmd with
  | .lpush elements | .rpush elements | .lpushx elements | .rpushx elements => addItems elements
  | .lpop count => subItems (es.take (ListCommand.popCount count))
  | .rpop count => subItems (es.drop (es.length - ListCommand.popCount count))
  | .blockPop isLeft count =>
    if isLeft then subItems (es.take count) else subItems (es.drop (es.length - count)).reverse
  | .lmovePop isLeft => if isLeft then subItems (es.take 1) else subItems (es.drop (es.length - 1))
  | .lmovePush _ e | .linsert _ _ e => addItems [e]
  | .lset index e => [.sub (es.getD (l.convertListIndex index).toNat []).length, .add e.length]
  | .lrem count e =>
    if 0 < count then lremCharges e (toInt32 (abs64 count)).toNat es
    else if count < 0 then lremCharges e (toInt32 (abs64 count)).toNat es.reverse
    else lremCharges e es.length es
  | .ltrim start stop => ltrimCharges l start stop

lemma settleAll_subItems (total : Nat) (elements : List Bytes) :
    settleAll total (subItems elements) = total - itemsLength elements :=
  settleAll_subs itemLength elements total

lemma settleAll_addItems (total : Nat) (elements : List Bytes) :
    settleAll total (addItems elements) = total + itemsLength elements :=
  settleAll_adds itemLength elements total

lemma lremLoop_length (element : Bytes) (budget : Nat) (es : List Bytes) (length : Nat) :
    (lremLoop element budget es length).2 = settleAll length (lremCharges element budget es) := by
  induction es generalizing budget length with
  | nil => cases budget <;> rfl
  | cons e es ih =>
    cases budget with
    | zero => rfl
    | succ budget =>
      rw [lremLoop, lremCharges]
      split
      · rw [ih, settleAll_cons, settle]
      · exact ih (budget + 1) length

lemma settleAll_charges (cmd : ListCommand) (l : RedisListObject) :
    settleAll l.serializedLength (charges cmd l) = (cmd.commit l).serializedLength := by
  cases cmd with
  | lpush es | lpushx es => simp [charges, ListCommand.commit, commitLPush_eq, settleAll_addItems]
  | rpush es | rpushx es => simp [charges, ListCommand.commit, commitRPush_eq, settleAll_addItems]
  | lpop count => simp [charges, ListCommand.commit, commitLPop, settleAll_subItems]
  | rpop count => simp [charges, ListCommand.commit, commitRPop, settleAll_subItems]
  | blockPop isLeft count =>
    cases isLeft
    · simp [charges, ListCommand.commit, commitBlockPop, commitRPop, settleAll_subItems]
    · simp [charges, ListCommand.commit, commitBlockPop, commitLPop, settleAll_subItems]
  | lmovePop isLeft =>
    cases isLeft
    · simp [charges, ListCommand.commit, commitLMovePop, commitRPop, settleAll_subItems]
    · simp [charges, ListCommand.commit, commitLMovePop, commitLPop, settleAll_subItems]
  | lmovePush isLeft e =>
    cases isLeft
    · simp [charges, ListCommand.commit, commitLMovePush, commitRPush_eq, settleAll_addItems]
    · simp [charges, ListCommand.commit, commitLMovePush, commitLPush_eq, settleAll_addItems]
  | linsert isBefore pivot e =>
    simp [charges, ListCommand.commit, commitLInsert, settleAll_addItems]
  | lset index e => rfl
  | lrem count e =>
    simp only [charges, ListCommand.commit, commitLRem]
    split_ifs <;> rw [lremLoop_length]
  | ltrim start stop =>
    simp only [charges, ListCommand.commit, commitLTrim, ltrimCharges]
    split_ifs
    · rw [settleAll_subItems]
    · rw [settleAll_append, settleAll_subItems, settleAll_subItems]
      rfl

lemma isSub_of_mem_subItems {elements : List Bytes} : ∀ c ∈ subItems elements, c.IsSub := by
  intro c hc
  obtain ⟨e, -, rfl⟩ := mem_map.mp hc
  trivial

lemma not_isSub_of_mem_addItems {elements : List Bytes} : ∀ c ∈ addItems elements, ¬c.IsSub := by
  intro c hc
  obtain ⟨e, -, rfl⟩ := mem_map.mp hc
  exact id

lemma isSub_of_mem_lremCharges (element : Bytes) (budget : Nat) (es : List Bytes) :
    ∀ c ∈ lremCharges element budget es, c.IsSub := by
  induction es generalizing budget with
  | nil => cases budget <;> exact nofun
  | cons e es ih =>
    cases budget with
    | zero => exact nofun
    | succ budget =>
      rw [lremCharges]
      split
      · intro c hc
        rcases mem_cons.mp hc with rfl | hc
        · trivial
        · exact ih budget c hc
      · exact ih (budget + 1)

lemma charges_uniform {cmd : ListCommand} (hcmd : ∀ index e, cmd ≠ .lset index e)
    (l : RedisListObject) : (∀ c ∈ charges cmd l, ¬c.IsSub) ∨ ∀ c ∈ charges cmd l, c.IsSub := by
  cases cmd with
  | lset index e => exact absurd rfl (hcmd index e)
  | lpush es | rpush es | lpushx es | rpushx es => exact .inl not_isSub_of_mem_addItems
  | lmovePush isLeft e => exact .inl not_isSub_of_mem_addItems
  | linsert isBefore pivot e => exact .inl not_isSub_of_mem_addItems
  | lpop count => exact .inr isSub_of_mem_subItems
  | rpop count => exact .inr isSub_of_mem_subItems
  | blockPop isLeft count => cases isLeft <;> exact .inr isSub_of_mem_subItems
  | lmovePop isLeft => cases isLeft <;> exact .inr isSub_of_mem_subItems
  | lrem count e =>
    right
    simp only [charges]
    split_ifs <;> exact isSub_of_mem_lremCharges e _ _
  | ltrim start stop =>
    right
    simp only [charges, ltrimCharges]
    split_ifs
    · exact isSub_of_mem_subItems
    · intro c hc
      rcases mem_append.mp hc with hc | hc
      · exact isSub_of_mem_subItems c hc
      · exact isSub_of_mem_subItems c hc

theorem bookAll_charges {cmd : ListCommand} {l : RedisListObject} (hl : l.WellFormed)
    (hcmd : cmd.Committable l) :
    bookAll l.serializedLength (charges cmd l) = some (cmd.commit l).serializedLength := by
  have hsettle := settleAll_charges cmd l
  have hpos : 0 < (cmd.commit l).serializedLength := by
    rw [ListCommand.wellFormed_commit_of_committable hl hcmd]
    omega
  rw [← hsettle] at hpos ⊢
  by_cases hset : ∀ index e, cmd ≠ .lset index e
  · rcases charges_uniform hset l with hadd | hsub
    · exact bookAll_of_no_sub hadd _
    · exact bookAll_of_subs hsub hpos
  · push Not at hset
    obtain ⟨index, e, rfl⟩ := hset
    -- the old element is part of the list, so its bytes are part of the length
    have hold := List.getElem?_eq_getElem (l := l.listObject) hcmd
    have hle := length_le_itemsLength hold
    have hroom : (l.listObject.getD (l.convertListIndex index).toNat []).length
        ≤ l.serializedLength := by
      rw [getD_eq_getElem?_getD, hold, getD_some, hl]
      omega
    simp only [charges, bookAll_cons, book, if_pos hroom, bind_some, bookAll_nil]
    rfl

end Lists

namespace Sets

open RedisHashSetObject

variable (s : RedisHashSetObject)

/-- The change of one round of `CommitSAdd`. -/
def emplaceCharge (element : Bytes) : List Charge :=
  if element ∈ s.hashSet then [] else [.add (itemLength element)]

/-- The change of one round of `CommitSRem` and `CommitSPop`. -/
def eraseCharge (element : Bytes) : List Charge :=
  if element ∈ s.hashSet then [.sub (itemLength element)] else []

/-- The changes of `serialized_length_` in the commit of a set command. -/
def charges (cmd : HashSetCommand) (s : RedisHashSetObject) : List Charge :=
  match cmd with
  | .sadd paras => along emplace emplaceCharge s paras
  | .srem paras => along erase eraseCharge s paras
  | .spop _ stringList => along erase eraseCharge s stringList

lemma settleAll_emplaceCharge (e : Bytes) :
    settleAll s.serializedLength (emplaceCharge s e) = (s.emplace e).serializedLength := by
  unfold emplaceCharge emplace
  split <;> rfl

lemma settleAll_eraseCharge (e : Bytes) :
    settleAll s.serializedLength (eraseCharge s e) = (s.erase e).serializedLength := by
  simp only [eraseCharge, erase]
  split <;> rfl

lemma bookAll_erase {s : RedisHashSetObject} (hs : s.WellFormed) (paras : List Bytes) :
    bookAll s.serializedLength (along erase eraseCharge s paras)
      = some (s.commitSRem paras).serializedLength := by
  have hsettle := settleAll_along settleAll_eraseCharge paras s
  have hsub : ∀ c ∈ along erase eraseCharge s paras, c.IsSub := by
    refine forall_along (fun s e c hc => ?_) paras s
    unfold eraseCharge at hc
    split at hc
    · obtain rfl := mem_singleton.mp hc
      trivial
    · exact absurd hc not_mem_nil
  have hpos : 0 < (s.commitSRem paras).serializedLength := by
    rw [hs.commitSRem paras]
    omega
  rw [commitSRem, ← hsettle] at hpos ⊢
  exact bookAll_of_subs hsub hpos

theorem bookAll_charges (cmd : HashSetCommand) {s : RedisHashSetObject} (hs : s.WellFormed) :
    bookAll s.serializedLength (charges cmd s) = some (cmd.commit s).serializedLength := by
  cases cmd with
  | srem paras => exact bookAll_erase hs paras
  | spop count stringList => exact bookAll_erase hs stringList
  | sadd paras =>
    have hsettle := settleAll_along settleAll_emplaceCharge paras s
    have hadd : ∀ c ∈ along emplace emplaceCharge s paras, ¬c.IsSub := by
      refine forall_along (fun s e c hc => ?_) paras s
      unfold emplaceCharge at hc
      split at hc
      · exact absurd hc not_mem_nil
      · obtain rfl := mem_singleton.mp hc
        exact id
    rw [HashSetCommand.commit, commitSAdd, ← hsettle]
    exact bookAll_of_no_sub hadd _

end Sets

namespace Hashes

open RedisHashObject

variable {F : Type} [LongDouble F]

/-- The changes of `SetField`. -/
def setFieldCharges (h : RedisHashObject) (pair : Bytes × Bytes) : List Charge :=
  match h.hashMap.lookup pair.1 with
  | none => [.add (entryLength pair.1 pair.2)]
  | some old => [.add pair.2.length, .sub old.length]

/-- The changes of `CommitHincrby` and `CommitHIncrByFloat`. -/
def counterCharges (h : RedisHashObject) (field text : Bytes) : List Charge :=
  match h.hashMap.lookup field with
  | none => [.add (4 * 2 + field.length), .add text.length]
  | some old => [.sub old.length, .add text.length]

/-- The change of one round of `CommitHdel`. -/
def delFieldCharges (h : RedisHashObject) (key : Bytes) : List Charge :=
  match h.hashMap.lookup key with
  | none => []
  | some old => [.sub (entryLength key old)]

/-- The changes of `serialized_length_` in the commit of a hash command. -/
def charges (cmd : HashCommand F) (h : RedisHashObject) : List Charge :=
  match cmd with
  | .hset pairs => along (fun h pair => h.setField pair.1 pair.2) setFieldCharges h pairs
  | .hsetnx key value => [.add (entryLength key value)]
  | .hincrby field score =>
    counterCharges h field
      (int64ToString (((h.hashMap.lookup field).bind string2ll).getD 0 + score.toInt))
  | .hincrbyfloat field incr =>
    counterCharges h field (LongDouble.ld2string (LongDouble.add
      (((h.hashMap.lookup field).bind LongDouble.string2ld).getD LongDouble.zero) incr))
  | .hdel keys => along delField delFieldCharges h keys

variable {h : RedisHashObject}

lemma length_value_le (hh : h.WellFormed) {field old : Bytes}
    (hold : h.hashMap.lookup field = some old) :
    entryLength field old ≤ h.serializedLength ∧ old.length ≤ h.serializedLength := by
  have hle := held_le hh field
  rw [held_of_some hold] at hle
  simp only [entryLength, itemLength] at hle ⊢
  exact ⟨hle, by omega⟩

lemma bookAll_setFieldCharges (hh : h.WellFormed) (pair : Bytes × Bytes) :
    bookAll h.serializedLength (setFieldCharges h pair)
      = some (h.setField pair.1 pair.2).serializedLength := by
  simp only [setFieldCharges, setField]
  cases hold : h.hashMap.lookup pair.1 with
  | none => rfl
  | some old =>
    have hle := (length_value_le hh hold).2
    simp only [bookAll_cons, book, bind_some, bookAll_nil]
    rw [if_pos (by omega)]
    rfl

lemma bookAll_counterCharges (hh : h.WellFormed) (field text : Bytes) :
    bookAll h.serializedLength (counterCharges h field text)
      = some (h.commitCounter field text).serializedLength := by
  simp only [counterCharges, commitCounter]
  cases hold : h.hashMap.lookup field with
  | none => rfl
  | some old =>
    simp [bookAll_cons, book, if_pos (length_value_le hh hold).2, bookAll_nil]

lemma bookAll_delFieldCharges (hh : h.WellFormed) (key : Bytes) :
    bookAll h.serializedLength (delFieldCharges h key) =
      some (h.delField key).serializedLength := by
  simp only [delFieldCharges, delField]
  cases hold : h.hashMap.lookup key with
  | none => rfl
  | some old =>
    simp [bookAll_cons, book, if_pos (length_value_le hh hold).1, bookAll_nil]

theorem bookAll_charges (cmd : HashCommand F) (hh : h.WellFormed) :
    bookAll h.serializedLength (charges cmd h) = some (cmd.commit h).serializedLength := by
  cases cmd with
  | hset pairs =>
    exact bookAll_along WellFormed (fun h pair hh => ⟨hh.setField pair.1 pair.2,
      bookAll_setFieldCharges hh pair⟩) pairs hh
  | hsetnx key value => rfl
  | hincrby field score => exact bookAll_counterCharges hh field _
  | hincrbyfloat field incr => exact bookAll_counterCharges hh field _
  | hdel keys =>
    exact bookAll_along WellFormed (fun h key hh => ⟨hh.delField key,
      bookAll_delFieldCharges hh key⟩) keys hh

end Hashes

namespace Zset

open Lib.OrderedSet (partitionPoint range)
open RedisZsetObject

section Charges

variable {S : Type} [LinearOrder S] (z : RedisZsetObject S)

/-- The change of `update_element`: only a new member counts. -/
def updateCharge (e : Element S) : List Charge :=
  match z.find e.2.stringView with
  | none => [.add (elementLength e.2.stringView)]
  | some _ => []

/-- The change of one round of `CommitZRem`. -/
def remCharge (element : Bytes) : List Charge :=
  match z.find element with
  | none => []
  | some _ => [.sub (elementLength element)]

def eraseCharge (n : ZNode S) : List Charge := remCharge z n.field

/-- The changes of `CommitZAdd`. -/
def zaddCharges (add : S → S → S) (host : Host) (flags : ZAddFlags) (z : RedisZsetObject S) :
    Elements S → List Charge
  | .monostate => []
  | .pair e => updateCharge z e
  | .vector es =>
    if flags.incr then along (incrElement add) updateCharge z es
    else
      let vec := match (flags.toZParams.filter : Option (Rule S)) with
        | some rule => (runFilter host z.score rule es).kept
        | none => es
      along updateElement updateCharge z vec

/-- The changes of the loop of `CommitZRemRange` over the scores. -/
def lexEraseCharges (spec : LexSpec) : Nat → Nat → RedisZsetObject S → List Charge
  | 0, _, _ => []
  | fuel + 1, lexStart, z =>
    match z.zOrderedSet[lexStart]? with
    | none => []
    | some n =>
      match lexRange spec n.score z.zOrderedSet with
      | none => []
      | some selected =>
        let erased := z.eraseNodes selected
        along eraseNode eraseCharge z selected ++
          lexEraseCharges spec fuel (nextScore n.score erased.zOrderedSet) erased

/-- The changes of `CommitZRemRange`. -/
def zremrangeCharges : ZRangeSpec S → List Charge
  | .score minex maxex start stop =>
    if stop < start then []
    else
      along eraseNode eraseCharge z
        ((range (partitionPoint (scoreBelowStart minex start) z.zOrderedSet)
          (partitionPoint (scoreBelowStop maxex stop) z.zOrderedSet) z.zOrderedSet).getD [])
  | .lexNull => []
  | .lex spec => if spec.isEmpty then [] else lexEraseCharges spec (z.zOrderedSet.length + 1) 0 z
  | .rank start stop =>
    match rankBounds start stop z.zOrderedSet.length with
    | none => []
    | some (first, last) =>
      along eraseNode eraseCharge z ((range first last z.zOrderedSet).getD [])

/-- The changes of `CommitZPop`. -/
def zpopCharges (popMax : Bool) (count : Nat) : List Charge :=
  if z.zOrderedSet.length ≤ count then [.reset (1 + 4)]
  else
    along eraseKey eraseCharge z
      (if popMax then z.zOrderedSet.reverse.take count else z.zOrderedSet.take count)

lemma settleAll_updateCharge (e : Element S) :
    settleAll z.serializedLength (updateCharge z e) = (z.updateElement e).serializedLength := by
  unfold updateCharge updateElement
  cases z.find e.2.stringView with
  | none => rfl
  | some m =>
    have hlen := serializedLength_insertNode (z.eraseEntry e.2.stringView m) e.2.stringView e.1
    exact hlen.symm

lemma settleAll_incrCharge (add : S → S → S) (z : RedisZsetObject S) (e : Element S) :
    settleAll z.serializedLength (updateCharge z e) = (z.incrElement add e).serializedLength := by
  unfold incrElement
  split
  · exact settleAll_updateCharge z e
  · rename_i m hfind
    rw [← settleAll_updateCharge]
    simp [updateCharge, hfind]

omit [LinearOrder S] in
lemma not_isSub_of_mem_updateCharge (e : Element S) : ∀ c ∈ updateCharge z e, ¬c.IsSub := by
  intro c hc
  unfold updateCharge at hc
  split at hc
  · obtain rfl := mem_singleton.mp hc
    exact id
  · exact absurd hc not_mem_nil

omit [LinearOrder S] in
lemma isSub_of_mem_remCharge (element : Bytes) : ∀ c ∈ remCharge z element, c.IsSub := by
  intro c hc
  unfold remCharge at hc
  split at hc
  · exact absurd hc not_mem_nil
  · obtain rfl := mem_singleton.mp hc
    trivial

lemma settleAll_remCharge (element : Bytes) :
    settleAll z.serializedLength (remCharge z element)
      = (z.remElement element).serializedLength := by
  unfold remCharge remElement
  cases z.find element <;> rfl

lemma settleAll_eraseKeyCharge (n : ZNode S) :
    settleAll z.serializedLength (eraseCharge z n) = (z.eraseKey n).serializedLength := by
  unfold eraseCharge remCharge eraseKey
  cases z.find n.field <;> rfl

lemma settleAll_eraseNodes (nodes : List (ZNode S)) :
    settleAll z.serializedLength (along eraseNode eraseCharge z nodes)
      = (z.eraseNodes nodes).serializedLength := by
  have hround : ∀ (z : RedisZsetObject S) n, settleAll z.serializedLength (eraseCharge z n)
      = (z.eraseNode n).serializedLength := settleAll_eraseKeyCharge
  exact settleAll_along hround nodes z

lemma isSub_of_mem_eraseNodes (nodes : List (ZNode S)) :
    ∀ c ∈ along eraseNode eraseCharge z nodes, c.IsSub :=
  forall_along (fun z n => isSub_of_mem_remCharge z n.field) nodes z

lemma lexEraseCharges_spec (spec : LexSpec) (fuel lexStart : Nat) (z : RedisZsetObject S) :
    (∀ c ∈ lexEraseCharges spec fuel lexStart z, c.IsSub) ∧
      ∀ z', lexEraseLoop spec fuel lexStart z = some z' →
        settleAll z.serializedLength (lexEraseCharges spec fuel lexStart z)
          = z'.serializedLength := by
  induction fuel generalizing lexStart z with
  | zero => exact ⟨forall_mem_nil _, fun z' h => by simp [lexEraseLoop] at h⟩
  | succ fuel ih =>
    rw [lexEraseCharges, lexEraseLoop]
    cases z.zOrderedSet[lexStart]? with
    | none =>
      refine ⟨forall_mem_nil _, fun z' h => ?_⟩
      cases h
      rfl
    | some n =>
      cases hrange : lexRange spec n.score z.zOrderedSet with
      | none => simp [hrange]
      | some selected =>
        obtain ⟨hsub, hloop⟩ := ih (nextScore n.score (z.eraseNodes selected).zOrderedSet)
          (z.eraseNodes selected)
        simp only [hrange]
        refine ⟨fun c hc => ?_, fun z' h => ?_⟩
        · rcases mem_append.mp hc with hc | hc
          · exact isSub_of_mem_eraseNodes z selected c hc
          · exact hsub c hc
        · rw [settleAll_append, settleAll_eraseNodes]
          exact hloop z' h

/-- The subtractions, one for each node erased, add up to the change of the length. -/
lemma zremrangeCharges_spec (spec : ZRangeSpec S) :
    (∀ c ∈ zremrangeCharges z spec, c.IsSub) ∧
      ∀ z' isEmpty, z.commitZRemRange spec = some (z', isEmpty) →
        settleAll z.serializedLength (zremrangeCharges z spec) = z'.serializedLength := by
  -- the ends exclude everything, and nothing is walked over
  have hnone : (∀ c ∈ ([] : List Charge), c.IsSub) ∧ ∀ z' isEmpty,
      some (z, false) = some (z', isEmpty) →
        settleAll z.serializedLength [] = z'.serializedLength := by
    refine ⟨nofun, fun z' isEmpty h => ?_⟩
    cases h
    rfl
  -- a walk between two positions, whatever they are
  have hwalk : ∀ first last, (∀ c ∈ along eraseNode eraseCharge z
        ((range first last z.zOrderedSet).getD []), c.IsSub) ∧
      ∀ z' isEmpty, (range first last z.zOrderedSet).map (fun selected =>
          (z.eraseNodes selected, (z.eraseNodes selected).zOrderedSet.isEmpty))
            = some (z', isEmpty) →
        settleAll z.serializedLength (along eraseNode eraseCharge z
          ((range first last z.zOrderedSet).getD [])) = z'.serializedLength := by
    intro first last
    refine ⟨isSub_of_mem_eraseNodes z _, fun z' isEmpty h => ?_⟩
    obtain ⟨selected, hselected, h⟩ := map_eq_some_iff.mp h
    cases h
    rw [hselected, getD_some, settleAll_eraseNodes]
  cases spec with
  | score minex maxex start stop =>
    simp only [zremrangeCharges, commitZRemRange]
    split
    · exact hnone
    · exact hwalk _ _
  | lexNull => exact ⟨hnone.1, fun z' isEmpty h => by simp [commitZRemRange] at h⟩
  | lex spec =>
    simp only [zremrangeCharges, commitZRemRange]
    split
    · exact hnone
    · obtain ⟨hsub, hloop⟩ := lexEraseCharges_spec spec (z.zOrderedSet.length + 1) 0 z
      refine ⟨hsub, fun z' isEmpty h => ?_⟩
      obtain ⟨z'', hz'', h⟩ := map_eq_some_iff.mp h
      obtain ⟨rfl, -⟩ := Prod.mk.injEq .. ▸ h
      exact hloop z'' hz''
  | rank start stop =>
    simp only [zremrangeCharges, commitZRemRange]
    cases rankBounds start stop z.zOrderedSet.length with
    | none => exact hnone
    | some bounds => exact hwalk bounds.1 bounds.2

variable {z}

lemma WellFormed.length_pos (hz : z.WellFormed) : 0 < z.serializedLength := by
  rw [hz.sized, lengthOf]
  omega

theorem bookAll_zaddCharges (add : S → S → S) (host : Host) (flags : ZAddFlags)
    (z : RedisZsetObject S) (elements : Elements S) :
    bookAll z.serializedLength (zaddCharges add host flags z elements)
      = some (z.commitZAddElements add host flags elements).serializedLength := by
  cases elements with
  | monostate => rfl
  | pair e =>
    rw [zaddCharges, bookAll_of_no_sub (not_isSub_of_mem_updateCharge z e)]
    simp only [commitZAddElements]
    split
    · rw [settleAll_incrCharge add]
    · rw [settleAll_updateCharge]
  | vector es =>
    have hadd : ∀ (step : RedisZsetObject S → Element S → RedisZsetObject S)
        (es : List (Element S)), ∀ c ∈ along step updateCharge z es, ¬c.IsSub := fun step es =>
      forall_along not_isSub_of_mem_updateCharge es z
    simp only [zaddCharges, commitZAddElements]
    split
    · rw [bookAll_of_no_sub (hadd _ es), settleAll_along (settleAll_incrCharge add)]
    · rw [bookAll_of_no_sub (hadd _ _), settleAll_along settleAll_updateCharge]
      rfl

lemma bookAll_zremCharges (hz : z.WellFormed) (elements : List Bytes) :
    bookAll z.serializedLength (along remElement remCharge z elements)
      = some (z.commitZRem elements).serializedLength := by
  have hpos := WellFormed.length_pos (hz.commitZRem elements).1
  have hsub : ∀ c ∈ along remElement remCharge z elements, c.IsSub :=
    forall_along isSub_of_mem_remCharge elements z
  rw [commitZRem, ← settleAll_along settleAll_remCharge] at hpos ⊢
  exact bookAll_of_subs hsub hpos

lemma bookAll_zremrangeCharges {z z' : RedisZsetObject S} {spec : ZRangeSpec S}
    {isEmpty : Bool} (hcommit : z.commitZRemRange spec = some (z', isEmpty)) (hz' : z'.WellFormed) :
    bookAll z.serializedLength (zremrangeCharges z spec) = some z'.serializedLength := by
  obtain ⟨hsub, hsettle⟩ := zremrangeCharges_spec z spec
  have hpos := WellFormed.length_pos hz'
  rw [← hsettle z' isEmpty hcommit] at hpos ⊢
  exact bookAll_of_subs hsub hpos

lemma bookAll_zpopCharges (hz : z.WellFormed) (popMax : Bool) (count : Nat) :
    bookAll z.serializedLength (zpopCharges z popMax count)
      = some (z.commitZPop popMax count).1.serializedLength := by
  have hpos := WellFormed.length_pos (hz.commitZPop popMax count).1
  simp only [zpopCharges, commitZPop] at hpos ⊢
  split
  · rfl
  · rename_i hcount
    rw [if_neg hcount, ← settleAll_along settleAll_eraseKeyCharge] at hpos
    rw [← settleAll_along settleAll_eraseKeyCharge]
    have hsub : ∀ z (n : ZNode S), ∀ c ∈ eraseCharge z n, c.IsSub := fun z n =>
      isSub_of_mem_remCharge z n.field
    exact bookAll_of_subs (forall_along hsub _ z) hpos

end Charges

end Zset

/-! ## Commits on objects of every type -/

namespace Objects

open EloqKV.Lists (RedisListObject ListCommand)
open Hashes (RedisHashObject HashCommand)
open Sets (RedisHashSetObject HashSetCommand)
open Zset (RedisZsetObject)

/-- A commit function with its arguments, or a change between the plain and the TTL class. -/
inductive Commit (S F : Type) where
  | list (cmd : ListCommand)
  | hash (cmd : HashCommand F)
  | set (cmd : HashSetCommand)
  | zadd (host : Zset.Host) (flags : Zset.ZAddFlags) (elements : Zset.Elements S)
  | zrem (elements : List Bytes)
  | zremrange (spec : Zset.ZRangeSpec S)
  | zpop (popMax : Bool) (count : Nat)
  | addTTL (ttl : Nat)
  | removeTTL

section Commits

variable {S F : Type} [LinearOrder S] [LongDouble F]

/-- The TTL classes of lists and sorted sets take their base as a `const &&`, which is copied; those
of the others move it.  The copy of a list is the list, that of a sorted set is built anew. -/
def Payload.toTTL : Payload S → Payload S
  | .zset z => .zset z.copy
  | payload => payload

def Payload.IsCollection : Payload S → Prop
  | .string _ => False
  | _ => True

/-- A hash commit as the source runs it: the sum of HINCRBY is one of `int64_t`. -/
def commitHash (cmd : HashCommand F) (h : RedisHashObject) : Option RedisHashObject :=
  match cmd with
  | .hincrby field score =>
    if IsInt64 (((h.hashMap.lookup field).bind string2ll).getD 0 + score.toInt) then
      some (cmd.commit h)
    else none
  | _ => some (cmd.commit h)

namespace RedisObject

variable (add : S → S → S)

/-- A commit on an object; `none` where the source runs into undefined behaviour: an element
outside the list is assigned, a signed sum overflows, a walk leaves the ordered set, or the
object is of another type. -/
def commit (obj : RedisObject S) (c : Commit S F) : Option (RedisObject S) :=
  match c, obj.payload with
  | .list cmd, .list l =>
    if cmd.Committable l then some (obj.withPayload (.list (cmd.commit l))) else none
  | .hash cmd, .hash h => (commitHash cmd h).map fun h => obj.withPayload (.hash h)
  | .set cmd, .set s => some (obj.withPayload (.set (cmd.commit s)))
  | .zadd host flags elements, .zset z =>
    some (obj.withPayload (.zset (z.commitZAddElements add host flags elements)))
  | .zrem elements, .zset z => some (obj.withPayload (.zset (z.commitZRem elements)))
  | .zremrange spec, .zset z =>
    (z.commitZRemRange spec).map fun (z, _) => obj.withPayload (.zset z)
  | .zpop popMax count, .zset z => some (obj.withPayload (.zset (z.commitZPop popMax count).1))
  | .addTTL ttl, payload => some ⟨payload.toTTL, some ttl⟩
  | .removeTTL, payload => some ⟨payload, none⟩
  | _, _ => none

/-- The changes a commit makes to `serialized_length_`. -/
def charges (obj : RedisObject S) (c : Commit S F) : List Charge :=
  match c, obj.payload with
  | .list cmd, .list l => Lists.charges cmd l
  | .hash cmd, .hash h => Hashes.charges cmd h
  | .set cmd, .set s => Sets.charges cmd s
  | .zadd host flags elements, .zset z => Zset.zaddCharges add host flags z elements
  | .zrem elements, .zset z => along RedisZsetObject.remElement Zset.remCharge z elements
  | .zremrange spec, .zset z => Zset.zremrangeCharges z spec
  | .zpop popMax count, .zset z => Zset.zpopCharges z popMax count
  | _, _ => []

/-- The commits that keep the length: LSET inside the list, HSETNX of a new field, HINCRBY
without overflow, and no score range whose ends are the same excluded score of a member. -/
def Committable (obj : RedisObject S) (c : Commit S F) : Prop :=
  match c, obj.payload with
  | .list cmd, .list l => cmd.Committable l
  | .hash cmd, .hash h => cmd.Committable h
  | .zremrange spec, .zset z => z.Walkable spec
  | .set _, .set _ | .zadd _ _ _, .zset _ | .zrem _, .zset _ | .zpop _ _, .zset _ => True
  | .addTTL _, _ | .removeTTL, _ => True
  | _, _ => False

/-- The commit as a total step, for commits that have a result. -/
def step (obj : RedisObject S) (c : Commit S F) : RedisObject S :=
  (obj.commit add c).getD obj

variable {obj : RedisObject S}

/-- The charges of a commit add up to the change of the length, and none passes below zero. -/
lemma commit_spec (hobj : obj.WellFormed) {c : Commit S F} (hc : obj.Committable c) :
    ∃ obj', obj.commit add c = some obj' ∧ obj'.WellFormed ∧
      bookAll obj.size (obj.charges add c) = some obj'.size ∧
      (obj.payload.IsCollection → obj'.payload.IsCollection) := by
  obtain ⟨payload, ttl⟩ := obj
  cases c with
  | list cmd =>
    cases payload with
    | list l =>
      exact ⟨_, if_pos hc, ListCommand.wellFormed_commit_of_committable hobj hc,
        Lists.bookAll_charges hobj hc, id⟩
    | _ => exact absurd hc id
  | hash cmd =>
    cases payload with
    | hash h =>
      have hcommit : commitHash cmd h = some (cmd.commit h) := by
        cases cmd with
        | hincrby field score => exact if_pos hc
        | _ => rfl
      exact ⟨_, congrArg (Option.map _) hcommit,
        HashCommand.wellFormed_commit_of_committable hobj hc,
        Hashes.bookAll_charges cmd hobj, id⟩
    | _ => exact absurd hc id
  | set cmd =>
    cases payload with
    | set s => exact ⟨_, rfl, HashSetCommand.wellFormed_commit cmd hobj,
        Sets.bookAll_charges cmd hobj, id⟩
    | _ => exact absurd hc id
  | zadd host flags elements =>
    cases payload with
    | zset z => exact ⟨_, rfl, hobj.commitZAddElements add host flags elements,
        bookAll_zaddCharges add host flags z elements, id⟩
    | _ => exact absurd hc id
  | zrem elements =>
    cases payload with
    | zset z => exact ⟨_, rfl, (hobj.commitZRem elements).1,
        bookAll_zremCharges hobj elements, id⟩
    | _ => exact absurd hc id
  | zremrange spec =>
    cases payload with
    | zset z =>
      obtain ⟨_, z', isEmpty, _, hcommit, hwf, _, _⟩ := hobj.commitZRemRange hc
      exact ⟨_, congrArg (Option.map _) hcommit, hwf, bookAll_zremrangeCharges hcommit hwf, id⟩
    | _ => exact absurd hc id
  | zpop popMax count =>
    cases payload with
    | zset z => exact ⟨_, rfl, (hobj.commitZPop popMax count).1,
        bookAll_zpopCharges hobj popMax count, id⟩
    | _ => exact absurd hc id
  | addTTL t =>
    refine ⟨_, rfl, ?_, ?_, ?_⟩
    · cases payload with
      | zset z => exact hobj.copy.1
      | _ => exact hobj
    · cases payload <;> rfl
    · cases payload <;> exact id
  | removeTTL => exact ⟨_, rfl, hobj, rfl, id⟩

/-! ## The length is exact -/

variable [ScoreBits S]

/-- `serialized_length_` is the number of bytes `Serialize` writes, the deadline aside. -/
def Exact (obj : RedisObject S) : Prop :=
  ∀ order, (obj.serialized order).length = obj.size + if obj.ttl.isSome then 8 else 0

/-- A commit does its work, subtracts no more than there is, and leaves an exact length. -/
def Kept (add : S → S → S) (obj : RedisObject S) (c : Commit S F) : Prop :=
  ∃ obj', obj.commit add c = some obj' ∧
    bookAll obj.size (obj.charges add c) = some obj'.size ∧ obj'.Exact

omit [LinearOrder S] in
lemma length_serialized (order : HashOrder) (obj : RedisObject S) :
    (obj.serialized order).length
      = 1 + (obj.payload.contents order).encode.length + if obj.ttl.isSome then 8 else 0 := by
  rw [serialized_eq, flatten_pieces, length_cons, length_append]
  have httl : (ttlBytes obj.ttl).length = if obj.ttl.isSome then 8 else 0 := by
    cases obj.ttl <;> rfl
  rw [httl]
  omega

lemma exact_of_wellFormed (hobj : obj.WellFormed)
    (hcoll : obj.payload.IsCollection) : obj.Exact := by
  intro order
  have hroom : obj.payload.room = obj.size := by
    unfold RedisObject.size
    revert hcoll
    cases obj.payload with
    | string value => exact fun hcoll => absurd hcoll id
    | _ => exact fun _ => rfl
  rw [length_serialized, Payload.length_contents order hobj, hroom]

lemma not_exact_hsetnx {h : RedisHashObject} (hh : h.WellFormed) {key old : Bytes}
    (hold : h.hashMap.lookup key = some old) (value : Bytes) (ttl : Option Nat) :
    ¬(⟨.hash (h.commitHSetNx key value), ttl⟩ : RedisObject S).Exact := by
  intro hexact
  -- SET of the field makes the same map, with the length that belongs to it
  have hset : (⟨.hash (h.setField key value), ttl⟩ : RedisObject S).Exact :=
    exact_of_wellFormed (hh.setField key value) trivial
  have hlength := serializedLength_setField hh key value
  rw [held_of_some hold] at hlength
  have hnx := hexact listedOrder
  have hfield := hset listedOrder
  have hsame : (⟨.hash (h.commitHSetNx key value), ttl⟩ : RedisObject S).serialized listedOrder
      = (⟨.hash (h.setField key value), ttl⟩ : RedisObject S).serialized listedOrder := rfl
  rw [hsame, hfield] at hnx
  have hsizes : (h.setField key value).serializedLength
      = h.serializedLength + Hashes.entryLength key value := Nat.add_right_cancel hnx
  have hpos : 0 < Hashes.entryLength key old := by
    rw [Hashes.entryLength, itemLength]
    omega
  omega

/-- The commits left out have no result, or HSETNX counts a field that is there twice. -/
theorem committable_iff_kept (hobj : obj.WellFormed)
    (hcoll : obj.payload.IsCollection) (c : Commit S F) : obj.Committable c ↔ obj.Kept add c := by
  constructor
  · intro hc
    obtain ⟨obj', hcommit, hwf, hbook, hcoll'⟩ := commit_spec add hobj hc
    exact ⟨obj', hcommit, hbook, exact_of_wellFormed hwf (hcoll' hcoll)⟩
  · rintro ⟨obj', hcommit, -, hexact⟩
    obtain ⟨payload, ttl⟩ := obj
    cases c with
    | list cmd =>
      cases payload with
      | list l =>
        by_contra hc
        exact absurd ((if_neg hc).symm.trans hcommit) (by simp)
      | _ => exact absurd hcommit (by simp [commit])
    | hash cmd =>
      cases payload with
      | hash h =>
        obtain ⟨h', hhash, rfl⟩ := map_eq_some_iff.mp hcommit
        cases cmd with
        | hsetnx key value =>
          cases hhash
          by_contra hc
          obtain ⟨old, hold⟩ := ne_none_iff_exists'.mp hc
          exact not_exact_hsetnx hobj hold value ttl hexact
        | hincrby field score =>
          by_contra hc
          exact absurd ((if_neg hc).symm.trans hhash) (by simp)
        | _ => trivial
      | _ => exact absurd hcommit (by simp [commit])
    | zremrange spec =>
      cases payload with
      | zset z =>
        by_contra hc
        obtain ⟨_, hsome, -⟩ := map_eq_some_iff.mp hcommit
        exact absurd ((hobj.commitZRemRange_eq_none hc).symm.trans hsome) (by simp)
      | _ => exact absurd hcommit (by simp [commit])
    | _ => cases payload <;> trivial

/-- A new collection, or one read from an image that lists nothing twice. -/
inductive Initial : RedisObject S → Prop
  | list : Initial ⟨.list .empty, none⟩
  | hash : Initial ⟨.hash .empty, none⟩
  | set : Initial ⟨.set .empty, none⟩
  | zset : Initial ⟨.zset .empty, none⟩
  | deserialized (c : Contents) (ttl : Option Nat) (pre post : Bytes) (offset : Nat)
      {obj : RedisObject S} (hfits : c.Fits) (httl : TTLFits ttl) (hdistinct : c.Distinct)
      (hcoll : obj.payload.IsCollection)
      (hread : deserializeObject (pre ++ c.image ttl ++ post) pre.length = .ok (obj, offset)) :
      Initial obj

lemma Initial.wellFormed (hobj : Initial obj) : obj.WellFormed ∧ obj.payload.IsCollection := by
  cases hobj with
  | list => exact ⟨rfl, trivial⟩
  | hash => exact ⟨wellFormed_empty, trivial⟩
  | set => exact ⟨rfl, trivial⟩
  | zset => exact ⟨RedisZsetObject.wellFormed_empty, trivial⟩
  | deserialized c ttl pre post offset hfits httl hdistinct hcoll hread =>
    refine ⟨?_, hcoll⟩
    rw [deserializeObject_image hfits httl] at hread
    cases houtcome : c.outcome (S := S) ttl with
    | ok obj' =>
      rw [houtcome] at hread
      cases hread
      exact Contents.wellFormed_of_build hdistinct (Contents.outcome_eq_ok houtcome).1
    | _ =>
      rw [houtcome] at hread
      exact absurd hread (by simp)

/-- **`serialized_length_` is exact after every run of commits**, and in every state reached a
commit is carried out, never subtracts more than the length holds and leaves an exact length exactly
if it is `Committable`. -/
theorem length_exact_over_runs (add : S → S → S) {start : RedisObject S} (hstart : Initial start)
    {commits : List (Commit S F)} {obj : RedisObject S}
    (hrun : Lib.GuardedRun (step add) (fun _ obj c => obj.Committable c) start commits obj) :
    obj.Exact ∧ ∀ c : Commit S F, obj.Committable c ↔ obj.Kept add c := by
  have hinv : obj.WellFormed ∧ obj.payload.IsCollection := by
    refine hrun.invariant (fun _ obj => obj.WellFormed ∧ obj.payload.IsCollection)
      hstart.wellFormed ?_
    intro _ obj c ⟨hobj, hcoll⟩ hc
    obtain ⟨obj', hcommit, hwf, -, hcoll'⟩ := commit_spec add hobj hc
    have hstep : step add obj c = obj' := by rw [step, hcommit, getD_some]
    rw [hstep]
    exact ⟨hwf, hcoll' hcoll⟩
  exact ⟨exact_of_wellFormed hinv.1 hinv.2, committable_iff_kept add hinv.1 hinv.2⟩

end RedisObject

end Commits

/-! ## A run, and commits that lose the length -/

namespace RedisObject

/-- A set read from an image gains members and a deadline and loses a member. -/
theorem set_run_exact :
    let read : RedisObject Double := ⟨.set ⟨[ascii "x"], by decide, 10⟩, none⟩
    let commits : List (Commit Double Int) :=
      [.set (.sadd [ascii "yy", ascii "x"]), .addTTL 9, .set (.srem [ascii "x"])]
    (commits.foldl (step fun a _ => a) read).Exact := by
  intro read commits
  have hstart : Initial read := by
    refine .deserialized (.set [ascii "x"]) none [7] [255] 11 ?_
      (fun t ht => absurd ht (by simp)) (by decide) trivial rfl
    exact Contents.fits_of_length (by decide)
  have hrun : Lib.GuardedRun (step fun a _ => a) (fun _ obj c => obj.Committable c) read commits
      (commits.foldl (step fun a _ => a) read) :=
    .step (.step (.step .init trivial) trivial) trivial
  exact (length_exact_over_runs _ hstart hrun).1

/-- From new objects: `ZREMRANGEBYSCORE k (5 (5` walks out of a set with a member of score 5, and
a second HSETNX of a field counts it twice.  From an image that lists a member twice, the length
counts it twice. -/
theorem length_lost :
    (let start : RedisObject Nat := ⟨.zset .empty, none⟩
     let add : Commit Nat Int := .zadd plainHost Zset.ZsetRecord.plainFlags
       (.pair (5, EloqString.ofView (ascii "a")))
     let range : Commit Nat Int := .zremrange (.score true true 5 5)
     (start.commit (· + ·) add).isSome = true ∧
       ((start.commit (· + ·) add).bind fun obj => obj.commit (· + ·) range).isNone = true) ∧
    (let start : RedisObject Double := ⟨.hash .empty, none⟩
     let hsetnx : Commit Double Int := .hash (.hsetnx (ascii "f") (ascii "1"))
     let obj := (start.step (fun a _ => a) hsetnx).step (fun a _ => a) hsetnx
     obj.size = 25 ∧ (obj.serialized listedOrder).length = 15) ∧
    ∃ (obj : RedisObject Double) (offset : Nat),
      deserializeObject ((Contents.set [ascii "x", ascii "x"]).image none) 0 = .ok (obj, offset) ∧
        obj.size = 15 ∧ (obj.serialized listedOrder).length = 10 := by
  refine ⟨?_, ?_, ⟨.set ⟨[ascii "x"], by decide, 15⟩, none⟩, 15, rfl, rfl, rfl⟩
  · decide +kernel
  · decide +kernel

end RedisObject

end Objects

end EloqKV
