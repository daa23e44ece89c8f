/-
  Command images and commit-only replay (`Serialize`, `Deserialize` and `CommitOn` of the
  command classes in `src/redis_command.cpp`, `CreateTxCommand` in
  `src/eloqkv_catalog_factory.cpp`).

  The owner of a key runs `ExecuteOn` and `CommitOn` of a command whose strings are views of the
  request.  A standby, or recovery from the log, makes a command that owns its strings from the
  image and runs `CommitOn` alone.  A commit clones a view and moves an owned string out of the
  command, so the two run different code.
-/
import EloqKV.Lib.Runs
import EloqKV.Objects.Serialize

open List hiding Cursor

namespace EloqKV

open EloqString

namespace EloqString

/-- `Clear`. -/
def cleared : EloqString := ofPtr []

/-- The move constructor: the new string, and what the old one is afterwards. -/
def move (s : EloqString) : EloqString × EloqString := (s, cleared)

/-- What a commit takes from a string, and what it leaves: a view is cloned, others are moved. -/
def takeOver (s : EloqString) : EloqString × EloqString :=
  if s.type = .view then (s.clone, s) else s.move

@[simp] lemma stringView_takeOver (s : EloqString) : s.takeOver.1.stringView = s.stringView := by
  unfold takeOver move
  split
  · exact stringView_clone s
  · rfl

lemma takeOver_of_view {s : EloqString} (hs : s.type = .view) : s.takeOver.2 = s := by
  rw [takeOver, if_pos hs]

end EloqString

namespace Objects

open Lib.Endian (le toSigned ofSigned)
open Lib.Reader (Cursor)
open Lib.Reader.Read
open EloqKV.Lists (RedisListObject ListCommand)
open Hashes (RedisHashObject HashCommand)
open Sets (RedisHashSetObject HashSetCommand)

/-! ## The commands -/

/-- The logged commands of lists, sets and hashes, with their strings.  SADD has the flags
`force_remove_add_` and `is_in_the_middle_stage_`, SPOP the members of its result. -/
inductive CollectionCommand where
  | lpush (elements : List EloqString)
  | rpush (elements : List EloqString)
  | linsert (isBefore : Bool) (pivot element : EloqString)
  | lset (index : Int) (element : EloqString)
  | lrem (count : Int) (element : EloqString)
  | ltrim (start stop : Int)
  | lpop (count : Option Nat)
  | rpop (count : Option Nat)
  | sadd (forceRemoveAdd isInTheMiddleStage : Bool) (vctParas : List EloqString)
  | srem (vctParas : List EloqString)
  | spop (count : Option Nat) (stringList : List EloqString)
  | hset (fieldValuePairs : List (EloqString × EloqString))
  | hsetnx (key value : EloqString)
  | hdel (delList : List EloqString)
  | hincrby (field : EloqString) (score : Int64)
  deriving DecidableEq

def texts (strings : List EloqString) : List Bytes := strings.map stringView

def pairTexts (pairs : List (EloqString × EloqString)) : List (Bytes × Bytes) :=
  pairs.map fun p => (p.1.stringView, p.2.stringView)

namespace CollectionCommand

def strings : CollectionCommand → List EloqString
  | lpush es | rpush es | sadd _ _ es | srem es | spop _ es | hdel es => es
  | linsert _ pivot e => [pivot, e]
  | lset _ e | lrem _ e | hincrby e _ => [e]
  | ltrim _ _ | lpop _ | rpop _ => []
  | hset pairs => pairs.flatMap fun p => [p.1, p.2]
  | hsetnx key value => [key, value]

/-- The same command over plain bytes. -/
def plain (S F : Type) : CollectionCommand → Command S F
  | lpush es => .list (.lpush (texts es))
  | rpush es => .list (.rpush (texts es))
  | linsert isBefore pivot e => .list (.linsert isBefore pivot.stringView e.stringView)
  | lset index e => .list (.lset index e.stringView)
  | lrem count e => .list (.lrem count e.stringView)
  | ltrim start stop => .list (.ltrim start stop)
  | lpop count => .list (.lpop count)
  | rpop count => .list (.rpop count)
  | sadd forceRemoveAdd _ es =>
    if forceRemoveAdd then .storeSet (texts es) else .hashSet (.sadd (texts es))
  | srem es => .hashSet (.srem (texts es))
  | spop count es => .hashSet (.spop count (texts es))
  | hset pairs => .hash (.hset (pairTexts pairs))
  | hsetnx key value => .hash (.hsetnx key.stringView value.stringView)
  | hdel es => .hash (.hdel (texts es))
  | hincrby field score => .hash (.hincrby field.stringView score)

end CollectionCommand

/-! ## Commits -/

/-- A commit that takes items over one by one; `put` sees each item and what was taken of it. -/
def takeEach {σ ε : Type} (take : ε → ε × ε) (put : σ → ε → ε → σ) (s : σ) (es : List ε) : σ :=
  es.foldl (fun s e => put s e (take e).1) s

lemma takeEach_eq {σ ε β : Type} {take : ε → ε × ε} {put : σ → ε → ε → σ} {val : ε → β}
    {step : σ → β → σ} (hput : ∀ s e, put s e (take e).1 = step s (val e)) (es : List ε) (s : σ) :
    takeEach take put s es = (es.map val).foldl step s := by
  simp only [takeEach, hput, foldl_map]

variable (l : RedisListObject)

/-- The body of the loop of `CommitLPush`. -/
def putFront (element stored : EloqString) : RedisListObject :=
  ⟨stored.stringView :: l.listObject, l.serializedLength + (4 + element.stringView.length)⟩

/-- The body of the loop of `CommitRPush`. -/
def putBack (element stored : EloqString) : RedisListObject :=
  ⟨l.listObject ++ [stored.stringView], l.serializedLength + (4 + element.stringView.length)⟩

/-- The body of the loop of `CommitSAdd`: `element_len` is read before the element moves. -/
def putMember (s : RedisHashSetObject) (element stored : EloqString) : RedisHashSetObject :=
  if h : stored.stringView ∈ s.hashSet then s
  else
    ⟨s.hashSet.concat stored.stringView, s.nodup.concat h,
      s.serializedLength + (4 + element.stringView.length)⟩

/-- `should_not_move_string` clones every element. -/
def takeMember (shouldNotMoveString : Bool) (s : EloqString) : EloqString × EloqString :=
  if shouldNotMoveString then (s.clone, s) else s.takeOver

variable (p : EloqString × EloqString)

/-- `SetField` decides for both strings by the kind of the field. -/
def takePair : (EloqString × EloqString) × (EloqString × EloqString) :=
  if p.1.type = .view then ((p.1.clone, p.2.clone), p)
  else ((p.1.move.1, p.2.move.1), (p.1.move.2, p.2.move.2))

/-- `SetField`: the length is settled before the strings move. -/
def putField (h : RedisHashObject) (pair stored : EloqString × EloqString) : RedisHashObject :=
  ⟨h.hashMap.insert stored.1.stringView stored.2.stringView,
    match h.hashMap.lookup pair.1.stringView with
    | none => h.serializedLength + Hashes.entryLength pair.1.stringView pair.2.stringView
    | some old => h.serializedLength + pair.2.stringView.length - old.length⟩

lemma stringView_takePair :
    (takePair p).1.1.stringView = p.1.stringView ∧
      (takePair p).1.2.stringView = p.2.stringView := by
  unfold takePair
  split
  · exact ⟨stringView_clone _, stringView_clone _⟩
  · exact ⟨rfl, rfl⟩

lemma stringView_takeMember (keep : Bool) (s : EloqString) :
    (takeMember keep s).1.stringView = s.stringView := by
  unfold takeMember
  split
  · exact stringView_clone s
  · exact stringView_takeOver s

lemma takeEach_putFront (es : List EloqString) :
    takeEach takeOver putFront l es = l.commitLPush (texts es) :=
  takeEach_eq (fun l e => by simp only [putFront, stringView_takeOver, itemLength]) es l

lemma takeEach_putBack (es : List EloqString) :
    takeEach takeOver putBack l es = l.commitRPush (texts es) :=
  takeEach_eq (fun l e => by simp only [putBack, stringView_takeOver, itemLength]) es l

lemma takeEach_putMember (keep : Bool) (s : RedisHashSetObject) (es : List EloqString) :
    takeEach (takeMember keep) putMember s es = s.commitSAdd (texts es) :=
  takeEach_eq (fun s e => by
    simp only [putMember, stringView_takeMember, RedisHashSetObject.emplace, itemLength]) es s

lemma takeEach_putField (h : RedisHashObject) (pairs : List (EloqString × EloqString)) :
    takeEach takePair putField h pairs = h.commitHSet (pairTexts pairs) :=
  takeEach_eq (fun h p => by
    rw [putField, (stringView_takePair p).1, (stringView_takePair p).2]
    rfl) pairs h

section CommitOn

variable {S F : Type} [LinearOrder S] [LongDouble F]

namespace RedisObject

/-- `empty_after_removal ? nullptr : obj_ptr` for a list. -/
def leaveList (obj : RedisObject S) (l : RedisListObject) : Option (RedisObject S) :=
  if l.listObject.isEmpty then none else some (obj.withPayload (.list l))

def leaveSet (obj : RedisObject S) (s : RedisHashSetObject) : Option (RedisObject S) :=
  if s.hashSet.isEmpty then none else some (obj.withPayload (.set s))

def leaveHash (obj : RedisObject S) (h : RedisHashObject) : Option (RedisObject S) :=
  if h.hashMap.keys.isEmpty then none else some (obj.withPayload (.hash h))

omit [LinearOrder S] in
lemma leaveList_commit (cmd : ListCommand) (hcmd : cmd.removes = true) (obj : RedisObject S)
    (l : RedisListObject) :
    obj.leaveList (cmd.commit l) = (cmd.commitOn l).map fun l => obj.withPayload (.list l) := by
  simp only [leaveList, ListCommand.commitOn, hcmd, Bool.true_and]
  split <;> rfl

omit [LinearOrder S] in
lemma leaveSet_commit (cmd : HashSetCommand) (obj : RedisObject S) (s : RedisHashSetObject) :
    obj.leaveSet (cmd.commit s) = (cmd.commitOn s).map fun s => obj.withPayload (.set s) := by
  simp only [leaveSet, HashSetCommand.commitOn]
  split <;> rfl

omit [LinearOrder S] in
lemma leaveHash_commit (keys : List Bytes) (obj : RedisObject S) (h : RedisHashObject) :
    obj.leaveHash (h.commitHDel keys) = ((HashCommand.hdel keys : HashCommand F).commitOn h).map
          fun h => obj.withPayload (.hash h) := by
  simp only [leaveHash, HashCommand.commitOn]
  split <;> rfl

end RedisObject

namespace CollectionCommand

/-- `CommitOn`: the object left, if any.  There is no result on an object of another type. -/
def commitOn (cmd : CollectionCommand) (obj : RedisObject S) : Option (Option (RedisObject S)) :=
  match cmd, obj.payload with
  | lpush es, .list l =>
    some (some (obj.withPayload (.list (takeEach takeOver putFront l es))))
  | rpush es, .list l =>
    some (some (obj.withPayload (.list (takeEach takeOver putBack l es))))
  | linsert isBefore pivot e, .list l =>
    let length := l.serializedLength + (4 + e.stringView.length)
    let pos := RedisListObject.insertPosition isBefore pivot.stringView l.listObject
    let es := l.listObject.take pos ++ e.takeOver.1.stringView :: l.listObject.drop pos
    some (some (obj.withPayload (.list ⟨es, length⟩)))
  | lset index e, .list l =>
    let pos := (l.convertListIndex index).toNat
    let length := l.serializedLength - (l.listObject.getD pos []).length + e.stringView.length
    let es := l.listObject.set pos e.takeOver.1.stringView
    some (some (obj.withPayload (.list ⟨es, length⟩)))
  | lrem count e, .list l => some (obj.leaveList (l.commitLRem count e.stringView))
  | ltrim start stop, .list l => some (obj.leaveList (l.commitLTrim start stop))
  | lpop count, .list l => some (obj.leaveList (l.commitLPop (ListCommand.popCount count)))
  | rpop count, .list l => some (obj.leaveList (l.commitRPop (ListCommand.popCount count)))
  | sadd true inMiddle es, _ =>
    if es.isEmpty then some none
    else
      let s := takeEach (takeMember inMiddle) putMember .empty es
      some ((⟨.set .empty, none⟩ : RedisObject S).leaveSet s)
  | sadd false inMiddle es, .set s =>
    some (obj.leaveSet (takeEach (takeMember inMiddle) putMember s es))
  | srem es, .set s => some (obj.leaveSet (s.commitSRem (texts es)))
  | spop _ es, .set s => some (obj.leaveSet (s.commitSRem (texts es)))
  | hset pairs, .hash h =>
    some (some (obj.withPayload (.hash (takeEach takePair putField h pairs))))
  | hsetnx key value, .hash h =>
    let length := h.serializedLength + Hashes.entryLength key.stringView value.stringView
    let stored := (takePair (key, value)).1
    let map := h.hashMap.insert stored.1.stringView stored.2.stringView
    some (some (obj.withPayload (.hash ⟨map, length⟩)))
  | hdel es, .hash h => some (obj.leaveHash (h.commitHDel (texts es)))
  | hincrby field score, .hash h =>
    let old := ((h.hashMap.lookup field.stringView).bind string2ll).getD 0
    let text := int64ToString (old + score.toInt)
    let length := match h.hashMap.lookup field.stringView with
      | none => h.serializedLength + (4 * 2 + field.stringView.length)
      | some old => h.serializedLength - old.length
    let map := h.hashMap.insert field.takeOver.1.stringView text
    some (some (obj.withPayload (.hash ⟨map, length + text.length⟩)))
  | _, _ => none

/-- The command as `CommitOn` leaves it. -/
def committed : CollectionCommand → CollectionCommand
  | lpush es => lpush (es.map fun e => e.takeOver.2)
  | rpush es => rpush (es.map fun e => e.takeOver.2)
  | linsert isBefore pivot e => linsert isBefore pivot e.takeOver.2
  | lset index e => lset index e.takeOver.2
  | sadd force inMiddle es => sadd force inMiddle (es.map fun e => (takeMember inMiddle e).2)
  | hset pairs => hset (pairs.map fun p => (takePair p).2)
  | hsetnx key value => hsetnx (takePair (key, value)).2.1 (takePair (key, value)).2.2
  | hincrby field score => hincrby field.takeOver.2 score
  | cmd => cmd

/-- The commits use the bytes of a string alone, whoever owns them. -/
theorem commitOn_refines (env : Process S) (cmd : CollectionCommand) (obj : RedisObject S) :
    cmd.commitOn obj = (cmd.plain S F).commitOn env obj := by
  obtain ⟨payload, ttl⟩ := obj
  cases cmd with
  | lpush es =>
    cases payload with
    | list l =>
      show some (some (RedisObject.withPayload _ (.list (takeEach _ _ l es)))) = _
      rw [takeEach_putFront]
      rfl
    | _ => rfl
  | rpush es =>
    cases payload with
    | list l =>
      show some (some (RedisObject.withPayload _ (.list (takeEach _ _ l es)))) = _
      rw [takeEach_putBack]
      rfl
    | _ => rfl
  | linsert isBefore pivot e =>
    cases payload with
    | list l =>
      show some (some (RedisObject.withPayload _
        (.list ⟨_ ++ e.takeOver.1.stringView :: _, _⟩))) = _
      rw [stringView_takeOver]
      rfl
    | _ => rfl
  | lset index e =>
    cases payload with
    | list l =>
      show some (some (RedisObject.withPayload _
        (.list ⟨l.listObject.set _ e.takeOver.1.stringView, _⟩))) = _
      rw [stringView_takeOver]
      rfl
    | _ => rfl
  | lrem count e =>
    cases payload with
    | list l =>
      exact congrArg some (RedisObject.leaveList_commit (.lrem count e.stringView) rfl _ l)
    | _ => rfl
  | ltrim start stop =>
    cases payload with
    | list l => exact congrArg some (RedisObject.leaveList_commit (.ltrim start stop) rfl _ l)
    | _ => rfl
  | lpop count =>
    cases payload with
    | list l => exact congrArg some (RedisObject.leaveList_commit (.lpop count) rfl _ l)
    | _ => rfl
  | rpop count =>
    cases payload with
    | list l => exact congrArg some (RedisObject.leaveList_commit (.rpop count) rfl _ l)
    | _ => rfl
  | sadd force inMiddle es =>
    cases force with
    | true =>
      show (if es.isEmpty then some none else some (RedisObject.leaveSet _
        (takeEach (takeMember inMiddle) putMember .empty es))) = _
      rw [takeEach_putMember, plain, if_pos rfl]
      show _ = some ((Sets.commitForceAdd (texts es)).map _)
      rw [Sets.commitForceAdd, texts, isEmpty_map]
      split
      · rfl
      · exact congrArg some (RedisObject.leaveSet_commit (.sadd (texts es)) _ .empty)
    | false =>
      cases payload with
      | set s =>
        show some (RedisObject.leaveSet _ (takeEach (takeMember inMiddle) putMember s es)) = _
        rw [takeEach_putMember]
        exact congrArg some (RedisObject.leaveSet_commit (.sadd (texts es)) _ s)
      | _ => rfl
  | srem es =>
    cases payload with
    | set s => exact congrArg some (RedisObject.leaveSet_commit (.srem (texts es)) _ s)
    | _ => rfl
  | spop count es =>
    cases payload with
    | set s => exact congrArg some (RedisObject.leaveSet_commit (.spop count (texts es)) _ s)
    | _ => rfl
  | hset pairs =>
    cases payload with
    | hash h =>
      show some (some (RedisObject.withPayload _ (.hash (takeEach _ _ h pairs)))) = _
      rw [takeEach_putField]
      rfl
    | _ => rfl
  | hsetnx key value =>
    cases payload with
    | hash h =>
      show some (some (RedisObject.withPayload _ (.hash ⟨h.hashMap.insert
        (takePair (key, value)).1.1.stringView (takePair (key, value)).1.2.stringView, _⟩))) = _
      rw [(stringView_takePair (key, value)).1, (stringView_takePair (key, value)).2]
      rfl
    | _ => rfl
  | hdel es =>
    cases payload with
    | hash h => exact congrArg some (RedisObject.leaveHash_commit (texts es) _ h)
    | _ => rfl
  | hincrby field score =>
    cases payload with
    | hash h =>
      show some (some (RedisObject.withPayload _ (.hash
        ⟨h.hashMap.insert field.takeOver.1.stringView _, _⟩))) = _
      rw [stringView_takeOver]
      rfl
    | _ => rfl

lemma committed_of_views {cmd : CollectionCommand}
    (hviews : ∀ s ∈ cmd.strings, s.type = .view) : cmd.committed = cmd := by
  have heach : ∀ {es : List EloqString}, (∀ s ∈ es, s.type = .view) →
      es.map (fun e => e.takeOver.2) = es := by
    intro es hes
    rw [map_congr_left fun e he => takeOver_of_view (hes e he), map_id']
  cases cmd with
  | lpush es => exact congrArg lpush (heach hviews)
  | rpush es => exact congrArg rpush (heach hviews)
  | linsert isBefore pivot e =>
    exact congrArg (linsert isBefore pivot)
      (takeOver_of_view (hviews e (by simp [strings])))
  | lset index e =>
    exact congrArg (lset index) (takeOver_of_view (hviews e (by simp [strings])))
  | sadd force inMiddle es =>
    cases inMiddle with
    | true => exact congrArg (sadd force true) (map_id' es)
    | false => exact congrArg (sadd force false) (heach hviews)
  | hset pairs =>
    have hpair : ∀ p ∈ pairs, (takePair p).2 = p := by
      intro p hp
      have hview := hviews p.1 (mem_flatMap.mpr ⟨p, hp, mem_cons_self⟩)
      rw [takePair, if_pos hview]
    show hset (pairs.map fun p => (takePair p).2) = hset pairs
    rw [map_congr_left hpair, map_id']
  | hsetnx key value =>
    have hview : key.type = .view := hviews key (by simp [strings])
    simp [committed, takePair, if_pos hview]
  | hincrby field score =>
    exact congrArg (hincrby · score)
      (takeOver_of_view (hviews field (by simp [strings])))
  | _ => rfl

end CollectionCommand

end CommitOn

/-! ## Images -/

def int64Bytes (i : Int) : Bytes := le 8 (ofSigned 64 i)

def int32Bytes (i : Int) : Bytes := le 4 (ofSigned 32 i)

def boolBytes (b : Bool) : Bytes := [if b then 1 else 0]

def doubleBytes {S : Type} [ScoreBits S] (d : S) : Bytes := le 8 (ScoreBits.toBits d).toNat

def stringsBytes (strings : List EloqString) : Bytes :=
  le 4 strings.length ++ strings.flatMap fun s => sizedBytes s.stringView

/-- A pair of HSET: both lengths, then both texts. -/
def fieldValueBytes : Bytes :=
  le 4 p.1.stringView.length ++ (le 4 p.2.stringView.length ++ (p.1.stringView ++ p.2.stringView))

/-- The field `count_`, which is `-1` if the request has no count. -/
def countField : Option Nat → Int
  | none => -1
  | some count => count

namespace CollectionCommand

/-- `RedisCommandType`. -/
def commandType : CollectionCommand → UInt8
  | linsert _ _ _ => 43
  | lpop _ => 46
  | lpush _ => 47
  | lrem _ _ => 53
  | lset _ _ => 54
  | ltrim _ _ => 55
  | rpop _ => 56
  | rpush _ => 58
  | hset _ => 62
  | hsetnx _ _ => 63
  | hincrby _ _ => 66
  | hdel _ => 73
  | sadd _ _ _ => 108
  | srem _ => 110
  | spop _ _ => 120

/-- What `Serialize` writes behind the type. -/
def body : CollectionCommand → Bytes
  | lpush es | rpush es | srem es | hdel es => stringsBytes es
  | linsert isBefore pivot e =>
    [if isBefore then 1 else 0] ++ (sizedBytes pivot.stringView ++ sizedBytes e.stringView)
  | lset index e => int64Bytes index ++ sizedBytes e.stringView
  | lrem count e => sizedBytes e.stringView ++ int64Bytes count
  | ltrim start stop => int64Bytes start ++ int64Bytes stop
  | lpop count | rpop count => int64Bytes (countField count)
  | sadd forceRemoveAdd _ es => [if forceRemoveAdd then 1 else 0] ++ stringsBytes es
  | spop count es => int64Bytes (countField count) ++ stringsBytes es
  | hset pairs => le 4 pairs.length ++ pairs.flatMap fieldValueBytes
  | hsetnx key value => sizedBytes key.stringView ++ sizedBytes value.stringView
  | hincrby field score => sizedBytes field.stringView ++ int64Bytes score.toInt

/-- `Serialize`. -/
def image (cmd : CollectionCommand) : Bytes := cmd.commandType :: cmd.body

end CollectionCommand

def readInt64 : Lib.Reader.Read Int := do
  let n ← readU64
  pure (toSigned 64 n)

def readInt32 : Lib.Reader.Read Int := do
  let n ← readU32
  pure (toSigned 32 n)

def readBool : Lib.Reader.Read Bool := do
  let b ← byte
  pure (b ≠ 0)

def readDouble (S : Type) [ScoreBits S] : Lib.Reader.Read S := do
  let bits ← readU64
  ofOption (ScoreBits.ofBits (UInt64.ofNat bits))

/-- `EloqString(ptr, len)` behind its length. -/
def readString : Lib.Reader.Read EloqString := do
  let text ← readSized
  pure (ofPtr text)

def readFieldValue : Lib.Reader.Read (EloqString × EloqString) := do
  let fieldSize ← readU32
  let valueSize ← readU32
  let field ← block fieldSize
  let value ← block valueSize
  pure (ofPtr field, ofPtr value)

/-- `count_`; the commits take it as a `size_t`. -/
def readCount : Lib.Reader.Read (Option Nat) := do
  let count ← readInt64
  pure (if count = -1 then none else some (count % 2 ^ 64).toNat)

namespace CollectionCommand

/-- `Deserialize` of the class `CreateTxCommand` makes; other commands are left out. -/
def readBody (type : UInt8) : Lib.Reader.Read CollectionCommand :=
  match type.toNat with
  | 43 => do
    let isBefore ← byte
    let pivot ← readString
    let element ← readString
    pure (linsert (isBefore ≠ 0) pivot element)
  | 46 => do
    let count ← readCount
    pure (lpop count)
  | 47 => do
    let elements ← readCounted readString
    pure (lpush elements)
  | 53 => do
    let element ← readString
    let count ← readInt64
    pure (lrem count element)
  | 54 => do
    let index ← readInt64
    let element ← readString
    pure (lset index element)
  | 55 => do
    let start ← readInt64
    let stop ← readInt64
    pure (ltrim start stop)
  | 56 => do
    let count ← readCount
    pure (rpop count)
  | 58 => do
    let elements ← readCounted readString
    pure (rpush elements)
  | 62 => do
    let pairs ← readCounted readFieldValue
    pure (hset pairs)
  | 63 => do
    let key ← readString
    let value ← readString
    pure (hsetnx key value)
  | 66 => do
    let field ← readString
    let score ← readInt64
    pure (hincrby field (Int64.ofInt score))
  | 73 => do
    let keys ← readCounted readString
    pure (hdel keys)
  | 108 => do
    let force ← byte
    let members ← readCounted readString
    pure (sadd (force = 1) false members)
  | 110 => do
    let members ← readCounted readString
    pure (srem members)
  | 120 => do
    let count ← readCount
    let members ← readCounted readString
    pure (spop count members)
  | _ => fail

def createTxCommand (cmdImage : Bytes) : Lib.Reader.Outcome CollectionCommand :=
  ((byte >>= readBody) (.at cmdImage)).1

/-! ### What fits an image -/

/-- The number of items an image counts. -/
def counted : CollectionCommand → Nat
  | lpush es | rpush es | sadd _ _ es | srem es | spop _ es | hdel es => es.length
  | hset pairs => pairs.length
  | _ => 0

/-- The fields of `int64_t`. -/
def numbers : CollectionCommand → List Int
  | lset index _ => [index]
  | lrem count _ => [count]
  | ltrim start stop => [start, stop]
  | lpop count | rpop count | spop count _ => [countField count]
  | _ => []

/-- The fields have their types: lengths and counts of `uint32_t`, numbers of `int64_t`. -/
structure Fits (cmd : CollectionCommand) : Prop where
  lengths : ∀ s ∈ cmd.strings, s.stringView.length < 2 ^ 32
  count : cmd.counted < 2 ^ 32
  numbers : ∀ n ∈ cmd.numbers, IsInt64 n

/-- The command that is made of an image: its strings own their texts. -/
def replayed : CollectionCommand → CollectionCommand
  | lpush es => lpush (es.map clone)
  | rpush es => rpush (es.map clone)
  | linsert isBefore pivot e => linsert isBefore pivot.clone e.clone
  | lset index e => lset index e.clone
  | lrem count e => lrem count e.clone
  | ltrim start stop => ltrim start stop
  | lpop count => lpop count
  | rpop count => rpop count
  | sadd forceRemoveAdd _ es => sadd forceRemoveAdd false (es.map clone)
  | srem es => srem (es.map clone)
  | spop count es => spop count (es.map clone)
  | hset pairs => hset (pairs.map fun p => (p.1.clone, p.2.clone))
  | hsetnx key value => hsetnx key.clone value.clone
  | hdel es => hdel (es.map clone)
  | hincrby field score => hincrby field.clone score

end CollectionCommand

open Lib.Reader.Read (Parses parses_byte parses_block parses_pure)

lemma parses_readInt64 {i : Int} (hi : IsInt64 i) : Parses readInt64 (int64Bytes i) i := by
  have hback : toSigned 64 (Lib.Endian.ofSigned 64 i) = i :=
    Lib.Endian.toSigned_ofSigned (by decide) hi.1 hi.2
  have hread := (parses_readU64 (Lib.Endian.ofSigned_lt 64 i)).map (toSigned 64)
  rwa [hback] at hread

lemma parses_readInt32 {i : Int} (hi : IsInt32 i) : Parses readInt32 (int32Bytes i) i := by
  have hback : toSigned 32 (Lib.Endian.ofSigned 32 i) = i :=
    Lib.Endian.toSigned_ofSigned (by decide) hi.1 hi.2
  have hread := (parses_readU32 (Lib.Endian.ofSigned_lt 32 i)).map (toSigned 32)
  rwa [hback] at hread

lemma parses_readBool (b : Bool) : Parses readBool (boolBytes b) b := by
  cases b with
  | true => exact (parses_byte 1).map fun b => decide (b ≠ 0)
  | false => exact (parses_byte 0).map fun b => decide (b ≠ 0)

lemma parses_readDouble {S : Type} [ScoreBits S] (d : S) :
    Parses (readDouble S) (doubleBytes d) d := by
  have hof : Parses (ofOption (ScoreBits.ofBits (S := S)
      (UInt64.ofNat (ScoreBits.toBits d).toNat))) [] d := by
    rw [UInt64.ofNat_toNat, ScoreBits.ofBits_toBits]
    exact parses_pure d
  have hread : Parses (readDouble S) (doubleBytes d ++ []) d :=
    (parses_readU64 (ScoreBits.toBits d).toNat_lt).bind hof
  rwa [append_nil] at hread

lemma parses_enum {α : Type} {ofByte : UInt8 → Option α} {b : UInt8} {a : α}
    (h : ofByte b = some a) : Parses (byte >>= fun b => ofOption (ofByte b)) [b] a := by
  have hof : Parses (ofOption (ofByte b)) [] a := by
    rw [h]
    exact parses_pure a
  exact (parses_byte b).bind hof

lemma parses_readString {s : EloqString} (hs : s.stringView.length < 2 ^ 32) :
    Parses readString (sizedBytes s.stringView) s.clone :=
  (parses_readSized hs).map ofPtr

lemma parses_readCount {count : Option Nat} (hcount : IsInt64 (countField count)) :
    Parses readCount (int64Bytes (countField count)) count := by
  have hread := (parses_readInt64 hcount).map
    fun count => if count = -1 then none else some (count % 2 ^ 64).toNat
  have hback : (if countField count = -1 then none
      else some (countField count % 2 ^ 64).toNat) = count := by
    cases count with
    | none => rfl
    | some n =>
      have hfield : countField (some n) = n := rfl
      have hn := hcount.2
      rw [if_neg (by omega), hfield, Int.emod_eq_of_lt (by omega) (by omega), Int.toNat_natCast]
  rwa [hback] at hread

lemma parses_readStrings {es : List EloqString} (hcount : es.length < 2 ^ 32)
    (hes : ∀ s ∈ es, s.stringView.length < 2 ^ 32) :
    Parses (readCounted readString) (stringsBytes es) (es.map clone) :=
  parses_readCounted hcount fun s hs => parses_readString (hes s hs)

lemma parses_readFieldValue {p : EloqString × EloqString}
    (h₁ : p.1.stringView.length < 2 ^ 32) (h₂ : p.2.stringView.length < 2 ^ 32) :
    Parses readFieldValue (fieldValueBytes p) (p.1.clone, p.2.clone) :=
  (parses_readU32 h₁).bind ((parses_readU32 h₂).bind ((parses_block rfl).bind
    ((parses_block rfl).map fun value => (p.1.clone, ofPtr value))))

namespace CollectionCommand

/-- Field by field the reader takes what the body of an image wrote. -/
theorem parses_readBody {cmd : CollectionCommand} (hcmd : cmd.Fits) :
    Parses (readBody cmd.commandType) cmd.body cmd.replayed := by
  obtain ⟨hlengths, hcount, hnumbers⟩ := hcmd
  cases cmd with
  | lpush es => exact (parses_readStrings hcount hlengths).map lpush
  | rpush es => exact (parses_readStrings hcount hlengths).map rpush
  | srem es => exact (parses_readStrings hcount hlengths).map srem
  | hdel es => exact (parses_readStrings hcount hlengths).map hdel
  | linsert isBefore pivot e =>
    have hpivot := parses_readString (hlengths pivot (by simp [strings]))
    have helement := parses_readString (hlengths e (by simp [strings]))
    cases isBefore with
    | true => exact (parses_byte 1).bind (hpivot.bind (helement.map (linsert true pivot.clone)))
    | false => exact (parses_byte 0).bind (hpivot.bind (helement.map (linsert false pivot.clone)))
  | lset index e =>
    have hindex := parses_readInt64 (hnumbers index (by simp [numbers]))
    have helement := parses_readString (hlengths e (by simp [strings]))
    exact hindex.bind (helement.map (lset index))
  | lrem count e =>
    have helement := parses_readString (hlengths e (by simp [strings]))
    have hcount := parses_readInt64 (hnumbers count (by simp [numbers]))
    exact helement.bind (hcount.map fun count => lrem count e.clone)
  | ltrim start stop =>
    have hstart := parses_readInt64 (hnumbers start (by simp [numbers]))
    have hstop := parses_readInt64 (hnumbers stop (by simp [numbers]))
    exact hstart.bind (hstop.map (ltrim start))
  | lpop count => exact (parses_readCount (hnumbers _ (by simp [numbers]))).map lpop
  | rpop count => exact (parses_readCount (hnumbers _ (by simp [numbers]))).map rpop
  | sadd force inMiddle es =>
    have hmembers := parses_readStrings hcount hlengths
    cases force with
    | true => exact (parses_byte 1).bind (hmembers.map (sadd true false))
    | false => exact (parses_byte 0).bind (hmembers.map (sadd false false))
  | spop count es =>
    have hpops := parses_readCount (hnumbers (countField count) (by simp [numbers]))
    exact hpops.bind ((parses_readStrings hcount hlengths).map (spop count))
  | hset pairs =>
    have hpair : ∀ p ∈ pairs, Parses readFieldValue (fieldValueBytes p) (p.1.clone, p.2.clone) := by
      intro p hp
      exact parses_readFieldValue (hlengths p.1 (mem_flatMap.mpr ⟨p, hp, by simp⟩))
        (hlengths p.2 (mem_flatMap.mpr ⟨p, hp, by simp⟩))
    exact (parses_readCounted hcount hpair).map hset
  | hsetnx key value =>
    have hkey := parses_readString (hlengths key (by simp [strings]))
    have hvalue := parses_readString (hlengths value (by simp [strings]))
    exact hkey.bind (hvalue.map (hsetnx key.clone))
  | hincrby field score =>
    have hfield := parses_readString (hlengths field (by simp [strings]))
    have hscore := (parses_readInt64 (i := score.toInt) ⟨score.le_toInt, score.toInt_lt⟩).map
      fun score => hincrby field.clone (Int64.ofInt score)
    rw [Int64.ofInt_toInt] at hscore
    exact hfield.bind hscore

lemma createTxCommand_image {cmd : CollectionCommand} (hcmd : cmd.Fits) :
    createTxCommand cmd.image = .ok cmd.replayed := by
  have hread := (parses_byte cmd.commandType).bind (parses_readBody hcmd) [] false
  rw [append_nil] at hread
  rw [createTxCommand, image, Lib.Reader.Cursor.at]
  exact congrArg Prod.fst hread

lemma owned_replayed (cmd : CollectionCommand) : ∀ s ∈ cmd.replayed.strings, s.type ≠ .view := by
  have hclone : ∀ s : EloqString, s.clone.type ≠ .view := fun s => type_ofPtr_ne_view _
  have heach : ∀ es : List EloqString, ∀ s ∈ es.map clone, s.type ≠ .view := by
    intro es s hs
    obtain ⟨s', -, rfl⟩ := mem_map.mp hs
    exact hclone s'
  cases cmd with
  | lpush es | rpush es | sadd force inMiddle es | srem es | spop count es | hdel es =>
    exact heach es
  | hset pairs =>
    intro s hs
    obtain ⟨p, hp, hs⟩ := mem_flatMap.mp hs
    obtain ⟨p', -, rfl⟩ := mem_map.mp hp
    simp only [mem_cons, not_mem_nil, or_false] at hs
    rcases hs with rfl | rfl
    · exact hclone p'.1
    · exact hclone p'.2
  | _ => simp [replayed, strings, hclone]

lemma texts_clone (es : List EloqString) : texts (es.map clone) = texts es := by
  simp [texts, Function.comp_def]

lemma texts_ofPtr (bytes : List Bytes) : texts (bytes.map ofPtr) = bytes := by
  simp [texts, Function.comp_def]

lemma plain_replayed (S F : Type) (cmd : CollectionCommand) :
    cmd.replayed.plain S F = cmd.plain S F := by
  cases cmd with
  | hset pairs => simp [replayed, plain, pairTexts, Function.comp_def]
  | _ => simp [replayed, plain, texts_clone, stringView_clone]

/-! ## Replay -/

section Replay

variable {S F : Type} [LinearOrder S] [LongDouble F] (env : Process S) (cmd : CollectionCommand)

variable (obj : RedisObject S)

/-- The command after `ExecuteOn`: LSET and LTRIM have new indexes, SPOP copies of its members. -/
def executed : CollectionCommand :=
  match cmd, obj.payload with
  | lset index e, .list l => lset (l.convertListIndex index) e
  | ltrim start stop, .list l =>
    let (start, stop) := l.normalizeLTrimRange start stop
    ltrim start stop
  | spop count _, .set s => spop count ((s.spopMembers env.setHost count).map ofPtr)
  | cmd, _ => cmd

/-- The command whose image is taken: SPOP after `ExecuteOn`, the others before. -/
def logged : CollectionCommand :=
  match cmd with
  | spop _ _ => cmd.executed env obj
  | cmd => cmd

/-- `ExecuteOn` returns `Write` or `Delete`. -/
def Writes (F : Type) [LongDouble F] (env : Process S) (cmd : CollectionCommand)
    (obj : RedisObject S) : Prop :=
  (cmd.plain S F).executeOn env obj = some .write ∨ (cmd.plain S F).executeOn env obj = some .delete

omit [LongDouble F] in
lemma plain_executed : (cmd.executed env obj).plain S F = (cmd.plain S F).executed env obj := by
  obtain ⟨payload, ttl⟩ := obj
  cases cmd with
  | sadd force inMiddle es => cases force <;> cases payload <;> rfl
  | spop count es =>
    cases payload with
    | set s =>
      exact congrArg (fun drawn => Command.hashSet (.spop count drawn)) (texts_ofPtr _)
    | _ => rfl
  | _ => cases payload <;> rfl

lemma commitOn_list_executed (cmd : ListCommand) (l : RedisListObject) (ttl : Option Nat) :
    ((Command.list cmd : Command S Int).executed env ⟨.list l, ttl⟩).commitOn env ⟨.list l, ttl⟩
      = (Command.list cmd : Command S Int).commitOn env ⟨.list l, ttl⟩ := by
  show some (((cmd.executed l).commitOn l).map _) = some ((cmd.commitOn l).map _)
  rw [ListCommand.commitOn_executed]

lemma commitOn_logged :
    (cmd.logged env obj).commitOn obj = (cmd.executed env obj).commitOn obj := by
  -- none of these commands holds a fraction, so any type of fractions will do
  rw [commitOn_refines (F := Int) env, commitOn_refines (F := Int) env]
  obtain ⟨payload, ttl⟩ := obj
  cases cmd with
  | spop count es =>
    rw [logged, plain_executed]
  | lset index e =>
    cases payload with
    | list l =>
      exact (commitOn_list_executed env (.lset index e.stringView) l ttl).symm
    | _ => rfl
  | ltrim start stop =>
    cases payload with
    | list l =>
      exact (commitOn_list_executed env (.ltrim start stop) l ttl).symm
    | _ => rfl
  | sadd force inMiddle es => cases force <;> cases payload <;> rfl
  | _ => cases payload <;> rfl

lemma commitOn_isSome {env : Process S} {cmd : CollectionCommand} {obj : RedisObject S}
    (hwrites : cmd.Writes F env obj) : ((cmd.executed env obj).commitOn obj).isSome = true := by
  obtain ⟨payload, ttl⟩ := obj
  have hfail : (cmd.plain S F).executeOn env ⟨payload, ttl⟩ ≠ some .fail := by
    rcases hwrites with h | h <;> rw [h] <;> simp
  rw [commitOn_refines (F := F) env]
  cases cmd with
  | sadd force inMiddle es =>
    cases force with
    | true => rfl
    | false => cases payload <;> first | rfl | exact absurd rfl hfail
  | _ => cases payload <;> first | rfl | exact absurd rfl hfail

/-- Exactly the replied members are gone: different members of the set, and the others are left. -/
def RemovedExactly (s : RedisHashSetObject) (replied : List Bytes)
    (after : Option (RedisObject S)) : Prop :=
  replied.Nodup ∧ (∀ m ∈ replied, m ∈ s.hashSet) ∧
    ∀ m, (∃ obj s', after = some obj ∧ obj.payload = .set s' ∧ m ∈ s'.hashSet) ↔
      m ∈ s.hashSet ∧ m ∉ replied

omit [LinearOrder S] in
lemma removedExactly_spop (s : RedisHashSetObject) (ttl count : Option Nat) :
    RemovedExactly s (s.spopMembers env.setHost count) ((⟨.set s, ttl⟩ : RedisObject S).leaveSet
        (s.commitSRem (s.spopMembers env.setHost count))) := by
  obtain ⟨hnodup, hmem⟩ := s.spopMembers_spec env.setHost count
  refine ⟨hnodup, hmem, fun m => ?_⟩
  rw [← RedisHashSetObject.mem_commitSRem, RedisObject.leaveSet]
  split
  · rename_i hempty
    rw [isEmpty_iff.mp hempty]
    simp
  · constructor
    · rintro ⟨obj, s', hobj, hpayload, hm⟩
      cases hobj
      obtain rfl := Payload.set.inj hpayload
      exact hm
    · exact fun hm => ⟨_, _, rfl, rfl, hm⟩

/-- **Commit-only replay leaves what the owner leaves.** The image (of SPOP taken after `ExecuteOn`,
of the others before) makes a command that owns its strings, and its commit alone leaves the object
that `ExecuteOn` and `CommitOn` leave. A command of views is not changed by its commit. SPOP removes
exactly the members it replies with. -/
theorem replay_leaves_the_same {cmd : CollectionCommand} {obj : RedisObject S}
    (hwrites : cmd.Writes F env obj) (hfits : (cmd.logged env obj).Fits) :
    ∃ replay after, createTxCommand (cmd.logged env obj).image = .ok replay ∧
        (∀ s ∈ replay.strings, s.type ≠ .view) ∧
        replay.commitOn obj = some after ∧
        (cmd.executed env obj).commitOn obj = some after ∧
        ((∀ s ∈ (cmd.executed env obj).strings, s.type = .view) →
          (cmd.executed env obj).committed = cmd.executed env obj) ∧
        ∀ count replied, cmd.executed env obj = spop count replied →
          ∃ s, obj.payload = .set s ∧ RemovedExactly s (texts replied) after := by
  obtain ⟨after, hafter⟩ := Option.isSome_iff_exists.mp (commitOn_isSome hwrites)
  refine ⟨_, after, createTxCommand_image hfits, owned_replayed _, ?_, hafter,
    committed_of_views, ?_⟩
  · -- over plain bytes the replayed command is the logged one
    rw [commitOn_refines (F := F) env, plain_replayed, ← commitOn_refines, commitOn_logged, hafter]
  · intro count replied hexecuted
    obtain ⟨payload, ttl⟩ := obj
    cases cmd with
    | spop count' es =>
      cases payload with
      | set s =>
        obtain ⟨rfl, rfl⟩ := CollectionCommand.spop.injEq .. ▸ hexecuted
        refine ⟨s, rfl, ?_⟩
        obtain rfl := Option.some.inj hafter
        rw [texts_ofPtr]
        exact removedExactly_spop env s ttl count'
      | _ => exact absurd hafter (by simp [executed, commitOn])
    | _ => cases payload <;> exact absurd hexecuted (by simp [executed])

end Replay

/-- `LTRIM k -2 -1`, logged with its negative indexes. -/
theorem ltrim_replay :
    let obj : RedisObject Nat :=
      ⟨.list (.commitRPush .empty [ascii "a", ascii "b", ascii "c"]), some 9⟩
    ∃ replay after, createTxCommand (ltrim (-2) (-1)).image = .ok replay ∧
      replay.commitOn obj = some after ∧
      (ltrim 1 2).commitOn obj = some after ∧
      after.map (fun obj => (obj.ttl, obj.size)) = some (some 9, 15) := by
  intro obj
  have hwrites : (ltrim (-2) (-1)).Writes Int plainProcess obj := Or.inl rfl
  have hfits : ((ltrim (-2) (-1)).logged plainProcess obj).Fits :=
    ⟨nofun, by decide, by decide⟩
  obtain ⟨replay, after, himage, -, hreplay, hafter, -⟩ :=
    replay_leaves_the_same plainProcess hwrites hfits
  refine ⟨replay, after, himage, hreplay, hafter, ?_⟩
  cases hafter
  rfl

/-! ## Followers -/

section Followers

variable {S : Type} [LinearOrder S] (F : Type) [LongDouble F] (env : Process S)

def proceedOnNonExistentObject : CollectionCommand → Bool
  | linsert _ _ _ | lset _ _ | lrem _ _ | ltrim _ _ | lpop _ | rpop _ | hdel _ => false
  | _ => true

/-- A key where it is owned, and the images of the commands that wrote to it. -/
structure OwnedKey (S : Type) where
  object : Option (RedisObject S)
  log : List Bytes

/-- The owner runs a command, and commits and logs it if it writes or deletes. -/
def OwnedKey.run (k : OwnedKey S) (cmd : CollectionCommand) : OwnedKey S :=
  let obj := (cmd.plain S F).target k.object
  if k.object.isNone && !cmd.proceedOnNonExistentObject then k
  else match (cmd.plain S F).executeOn env obj with
    | some .write | some .delete => ⟨((cmd.executed env obj).commitOn obj).getD k.object,
        k.log ++ [(cmd.logged env obj).image]⟩
    | _ => k

/-- A node that only commits what it reads from the log. -/
def follow (prior : Option (RedisObject S)) (image : Bytes) : Option (RedisObject S) :=
  match createTxCommand image with
  | .ok cmd => (cmd.commitOn ((cmd.plain S F).target prior)).getD prior
  | _ => prior

omit [LinearOrder S] [LongDouble F] in
lemma createObject_logged (cmd : CollectionCommand) (obj : RedisObject S) :
    ((cmd.logged env obj).plain S F).createObject = (cmd.plain S F).createObject := by
  cases cmd with
  | spop count es =>
    cases hp : obj.payload <;> simp [logged, executed, plain, Command.createObject, hp]
  | _ => rfl

/-- One logged command brings a follower to where its owner is. -/
lemma follow_image {cmd : CollectionCommand} {prior : Option (RedisObject S)} {obj : RedisObject S}
    (hobj : (cmd.plain S F).target prior = obj) (hfits : (cmd.logged env obj).Fits) :
    follow F prior (cmd.logged env obj).image =
      ((cmd.executed env obj).commitOn obj).getD prior := by
  have htarget : ((cmd.logged env obj).replayed.plain S F).target prior = obj := by
    rw [plain_replayed, ← hobj, Command.target, Command.target, createObject_logged]
  rw [follow, createTxCommand_image hfits]
  dsimp only
  rw [htarget, commitOn_refines (F := F) env, plain_replayed, ← commitOn_refines, commitOn_logged]

/-- **Followers**: after every sequence of commands a node that has committed the log of a key has
the object of its owner, or none where the owner has none. -/
theorem followers_have_the_object {prior : Option (RedisObject S)} {cmds : List CollectionCommand}
    {k : OwnedKey S} (hrun : Lib.GuardedRun (OwnedKey.run F env)
      (fun _ k cmd => (cmd.logged env ((cmd.plain S F).target k.object)).Fits) ⟨prior, []⟩ cmds k) :
    k.log.foldl (follow F) prior = k.object := by
  refine hrun.invariant (fun _ k => k.log.foldl (follow F) prior = k.object) rfl ?_
  intro _ k cmd hsame hfits
  have hnext := follow_image F env rfl hfits
  rw [OwnedKey.run]
  split
  · exact hsame
  split
  · simp [hsame, hnext]
  · simp [hsame, hnext]
  · exact hsame

end Followers

/-- RPUSH to a new key, LPOP from what it holds then, and LINSERT before what is left. -/
theorem rpush_followed :
    let a := EloqString.ofView (ascii "a")
    let b := EloqString.ofView (ascii "b")
    let pushed := OwnedKey.run Int plainProcess ⟨none, []⟩ (rpush [a, b])
    let popped := pushed.run Int plainProcess (lpop none)
    let k := popped.run Int plainProcess (linsert true b a)
    k.log.foldl (follow Int) none = k.object ∧ k.log.length = 3 ∧
      k.object = some ⟨.list ⟨[ascii "a", ascii "b"], 15⟩, none⟩ := by
  refine ⟨followers_have_the_object Int plainProcess (.step (.step (.step .init ?_) ?_) ?_), ?_, ?_⟩
  · exact ⟨by decide, by decide, nofun⟩
  · exact ⟨by decide, by decide, forall_mem_singleton.mpr ⟨by decide, by decide⟩⟩
  · exact ⟨by decide, by decide, nofun⟩
  · rfl
  · rfl

end CollectionCommand

end Objects

end EloqKV
