/-
  Results of commands on their way between nodes (`Serialize` and `Deserialize` of the result
  classes in `src/redis_command.cpp`, the classes in `include/redis_command.h`).

  Every class writes a byte for itself and the error code, then its own fields.  Where a field
  is a variant, a tag says which alternative follows; a nil is a length of `UINT32_MAX`.
  `RedisListResult` has no tag for its alternative `std::string` and ends in an assertion, and the
  text of a rank with its score is read with a signed length, so a result is followed from its
  constructor through the assignments the commands make.
-/
import EloqKV.Objects.Images
import EloqKV.Objects.RoundTrip

open List hiding Cursor

namespace EloqKV.Objects

open EloqString

open Lib.Endian (le)
open Lib.Reader (Read Outcome)
open Lib.Reader.Read

namespace Results

/-! ## The classes -/

/-- The variant of `RedisListResult`. -/
inductive ListValue where
  | int64s (values : List Int64)
  | strings (values : List Bytes)
  | string (value : Bytes)
  | eloqString (value : EloqString)

/-- The variant of `RedisSetScanResult`. -/
inductive SetScanValue (S : Type) where
  | plain (members : List EloqString)
  | scored (members : List (EloqString × S))

/-- The variant of `RedisZsetResult`. -/
inductive ZsetValue (S : Type) where
  | eloqString (value : EloqString)
  | double (value : S)
  | int (value : Int32)
  | eloqStrings (values : List EloqString)
  | pair (first : Int32) (second : Bytes)

/-- The variant of `RedisHashResult`. -/
inductive HashValue where
  | int64 (value : Int64)
  | string (value : Bytes)
  | strings (values : List Bytes)
  | nilables (values : List (Option Bytes))

/-- The fields of the result classes.  `Unknown` is never the type of a loaded object. -/
inductive Fields (S : Type) where
  | string (str : Bytes) (intRet : Int64) (vctInt : List (Bool × Int64))
  | int (intVal : Int64)
  | list (result : ListValue) (ret : Int64)
  | setScan (result : SetScanValue S)
  | zset (result : ZsetValue S)
  | hash (result : HashValue)
  | hashSet (stringList : List EloqString) (ret : Int32)
  | sortableLoad (objType : RedisObjectType) (elems : List Bytes)
  | sort (result : List (Option Bytes))

/-- A result: `RedisCommandResult` and the fields of its class. -/
structure RedisResult (S : Type) where
  errCode : Int32
  fields : Fields S

inductive ResultClass where
  | string
  | int
  | list
  | setScan
  | zset
  | hash
  | hashSet
  | sortableLoad
  | sort
  deriving DecidableEq, Repr

/-- `RedisResultType`. -/
def ResultClass.toByte : ResultClass → UInt8
  | string => 0
  | int => 1
  | list => 3
  | zset => 4
  | hash => 5
  | hashSet => 6
  | sortableLoad => 8
  | sort => 9
  | setScan => 10

section Classes

variable {S : Type}

def Fields.class : Fields S → ResultClass
  | string .. => .string
  | int .. => .int
  | list .. => .list
  | setScan .. => .setScan
  | zset .. => .zset
  | hash .. => .hash
  | hashSet .. => .hashSet
  | sortableLoad .. => .sortableLoad
  | sort .. => .sort

/-- The fields as constructed; the type of a loaded object, which has no initializer, is zero. -/
def Fields.fresh : ResultClass → Fields S
  | .string => .string [] 0 []
  | .int => .int 0
  | .list => .list (.int64s []) 0
  | .setScan => .setScan (.plain [])
  | .zset => .zset (.eloqString (.ofView []))
  | .hash => .hash (.int64 0)
  | .hashSet => .hashSet [] 0
  | .sortableLoad => .sortableLoad .string []
  | .sort => .sort []

/-- A new result: `err_code_` is `RD_NIL`, and `RD_OK` for a sort. -/
def RedisResult.fresh (cls : ResultClass) : RedisResult S :=
  ⟨if cls = .sort then 0 else 1, .fresh cls⟩

end Classes

/-! ## What commands store -/

/-- The assignments to results in the repository. -/
inductive Store (S : Type) where
  /-- Any command. -/
  | errCode (code : Int32)
  /-- GET, GETRANGE, INCRBYFLOAT, TYPE and others. -/
  | str (text : Bytes)
  /-- STRLEN, GETBIT, SETBIT, SETRANGE, APPEND, BITCOUNT, BITPOS and others. -/
  | intRet (n : Int64)
  /-- BITFIELD; a nil is an overflow with FAIL. -/
  | vctInt (values : List (Bool × Int64))
  /-- INCR, DECR, EXISTS, DEL, TTL, MEMORY USAGE and others. -/
  | intVal (n : Int64)
  /-- The commands on lists. -/
  | listRet (n : Int64)
  /-- LRANGE, LPOP, RPOP, LINDEX and the blocking pops. -/
  | listElements (elements : List Bytes)
  /-- LPOS. -/
  | listPositions (positions : List Int64)
  /-- Both halves of LMOVE. -/
  | listElement (element : EloqString)
  /-- The scan for unions, intersections and differences. -/
  | scanned (members : List EloqString)
  | scannedScores (members : List (EloqString × S))
  /-- ZADD, ZREM, ZREMRANGE, ZCARD, ZCOUNT, ZLEXCOUNT, ZRANK. -/
  | zsetInt (n : Int32)
  /-- ZSCORE, and ZADD with INCR. -/
  | zsetString (text : EloqString)
  /-- ZRANGE, ZSCAN, ZPOPMIN, ZPOPMAX, ZRANDMEMBER, ZMSCORE. -/
  | zsetStrings (texts : List EloqString)
  /-- ZRANK with WITHSCORE. -/
  | zsetRank (rank : Int32) (score : S)
  /-- HSET, HDEL, HLEN, HSTRLEN, HINCRBY and others. -/
  | hashInt (n : Int64)
  /-- HGET, HINCRBYFLOAT. -/
  | hashString (text : Bytes)
  /-- HGETALL, HKEYS, HVALS, HRANDFIELD, HSCAN. -/
  | hashStrings (texts : List Bytes)
  /-- HMGET. -/
  | hashNilables (texts : List (Option Bytes))
  /-- The commands on sets. -/
  | setRet (n : Int32)
  /-- SMEMBERS, SRANDMEMBER, SPOP, SSCAN. -/
  | setMembers (members : List EloqString)
  /-- The load of SORT, from a list, a set or a sorted set. -/
  | loaded (objType : RedisObjectType) (elems : List Bytes)
  /-- SORT. -/
  | sorted (texts : List (Option Bytes))

section Stores

variable {S : Type} [ScoreTexts S]

def Fields.store : Fields S → Store S → Fields S
  | .string _ intRet vctInt, .str text => .string text intRet vctInt
  | .string str _ vctInt, .intRet n => .string str n vctInt
  | .string str intRet _, .vctInt values => .string str intRet values
  | .int _, .intVal n => .int n
  | .list result _, .listRet n => .list result n
  | .list _ ret, .listElements elements => .list (.strings elements) ret
  | .list _ ret, .listPositions positions => .list (.int64s positions) ret
  | .list _ ret, .listElement element => .list (.eloqString element) ret
  | .setScan _, .scanned members => .setScan (.plain members)
  | .setScan _, .scannedScores members => .setScan (.scored members)
  | .zset _, .zsetInt n => .zset (.int n)
  | .zset _, .zsetString text => .zset (.eloqString text)
  | .zset _, .zsetStrings texts => .zset (.eloqStrings texts)
  | .zset _, .zsetRank rank score => .zset (.pair rank (ScoreTexts.d2string score))
  | .hash _, .hashInt n => .hash (.int64 n)
  | .hash _, .hashString text => .hash (.string text)
  | .hash _, .hashStrings texts => .hash (.strings texts)
  | .hash _, .hashNilables texts => .hash (.nilables texts)
  | .hashSet stringList _, .setRet n => .hashSet stringList n
  | .hashSet _ ret, .setMembers members => .hashSet members ret
  | .sortableLoad _ _, .loaded objType elems => .sortableLoad objType elems
  | .sort _, .sorted texts => .sort texts
  | fields, _ => fields

def RedisResult.store (r : RedisResult S) : Store S → RedisResult S
  | .errCode code => { r with errCode := code }
  | s => { r with fields := r.fields.store s }

/-- What a command leaves in a new result. -/
def Produced (r : RedisResult S) : Prop :=
  ∃ (cls : ResultClass) (stores : List (Store S)), r = stores.foldl RedisResult.store (.fresh cls)

end Stores

/-! ## Serialize

Where an assertion fails there are no bytes. -/

def i64Bytes (n : Int64) : Bytes := int64Bytes n.toInt

def i32Bytes (n : Int32) : Bytes := int32Bytes n.toInt

def countedBytes {α : Type} (item : α → Bytes) (items : List α) : Bytes :=
  le 4 items.length ++ items.flatMap item

/-- An entry of `vct_int_`; the byte says that it is nil. -/
def bitBytes (p : Bool × Int64) : Bytes := [if p.1 then 0 else 1] ++ i64Bytes p.2

/-- `UINT32_MAX`, the length of a nil. -/
def nilLength : Nat := 2 ^ 32 - 1

def nilableBytes : Option Bytes → Option Bytes
  | none => some (le 4 nilLength)
  | some text => if text.length % 2 ^ 32 < nilLength then some (sizedBytes text) else none

def nilablesBytes (items : List (Option Bytes)) : Option Bytes :=
  (items.mapM nilableBytes).map fun blocks => le 4 items.length ++ blocks.flatten

/-- A string that may be a view. -/
def eloqBytes (s : EloqString) : Bytes := sizedBytes s.stringView

/-- `ResultType` and the alternative. -/
def ListValue.bytes : ListValue → Option Bytes
  | .int64s values => some ([5] ++ countedBytes i64Bytes values)
  | .strings values => some ([4] ++ countedBytes sizedBytes values)
  | .eloqString value => some ([8] ++ eloqBytes value)
  | .string _ => none

/-- `ResultType` and the alternative. -/
def HashValue.bytes : HashValue → Option Bytes
  | .int64 value => some ([3] ++ i64Bytes value)
  | .string value => some ([0] ++ sizedBytes value)
  | .strings values => some ([4] ++ countedBytes sizedBytes values)
  | .nilables values => (nilablesBytes values).map ([6] ++ ·)

section Serialize

variable {S : Type} [ScoreBits S]

def scoredBytes (p : EloqString × S) : Bytes := eloqBytes p.1 ++ doubleBytes p.2

/-- `ResultType` and the alternative. -/
def SetScanValue.bytes : SetScanValue S → Bytes
  | .plain members => [4] ++ countedBytes eloqBytes members
  | .scored members => [7] ++ countedBytes scoredBytes members

/-- `ResultType` and the alternative. -/
def ZsetValue.bytes : ZsetValue S → Bytes
  | .int value => [2] ++ i32Bytes value
  | .double value => [1] ++ doubleBytes value
  | .eloqString value => [0] ++ eloqBytes value
  | .eloqStrings values => [4] ++ countedBytes eloqBytes values
  | .pair first second => [9] ++ (i32Bytes first ++ sizedBytes second)

def Fields.bytes : Fields S → Option Bytes
  | .string str intRet vctInt =>
    some (i64Bytes intRet ++ (sizedBytes str ++ countedBytes bitBytes vctInt))
  | .int intVal => some (i64Bytes intVal)
  | .list result ret => result.bytes.map (i64Bytes ret ++ ·)
  | .setScan result => some result.bytes
  | .zset result => some result.bytes
  | .hash result => result.bytes
  | .hashSet stringList ret => some (i32Bytes ret ++ countedBytes eloqBytes stringList)
  | .sortableLoad objType elems => some ([objType.toByte] ++ countedBytes sizedBytes elems)
  | .sort result => nilablesBytes result

def RedisResult.serialize (r : RedisResult S) : Option Bytes :=
  r.fields.bytes.map fun bytes => [r.fields.class.toByte] ++ (i32Bytes r.errCode ++ bytes)

end Serialize

/-! ## Deserialize

A branch with an assertion is a fault. -/

def readI64 : Read Int64 := do
  let n ← readInt64
  pure (Int64.ofInt n)

def readI32 : Read Int32 := do
  let n ← readInt32
  pure (Int32.ofInt n)

/-- An entry of `vct_int_`. -/
def readBit : Read (Bool × Int64) := do
  let nil ← byte
  let n ← readI64
  pure (nil ≠ 1, n)

def readNilable : Read (Option Bytes) := do
  let size ← readU32
  if size ≠ nilLength then do
    let text ← block size
    pure (some text)
  else pure none

/-- The text of a pair: its length is an `int32_t`, and a negative one throws. -/
def readSignedText : Read Bytes := do
  let sz ← readInt32
  if 0 ≤ sz then block sz.toNat else fail

def readListValue : Read ListValue := do
  let type ← byte
  match type.toNat with
  | 5 => do
    let values ← readCounted readI64
    pure (.int64s values)
  | 4 => do
    let values ← readCounted readSized
    pure (.strings values)
  | 8 => do
    let value ← readString
    pure (.eloqString value)
  | _ => fault

def readHashValue : Read HashValue := do
  let type ← byte
  match type.toNat with
  | 3 => do
    let value ← readI64
    pure (.int64 value)
  | 0 => do
    let value ← readSized
    pure (.string value)
  | 4 => do
    let values ← readCounted readSized
    pure (.strings values)
  | 6 => do
    let values ← readCounted readNilable
    pure (.nilables values)
  | _ => fault

section Deserialize

variable {S : Type} [ScoreBits S]

def readScoredString : Read (EloqString × S) := do
  let field ← readString
  let score ← readDouble S
  pure (field, score)

def readSetScanValue : Read (SetScanValue S) := do
  let type ← byte
  match type.toNat with
  | 4 => do
    let members ← readCounted readString
    pure (.plain members)
  | 7 => do
    let members ← readCounted readScoredString
    pure (.scored members)
  | _ => fault

def readZsetValue : Read (ZsetValue S) := do
  let type ← byte
  match type.toNat with
  | 2 => do
    let value ← readI32
    pure (.int value)
  | 1 => do
    let value ← readDouble S
    pure (.double value)
  | 0 => do
    let value ← readString
    pure (.eloqString value)
  | 4 => do
    let values ← readCounted readString
    pure (.eloqStrings values)
  | 9 => do
    let first ← readI32
    let second ← readSignedText
    pure (.pair first second)
  | _ => fault

def readFields : ResultClass → Read (Fields S)
  | .string => do
    let intRet ← readI64
    let str ← readSized
    let vctInt ← readCounted readBit
    pure (.string str intRet vctInt)
  | .int => do
    let intVal ← readI64
    pure (.int intVal)
  | .list => do
    let ret ← readI64
    let result ← readListValue
    pure (.list result ret)
  | .setScan => do
    let result ← readSetScanValue
    pure (.setScan result)
  | .zset => do
    let result ← readZsetValue
    pure (.zset result)
  | .hash => do
    let result ← readHashValue
    pure (.hash result)
  | .hashSet => do
    let ret ← readI32
    let stringList ← readCounted readString
    pure (.hashSet stringList ret)
  | .sortableLoad => do
    let objType ← byte >>= fun b => ofOption (RedisObjectType.ofByte b)
    let elems ← readCounted readSized
    pure (.sortableLoad objType elems)
  | .sort => do
    let result ← readCounted readNilable
    pure (.sort result)

/-- `Deserialize` of a new result; the byte of the class is skipped. -/
def readResult (cls : ResultClass) : Read (RedisResult S) := do
  let _ ← byte
  let errCode ← readI32
  let fields ← readFields cls
  pure ⟨errCode, fields⟩

/-- `Deserialize(buf, offset)`: the result and the offset afterwards. -/
def deserialize (cls : ResultClass) (buf : Bytes) (offset : Nat) : Outcome (RedisResult S × Nat) :=
  match readResult (S := S) cls (.at (buf.drop offset)) with
  | (.ok r, c) => .ok (r, buf.length - c.rest.length)
  | (.fail, _) => .fail
  | (.fault, _) => .fault

end Deserialize

/-! ## Values that go through -/

section Values

variable {S : Type}

/-! ### Equal values

Strings are equal if their texts are, however they are stored. -/

def ListValue.owned : ListValue → ListValue
  | .eloqString value => .eloqString value.clone
  | value => value

def SetScanValue.owned : SetScanValue S → SetScanValue S
  | .plain members => .plain (members.map clone)
  | .scored members => .scored (members.map fun p => (p.1.clone, p.2))

def ZsetValue.owned : ZsetValue S → ZsetValue S
  | .eloqString value => .eloqString value.clone
  | .eloqStrings values => .eloqStrings (values.map clone)
  | value => value

def Fields.owned : Fields S → Fields S
  | .list result ret => .list result.owned ret
  | .setScan result => .setScan result.owned
  | .zset result => .zset result.owned
  | .hashSet stringList ret => .hashSet (stringList.map clone) ret
  | fields => fields

/-- The result with strings of its own. -/
def RedisResult.owned (r : RedisResult S) : RedisResult S := ⟨r.errCode, r.fields.owned⟩

/-- Two results with the same values: a clone depends on the text alone. -/
def RedisResult.Equal (r r' : RedisResult S) : Prop := r.owned = r'.owned

lemma clone_clone (s : EloqString) : s.clone.clone = s.clone :=
  congrArg ofPtr (stringView_clone s)

lemma map_clone_clone (strings : List EloqString) :
    (strings.map clone).map clone = strings.map clone := by
  rw [map_map]
  exact map_congr_left fun s _ => clone_clone s

lemma Fields.owned_owned (fields : Fields S) : fields.owned.owned = fields.owned := by
  cases fields with
  | list result ret =>
    cases result with
    | eloqString value => exact congrArg (fun s => list (.eloqString s) ret) (clone_clone value)
    | int64s _ | strings _ | string _ => rfl
  | setScan result =>
    cases result with
    | plain members => exact congrArg (fun l => setScan (.plain l)) (map_clone_clone members)
    | scored members =>
      refine congrArg (fun l => setScan (.scored l)) ?_
      rw [map_map]
      exact map_congr_left fun p _ => congrArg (·, p.2) (clone_clone p.1)
  | zset result =>
    cases result with
    | eloqString value => exact congrArg (fun s => zset (.eloqString s)) (clone_clone value)
    | eloqStrings values => exact congrArg (fun l => zset (.eloqStrings l)) (map_clone_clone values)
    | double _ | int _ | pair _ _ => rfl
  | hashSet stringList ret => exact congrArg (hashSet · ret) (map_clone_clone stringList)
  | string _ _ _ | int _ | hash _ | sortableLoad _ _ | sort _ => rfl

lemma RedisResult.equal_owned (r : RedisResult S) : r.owned.Equal r :=
  congrArg (RedisResult.mk r.errCode) r.fields.owned_owned

/-! ### Sizes -/

/-- The number of texts and their lengths. -/
def textsSizes (texts : List Bytes) : List Nat := texts.length :: texts.map List.length

def nilablesSizes (texts : List (Option Bytes)) : List Nat :=
  texts.length :: texts.filterMap fun text => text.map List.length

def stringsSizes (strings : List EloqString) : List Nat :=
  textsSizes (strings.map stringView)

def ListValue.sizes : ListValue → List Nat
  | .int64s values => [values.length]
  | .strings values => textsSizes values
  | .string value => [value.length]
  | .eloqString value => [value.stringView.length]

def SetScanValue.sizes : SetScanValue S → List Nat
  | .plain members => stringsSizes members
  | .scored members => stringsSizes (members.map Prod.fst)

def ZsetValue.sizes : ZsetValue S → List Nat
  | .eloqString value => [value.stringView.length]
  | .eloqStrings values => stringsSizes values
  | .pair _ second => [second.length]
  | .double _ | .int _ => []

def HashValue.sizes : HashValue → List Nat
  | .int64 _ => []
  | .string value => [value.length]
  | .strings values => textsSizes values
  | .nilables values => nilablesSizes values

/-- All counts and lengths in a result. -/
def Fields.sizes : Fields S → List Nat
  | .string str _ vctInt => [str.length, vctInt.length]
  | .int _ => []
  | .list result _ => result.sizes
  | .setScan result => result.sizes
  | .zset result => result.sizes
  | .hash result => result.sizes
  | .hashSet stringList _ => stringsSizes stringList
  | .sortableLoad _ elems => textsSizes elems
  | .sort result => nilablesSizes result

/-- Sizes below the one that stands for nil. -/
def Within (sizes : List Nat) : Prop := ∀ n ∈ sizes, n < nilLength

/-! ### The alternatives that are stored -/

/-- A list result holds no `std::string`, and the text of a pair is as short as an `int32_t` says.
-/
def Fields.Sendable : Fields S → Prop
  | .list (.string _) _ => False
  | .zset (.pair _ second) => second.length < 2 ^ 31
  | _ => True

lemma Fields.sendable_fresh (cls : ResultClass) : (Fields.fresh cls : Fields S).Sendable := by
  cases cls <;> exact trivial

lemma Fields.Sendable.store [ScoreTexts S] {fields : Fields S} (h : fields.Sendable)
    (s : Store S) : (fields.store s).Sendable := by
  unfold Fields.store
  split
  case h_5 result ret n =>
    cases result with
    | string _ => exact h.elim
    | int64s _ | strings _ | eloqString _ => exact trivial
  case h_14 _ rank score =>
    exact Nat.lt_of_le_of_lt (ScoreTexts.length_d2string_le score) (by decide)
  all_goals first | exact trivial | exact h

lemma Produced.sendable [ScoreTexts S] {r : RedisResult S} (h : Produced r) :
    r.fields.Sendable := by
  obtain ⟨cls, stores, rfl⟩ := h
  have hfresh : (RedisResult.fresh cls : RedisResult S).fields.Sendable := Fields.sendable_fresh cls
  refine List.foldlRecOn (motive := fun r => r.fields.Sendable) stores RedisResult.store hfresh ?_
  intro r hr s _
  cases s with
  | errCode code => exact hr
  | _ => exact hr.store _

end Values

/-! ## The round trip -/

section RoundTrip

open Lib.Reader.Read (Parses parses_byte parses_block parses_pure)

/-- There are bytes, and they are read as the value. -/
def Carried {α : Type} (bytes : Option Bytes) (x : Read α) (a : α) : Prop :=
  ∃ b, bytes = some b ∧ Parses x b a

lemma parses_readI64 (n : Int64) : Parses readI64 (i64Bytes n) n := by
  have hread := (parses_readInt64 (isInt64_toInt n)).map Int64.ofInt
  rwa [Int64.ofInt_toInt] at hread

lemma parses_readI32 (n : Int32) : Parses readI32 (i32Bytes n) n := by
  have hread := (parses_readInt32 ⟨n.le_toInt, n.toInt_lt⟩).map Int32.ofInt
  rwa [Int32.ofInt_toInt] at hread

lemma parses_readBit (p : Bool × Int64) : Parses readBit (bitBytes p) p := by
  obtain ⟨notNil, n⟩ := p
  cases notNil with
  | true => exact (parses_byte 0).bind ((parses_readI64 n).map fun n => (true, n))
  | false => exact (parses_byte 1).bind ((parses_readI64 n).map fun n => (false, n))

lemma parses_countedBytes {α : Type} {item : Read α} {enc : α → Bytes} {items : List α}
    (hcount : items.length < 2 ^ 32) (hitem : ∀ i ∈ items, Parses item (enc i) i) :
    Parses (readCounted item) (countedBytes enc items) items := by
  have hread := parses_readCounted hcount hitem
  rwa [map_id'] at hread

/-! ### Bounds -/

lemma nilLength_lt : nilLength < 2 ^ 32 := by decide

lemma Within.lt {sizes : List Nat} (h : Within sizes) {n : Nat} (hn : n ∈ sizes) : n < 2 ^ 32 :=
  Nat.lt_trans (h n hn) nilLength_lt

lemma Within.count {n : Nat} {sizes : List Nat} (h : Within (n :: sizes)) : n < 2 ^ 32 :=
  h.lt mem_cons_self

lemma Within.text {texts : List Bytes} (h : Within (textsSizes texts)) :
    ∀ text ∈ texts, text.length < 2 ^ 32 := fun _ htext =>
  h.lt (mem_cons_of_mem _ (mem_map_of_mem htext))

variable {strings : List EloqString}

lemma Within.string (h : Within (stringsSizes strings)) :
    ∀ s ∈ strings, s.stringView.length < 2 ^ 32 := fun _ hs =>
  h.text _ (mem_map_of_mem hs)

lemma Within.strings_count (h : Within (stringsSizes strings)) : strings.length < 2 ^ 32 := by
  have hcount := Within.count h
  rwa [length_map] at hcount

/-! ### Texts -/

lemma Within.parses_texts {texts : List Bytes} (h : Within (textsSizes texts)) :
    Parses (readCounted readSized) (countedBytes sizedBytes texts) texts :=
  parses_countedBytes h.count fun text htext => parses_readSized (h.text text htext)

lemma Within.parses_strings (h : Within (stringsSizes strings)) :
    Parses (readCounted readString) (countedBytes eloqBytes strings)
      (strings.map clone) :=
  parses_readCounted h.strings_count fun s hs => parses_readString (h.string s hs)

/-- The bytes of an entry whose length is not the one of a nil. -/
def entryBytes : Option Bytes → Bytes
  | none => le 4 nilLength
  | some text => sizedBytes text

lemma nilableBytes_of_lt {entry : Option Bytes} (h : ∀ text ∈ entry, text.length < nilLength) :
    nilableBytes entry = some (entryBytes entry) := by
  cases entry with
  | none => rfl
  | some text =>
    have htext := h text rfl
    rw [nilableBytes, Nat.mod_eq_of_lt (Nat.lt_trans htext nilLength_lt), if_pos htext]
    rfl

lemma parses_readNilable {entry : Option Bytes} (h : ∀ text ∈ entry, text.length < nilLength) :
    Parses readNilable (entryBytes entry) entry := by
  cases entry with
  | none =>
    have hbody : Parses (if nilLength ≠ nilLength then
        (do let text ← block nilLength; pure (some text)) else pure none : Read (Option Bytes))
        [] none := by
      rw [if_neg (not_not.mpr rfl)]
      exact parses_pure none
    have hread : Parses readNilable (le 4 nilLength ++ []) none :=
      (parses_readU32 nilLength_lt).bind hbody
    rwa [append_nil] at hread
  | some text =>
    have htext := h text rfl
    have hbody : Parses (if text.length ≠ nilLength then
        (do let text ← block text.length; pure (some text)) else pure none : Read (Option Bytes))
        text (some text) := by
      rw [if_pos (Nat.ne_of_lt htext)]
      exact (parses_block rfl).map some
    exact (parses_readU32 (Nat.lt_trans htext nilLength_lt)).bind hbody

lemma mapM_nilableBytes {entries : List (Option Bytes)}
    (h : ∀ entry ∈ entries, ∀ text ∈ entry, text.length < nilLength) :
    entries.mapM nilableBytes = some (entries.map entryBytes) := by
  induction entries with
  | nil => rfl
  | cons entry rest ih =>
    rw [forall_mem_cons] at h
    rw [mapM_cons, nilableBytes_of_lt h.1, ih h.2]
    rfl

lemma Within.carried_nilables {entries : List (Option Bytes)}
    (h : Within (nilablesSizes entries)) :
    Carried (nilablesBytes entries) (readCounted readNilable) entries := by
  have hentries : ∀ entry ∈ entries, ∀ text ∈ entry, text.length < nilLength := by
    intro entry hentry text htext
    refine h _ (mem_cons_of_mem _ (mem_filterMap.mpr ⟨entry, hentry, ?_⟩))
    rw [Option.mem_def.mp htext]
    rfl
  refine ⟨countedBytes entryBytes entries, ?_, ?_⟩
  · rw [nilablesBytes, mapM_nilableBytes hentries]
    rfl
  · exact parses_countedBytes h.count fun entry hentry => parses_readNilable (hentries entry hentry)

lemma parses_readSignedText {text : Bytes} (h : text.length < 2 ^ 31) :
    Parses readSignedText (sizedBytes text) text := by
  have hle : le 4 text.length = int32Bytes text.length := by
    rw [int32Bytes, Lib.Endian.ofSigned, Int.emod_eq_of_lt (by omega) (by omega), Int.toNat_natCast]
  have hsz : Parses readInt32 (le 4 text.length) (text.length : Int) := by
    rw [hle]
    exact parses_readInt32 ⟨by omega, by omega⟩
  have hbody : Parses (if (0 : Int) ≤ text.length then block (text.length : Int).toNat else fail)
      text text := by
    exact parses_block rfl
  exact hsz.bind hbody

/-! ### Variants -/

lemma ListValue.carried {value : ListValue} (hvalue : ∀ text, value ≠ .string text)
    (h : Within value.sizes) : Carried value.bytes readListValue value.owned := by
  cases value with
  | int64s values =>
    exact ⟨_, rfl, (parses_byte 5).bind ((parses_countedBytes h.count
      fun n _ => parses_readI64 n).map ListValue.int64s)⟩
  | strings values => exact ⟨_, rfl, (parses_byte 4).bind (h.parses_texts.map ListValue.strings)⟩
  | string text => exact absurd rfl (hvalue text)
  | eloqString value =>
    exact ⟨_, rfl, (parses_byte 8).bind ((parses_readString h.count).map ListValue.eloqString)⟩

lemma HashValue.carried {value : HashValue} (h : Within value.sizes) :
    Carried value.bytes readHashValue value := by
  cases value with
  | int64 value => exact ⟨_, rfl, (parses_byte 3).bind ((parses_readI64 value).map HashValue.int64)⟩
  | string value =>
    exact ⟨_, rfl, (parses_byte 0).bind ((parses_readSized h.count).map HashValue.string)⟩
  | strings values => exact ⟨_, rfl, (parses_byte 4).bind (h.parses_texts.map HashValue.strings)⟩
  | nilables values =>
    obtain ⟨b, hb, hread⟩ := Within.carried_nilables h
    refine ⟨[6] ++ b, ?_, (parses_byte 6).bind (hread.map HashValue.nilables)⟩
    rw [bytes, hb]
    rfl

variable {S : Type} [ScoreBits S]

lemma SetScanValue.parses {value : SetScanValue S} (h : Within value.sizes) :
    Parses readSetScanValue value.bytes value.owned := by
  cases value with
  | plain members => exact (parses_byte 4).bind (h.parses_strings.map SetScanValue.plain)
  | scored members =>
    have hcount : members.length < 2 ^ 32 := by
      have hlength := Within.strings_count h
      rwa [length_map] at hlength
    have hmember : ∀ p ∈ members, Parses readScoredString (scoredBytes p) (p.1.clone, p.2) := by
      intro p hp
      exact (parses_readString (Within.string h p.1 (mem_map_of_mem hp))).bind
        ((parses_readDouble p.2).map fun score => (p.1.clone, score))
    exact (parses_byte 7).bind ((parses_readCounted hcount hmember).map SetScanValue.scored)

lemma ZsetValue.parses {value : ZsetValue S}
    (hpair : ∀ first second, value = .pair first second → second.length < 2 ^ 31)
    (h : Within value.sizes) : Parses readZsetValue value.bytes value.owned := by
  cases value with
  | eloqString value =>
    exact (parses_byte 0).bind ((parses_readString h.count).map ZsetValue.eloqString)
  | double value => exact (parses_byte 1).bind ((parses_readDouble value).map ZsetValue.double)
  | int value => exact (parses_byte 2).bind ((parses_readI32 value).map ZsetValue.int)
  | eloqStrings values => exact (parses_byte 4).bind (h.parses_strings.map ZsetValue.eloqStrings)
  | pair first second =>
    exact (parses_byte 9).bind ((parses_readI32 first).bind
      ((parses_readSignedText (hpair first second rfl)).map (ZsetValue.pair first)))

/-! ### Results -/

lemma Fields.carried {fields : Fields S} (hsend : fields.Sendable) (h : Within fields.sizes) :
    Carried fields.bytes (readFields fields.class) fields.owned := by
  cases fields with
  | string str intRet vctInt =>
    have hstr : str.length < 2 ^ 32 := h.lt (by simp [sizes])
    have hcount : vctInt.length < 2 ^ 32 := h.lt (by simp [sizes])
    have hvct := parses_countedBytes hcount fun p _ => parses_readBit p
    exact ⟨_, rfl, (parses_readI64 intRet).bind ((parses_readSized hstr).bind
      (hvct.map (Fields.string str intRet)))⟩
  | int intVal => exact ⟨_, rfl, (parses_readI64 intVal).map Fields.int⟩
  | list result ret =>
    have hvalue : ∀ text, result ≠ .string text := by
      rintro text rfl
      exact hsend
    obtain ⟨b, hb, hread⟩ := ListValue.carried hvalue h
    refine ⟨i64Bytes ret ++ b, ?_, (parses_readI64 ret).bind (hread.map (Fields.list · ret))⟩
    rw [bytes, hb]
    rfl
  | setScan result => exact ⟨_, rfl, (SetScanValue.parses h).map Fields.setScan⟩
  | zset result =>
    have hpair : ∀ first second, result = .pair first second → second.length < 2 ^ 31 := by
      rintro first second rfl
      exact hsend
    exact ⟨_, rfl, (ZsetValue.parses hpair h).map Fields.zset⟩
  | hash result =>
    obtain ⟨b, hb, hread⟩ := HashValue.carried h
    exact ⟨b, hb, hread.map Fields.hash⟩
  | hashSet stringList ret =>
    exact ⟨_, rfl, (parses_readI32 ret).bind (Within.parses_strings h |>.map
      (Fields.hashSet · ret))⟩
  | sortableLoad objType elems =>
    exact ⟨_, rfl, (parses_enum (RedisObjectType.ofByte_toByte objType)).bind
      (Within.parses_texts h |>.map (Fields.sortableLoad objType))⟩
  | sort result =>
    obtain ⟨b, hb, hread⟩ := Within.carried_nilables h
    exact ⟨b, hb, hread.map Fields.sort⟩

lemma RedisResult.carried {r : RedisResult S} (hsend : r.fields.Sendable)
    (h : Within r.fields.sizes) : Carried r.serialize (readResult r.fields.class) r.owned := by
  obtain ⟨b, hb, hread⟩ := Fields.carried hsend h
  refine ⟨[r.fields.class.toByte] ++ (i32Bytes r.errCode ++ b), ?_, ?_⟩
  · rw [serialize, hb]
    rfl
  · exact (parses_byte _).bind ((parses_readI32 r.errCode).bind
      (hread.map (RedisResult.mk r.errCode)))

lemma deserialize_of_parses {cls : ResultClass} {b : Bytes} {r : RedisResult S}
    (hread : Parses (readResult cls) b r) (before after : Bytes) :
    deserialize cls (before ++ b ++ after) before.length = .ok (r, before.length + b.length) := by
  have hrun := hread after false
  rw [deserialize, append_assoc, drop_left, Lib.Reader.Cursor.at, hrun]
  refine congrArg (fun n => Outcome.ok (r, n)) ?_
  simp only [length_append]
  omega

/-- **Every result a command produces arrives as it was sent**, and its bytes are read. -/
theorem produced_round_trip [ScoreTexts S] {r : RedisResult S} (hproduced : Produced r)
    (hsizes : Within r.fields.sizes) :
    ∃ bytes, r.serialize = some bytes ∧ ∀ before after : Bytes, ∃ again : RedisResult S,
        deserialize r.fields.class (before ++ bytes ++ after) before.length =
            .ok (again, before.length + bytes.length) ∧
          again.Equal r := by
  obtain ⟨bytes, hbytes, hread⟩ := RedisResult.carried hproduced.sendable hsizes
  refine ⟨bytes, hbytes, fun before after => ⟨r.owned, ?_, r.equal_owned⟩⟩
  exact deserialize_of_parses hread before after

end RoundTrip

/-- HMGET of a field that is there, one that is not, and one with an empty value. -/
def hmgetResult : RedisResult Double := ⟨0, .hash (.nilables [some (ascii "v"), none, some []])⟩

theorem hmget_round_trip :
    ∃ bytes, hmgetResult.serialize = some bytes ∧
      ∀ before after : Bytes, ∃ again : RedisResult Double,
        deserialize .hash (before ++ bytes ++ after) before.length =
            .ok (again, before.length + bytes.length) ∧
          again.Equal hmgetResult := by
  have hproduced : Produced hmgetResult :=
    ⟨.hash, [.hashNilables [some (ascii "v"), none, some []], .errCode 0], rfl⟩
  have hsizes : Within hmgetResult.fields.sizes := by
    unfold Within
    decide
  exact produced_round_trip hproduced hsizes

end Results

end EloqKV.Objects
