/-
  The serialized form of objects (`Serialize` and `Deserialize` of the ten object classes in
  `include/redis_*_object.h` and `src/redis_set_object.cpp`, `DeserializeObject` in
  `src/redis_object.cpp`).

  An object is written as the byte of its class, the deadline if the class has one, and the
  contents; counts and lengths take four bytes, scores and deadlines eight, all little-endian.
  One serializer appends to a `std::string`; the other makes room in a `std::vector<char>` for as
  many bytes as `serialized_length_` says and copies into it, piece by piece.  The readers check
  nothing.

  Scores are an ordered type with a 64-bit pattern for each; a pattern that stands for no score
  is one of a NaN, which an ordered set cannot hold.
-/
import EloqKV.Lib.Endian
import EloqKV.Lib.Reader
import EloqKV.Objects.Commands

open List hiding Cursor

namespace EloqKV.Objects

open Lib.Endian

open Lib.Endian (le ofLe)
open Lib.Reader (Read Cursor)
open Lib.Reader.Read (byte block times peek remaining fault)
open Hashes (RedisHashObject)
open Sets (RedisHashSetObject)
open Zset (RedisZsetObject)

/-! ## Classes -/

/-- `RedisObjectType`, the classes objects are stored under. -/
inductive RedisObjectType where
  | string
  | list
  | hash
  | zset
  | set
  | ttlString
  | ttlList
  | ttlHash
  | ttlZset
  | ttlSet
  deriving DecidableEq, Repr

namespace RedisObjectType

def toByte : RedisObjectType → UInt8
  | string => 0
  | list => 1
  | hash => 2
  | zset => 4
  | set => 5
  | ttlString => 6
  | ttlList => 7
  | ttlHash => 8
  | ttlZset => 10
  | ttlSet => 11

/-- The `switch` of `DeserializeObject`. -/
def ofByte (b : UInt8) : Option RedisObjectType :=
  if b = 0 then some string
  else if b = 1 then some list
  else if b = 2 then some hash
  else if b = 4 then some zset
  else if b = 5 then some set
  else if b = 6 then some ttlString
  else if b = 8 then some ttlHash
  else if b = 7 then some ttlList
  else if b = 10 then some ttlZset
  else if b = 11 then some ttlSet
  else none

@[simp] lemma ofByte_toByte (type : RedisObjectType) : ofByte type.toByte = some type := by
  cases type <;> rfl

lemma of_case_eq_some {b k : UInt8} {type type' : RedisObjectType}
    {rest : Option RedisObjectType} (h : (if b = k then some type' else rest) = some type) :
    (b = k ∧ type' = type) ∨ rest = some type := by
  by_cases hk : b = k
  · rw [if_pos hk] at h
    exact .inl ⟨hk, Option.some.inj h⟩
  · rw [if_neg hk] at h
    exact .inr h

lemma toByte_of_ofByte {b : UInt8} {type : RedisObjectType} (h : ofByte b = some type) :
    type.toByte = b := by
  iterate 10
    rcases of_case_eq_some h with ⟨rfl, rfl⟩ | h
    · rfl
  exact nomatch h

def hasTTL : RedisObjectType → Bool
  | ttlString | ttlList | ttlHash | ttlZset | ttlSet => true
  | _ => false

end RedisObjectType

/-- The bit patterns of scores. -/
class ScoreBits (S : Type) where
  toBits : S → UInt64
  ofBits : UInt64 → Option S
  ofBits_toBits : ∀ s, ofBits (toBits s) = some s

/-- The order in which the process walks its hash tables. -/
structure HashOrder where
  walk : {α : Type} → List α → List α
  perm : ∀ {α : Type} (l : List α), (walk l).Perm l

/-- Tables walk in the order they list. -/
def listedOrder : HashOrder := ⟨id, fun _ => .refl _⟩

/-! ## Contents in the order of the buffer -/

/-- What a serializer writes behind the header and a reader finds there, in this order. -/
inductive Contents where
  | string (value : Bytes)
  | list (elements : List Bytes)
  | hash (pairs : List (Bytes × Bytes))
  | set (members : List Bytes)
  | zset (pairs : List (Bytes × UInt64))
  deriving DecidableEq, Repr

variable (bytes : Bytes)

/-- A length and the bytes it counts. -/
def sized : List Bytes := [le 4 bytes.length, bytes]

namespace Contents

/-- The pieces a serializer writes, one `append` or `std::copy` each. -/
def pieces : Contents → List Bytes
  | string value => sized value
  | list elements => le 4 elements.length :: elements.flatMap sized
  | hash pairs => le 4 pairs.length :: pairs.flatMap fun p => sized p.1 ++ sized p.2
  | set members => le 4 members.length :: members.flatMap sized
  | zset pairs => le 4 pairs.length :: pairs.flatMap fun p => sized p.1 ++ [le 8 p.2.toNat]

def type (ttl : Option Nat) : Contents → RedisObjectType
  | string _ => if ttl.isSome then .ttlString else .string
  | list _ => if ttl.isSome then .ttlList else .list
  | hash _ => if ttl.isSome then .ttlHash else .hash
  | set _ => if ttl.isSome then .ttlSet else .set
  | zset _ => if ttl.isSome then .ttlZset else .zset

end Contents

section Serialize

variable {S : Type} [LinearOrder S] [ScoreBits S]

/-- The walk over `z_hash_map_`: a key is read through the node it points into. -/
def walkMembers (order : HashOrder) (z : RedisZsetObject S) : List (Bytes × S) :=
  (order.walk z.zHashMap).filterMap fun m => (z.denotes m.addr).map (·, m.score)

/-- What the loops of the serializers walk over. -/
def Payload.contents (order : HashOrder) : Payload S → Contents
  | .string value => .string (value.getD [])
  | .list l => .list l.listObject
  | .hash h => .hash ((order.walk h.hashMap.entries).map fun e => (e.1, e.2))
  | .set s => .set (order.walk s.hashSet)
  | .zset z => .zset ((walkMembers order z).map fun p => (p.1, ScoreBits.toBits p.2))

/-- The bytes the vector serializer makes room for, but for a deadline. -/
def Payload.room : Payload S → Nat
  | .string value => 1 + 4 + (value.getD []).length
  | .list l => l.serializedLength
  | .hash h => h.serializedLength
  | .set s => s.serializedLength
  | .zset z => z.serializedLength

namespace RedisObject

def type (obj : RedisObject S) : RedisObjectType :=
  match obj.payload with
  | .string _ => if obj.ttl.isSome then .ttlString else .string
  | .list _ => if obj.ttl.isSome then .ttlList else .list
  | .hash _ => if obj.ttl.isSome then .ttlHash else .hash
  | .set _ => if obj.ttl.isSome then .ttlSet else .set
  | .zset _ => if obj.ttl.isSome then .ttlZset else .zset

variable (order : HashOrder) (obj : RedisObject S)

/-- The pieces `Serialize` writes. -/
def pieces : List Bytes :=
  [obj.type.toByte] :: (obj.ttl.toList.map (le 8) ++ (obj.payload.contents order).pieces)

/-! ### The two serializers -/

/-- `Serialize(std::string &)`. -/
def serializeString (str : Bytes) : Bytes :=
  (obj.pieces order).foldl (· ++ ·) str

def serialized : Bytes :=
  obj.serializeString order []

def resize (buf : Bytes) (n : Nat) : Bytes := buf.take n ++ List.replicate (n - buf.length) 0

/-- `std::copy` into a buffer, if the buffer has the room. -/
def copyTo (buf : Bytes) (offset : Nat) (piece : Bytes) : Option Bytes :=
  if offset + piece.length ≤ buf.length then
    some (buf.take offset ++ piece ++ buf.drop (offset + piece.length))
  else none

/-- One copy after the other, with the offset advancing. -/
def copyAll (buf : Bytes) (offset : Nat) : List Bytes → Option (Bytes × Nat)
  | [] => some (buf, offset)
  | piece :: pieces =>
    (copyTo buf offset piece).bind fun buf => copyAll buf (offset + piece.length) pieces

/-- The bytes the vector serializer makes room for. -/
def room : Nat :=
  (if obj.ttl.isSome then 8 else 0) + obj.payload.room

/-- `Serialize(std::vector<char> &, size_t &)`: the buffer and the offset afterwards. -/
def serializeVector (buf : Bytes) (offset : Nat) : Option (Bytes × Nat) :=
  copyAll (resize buf (offset + obj.room)) offset (obj.pieces order)

end RedisObject

end Serialize

/-! ## Reading -/

/-- `*reinterpret_cast<const uint32_t *>(buf + offset)`. -/
def readU32 : Read Nat := do
  let bytes ← block 4
  pure (ofLe bytes)

def readU64 : Read Nat := do
  let bytes ← block 8
  pure (ofLe bytes)

def readSized : Read Bytes := do
  let size ← readU32
  block size

def readCounted {α : Type} (item : Read α) : Read (List α) := do
  let cnt ← readU32
  times item cnt

def readPair : Read (Bytes × Bytes) := do
  let key ← readSized
  let value ← readSized
  pure (key, value)

def readScored : Read (Bytes × UInt64) := do
  let field ← readSized
  let bits ← readU64
  pure (field, UInt64.ofNat bits)

/-- The part of `Deserialize` behind the header. -/
def readContents : RedisObjectType → Read Contents
  | .string | .ttlString => do
    let value ← readSized
    pure (.string value)
  | .list | .ttlList => do
    let elements ← readCounted readSized
    pure (.list elements)
  | .hash | .ttlHash => do
    let pairs ← readCounted readPair
    pure (.hash pairs)
  | .set | .ttlSet => do
    let members ← readCounted readSized
    pure (.set members)
  | .zset | .ttlZset => do
    let pairs ← readCounted readScored
    pure (.zset pairs)

section Deserialize

variable {S : Type} [LinearOrder S] [ScoreBits S]

/-- The containers, filled in the order of the buffer.  `read` is the number of bytes passed
without those of a deadline: hashes and sets take it as their length, the others add up. -/
def Contents.build (read : Nat) : Contents → Option (Payload S)
  | string value => some (.string (some value))
  | list elements => some (.list ⟨elements, 1 + 4 + itemsLength elements⟩)
  | hash pairs => some (.hash ⟨((⟨∅, 0⟩ : RedisHashObject).commitHSet pairs).hashMap, read⟩)
  | set members =>
    some (.set { RedisHashSetObject.empty.commitSAdd members with serializedLength := read })
  | zset pairs =>
    (pairs.mapM fun p => (ScoreBits.ofBits p.2).map (p.1, ·)).map fun pairs =>
      .zset (RedisZsetObject.deserialize pairs)

def readTTL (type : RedisObjectType) : Read (Option Nat) :=
  if type.hasTTL then do
    let ttl ← readU64
    pure (some ttl)
  else pure none

/-- `Deserialize` of a class.  The byte of the class is skipped: only an assertion looks at it. -/
def deserialize (type : RedisObjectType) : Read (RedisObject S) := do
  let initOff ← remaining
  let _ ← byte
  let ttl ← readTTL type
  let contents ← readContents type
  let offset ← remaining
  match contents.build (initOff - offset - if type.hasTTL then 8 else 0) with
  | some payload => pure ⟨payload, ttl⟩
  | none => fault

/-- `DeserializeObject` through a cursor.  For an unknown class there is no object to call. -/
def readObject : Read (RedisObject S) := do
  let objType ← peek
  match RedisObjectType.ofByte objType with
  | some type => deserialize type
  | none => fault

/-- `DeserializeObject(buf, offset)`: the object and the offset afterwards. -/
def deserializeObject (buf : Bytes) (offset : Nat) : Lib.Reader.Outcome (RedisObject S × Nat) :=
  match readObject (S := S) (.at (buf.drop offset)) with
  | (.ok obj, c) => .ok (obj, buf.length - c.rest.length)
  | (.fail, _) => .fail
  | (.fault, _) => .fault

end Deserialize

/-! ## Sizes -/

/-- The bytes behind the header. -/
def Contents.encode (c : Contents) : Bytes := c.pieces.flatten

def sizedBytes : Bytes := le 4 bytes.length ++ bytes

@[simp] lemma flatten_sized : (sized bytes).flatten = sizedBytes bytes := by
  simp [sized, sizedBytes]

@[simp] lemma length_sizedBytes : (sizedBytes bytes).length = itemLength bytes := by
  rw [sizedBytes, length_append, length_le, itemLength]

lemma flatten_flatMap {α : Type} (f : α → List Bytes) (items : List α) :
    (items.flatMap f).flatten = items.flatMap fun i => (f i).flatten := by
  induction items with
  | nil => rfl
  | cons i items ih => rw [flatMap_cons, flatten_append, ih, flatMap_cons]

namespace Contents

def pairBytes (p : Bytes × Bytes) : Bytes := sizedBytes p.1 ++ sizedBytes p.2

def scoredBytes (p : Bytes × UInt64) : Bytes := sizedBytes p.1 ++ le 8 p.2.toNat

lemma encode_string (value : Bytes) : (string value).encode = sizedBytes value := by
  rw [encode, pieces, flatten_sized]

lemma encode_list (elements : List Bytes) :
    (list elements).encode = le 4 elements.length ++ elements.flatMap sizedBytes := by
  simp [encode, pieces, flatten_flatMap, flatten_sized]

lemma encode_set (members : List Bytes) :
    (set members).encode = le 4 members.length ++ members.flatMap sizedBytes := by
  simp [encode, pieces, flatten_flatMap, flatten_sized]

lemma encode_hash (pairs : List (Bytes × Bytes)) :
    (hash pairs).encode = le 4 pairs.length ++ pairs.flatMap pairBytes := by
  simp only [encode, pieces, flatten_cons, flatten_flatMap, flatten_append, flatten_sized]
  rfl

lemma encode_zset (pairs : List (Bytes × UInt64)) :
    (zset pairs).encode = le 4 pairs.length ++ pairs.flatMap scoredBytes := by
  simp only [encode, pieces, flatten_cons, flatten_flatMap, flatten_append,
    flatten_sized, flatten_nil, append_nil]
  rfl

def Fits : Contents → Prop
  | string value => value.length < 2 ^ 32
  | list elements => elements.length < 2 ^ 32 ∧ ∀ e ∈ elements, e.length < 2 ^ 32
  | set members => members.length < 2 ^ 32 ∧ ∀ m ∈ members, m.length < 2 ^ 32
  | hash pairs =>
    pairs.length < 2 ^ 32 ∧ ∀ p ∈ pairs, p.1.length < 2 ^ 32 ∧ p.2.length < 2 ^ 32
  | zset pairs => pairs.length < 2 ^ 32 ∧ ∀ p ∈ pairs, p.1.length < 2 ^ 32

lemma mul_length_le_length_flatMap {α : Type} (minBytes : Nat) (enc : α → Bytes)
    (items : List α) (hmin : ∀ i ∈ items, minBytes ≤ (enc i).length) :
    items.length * minBytes ≤ (items.flatMap enc).length ∧
      ∀ i ∈ items, (enc i).length ≤ (items.flatMap enc).length := by
  induction items with
  | nil => simp
  | cons i items ih =>
    obtain ⟨hcount, hitem⟩ := ih fun j hj => hmin j (mem_cons_of_mem i hj)
    have hi := hmin i mem_cons_self
    rw [flatMap_cons, length_append, length_cons, Nat.succ_mul]
    refine ⟨by omega, fun j hj => ?_⟩
    rcases mem_cons.mp hj with rfl | hj
    · omega
    · have := hitem j hj
      omega

lemma fits_items {elements : List Bytes}
    (hlen : (le 4 elements.length ++ elements.flatMap sizedBytes).length < 2 ^ 32) :
    elements.length < 2 ^ 32 ∧ ∀ e ∈ elements, e.length < 2 ^ 32 := by
  rw [length_append, length_le] at hlen
  obtain ⟨hcount, hitem⟩ := mul_length_le_length_flatMap 1 sizedBytes elements
    fun e _ => by rw [length_sizedBytes, itemLength]; omega
  refine ⟨by omega, fun e he => ?_⟩
  have := hitem e he
  rw [length_sizedBytes, itemLength] at this
  omega

/-- Counts and lengths are below the length of the whole, so they fit their four bytes. -/
lemma fits_of_length {c : Contents} (hc : c.encode.length < 2 ^ 32) : c.Fits := by
  cases c with
  | string value =>
    rw [encode_string, length_sizedBytes, itemLength] at hc
    exact Nat.lt_of_le_of_lt (Nat.le_add_left _ _) hc
  | list elements =>
    rw [encode_list] at hc
    exact fits_items hc
  | set members =>
    rw [encode_set] at hc
    exact fits_items hc
  | hash pairs =>
    rw [encode_hash, length_append, length_le] at hc
    have hlen : ∀ p, (pairBytes p).length = itemLength p.1 + itemLength p.2 := fun p => by
      rw [pairBytes, length_append, length_sizedBytes, length_sizedBytes]
    obtain ⟨hcount, hitem⟩ := mul_length_le_length_flatMap 1 pairBytes pairs
      fun p _ => by rw [hlen, itemLength]; omega
    refine ⟨by omega, fun p hp => ?_⟩
    have := hitem p hp
    rw [hlen, itemLength, itemLength] at this
    exact ⟨by omega, by omega⟩
  | zset pairs =>
    rw [encode_zset, length_append, length_le] at hc
    have hlen : ∀ p, (scoredBytes p).length = itemLength p.1 + 8 := fun p => by
      rw [scoredBytes, length_append, length_sizedBytes, length_le]
    obtain ⟨hcount, hitem⟩ := mul_length_le_length_flatMap 1 scoredBytes pairs
      fun p _ => by rw [hlen]; omega
    refine ⟨by omega, fun p hp => ?_⟩
    have := hitem p hp
    rw [hlen, itemLength] at this
    omega

end Contents

/-! ## The readers read what the serializers write -/

open Lib.Reader.Read (Parses parses_pure parses_block)

lemma parses_readU32 {n : Nat} (hn : n < 2 ^ 32) : Parses readU32 (le 4 n) n := by
  have h := (parses_block (length_le 4 n).symm).map ofLe
  rwa [ofLe_le (by omega)] at h

lemma parses_readU64 {n : Nat} (hn : n < 2 ^ 64) : Parses readU64 (le 8 n) n := by
  have h := (parses_block (length_le 8 n).symm).map ofLe
  rwa [ofLe_le (by omega)] at h

lemma parses_readSized {bytes : Bytes} (h : bytes.length < 2 ^ 32) :
    Parses readSized (sizedBytes bytes) bytes :=
  (parses_readU32 h).bind (parses_block rfl)

lemma parses_readCounted {α γ : Type} {item : Read α} {enc : γ → Bytes} {val : γ → α}
    {items : List γ} (hcount : items.length < 2 ^ 32)
    (hitem : ∀ i ∈ items, Parses item (enc i) (val i)) :
    Parses (readCounted item) (le 4 items.length ++ items.flatMap enc) (items.map val) :=
  (parses_readU32 hcount).bind (Parses.times items hitem)

lemma parses_readScored {p : Bytes × UInt64} (h : p.1.length < 2 ^ 32) :
    Parses readScored (Contents.scoredBytes p) p := by
  have hbits := (parses_readU64 p.2.toNat_lt).map fun bits => (p.1, UInt64.ofNat bits)
  rw [UInt64.ofNat_toNat] at hbits
  exact (parses_readSized h).bind hbits

/-- **The contents come back**, with or without a deadline in front of them. -/
theorem parses_readContents {c : Contents} (hc : c.Fits) (ttl : Option Nat) :
    Parses (readContents (c.type ttl)) c.encode c := by
  cases c with
  | string value =>
    have h := (parses_readSized hc).map Contents.string
    rw [Contents.encode_string]
    cases ttl <;> exact h
  | list elements =>
    have h := (parses_readCounted hc.1 fun e he => parses_readSized (hc.2 e he)).map Contents.list
    rw [Contents.encode_list]
    rw [map_id'] at h
    cases ttl <;> exact h
  | set members =>
    have h := (parses_readCounted hc.1 fun e he => parses_readSized (hc.2 e he)).map Contents.set
    rw [Contents.encode_set]
    rw [map_id'] at h
    cases ttl <;> exact h
  | hash pairs =>
    have hpair : ∀ p ∈ pairs, Parses readPair (Contents.pairBytes p) p := fun p hp =>
      (parses_readSized (hc.2 p hp).1).bind ((parses_readSized (hc.2 p hp).2).map (p.1, ·))
    have h := (parses_readCounted hc.1 hpair).map Contents.hash
    rw [Contents.encode_hash]
    rw [map_id'] at h
    cases ttl <;> exact h
  | zset pairs =>
    have h := (parses_readCounted hc.1 fun p hp => parses_readScored (hc.2 p hp)).map Contents.zset
    rw [Contents.encode_zset]
    rw [map_id'] at h
    cases ttl <;> exact h

/-! ## The readers read nothing else -/

open Lib.Reader.Read (Accepts accepts_block accepts_pure)

lemma accepts_ofLe (w : Nat) : Accepts (do
    let bytes ← block w
    pure (ofLe bytes)) fun bytes n => bytes = le w n ∧ n < 256 ^ w := by
  refine ((accepts_block w).map ofLe).mono ?_
  rintro bytes _ ⟨_, ⟨rfl, rfl⟩, rfl⟩
  exact ⟨(le_ofLe bytes).symm, ofLe_lt bytes⟩

lemma accepts_readU32 : Accepts readU32 fun bytes n => bytes = le 4 n ∧ n < 2 ^ 32 :=
  accepts_ofLe 4

lemma accepts_readU64 : Accepts readU64 fun bytes n => bytes = le 8 n ∧ n < 2 ^ 64 :=
  accepts_ofLe 8

lemma accepts_readSized :
    Accepts readSized fun bytes s => bytes = sizedBytes s ∧ s.length < 2 ^ 32 := by
  refine (accepts_readU32.bind accepts_block).mono ?_
  rintro _ s ⟨_, _, n, rfl, ⟨rfl, hn⟩, rfl, rfl⟩
  exact ⟨rfl, hn⟩

lemma accepts_readCounted {α : Type} {item : Read α} {enc : α → Bytes} {p : α → Prop}
    (hitem : Accepts item fun bytes a => bytes = enc a ∧ p a) :
    Accepts (readCounted item) fun bytes items =>
      bytes = le 4 items.length ++ items.flatMap enc ∧ items.length < 2 ^ 32 ∧
        ∀ i ∈ items, p i := by
  refine (accepts_readU32.bind hitem.times).mono ?_
  rintro _ items ⟨_, _, n, rfl, ⟨rfl, hn⟩, rfl, rfl, hitems⟩
  exact ⟨rfl, hn, hitems⟩

lemma accepts_readPair : Accepts readPair fun bytes p =>
    bytes = Contents.pairBytes p ∧ p.1.length < 2 ^ 32 ∧ p.2.length < 2 ^ 32 := by
  refine (accepts_readSized.bind fun key => accepts_readSized.map (key, ·)).mono ?_
  rintro _ _ ⟨_, _, key, rfl, ⟨rfl, hkey⟩, value, ⟨rfl, hvalue⟩, rfl⟩
  exact ⟨rfl, hkey, hvalue⟩

lemma accepts_readScored : Accepts readScored fun bytes p =>
    bytes = Contents.scoredBytes p ∧ p.1.length < 2 ^ 32 := by
  refine (accepts_readSized.bind fun field =>
    accepts_readU64.map fun bits => (field, UInt64.ofNat bits)).mono ?_
  rintro _ _ ⟨_, _, field, rfl, ⟨rfl, hfield⟩, bits, ⟨rfl, hbits⟩, rfl⟩
  refine ⟨?_, hfield⟩
  show _ = sizedBytes field ++ le 8 (UInt64.ofNat bits).toNat
  rw [UInt64.toNat_ofNat_of_lt' hbits]

theorem accepts_readContents {type : RedisObjectType} (htype : type.hasTTL = false) :
    Accepts (readContents type) fun bytes c =>
      bytes = c.encode ∧ c.Fits ∧ c.type none = type := by
  cases type with
  | string =>
    refine (accepts_readSized.map Contents.string).mono ?_
    rintro _ _ ⟨value, ⟨rfl, hvalue⟩, rfl⟩
    exact ⟨(Contents.encode_string value).symm, hvalue, rfl⟩
  | list =>
    refine ((accepts_readCounted accepts_readSized).map Contents.list).mono ?_
    rintro _ _ ⟨elements, ⟨rfl, hfits⟩, rfl⟩
    exact ⟨(Contents.encode_list elements).symm, hfits, rfl⟩
  | hash =>
    refine ((accepts_readCounted accepts_readPair).map Contents.hash).mono ?_
    rintro _ _ ⟨pairs, ⟨rfl, hfits⟩, rfl⟩
    exact ⟨(Contents.encode_hash pairs).symm, hfits, rfl⟩
  | set =>
    refine ((accepts_readCounted accepts_readSized).map Contents.set).mono ?_
    rintro _ _ ⟨members, ⟨rfl, hfits⟩, rfl⟩
    exact ⟨(Contents.encode_set members).symm, hfits, rfl⟩
  | zset =>
    refine ((accepts_readCounted accepts_readScored).map Contents.zset).mono ?_
    rintro _ _ ⟨pairs, ⟨rfl, hfits⟩, rfl⟩
    exact ⟨(Contents.encode_zset pairs).symm, hfits, rfl⟩
  | ttlString | ttlList | ttlHash | ttlZset | ttlSet => exact nomatch htype

def ttlBytes (ttl : Option Nat) : Bytes := (ttl.map (le 8)).getD []

def TTLFits (ttl : Option Nat) : Prop := ∀ t ∈ ttl, t < 2 ^ 64

lemma Contents.hasTTL_type (c : Contents) (ttl : Option Nat) :
    (c.type ttl).hasTTL = ttl.isSome := by
  cases c <;> cases ttl <;> rfl

lemma parses_readTTL (c : Contents) {ttl : Option Nat} (httl : TTLFits ttl) :
    Parses (readTTL (c.type ttl)) (ttlBytes ttl) ttl := by
  rw [readTTL, c.hasTTL_type]
  cases ttl with
  | none => exact parses_pure none
  | some t => exact (parses_readU64 (httl t rfl)).map some

section DeserializeRun

variable {S : Type} [LinearOrder S] [ScoreBits S]

open Lib.Reader.Read (bind_of_ok bind_eq_ok remaining_bind byte_bind)

/-- What filling the containers comes to: an object, or an insertion that must not be made. -/
def Contents.outcome (c : Contents) (ttl : Option Nat) : Lib.Reader.Outcome (RedisObject S) :=
  match c.build (1 + c.encode.length) with
  | some payload => .ok ⟨payload, ttl⟩
  | none => .fault

variable {c : Contents}

lemma Contents.outcome_of_build {payload : Payload S}
    (hbuild : c.build (1 + c.encode.length) = some payload) (ttl : Option Nat) :
    c.outcome ttl = .ok ⟨payload, ttl⟩ := by
  rw [outcome, hbuild]

variable {ttl : Option Nat}

lemma Contents.outcome_eq_ok {obj : RedisObject S} (h : c.outcome ttl = .ok obj) :
    c.build (1 + c.encode.length) = some obj.payload ∧ obj.ttl = ttl := by
  unfold outcome at h
  split at h
  · rename_i payload hbuild
    obtain rfl := Lib.Reader.Outcome.ok.inj h
    exact ⟨hbuild, rfl⟩
  · exact absurd h (by simp)

lemma deserialize_run (hc : c.Fits) (httl : TTLFits ttl) (b : UInt8) (post : Bytes) (o : Bool) :
    deserialize (S := S) (c.type ttl) ⟨b :: (ttlBytes ttl ++ (c.encode ++ post)), o⟩
      = (c.outcome ttl, ⟨post, o⟩) := by
  have hread : (b :: (ttlBytes ttl ++ (c.encode ++ post))).length - post.length -
      (if (c.type ttl).hasTTL then 8 else 0) = 1 + c.encode.length := by
    rw [c.hasTTL_type]
    cases ttl <;> simp [ttlBytes] <;> omega
  rw [deserialize, remaining_bind, byte_bind, (parses_readTTL c httl).bind_run,
    (parses_readContents hc ttl).bind_run, remaining_bind]
  simp only [hread, Contents.outcome]
  cases c.build (S := S) (1 + c.encode.length) <;> rfl

lemma deserialize_eq_ok {type : RedisObjectType} (htype : type.hasTTL = false) {bytes : Bytes}
    {o : Bool} {obj : RedisObject S} {cur : Cursor}
    (h : deserialize type ⟨bytes, o⟩ = (.ok obj, cur)) :
    ∃ (c : Contents) (b : UInt8) (post : Bytes), bytes = b :: (c.encode ++ post) ∧
      c.type none = type ∧ c.build (1 + c.encode.length) = some obj.payload ∧
      obj.ttl = none := by
  have hparts := h
  rw [deserialize, remaining_bind] at hparts
  obtain ⟨b, _, hb, hparts⟩ := bind_eq_ok.mp hparts
  obtain ⟨_, rest, rfl, rfl, rfl⟩ := Lib.Reader.Read.accepts_byte hb
  have httl : readTTL type ⟨rest, o⟩ = (.ok none, ⟨rest, o⟩) := by
    rw [readTTL, htype]
    rfl
  rw [bind_of_ok httl] at hparts
  obtain ⟨c, _, hc, -⟩ := bind_eq_ok.mp hparts
  obtain ⟨_, post, rfl, ⟨rfl, hfits, hctype⟩, -⟩ := accepts_readContents htype hc
  -- the contents are known now, so the whole run is
  have hnone : TTLFits none := nofun
  have hrun := deserialize_run (S := S) hfits hnone b post o
  rw [hctype] at hrun
  have houtcome : c.outcome none = .ok obj := congrArg Prod.fst (hrun.symm.trans h)
  obtain ⟨hbuild, hobj⟩ := Contents.outcome_eq_ok houtcome
  exact ⟨c, b, post, rfl, hctype, hbuild, hobj⟩

/-- The bytes of contents behind their class and deadline. -/
def Contents.image (c : Contents) (ttl : Option Nat) : Bytes :=
  (c.type ttl).toByte :: (ttlBytes ttl ++ c.encode)

lemma deserializeObject_image (hc : c.Fits) (httl : TTLFits ttl) (pre post : Bytes) :
    deserializeObject (S := S) (pre ++ c.image ttl ++ post) pre.length
      = match c.outcome (S := S) ttl with
        | .ok obj => .ok (obj, pre.length + (c.image ttl).length)
        | .fail => .fail
        | .fault => .fault := by
  have hrun := deserialize_run (S := S) hc httl (c.type ttl).toByte post false
  have hoffset : (pre ++ (c.image ttl ++ post)).length - post.length
      = pre.length + (c.image ttl).length := by
    simp only [length_append]
    omega
  rw [append_assoc, deserializeObject, drop_left, Contents.image, cons_append,
    append_assoc, readObject, Lib.Reader.Cursor.at, bind_of_ok (Lib.Reader.Read.peek_cons _ _ _)]
  simp only [RedisObjectType.ofByte_toByte, hrun]
  rw [Contents.image, cons_append, append_assoc] at hoffset
  cases c.outcome (S := S) ttl with
  | ok obj => simp only [hoffset]
  | _ => rfl

end DeserializeRun

end EloqKV.Objects
