/-
  The decoder of Redis payloads (`DecodeRedisObjectPayload`, `DecodeZipListPairs`,
  `DecodeZipListZSet`, the `Serialize*Payload` functions and
  `ConvertRedisDumpPayloadToEloqPayload` in `src/redis_rdb_restore.cpp`).

  A payload is the byte of its type and the value in the form of that type; every form is turned
  into plain elements first, and only when nothing is left of the payload the elements are
  written out in the server's own form.
-/
import EloqKV.Objects.RoundTrip
import EloqKV.Rdb.ListPack
import EloqKV.Rdb.ZipList

namespace EloqKV.Rdb

open Lib.Endian (ofLe)
open Lib.Reader (Cursor Outcome Read)
open Lib.Reader.Read
open Objects (Contents Double HashOrder Payload RedisObject RedisObjectType)

/-! ## The decoder -/

/-- The types of payloads, `kRdbType*`. -/
inductive RdbType where
  | string
  | list
  | set
  | zset
  | hash
  | zset2
  | listZipList
  | setIntSet
  | zsetZipList
  | hashZipList
  | quickList
  | hashListPack
  | zsetListPack
  | quickList2
  | setListPack
  deriving DecidableEq, Repr

namespace RdbType

def toByte : RdbType → UInt8
  | string => 0
  | list => 1
  | set => 2
  | zset => 3
  | hash => 4
  | zset2 => 5
  | listZipList => 10
  | setIntSet => 11
  | zsetZipList => 12
  | hashZipList => 13
  | quickList => 14
  | hashListPack => 16
  | zsetListPack => 17
  | quickList2 => 18
  | setListPack => 20

/-- All types, in the order of their values. -/
def all : List RdbType :=
  [string, list, set, zset, hash, zset2, listZipList, setIntSet, zsetZipList, hashZipList,
    quickList, hashListPack, zsetListPack, quickList2, setListPack]

/-- The `switch` over the type. -/
def ofByte (b : UInt8) : Option RdbType := all.find? (·.toByte = b)

@[simp] lemma ofByte_toByte (type : RdbType) : ofByte type.toByte = some type := by
  cases type <;> rfl

lemma toByte_of_ofByte {b : UInt8} {type : RdbType} (h : ofByte b = some type) :
    type.toByte = b := by
  simpa using List.find?_some h

lemma toByte_injective : Function.Injective toByte := by
  intro type type' h
  have hsome := congrArg ofByte h
  rw [ofByte_toByte, ofByte_toByte] at hsome
  exact Option.some.inj hsome

end RdbType

/-- Entries two by two; an odd one is refused. -/
def pairUp : List Bytes → Option (List (Bytes × Bytes))
  | [] => some []
  | [_] => none
  | a :: b :: rest => (pairUp rest).map ((a, b) :: ·)

/-- `reader.Remaining() == 0`. -/
def atEnd : Read Unit := do
  let left ← remaining
  check (left = 0)

/-- A count, checked against what is left, and as many items. -/
def readItems {α : Type} (minBytesPerItem : Nat) (item : Read α) : Read (List α) := do
  let len ← readPlainLen
  let left ← remaining
  check (validateCount len minBytesPerItem left = true)
  times item len

section Decoder

variable (lzf : Bytes → Nat → Outcome Bytes) (string2ld : Bytes → Option UInt64)

/-- A single string, and nothing behind it. -/
def readBlob : Read Bytes := do
  let blob ← readString lzf
  atEnd
  pure blob

def readField : Read (Bytes × Bytes) := do
  let field ← readString lzf
  let value ← readString lzf
  pure (field, value)

def readMember (score : Read UInt64) : Read (Bytes × UInt64) := do
  let member ← readString lzf
  let score ← score
  pure (member, score)

def readQuickListNode : Read (List Bytes) := do
  let blob ← readString lzf
  within blob readZipList

/-- A node of a quicklist of listpacks: a plain element or a listpack. -/
def readQuickList2Node : Read (List Bytes) := do
  let container ← nextByte
  let blob ← readString lzf
  if container = 1 then pure [blob]
  else do
    check (container = 2)
    within blob readListPack

def scored (entries : List Bytes) : Option (List (Bytes × UInt64)) :=
  (pairUp entries).bind fun pairs => pairs.mapM fun p => (string2ld p.2).map (p.1, ·)

/-- The cases of `DecodeRedisObjectPayload`. -/
def decodeCase : RdbType → Read Contents
  | .string => do
    let value ← readBlob lzf
    pure (.string value)
  | .list => do
    let elements ← readItems 1 (readString lzf)
    atEnd
    pure (.list elements)
  | .set => do
    let elements ← readItems 1 (readString lzf)
    atEnd
    pure (.set elements)
  | .hash => do
    let elements ← readItems 2 (readField lzf)
    atEnd
    pure (.hash elements)
  | .zset => do
    let elements ← readItems 2 (readMember lzf (readZSetScore string2ld))
    atEnd
    pure (.zset elements)
  | .zset2 => do
    let elements ← readItems 2 (readMember lzf readBinaryDouble)
    atEnd
    pure (.zset elements)
  | .listZipList => do
    let blob ← readBlob lzf
    let elements ← within blob readZipList
    pure (.list elements)
  | .setIntSet => do
    let blob ← readBlob lzf
    let elements ← within blob readIntSet
    pure (.set elements)
  | .zsetZipList => do
    let blob ← readBlob lzf
    let entries ← within blob readZipList
    let elements ← ofOption (scored string2ld entries)
    pure (.zset elements)
  | .hashZipList => do
    let blob ← readBlob lzf
    let entries ← within blob readZipList
    let elements ← ofOption (pairUp entries)
    pure (.hash elements)
  | .quickList => do
    let nodes ← readItems 1 (readQuickListNode lzf)
    atEnd
    pure (.list nodes.flatten)
  | .hashListPack => do
    let blob ← readBlob lzf
    let entries ← within blob readListPack
    let elements ← ofOption (pairUp entries)
    pure (.hash elements)
  | .zsetListPack => do
    let blob ← readBlob lzf
    let entries ← within blob readListPack
    let elements ← ofOption (scored string2ld entries)
    pure (.zset elements)
  | .quickList2 => do
    let nodes ← readItems 1 (readQuickList2Node lzf)
    atEnd
    pure (.list nodes.flatten)
  | .setListPack => do
    let blob ← readBlob lzf
    let elements ← within blob readListPack
    pure (.set elements)

/-- `DecodeRedisObjectPayload` up to the elements it writes out. -/
def decodeRedisObject : Read Contents := do
  let type ← nextByte
  match RdbType.ofByte type with
  | some type => decodeCase lzf string2ld type
  | none => fail

/-- The outer type and the serialized form (`PrefixEloqOuterType` and `Serialize`). -/
def serializeOuter (order : HashOrder) (payload : Payload Double) : Bytes :=
  let obj : RedisObject Double := ⟨payload, none⟩
  obj.type.toByte :: obj.serialized order

/-- `Serialize*Payload`: through an object of the type, except for sorted sets. -/
def serializePayload (order : HashOrder) : Contents → Bytes
  | .string value => serializeOuter order (.string (some value))
  | .list elements =>
    serializeOuter order (.list (Lists.RedisListObject.empty.commitRPush elements))
  | .set elements =>
    serializeOuter order (.set (Sets.RedisHashSetObject.empty.commitSAdd elements))
  | .hash elements =>
    serializeOuter order (.hash (Hashes.RedisHashObject.empty.commitHSet elements))
  | .zset elements => RedisObjectType.zset.toByte :: (Contents.zset elements).image none

/-- `ConvertRedisDumpPayloadToEloqPayload`: what it returns, and what it leaves in its output. -/
def convertRedisDumpPayloadToEloqPayload (order : HashOrder) (dumpPayload : Bytes) :
    Outcome Bool × Bytes :=
  match (decodeRedisObject lzf string2ld (.at dumpPayload)).1 with
  | .ok contents => (.ok true, serializePayload order contents)
  | .fail => (.ok false, [])
  | .fault => (.fault, [])

end Decoder

/-! ## Where bits are lost -/

variable (lzf : Bytes → Nat → Outcome Bytes)

/-- A node in front of the one where bits are lost: plain, or a listpack that is accepted. -/
def IsNode (bytes : Bytes) (values : List Bytes) : Prop :=
  ∃ str blob, IsString lzf str blob ∧
    ((bytes = 1 :: str ∧ values = [blob]) ∨ (bytes = 2 :: str ∧ IsListPack blob values))

/-- A node with a listpack in which bits are lost. -/
def LostNode (bytes : Bytes) : Prop :=
  ∃ str rest blob, bytes = 2 :: (str ++ rest) ∧ IsString lzf str blob ∧ WideListPack blob

/-- A listpack behind the type loses bits: the only one, or one the decoder gets to. -/
def LostValue : RdbType → Bytes → Prop
  | .hashListPack, body | .zsetListPack, body | .setListPack, body =>
    ∃ blob, IsString lzf body blob ∧ WideListPack blob
  | .quickList2, body => ∃ (count : LenForm) (nodes : Bytes), body = count.encode ++ nodes ∧
      validateCount count.value 1 nodes.length = true ∧
        LostBehind (IsNode lzf) (LostNode lzf) (· < count.value) nodes
  | _, _ => False

/-- The payload has a listpack in which bits are lost. -/
def LostPayload (payload : Bytes) : Prop :=
  ∃ (type : RdbType) (body : Bytes), payload = type.toByte :: body ∧ LostValue lzf type body

section Safety

variable {lzf : Bytes → Nat → Outcome Bytes} (string2ld : Bytes → Option UInt64)
  (hlzf : ∀ bytes n, lzf bytes n ≠ .fault)

lemma clean_atEnd : Clean atEnd := clean_remaining.bind fun _ => clean_check _

lemma clean_readItems {α : Type} {item : Read α} (minBytes : Nat) (hitem : Clean item) :
    Clean (readItems minBytes item) :=
  clean_readPlainLen.bind fun len => clean_remaining.bind fun _ => (clean_check _).bind fun _ =>
    hitem.times len

lemma tracks_readItems {α : Type} {item : Read α} {grammar : Bytes → α → Prop}
    {lost : Bytes → Prop} (minBytes : Nat) (hitem : Reads item grammar lost) :
    Tracks (readItems minBytes item) fun bytes => ∃ (count : LenForm) (items : Bytes),
      bytes = count.encode ++ items ∧ validateCount count.value minBytes items.length = true ∧
        LostBehind grammar lost (· < count.value) items := by
  refine (reads_readPlainLen.bind_tracks fun len => tracks_remaining fun _ =>
    tracks_check (hitem.times len)).congr fun bytes => ?_
  rw [false_or]
  constructor
  · rintro ⟨_, items, _, rfl, ⟨count, rfl, rfl⟩, hcount, hlost⟩
    exact ⟨count, items, rfl, hcount, hlost⟩
  · rintro ⟨count, items, rfl, hcount, hlost⟩
    exact ⟨_, items, _, rfl, ⟨count, rfl, rfl⟩, hcount, hlost⟩

lemma readBlob_eq_ok {bytes blob : Bytes} {o : Bool} {c : Cursor} :
    readBlob lzf ⟨bytes, o⟩ = (.ok blob, c) ↔ IsString lzf bytes blob ∧ c = ⟨[], o⟩ := by
  constructor
  · intro h
    obtain ⟨_, _, hstring, h⟩ := bind_eq_ok.mp h
    obtain ⟨pre, rest, rfl, hpre, rfl⟩ := accepts_readString hstring
    obtain ⟨_, _, hend, h⟩ := bind_eq_ok.mp h
    obtain ⟨hnil, rfl⟩ := check_eq_ok.mp hend
    obtain rfl := List.eq_nil_of_length_eq_zero hnil
    obtain ⟨rfl, rfl⟩ := pure_eq_ok.mp h
    rw [List.append_nil]
    exact ⟨hpre, rfl⟩
  · rintro ⟨hstring, rfl⟩
    have hread := parses_readString hstring [] o
    rw [List.append_nil] at hread
    have hend : atEnd ⟨[], o⟩ = (.ok (), ⟨[], o⟩) := rfl
    rw [readBlob, bind_of_ok hread, bind_of_ok hend, pure_run]

include hlzf

lemma clean_readBlob : Clean (readBlob lzf) :=
  (clean_readString hlzf).bind fun blob => clean_atEnd.bind fun _ => clean_pure blob

lemma tracks_openBlob {α β : Type} {x : Read α} {lost : Bytes → Prop} (hx : Tracks x lost)
    {f : α → Read β} (hf : ∀ a, Clean (f a)) :
    Tracks (do
      let blob ← readBlob lzf
      let a ← within blob x
      f a) fun body => ∃ blob, IsString lzf body blob ∧ lost blob := by
  refine ((clean_readBlob hlzf).bind_tracks fun blob =>
    (hx.within blob).bind_clean hf).congr fun body => ?_
  constructor
  · rintro ⟨blob, _, _, hread, hlost⟩
    exact ⟨blob, (readBlob_eq_ok.mp hread).1, hlost⟩
  · rintro ⟨blob, hstring, hlost⟩
    exact ⟨blob, [], false, readBlob_eq_ok.mpr ⟨hstring, rfl⟩, hlost⟩

lemma clean_openBlob {α β : Type} {x : Read α} (hx : Clean x) {f : α → Read β}
    (hf : ∀ a, Clean (f a)) :
    Clean (do
      let blob ← readBlob lzf
      let a ← within blob x
      f a) :=
  (clean_readBlob hlzf).bind fun blob => Clean.bind (Tracks.within hx blob) hf

lemma reads_readQuickList2Node : Reads (readQuickList2Node lzf) (IsNode lzf) (LostNode lzf) := by
  refine ⟨?_, ?_, ?_⟩
  · have htail : ∀ (container : UInt8) (blob : Bytes), Tracks (if container = 1 then pure [blob]
        else do
          check (container = 2)
          within blob readListPack) fun _ => container = 2 ∧ WideListPack blob := by
      intro container blob
      by_cases hplain : container = 1
      · rw [if_pos hplain]
        refine (clean_pure [blob]).congr fun _ => ⟨False.elim, ?_⟩
        rintro ⟨hpacked, -⟩
        exact absurd (hplain.symm.trans hpacked) (by decide)
      · rw [if_neg hplain]
        exact tracks_check (tracks_readListPack.within blob)
    refine (reads_nextByte.bind_tracks fun container =>
      (reads_readString hlzf).bind_tracks (htail container)).congr fun bytes => ?_
    simp only [false_or]
    constructor
    · rintro ⟨_, _, _, rfl, rfl, str, rest, blob, rfl, hstring, rfl, hwide⟩
      exact ⟨str, rest, blob, rfl, hstring, hwide⟩
    · rintro ⟨str, rest, blob, rfl, hstring, hwide⟩
      exact ⟨[2], str ++ rest, 2, rfl, rfl, str, rest, blob, rfl, hstring, rfl, hwide⟩
  · rintro _ values ⟨str, blob, hstring, ⟨rfl, rfl⟩ | ⟨rfl, hpack⟩⟩ rest o
    · rw [List.cons_append, readQuickList2Node, nextByte_bind,
        (parses_readString hstring).bind_run, if_pos rfl, pure_run]
    · rw [List.cons_append, readQuickList2Node, nextByte_bind, (parses_readString hstring).bind_run,
        if_neg (by decide), check_bind rfl, within, readListPack_of_isListPack hpack o]
  · intro bytes values rest h
    obtain ⟨container, _, hcontainer, h⟩ := bind_eq_ok.mp h
    obtain ⟨tail, rfl, rfl⟩ := nextByte_eq_ok.mp hcontainer
    obtain ⟨blob, _, hblob, h⟩ := bind_eq_ok.mp h
    obtain ⟨str, tail', rfl, hstring, rfl⟩ := accepts_readString hblob
    split_ifs at h with hplain
    · obtain ⟨rfl, hc⟩ := pure_eq_ok.mp h
      obtain ⟨rfl, -⟩ := Cursor.mk.injEq .. ▸ hc
      exact ⟨container :: str, rfl, str, blob, hstring, .inl ⟨by rw [hplain], rfl⟩⟩
    · obtain ⟨rfl, h⟩ := check_bind_eq_ok.mp h
      obtain ⟨_, _, hpack, hc⟩ := within_eq_ok.mp h
      obtain ⟨rfl, rfl⟩ := Cursor.mk.injEq .. ▸ hc
      exact ⟨2 :: str, rfl, str, blob, hstring, .inr ⟨rfl, isListPack_of_readListPack hpack⟩⟩

/-- **Every case reads inside the payload, and bits are lost in listpacks only.** -/
theorem tracks_decodeCase (type : RdbType) :
    Tracks (decodeCase lzf string2ld type) (LostValue lzf type) := by
  have hstring := clean_readString hlzf
  have hfield : Clean (readField lzf) := hstring.bind fun _ => hstring.bind fun _ => clean_pure _
  have hmember : ∀ {score}, Clean score → Clean (readMember lzf score) := fun hscore =>
    hstring.bind fun _ => hscore.bind fun _ => clean_pure _
  have hend : ∀ c : Contents, Clean (do
      atEnd
      pure c) := fun c => clean_atEnd.bind fun _ => clean_pure c
  cases type with
  | string => exact (clean_readBlob hlzf).bind fun _ => clean_pure _
  | list => exact (clean_readItems 1 hstring).bind fun elements => hend (.list elements)
  | set => exact (clean_readItems 1 hstring).bind fun elements => hend (.set elements)
  | hash => exact (clean_readItems 2 hfield).bind fun elements => hend (.hash elements)
  | zset =>
    exact (clean_readItems 2 (hmember (clean_readZSetScore string2ld))).bind fun elements =>
      hend (.zset elements)
  | zset2 =>
    exact (clean_readItems 2 (hmember clean_readBinaryDouble)).bind fun elements =>
      hend (.zset elements)
  | listZipList => exact clean_openBlob hlzf clean_readZipList fun _ => clean_pure _
  | setIntSet => exact clean_openBlob hlzf clean_readIntSet fun _ => clean_pure _
  | zsetZipList =>
    exact clean_openBlob hlzf clean_readZipList fun _ =>
      (clean_ofOption _).bind fun _ => clean_pure _
  | hashZipList =>
    exact clean_openBlob hlzf clean_readZipList fun _ =>
      (clean_ofOption _).bind fun _ => clean_pure _
  | quickList =>
    have hnode : Clean (readQuickListNode lzf) :=
      hstring.bind fun blob => Tracks.within clean_readZipList blob
    exact (clean_readItems 1 hnode).bind fun nodes => hend (.list nodes.flatten)
  | hashListPack =>
    exact tracks_openBlob hlzf tracks_readListPack fun _ =>
      (clean_ofOption _).bind fun _ => clean_pure _
  | zsetListPack =>
    exact tracks_openBlob hlzf tracks_readListPack fun _ =>
      (clean_ofOption _).bind fun _ => clean_pure _
  | quickList2 =>
    exact (tracks_readItems 1 (reads_readQuickList2Node hlzf)).bind_clean fun nodes =>
      hend (.list nodes.flatten)
  | setListPack => exact tracks_openBlob hlzf tracks_readListPack fun _ => clean_pure _

/-- **The decoder reads inside the payload, comes to an end, and loses bits exactly on payloads
with such a listpack.** -/
theorem tracks_decodeRedisObject : Tracks (decodeRedisObject lzf string2ld) (LostPayload lzf) := by
  intro payload
  match payload with
  | [] =>
    refine ⟨.fail, [], false, nofun, ?_, fun o => ?_⟩
    · simp [LostPayload]
    · rw [decodeRedisObject, bind_of_fail (nextByte_nil o), Bool.or_false]
  | b :: body =>
    cases htype : RdbType.ofByte b with
    | none =>
      refine ⟨.fail, body, false, nofun, ?_, fun o => ?_⟩
      · rw [Bool.false_eq_true, false_iff]
        rintro ⟨type, body', hcons, -⟩
        obtain ⟨rfl, -⟩ := List.cons.inj hcons
        rw [RdbType.ofByte_toByte] at htype
        exact nomatch htype
      · rw [decodeRedisObject, nextByte_bind, htype, Bool.or_false]
        rfl
    | some type =>
      obtain rfl := RdbType.toByte_of_ofByte htype
      obtain ⟨r, rest, l, hr, hl, hrun⟩ := tracks_decodeCase string2ld hlzf type body
      refine ⟨r, rest, l, hr, hl.trans ?_, fun o => ?_⟩
      · constructor
        · exact fun hlost => ⟨type, body, rfl, hlost⟩
        · rintro ⟨type', body', hcons, hlost⟩
          obtain ⟨hbyte, rfl⟩ := List.cons.inj hcons
          exact RdbType.toByte_injective hbyte ▸ hlost
      · rw [decodeRedisObject, nextByte_bind, htype]
        exact hrun o

end Safety

end EloqKV.Rdb
