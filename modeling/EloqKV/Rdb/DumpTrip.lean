/-
  What DUMP writes, RESTORE reads back.

  The value goes through five codecs, each with one lemma here: the form Redis writes, the footer,
  the decoder of that form, the server's own serializer and its reader.
-/
import EloqKV.Rdb.Restore

open List hiding Cursor

namespace EloqKV.Objects

/-- The number of entries, if these are the contents of a collection. -/
def Contents.count : Contents → Nat
  | .string _ => 0
  | .list elements => elements.length
  | .set members => members.length
  | .hash pairs => pairs.length
  | .zset pairs => pairs.length

/-- `Elements().size()`, for a collection. -/
def Payload.elementCount {S : Type} : Payload S → Nat
  | .string _ => 0
  | .list l => l.listObject.length
  | .hash h => h.hashMap.entries.length
  | .set s => s.hashSet.length
  | .zset z => z.zHashMap.length

variable {S : Type} [LinearOrder S] [ScoreBits S]

lemma Payload.count_contents (order : HashOrder) {payload : Payload S}
    (hp : payload.WellFormed) : (payload.contents order).count = payload.elementCount := by
  cases payload with
  | string value => rfl
  | list l => rfl
  | hash h =>
    show ((order.walk h.hashMap.entries).map _).length = _
    rw [length_map, (order.perm h.hashMap.entries).length_eq]
    rfl
  | set s => exact (order.perm s.hashSet).length_eq
  | zset z =>
    show ((walkMembers order z).map _).length = z.zHashMap.length
    rw [length_map, (walkMembers_perm order hp.toCoherent).length_eq, hp.entries.length_eq,
      Zset.RedisZsetObject.pairs, length_map, length_map]

end EloqKV.Objects

namespace EloqKV.Rdb

open Lib.Endian (le ofLe)
open Lib.Reader (Cursor Outcome Read)
open Lib.Reader.Read
open Hashes (RedisHashObject)
open EloqKV.Lists (RedisListObject)
open Objects (Contents HashOrder Payload RedisObject RedisObjectType ScoreBits)
open Sets (RedisHashSetObject)
open Zset (RedisZsetObject)

/-! ## The form Redis writes -/

section Payloads

variable (lzf : Bytes → Nat → Outcome Bytes) (string2ld : Bytes → Option UInt64)

lemma readItems_run {α : Type} {item : Read α} {enc : α → Bytes} {minBytes : Nat}
    {items : List α} (hlen : items.length < 2 ^ 64) (hitem : ∀ i ∈ items, Parses item (enc i) i)
    (hmin : ∀ i ∈ items, minBytes ≤ (enc i).length) (f : List α → Contents) (o : Bool) :
    ((do
      let elements ← readItems minBytes item
      atEnd
      pure (f elements) : Read Contents) ⟨appendRdbLen items.length ++ items.flatMap enc, o⟩).1
      = if items.length ≤ maxCollectionEntries then .ok (f items) else .fail := by
  have hcount := parses_appendRdbLen hlen (items.flatMap enc) o
  split_ifs with hcap
  · have hbytes := (Contents.mul_length_le_length_flatMap minBytes enc items hmin).1
    have hvalid : validateCount items.length minBytes (items.flatMap enc).length = true := by
      unfold validateCount
      rw [if_neg (Nat.not_lt.mpr hcap)]
      split_ifs with hzero
      · rfl
      · exact decide_eq_true ((Nat.le_div_iff_mul_le (Nat.pos_of_ne_zero hzero)).mpr hbytes)
    have htimes := Parses.times items hitem [] o
    rw [append_nil, map_id'] at htimes
    have hread : readItems minBytes item ⟨appendRdbLen items.length ++ items.flatMap enc, o⟩
        = (.ok items, ⟨[], o⟩) := by
      rw [readItems, bind_of_ok hcount, remaining_bind, check_bind hvalid, htimes]
    have hend : atEnd ⟨[], o⟩ = (.ok (), ⟨[], o⟩) := rfl
    rw [bind_of_ok hread, bind_of_ok hend, pure_run]
  · have hvalid : ¬validateCount items.length minBytes (items.flatMap enc).length = true := by
      rw [validateCount, if_pos (Nat.lt_of_not_le hcap)]
      exact Bool.false_ne_true
    have hread : readItems minBytes item ⟨appendRdbLen items.length ++ items.flatMap enc, o⟩
        = (.fail, ⟨items.flatMap enc, o⟩) := by
      rw [readItems, bind_of_ok hcount, remaining_bind, check_bind_false hvalid]
    rw [bind_of_fail hread]

lemma one_le_length_appendRdbLen (length : Nat) : 1 ≤ (appendRdbLen length).length := by
  unfold appendRdbLen
  split_ifs <;> simp

lemma decodeRedisObject_cons (type : RdbType) (body : Bytes) (o : Bool) :
    decodeRedisObject lzf string2ld ⟨type.toByte :: body, o⟩
      = decodeCase lzf string2ld type ⟨body, o⟩ := by
  rw [decodeRedisObject, nextByte_bind, RdbType.ofByte_toByte]

/-- What Redis writes is read back, unless it has more entries than the decoder takes. -/
theorem decode_rdbPayload {c : Contents} (hc : c.Fits) :
    (decodeRedisObject lzf string2ld (.at (rdbPayload c))).1
      = if c.count ≤ maxCollectionEntries then .ok c else .fail := by
  have hwide : ∀ {n : Nat}, n < 2 ^ 32 → n < 2 ^ 64 := fun h => h.trans (by decide)
  have hstring : ∀ {s : Bytes}, s.length < 2 ^ 32 →
      Parses (readString lzf) (appendRdbString s) s := fun h =>
    parses_readString (isString_appendRdbString lzf (hwide h))
  have hlength : ∀ s : Bytes, 1 ≤ (appendRdbString s).length := fun s => by
    rw [appendRdbString, length_append]
    exact (one_le_length_appendRdbLen s.length).trans (Nat.le_add_right _ _)
  cases c with
  | string value =>
    have hblob : readBlob lzf ⟨appendRdbString value, false⟩ = (.ok value, ⟨[], false⟩) :=
      readBlob_eq_ok.mpr ⟨isString_appendRdbString lzf (hwide hc), rfl⟩
    rw [rdbPayload, Lib.Reader.Cursor.at, decodeRedisObject_cons, decodeCase,
      bind_of_ok hblob, pure_run]
    exact (if_pos (Nat.zero_le maxCollectionEntries)).symm
  | list elements =>
    rw [rdbPayload, Lib.Reader.Cursor.at, decodeRedisObject_cons]
    exact readItems_run (hwide hc.1) (fun e he => hstring (hc.2 e he)) (fun e _ => hlength e)
      .list false
  | set members =>
    rw [rdbPayload, Lib.Reader.Cursor.at, decodeRedisObject_cons]
    exact readItems_run (hwide hc.1) (fun e he => hstring (hc.2 e he)) (fun e _ => hlength e)
      .set false
  | hash pairs =>
    rw [rdbPayload, Lib.Reader.Cursor.at, decodeRedisObject_cons]
    refine readItems_run (hwide hc.1) (fun p hp => ?_) (fun p _ => ?_) .hash false
    · exact (hstring (hc.2 p hp).1).bind ((hstring (hc.2 p hp).2).map (p.1, ·))
    · have h₁ := hlength p.1
      have h₂ := hlength p.2
      rw [length_append]
      omega
  | zset pairs =>
    rw [rdbPayload, Lib.Reader.Cursor.at, decodeRedisObject_cons]
    refine readItems_run (hwide hc.1) (fun p hp => ?_) (fun p _ => ?_) .zset false
    · have hbits : Parses readBinaryDouble (le 8 p.2.toNat) p.2 := by
        have h := (parses_readLE (w := 8) p.2.toNat_lt).map UInt64.ofNat
        rwa [UInt64.ofNat_toNat] at h
      exact (hstring (hc.2 p hp)).bind (hbits.map (p.1, ·))
    · have h₁ := hlength p.1
      rw [length_append, Lib.Endian.length_le]
      omega

end Payloads

/-! ## The server's own form -/

/-- What the objects write: hash tables keep one of several, in the order of the process. -/
def written (order : HashOrder) : Contents → Contents
  | .string value => .string value
  | .list elements => .list elements
  | .set elements => .set (order.walk (RedisHashSetObject.empty.commitSAdd elements).hashSet)
  | .hash elements => .hash ((order.walk
      (RedisHashObject.empty.commitHSet elements).hashMap.entries).map fun e => (e.1, e.2))
  | .zset elements => .zset elements

lemma serializePayload_eq (order : HashOrder) (c : Contents) :
    serializePayload order c = ((written order c).type none).toByte ::
      ((written order c).type none).toByte :: (written order c).encode := by
  have houter : ∀ payload : Payload Objects.Double, serializeOuter order payload =
      (⟨payload, none⟩ : RedisObject Objects.Double).type.toByte ::
      (⟨payload, none⟩ : RedisObject Objects.Double).type.toByte ::
        (payload.contents order).encode := by
    intro payload
    rw [serializeOuter, RedisObject.serialized_eq]
    rfl
  cases c with
  | string value => exact houter _
  | list elements =>
    rw [serializePayload, houter, RedisListObject.commitRPush_eq]
    rfl
  | set elements => exact houter _
  | hash elements => exact houter _
  | zset elements => rfl

lemma sameItems_written (order : HashOrder) {c : Contents} (hc : c.Distinct) :
    (written order c).SameItems c := by
  cases c with
  | string value => exact .string value
  | list elements => exact .list elements
  | set elements =>
    refine .set ((order.perm _).trans ?_)
    rw [Objects.hashSet_filled hc]
  | hash elements =>
    refine .hash ?_
    have hentries := (order.perm _).trans (Objects.entries_filled hc (1 + 4))
    have hmap := hentries.map fun e => (e.1, e.2)
    rwa [map_map, show (fun e : (_ : Bytes) × Bytes => (e.1, e.2)) ∘
      (fun p : Bytes × Bytes => ⟨p.1, p.2⟩) = id from rfl, map_id] at hmap
  | zset elements => exact .zset elements

section Commit

variable {S : Type} [LinearOrder S] [ScoreBits S]

def requestedTTL (expireWhen : Nat) : Option Nat :=
  if expireWhen = uint64Max then none else some expireWhen

omit [ScoreBits S] in
lemma size_setExpireWhen (expireWhen : Nat) (payload : Payload S) :
    (setExpireWhen expireWhen ⟨payload, none⟩).size = payload.size := by
  unfold setExpireWhen
  split_ifs
  · rfl
  · cases payload <;> rfl

omit [ScoreBits S] in
lemma setExpireWhen_spec (expireWhen : Nat) {payload : Payload S} (hp : payload.WellFormed) :
    (setExpireWhen expireWhen ⟨payload, none⟩).WellFormed ∧
      (setExpireWhen expireWhen ⟨payload, none⟩).ttl = requestedTTL expireWhen ∧
      (setExpireWhen expireWhen ⟨payload, none⟩).isEmpty = payload.isEmpty ∧
      ∀ other, payload.SameContents other →
        (setExpireWhen expireWhen ⟨payload, none⟩).payload.SameContents other := by
  unfold setExpireWhen requestedTTL
  split_ifs with hnone
  · exact ⟨hp, rfl, rfl, fun _ h => h⟩
  · cases payload with
    | zset z =>
      obtain ⟨hwf, hperm⟩ := hp.copy
      have hpairs := Objects.pairs_eq_of_perm hwf.toCoherent hp.toCoherent hperm
      refine ⟨hwf, rfl, ?_, fun other hsame => ?_⟩
      · have hempty := congrArg List.isEmpty hpairs
        rwa [RedisZsetObject.pairs, RedisZsetObject.pairs, isEmpty_map, isEmpty_map] at hempty
      · cases other with
        | zset other => exact hpairs.trans hsame
        | _ => exact hsame
    | _ => exact ⟨hp, rfl, rfl, fun _ h => h⟩

namespace RestoreCommand

lemma commitOn_of_build {cmd : RestoreCommand} {c : Contents} (hc : c.Fits) {b : UInt8}
    {post : Bytes} (hvalue : cmd.value = (c.type none).toByte :: b :: (c.encode ++ post))
    {payload : Payload S} (hbuild : c.build (1 + c.encode.length) = some payload) :
    cmd.commitOn = .ok (some (setExpireWhen cmd.expireWhen ⟨payload, none⟩)) := by
  have htype : restoreType (c.type none).toByte = some (c.type none) := by
    rw [restoreType, RedisObjectType.ofByte_toByte, Option.filter_some, c.hasTTL_type]
    rfl
  have httl : Objects.TTLFits none := nofun
  have hread := Objects.deserialize_run (S := S) hc httl b post false
  rw [Contents.outcome_of_build hbuild] at hread
  have hrun : readValue (S := S) (.at cmd.value) = (.ok (some ⟨payload, none⟩), ⟨post, false⟩) := by
    rw [hvalue, readValue, Lib.Reader.Cursor.at, byte_bind, htype]
    exact bind_of_ok hread
  rw [commitOn, hrun]

end RestoreCommand

/-! ## The footer -/

lemma footer_cuts {arg payload version crc : Bytes} (harg : arg = payload ++ (version ++ crc))
    (hversion : version.length = 2) (hcrc : crc.length = 8) :
    arg.length = payload.length + 10 ∧ arg.take (arg.length - 10) = payload ∧
      arg.take (arg.length - 8) = payload ++ version ∧
      arg.drop (arg.length - 10) = version ++ crc := by
  have hlen : arg.length = payload.length + 10 := by
    rw [harg, length_append, length_append, hversion, hcrc]
  have hpayload : arg.length - 10 = payload.length := by rw [hlen, Nat.add_sub_cancel]
  have hfront : arg.length - 8 = (payload ++ version).length := by
    rw [hlen, length_append, hversion]
    rfl
  refine ⟨hlen, ?_, ?_, ?_⟩
  · rw [hpayload, harg, take_left]
  · rw [hfront, harg, ← append_assoc, take_left]
  · rw [hpayload, harg, drop_left]

omit [LinearOrder S] in
lemma verifyDumpPayload_dump {env env' : RestoreEnv} (hcrc : env'.crc64 = env.crc64)
    (obj : RedisObject S) :
    verifyDumpPayload env' (dump env obj) = some .redisRdb ∧
      (dump env obj).take ((dump env obj).length - 10)
        = convertEloqObjectToRedisDumpPayload env obj := by
  have hdump : dump env obj = convertEloqObjectToRedisDumpPayload env obj ++
      (le 2 redisDumpVersion ++ le 8 (env.crc64
        (convertEloqObjectToRedisDumpPayload env obj ++ le 2 redisDumpVersion)).toNat) := by
    rw [dump, append_assoc]
  obtain ⟨hlen, hpayload, hchecked, hfooter⟩ :=
    footer_cuts hdump (Lib.Endian.length_le _ _) (Lib.Endian.length_le _ _)
  refine ⟨?_, hpayload⟩
  have hversion : ofLe (le 2 redisDumpVersion) = 10 := rfl
  unfold verifyDumpPayload
  rw [if_neg (by omega)]
  simp only [hfooter, hchecked, take_left' (Lib.Endian.length_le 2 redisDumpVersion),
    drop_left' (Lib.Endian.length_le 2 redisDumpVersion), hversion, hcrc]
  rfl

/-! ## The trip -/

/-- A dumped value comes back: the footer is accepted, the payload is converted, and what is
committed is an object of the same type with the same contents, with the deadline asked for. -/
def RestoresBack (env : RestoreEnv) (arg : Bytes) (obj : RedisObject S) (expireWhen : Nat) : Prop :=
  verifyDumpPayload env arg = some .redisRdb ∧
  ∃ value, convertRedisDumpPayloadToEloqPayload env.lzf env.string2ld env.order
      (arg.take (arg.length - 10)) = (.ok true, value) ∧
    ∀ replace, ∃ obj' : RedisObject S,
      (⟨value, expireWhen, replace, true, []⟩ : RestoreCommand).commitOn = .ok (some obj') ∧
        obj'.payload.SameContents obj.payload ∧ obj'.ttl = requestedTTL expireWhen ∧
        obj'.size = obj.size ∧ obj'.WellFormed

section Trip

variable {env env' : RestoreEnv} (hcrc : env'.crc64 = env.crc64) {obj : RedisObject S}
  (hobj : obj.WellFormed) (hsize : obj.size ≤ maxObjectSize)

include hcrc hobj hsize

lemma convert_dump : convertRedisDumpPayloadToEloqPayload env'.lzf env'.string2ld env'.order
      ((dump env obj).take ((dump env obj).length - 10))
    = if obj.payload.elementCount ≤ maxCollectionEntries then
        (.ok true, serializePayload env'.order (obj.payload.contents env.order))
      else (.ok false, []) := by
  have hfits := Contents.fits_of_length (Payload.length_encode_lt env.order hobj hsize)
  have hdecode := decode_rdbPayload env'.lzf env'.string2ld hfits
  rw [Payload.count_contents env.order hobj] at hdecode
  rw [(verifyDumpPayload_dump hcrc obj).2, convertEloqObjectToRedisDumpPayload,
    convertRedisDumpPayloadToEloqPayload, hdecode]
  split_ifs <;> rfl

lemma elementCount_le_of_restoresBack {expireWhen : Nat}
    (h : RestoresBack env' (dump env obj) obj expireWhen) :
    obj.payload.elementCount ≤ maxCollectionEntries := by
  obtain ⟨-, value, hconvert, -⟩ := h
  by_contra hcount
  rw [convert_dump hcrc hobj hsize, if_neg hcount] at hconvert
  exact nomatch hconvert

/-- **What DUMP writes is restored exactly if the decoder's cap on entries admits it.** -/
theorem dump_restores_back_iff (expireWhen : Nat) :
    RestoresBack env' (dump env obj) obj expireWhen
      ↔ obj.payload.elementCount ≤ maxCollectionEntries := by
  refine ⟨elementCount_le_of_restoresBack hcrc hobj hsize, fun hcount => ?_⟩
  have hconvert := convert_dump hcrc hobj hsize
  rw [if_pos hcount] at hconvert
  refine ⟨(verifyDumpPayload_dump hcrc obj).1, _, hconvert, fun replace => ?_⟩
  -- the restoring process walks its own hash table, which holds the same items
  have hsame := sameItems_written env'.order (Payload.distinct_contents env.order hobj)
  obtain ⟨payload', hbuild, hwf, hcontents, hsize'⟩ := Payload.build_sameItems env.order hobj hsame
  obtain ⟨hwf', httl, -, hcontents'⟩ := setExpireWhen_spec expireWhen hwf
  have hfits : (written env'.order (obj.payload.contents env.order)).Fits :=
    Contents.fits_of_length (hsame.length_encode ▸ Payload.length_encode_lt env.order hobj hsize)
  have hvalue := serializePayload_eq env'.order (obj.payload.contents env.order)
  rw [← append_nil (Contents.encode _)] at hvalue
  exact ⟨_, RestoreCommand.commitOn_of_build hfits hvalue hbuild, hcontents' _ hcontents, httl,
    (size_setExpireWhen expireWhen payload').trans hsize', hwf'⟩

end Trip

end Commit

/-- A hash that is restored with a deadline. -/
theorem hash_restores_back :
    let h := RedisHashObject.empty.commitHSet [(ascii "f", ascii "1"), (ascii "g", [])]
    let obj : RedisObject Objects.Double := ⟨.hash h, some 7⟩
    RestoresBack plainEnv (dump plainEnv obj) obj 99 := by
  intro h obj
  have hwf : obj.WellFormed := Hashes.RedisHashObject.wellFormed_empty.commitHSet _
  exact (dump_restores_back_iff rfl hwf (by decide) 99).mpr (by decide)

def emptyElements (n : Nat) : RedisListObject := ⟨List.replicate n [], 1 + 4 + 4 * n⟩

lemma wellFormed_emptyElements (n : Nat) : (emptyElements n).WellFormed := by
  show 1 + 4 + 4 * n = 1 + 4 + itemsLength (List.replicate n [])
  simp only [itemsLength, map_replicate, sum_replicate_nat, itemLength, length_nil]
  omega

/-- A list of four megabytes has one element more than the decoder takes. -/
theorem long_list_not_restored :
    let obj : RedisObject Objects.Double := ⟨.list (emptyElements (2 ^ 20 + 1)), none⟩
    obj.WellFormed ∧ obj.size ≤ maxObjectSize ∧
      ¬RestoresBack plainEnv (dump plainEnv obj) obj uint64Max := by
  intro obj
  have hwf : obj.WellFormed := wellFormed_emptyElements _
  have hsize : obj.size ≤ maxObjectSize := by
    decide
  refine ⟨hwf, hsize, fun h => ?_⟩
  have hcount : (List.replicate (2 ^ 20 + 1) ([] : Bytes)).length ≤ 2 ^ 20 :=
    elementCount_le_of_restoresBack rfl hwf hsize h
  rw [length_replicate] at hcount
  exact absurd hcount (Nat.not_succ_le_self _)

end EloqKV.Rdb
