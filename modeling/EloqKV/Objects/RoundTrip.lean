/-
  Objects survive being serialized and read back.

  The order in which a hash table is walked is the process's own, so what is the same is the
  contents.  The vector serializer needs in addition that `serialized_length_` is right, which is
  the invariant of the objects.
-/
import EloqKV.Objects.Serialize

open List hiding Cursor

namespace EloqKV.Objects

open Contents Payload

open Lib.Endian (le)
open Lib.Reader (Cursor)
open Hashes (RedisHashObject)
open Sets (RedisHashSetObject)
open Zset (RedisZsetObject)

section RoundTrip

variable {S : Type} [LinearOrder S] [ScoreBits S]

/-! ## What the walks see -/

variable (order : HashOrder)

omit [ScoreBits S] in
lemma walkMembers_perm {z : RedisZsetObject S} (hz : z.Coherent) :
    (walkMembers order z).Perm z.pairs := by
  have hentries : (order.walk z.zHashMap).Perm (z.zOrderedSet.map Zset.ZNode.entry) :=
    (order.perm _).trans hz.entries
  refine (hentries.filterMap _).trans (List.Perm.of_eq ?_)
  rw [filterMap_map, RedisZsetObject.pairs, ← filterMap_eq_map]
  refine filterMap_congr fun n hn => ?_
  have hdenotes : z.denotes n.addr = some n.field := RedisZsetObject.denotes_of_mem hz.addrs hn
  simp [Zset.ZNode.entry, hdenotes]

omit [ScoreBits S] in
lemma pairs_eq_of_perm {z z' : RedisZsetObject S} (hz : z.Coherent) (hz' : z'.Coherent)
    (hperm : z.pairs.Perm z'.pairs) : z.pairs = z'.pairs := by
  have hsorted : ∀ {z : RedisZsetObject S}, z.Coherent →
      z.pairs.Pairwise fun p q => p.2 < q.2 ∨ (p.2 = q.2 ∧ p.1 < q.1) := by
    intro z hz
    rw [RedisZsetObject.pairs, pairwise_map]
    exact hz.sorted.imp fun h => (Zset.cmp_iff _ _).mp h
  refine hperm.eq_of_pairwise (fun p q _ _ hpq hqp => ?_) (hsorted hz) (hsorted hz')
  -- the order is strict, so no two different pairs stand both ways
  rcases hpq with hlt | ⟨heq, hlt⟩ <;> rcases hqp with hlt' | ⟨heq', hlt'⟩
  · exact absurd hlt' (lt_asymm hlt)
  · exact absurd heq' hlt.ne'
  · exact absurd heq hlt'.ne'
  · exact absurd hlt' (List.lt_asymm hlt)

omit [LinearOrder S] in
lemma mapM_ofBits (pairs : List (Bytes × S)) :
    (pairs.map fun p => (p.1, ScoreBits.toBits p.2)).mapM
      (fun p => (ScoreBits.ofBits (S := S) p.2).map (p.1, ·)) = some pairs := by
  induction pairs with
  | nil => rfl
  | cons p pairs ih =>
    rw [map_cons, mapM_cons, ih, ScoreBits.ofBits_toBits]
    rfl

lemma entries_commitHSet {h : RedisHashObject} {pairs : List (Bytes × Bytes)}
    (hnodup : (pairs.map Prod.fst).Nodup) (hfresh : ∀ p ∈ pairs, p.1 ∉ h.hashMap.keys) :
    (h.commitHSet pairs).hashMap.entries.Perm
      (pairs.map (fun p => ⟨p.1, p.2⟩) ++ h.hashMap.entries) := by
  induction pairs generalizing h with
  | nil => exact List.Perm.refl _
  | cons p pairs ih =>
    obtain ⟨hp, hpairs⟩ := nodup_cons.mp hnodup
    have hkey : p.1 ∉ h.hashMap.keys := hfresh p mem_cons_self
    have hinsert : (h.setField p.1 p.2).hashMap.entries = ⟨p.1, p.2⟩ :: h.hashMap.entries :=
      AList.entries_insert_of_notMem fun hmem => hkey (AList.mem_keys.mp hmem)
    have hnext : ∀ q ∈ pairs, q.1 ∉ (h.setField p.1 p.2).hashMap.keys := by
      intro q hq hmem
      rw [AList.keys, hinsert, keys_cons, mem_cons] at hmem
      rcases hmem with heq | hmem
      · exact hp (mem_map.mpr ⟨q, hq, heq⟩)
      · exact hfresh q (mem_cons_of_mem p hq) hmem
    have hrest := ih hpairs hnext
    rw [hinsert] at hrest
    rw [RedisHashObject.commitHSet, foldl_cons]
    exact hrest.trans perm_middle

lemma hashSet_commitSAdd {s : RedisHashSetObject} {members : List Bytes}
    (hnodup : members.Nodup) (hfresh : ∀ m ∈ members, m ∉ s.hashSet) :
    (s.commitSAdd members).hashSet = s.hashSet ++ members := by
  induction members generalizing s with
  | nil => simp [RedisHashSetObject.commitSAdd]
  | cons m members ih =>
    obtain ⟨hm, hmembers⟩ := nodup_cons.mp hnodup
    have hemplace : (s.emplace m).hashSet = s.hashSet ++ [m] := by
      simp [RedisHashSetObject.emplace, hfresh m mem_cons_self]
    have hnext : ∀ m' ∈ members, m' ∉ (s.emplace m).hashSet := by
      intro m' hm' hmem
      rw [hemplace, mem_append, mem_singleton] at hmem
      rcases hmem with hmem | rfl
      · exact hfresh m' (mem_cons_of_mem m hm') hmem
      · exact hm hm'
    have hrest := ih hmembers hnext
    rw [RedisHashSetObject.commitSAdd, foldl_cons]
    rw [RedisHashSetObject.commitSAdd] at hrest
    rw [hrest, hemplace, append_assoc, singleton_append]

/-! ## Lengths -/

lemma Contents.length_encode_list (elements : List Bytes) :
    (list elements).encode.length = 4 + itemsLength elements := by
  simp only [encode_list, length_append, Lib.Endian.length_le, length_flatMap,
    length_sizedBytes]
  rfl

lemma Contents.length_encode_set (members : List Bytes) :
    (set members).encode.length = 4 + itemsLength members := by
  rw [encode_set, ← encode_list, length_encode_list]

lemma Contents.length_encode_hash (pairs : List (Bytes × Bytes)) :
    (hash pairs).encode.length
      = 4 + (pairs.map fun p => Hashes.entryLength p.1 p.2).sum := by
  simp only [encode_hash, length_append, Lib.Endian.length_le, length_flatMap,
    pairBytes, length_sizedBytes]
  rfl

lemma Contents.length_encode_zset (pairs : List (Bytes × UInt64)) :
    (zset pairs).encode.length = 4 + (pairs.map fun p => Zset.elementLength p.1).sum := by
  have hitem : ∀ p : Bytes × UInt64, (scoredBytes p).length = Zset.elementLength p.1 := by
    intro p
    rw [scoredBytes, length_append, length_sizedBytes, Lib.Endian.length_le,
      itemLength, Zset.elementLength]
    omega
  simp [encode_zset, Lib.Endian.length_le, hitem]

variable {payload : Payload S}

/-- **The length of a well-formed object is the number of bytes its serializers write.** -/
theorem Payload.length_contents
    (hp : payload.WellFormed) : 1 + (payload.contents order).encode.length = payload.room := by
  cases payload with
  | string value =>
    rw [contents, encode_string, length_sizedBytes, itemLength, room]
    omega
  | list l =>
    rw [contents, length_encode_list, room, hp]
    omega
  | hash h =>
    have hperm := (order.perm h.hashMap.entries).map fun e => Hashes.entryLength e.1 e.2
    rw [contents, length_encode_hash, map_map, room, hp,
      Hashes.entriesLength, ← hperm.sum_nat]
    simp only [Function.comp_def]
    omega
  | set s =>
    rw [contents, length_encode_set, room, hp,
      itemsLength_perm (order.perm s.hashSet)]
    omega
  | zset z =>
    have hperm := (walkMembers_perm order hp.toCoherent).map fun p => Zset.elementLength p.1
    rw [contents, length_encode_zset, map_map, room, hp.sized,
      RedisZsetObject.lengthOf, RedisZsetObject.members_eq_pairs, map_map]
    have hsum := hperm.sum_nat
    simp only [Function.comp_def] at hsum ⊢
    omega

/-! ## The round trip -/

/-- Equal contents; the order counts for lists and for the nodes of a sorted set. -/
def Payload.SameContents : Payload S → Payload S → Prop
  | .string value, .string value' => value.getD [] = value'.getD []
  | .list l, .list l' => l.listObject = l'.listObject
  | .hash h, .hash h' => ∀ field, h.hashMap.lookup field = h'.hashMap.lookup field
  | .set s, .set s' => ∀ m, m ∈ s.hashSet ↔ m ∈ s'.hashSet
  | .zset z, .zset z' => z.pairs = z'.pairs
  | _, _ => False

/-- No member of a set, field of a hash or member of a sorted set is listed twice. -/
def Contents.Distinct : Contents → Prop
  | .string _ | .list _ => True
  | .hash pairs => (pairs.map Prod.fst).Nodup
  | .set members => members.Nodup
  | .zset pairs => (pairs.map Prod.fst).Nodup

instance Contents.decidableDistinct : ∀ c : Contents, Decidable c.Distinct
  | .string _ | .list _ => inferInstanceAs (Decidable True)
  | .hash pairs => inferInstanceAs (Decidable (pairs.map Prod.fst).Nodup)
  | .set members => inferInstanceAs (Decidable members.Nodup)
  | .zset pairs => inferInstanceAs (Decidable (pairs.map Prod.fst).Nodup)

lemma entries_filled {pairs : List (Bytes × Bytes)} (hnodup : (pairs.map Prod.fst).Nodup)
    (length : Nat) : ((⟨∅, length⟩ : RedisHashObject).commitHSet pairs).hashMap.entries.Perm
      (pairs.map fun p => ⟨p.1, p.2⟩) := by
  have hentries := entries_commitHSet (h := ⟨∅, length⟩) hnodup fun _ _ => not_mem_nil
  rwa [show (∅ : Hashes.FieldMap).entries = [] from rfl, append_nil] at hentries

lemma hashSet_filled {members : List Bytes} (hnodup : members.Nodup) :
    (RedisHashSetObject.empty.commitSAdd members).hashSet = members :=
  hashSet_commitSAdd hnodup fun _ _ => not_mem_nil

omit [LinearOrder S] in
lemma map_fst_of_mapM {pairs : List (Bytes × UInt64)} {scored : List (Bytes × S)}
    (h : (pairs.mapM fun p => (ScoreBits.ofBits (S := S) p.2).map (p.1, ·)) = some scored) :
    scored.map Prod.fst = pairs.map Prod.fst := by
  induction pairs generalizing scored with
  | nil =>
    cases h
    rfl
  | cons p pairs ih =>
    rw [mapM_cons] at h
    obtain ⟨q, hq, h⟩ := Option.bind_eq_some_iff.mp h
    obtain ⟨rest, hrest, h⟩ := Option.bind_eq_some_iff.mp h
    obtain ⟨score, -, rfl⟩ := Option.map_eq_some_iff.mp hq
    cases h
    rw [map_cons, map_cons, ih hrest]

theorem Contents.wellFormed_of_build {c : Contents} (hc : c.Distinct)
    (hbuild : c.build (1 + c.encode.length) = some payload) : payload.WellFormed := by
  cases c with
  | string value =>
    cases hbuild
    trivial
  | list elements =>
    cases hbuild
    rfl
  | hash pairs =>
    cases hbuild
    have hsum := ((entries_filled hc 0).map fun e => Hashes.entryLength e.1 e.2).sum_nat
    show 1 + (hash pairs).encode.length = 1 + 4 + Hashes.entriesLength _
    rw [length_encode_hash, Hashes.entriesLength, hsum, map_map]
    simp only [Function.comp_def]
    omega
  | set members =>
    cases hbuild
    show 1 + (set members).encode.length = 1 + 4 + itemsLength _
    rw [length_encode_set, hashSet_filled hc]
    omega
  | zset pairs =>
    obtain ⟨scored, hscored, rfl⟩ := Option.map_eq_some_iff.mp hbuild
    refine (RedisZsetObject.wellFormed_deserialize ?_).1
    rw [map_fst_of_mapM hscored]
    exact hc

lemma Payload.distinct_contents
    (hp : payload.WellFormed) : (payload.contents order).Distinct := by
  cases payload with
  | string value => trivial
  | list l => trivial
  | hash h =>
    show (((order.walk h.hashMap.entries).map fun e => (e.1, e.2)).map Prod.fst).Nodup
    rw [map_map]
    exact ((order.perm h.hashMap.entries).map Sigma.fst).nodup_iff.mpr h.hashMap.keys_nodup
  | set s => exact (order.perm s.hashSet).nodup_iff.mpr s.nodup
  | zset z =>
    show (((walkMembers order z).map fun p => (p.1, ScoreBits.toBits p.2)).map Prod.fst).Nodup
    rw [map_map]
    exact ((walkMembers_perm order hp.toCoherent).map Prod.fst).nodup_iff.mpr
      (RedisZsetObject.members_eq_pairs z ▸ hp.distinct)

/-- The same contents, in the order of another walk over the hash table. -/
inductive Contents.SameItems : Contents → Contents → Prop
  | string (value : Bytes) : SameItems (.string value) (.string value)
  | list (elements : List Bytes) : SameItems (.list elements) (.list elements)
  | hash {pairs pairs' : List (Bytes × Bytes)} (h : pairs.Perm pairs') :
      SameItems (.hash pairs) (.hash pairs')
  | set {members members' : List Bytes} (h : members.Perm members') :
      SameItems (.set members) (.set members')
  | zset (pairs : List (Bytes × UInt64)) : SameItems (.zset pairs) (.zset pairs)

namespace Contents.SameItems

lemma refl : ∀ c : Contents, c.SameItems c
  | .string value => string value
  | .list elements => list elements
  | .hash _ => hash (.refl _)
  | .set _ => set (.refl _)
  | .zset pairs => zset pairs

lemma distinct {c c' : Contents} (h : c.SameItems c') (hc' : c'.Distinct) : c.Distinct := by
  cases h with
  | string value => exact hc'
  | list elements => exact hc'
  | hash h => exact (h.map Prod.fst).nodup_iff.mpr hc'
  | set h => exact h.nodup_iff.mpr hc'
  | zset pairs => exact hc'

lemma length_encode {c c' : Contents} (h : c.SameItems c') :
    c.encode.length = c'.encode.length := by
  cases h with
  | string value => rfl
  | list elements => rfl
  | hash h =>
    rw [length_encode_hash, length_encode_hash,
      (h.map fun p => Hashes.entryLength p.1 p.2).sum_nat]
  | set h => rw [length_encode_set, length_encode_set, itemsLength_perm h]
  | zset pairs => rfl

end Contents.SameItems

/-- Reading fills the containers in the order of the bytes, which tables may walk differently. -/
lemma Payload.build_sameItems
    (hp : payload.WellFormed) {c : Contents} (hc : c.SameItems (payload.contents order)) :
    ∃ payload', c.build (1 + c.encode.length) = some payload' ∧
      payload'.WellFormed ∧ payload'.SameContents payload ∧ payload'.size = payload.size := by
  have hdistinct : c.Distinct := hc.distinct (distinct_contents order hp)
  have hroom : 1 + c.encode.length = payload.room := by
    rw [hc.length_encode, length_contents order hp]
  have hbuilt : ∀ {payload' : Payload S}, c.build (1 + c.encode.length) = some payload' →
      payload'.WellFormed := fun hbuild => wellFormed_of_build hdistinct hbuild
  cases payload with
  | string value =>
    cases hc with
    | string value => exact ⟨_, rfl, trivial, rfl, rfl⟩
  | list l =>
    cases hc with
    | list elements => exact ⟨_, rfl, hbuilt rfl, rfl, Eq.symm hp⟩
  | hash h =>
    cases hc with
    | @hash pairs _ hpairs =>
      have hentries : (pairs.map fun p => (⟨p.1, p.2⟩ : (_ : Bytes) × Bytes)).Perm
          (order.walk h.hashMap.entries) := by
        have hmap := hpairs.map fun p => (⟨p.1, p.2⟩ : (_ : Bytes) × Bytes)
        rwa [map_map, show (fun p : Bytes × Bytes => (⟨p.1, p.2⟩ : (_ : Bytes) × Bytes)) ∘
          (fun e : (_ : Bytes) × Bytes => (e.1, e.2)) = id from rfl, map_id] at hmap
      have hback := (entries_filled hdistinct 0).trans (hentries.trans (order.perm _))
      exact ⟨_, rfl, hbuilt rfl, fun field => AList.perm_lookup hback, hroom⟩
  | set s =>
    cases hc with
    | @set members _ hmembers =>
      refine ⟨_, rfl, hbuilt rfl, fun m => ?_, hroom⟩
      rw [hashSet_filled hdistinct, (hmembers.trans (order.perm s.hashSet)).mem_iff]
  | zset z =>
    cases hc with
    | zset pairs =>
      have hwalk := walkMembers_perm order hp.toCoherent
      have hnodup : ((walkMembers order z).map Prod.fst).Nodup :=
        (hwalk.map Prod.fst).nodup_iff.mpr (RedisZsetObject.members_eq_pairs z ▸ hp.distinct)
      obtain ⟨hwf, hpairs⟩ := RedisZsetObject.wellFormed_deserialize hnodup
      refine ⟨.zset (RedisZsetObject.deserialize (walkMembers order z)), ?_, hwf, ?_, ?_⟩
      · rw [build, mapM_ofBits, Option.map_some]
      · exact pairs_eq_of_perm hwf.toCoherent hp.toCoherent (hpairs.trans hwalk)
      · show (RedisZsetObject.deserialize (walkMembers order z)).serializedLength = _
        rw [hwf.sized, size, hp.sized, RedisZsetObject.members_eq_pairs,
          RedisZsetObject.members_eq_pairs]
        exact RedisZsetObject.lengthOf_congr ((hpairs.trans hwalk).map Prod.fst)

lemma Payload.length_encode_lt (hp : payload.WellFormed) (hsize : payload.size ≤ maxObjectSize) :
    (payload.contents order).encode.length < 2 ^ 32 := by
  have hlength := length_contents order hp
  have hmax : maxObjectSize = 268435456 := rfl
  have hroom : payload.room ≤ 5 + payload.size := by
    cases payload <;> simp [room, size]
  omega

namespace RedisObject

variable (order : HashOrder)

omit [LinearOrder S] in
lemma type_contents (obj : RedisObject S) :
    (obj.payload.contents order).type obj.ttl = obj.type := by
  unfold RedisObject.type
  cases obj.payload <;> rfl

omit [LinearOrder S] in
lemma flatten_pieces (obj : RedisObject S) : (obj.pieces order).flatten
      = obj.type.toByte :: (ttlBytes obj.ttl ++ (obj.payload.contents order).encode) := by
  rw [pieces, flatten_cons, flatten_append, ← encode]
  cases obj.ttl <;> simp [ttlBytes]

omit [LinearOrder S] in
lemma serializeString_eq (obj : RedisObject S) (str : Bytes) :
    obj.serializeString order str = str ++ (obj.pieces order).flatten := by
  unfold serializeString
  induction obj.pieces order generalizing str with
  | nil => simp
  | cons piece pieces ih => rw [foldl_cons, ih, flatten_cons, append_assoc]

omit [LinearOrder S] in
lemma serialized_eq (obj : RedisObject S) : obj.serialized order = (obj.pieces order).flatten := by
  rw [serialized, serializeString_eq, nil_append]

lemma copyAll_append (pieces : List Bytes) :
    ∀ (pre gap : Bytes), gap.length = pieces.flatten.length → copyAll (pre ++ gap) pre.length pieces
        = some (pre ++ pieces.flatten, pre.length + pieces.flatten.length) := by
  induction pieces with
  | nil =>
    intro pre gap hgap
    obtain rfl : gap = [] := eq_nil_of_length_eq_zero hgap
    rfl
  | cons piece pieces ih =>
    intro pre gap hgap
    rw [flatten_cons, length_append] at hgap
    have hroom : pre.length + piece.length ≤ (pre ++ gap).length := by
      rw [length_append]
      omega
    have hdrop : (pre ++ gap).drop (pre.length + piece.length) = gap.drop piece.length := by
      rw [drop_append, drop_of_length_le (by omega), nil_append, Nat.add_sub_cancel_left]
    have hrest := ih (pre ++ piece) (gap.drop piece.length) (by rw [length_drop]; omega)
    rw [length_append] at hrest
    rw [copyAll, copyTo, if_pos hroom, Option.bind_some, take_left, hdrop, hrest,
      flatten_cons, append_assoc, length_append, Nat.add_assoc]

lemma resize_add (buf : Bytes) (offset n : Nat) :
    ∃ gap, resize buf (offset + n) = resize buf offset ++ gap ∧ gap.length = n ∧
      (resize buf offset).length = offset := by
  have hlen : ∀ m, (resize buf m).length = m := by
    intro m
    rw [resize, length_append, length_take, length_replicate]
    omega
  refine ⟨(resize buf (offset + n)).drop offset, ?_, by rw [length_drop, hlen]; omega, hlen offset⟩
  have htake : (resize buf (offset + n)).take offset = resize buf offset := by
    rw [resize, resize, take_append, take_take, take_replicate, length_take]
    congr 2
    · omega
    · omega
  rw [← htake, take_append_drop]

/-- **Objects survive being written and read back**, from any offset of any buffer: the same class,
deadline, contents and length, exactly the bytes of the object are passed, and the two serializers
write the same bytes. -/
theorem serialize_round_trip (order : HashOrder) {obj : RedisObject S} (hobj : obj.WellFormed)
    (hsize : obj.size ≤ maxObjectSize) (httl : TTLFits obj.ttl) (pre post : Bytes) :
    (∃ obj' : RedisObject S, deserializeObject (pre ++ obj.serialized order ++ post) pre.length
          = .ok (obj', pre.length + (obj.serialized order).length) ∧
        obj'.type = obj.type ∧ obj'.ttl = obj.ttl ∧
        obj'.payload.SameContents obj.payload ∧ obj'.size = obj.size ∧ obj'.WellFormed) ∧
    (∀ str, obj.serializeString order str = str ++ obj.serialized order) ∧
    (∀ buf offset, obj.serializeVector order buf offset
      = some (resize buf offset ++ obj.serialized order,
          offset + (obj.serialized order).length)) := by
  have hlength := length_contents order hobj
  have hbytes := obj.flatten_pieces order
  refine ⟨?_, fun str => by rw [serialized_eq, serializeString_eq], fun buf offset => ?_⟩
  · have hfits := fits_of_length (length_encode_lt order hobj hsize)
    obtain ⟨payload', hbuild, hwf, hsame, hsize'⟩ := build_sameItems order hobj (.refl _)
    refine ⟨⟨payload', obj.ttl⟩, ?_, ?_, rfl, hsame, hsize', hwf⟩
    · have himage : obj.serialized order = (obj.payload.contents order).image obj.ttl := by
        rw [serialized_eq, hbytes, image, obj.type_contents order]
      rw [himage, deserializeObject_image hfits httl, outcome_of_build hbuild]
    · unfold RedisObject.type
      cases hp : obj.payload <;> cases hp' : payload' <;> simp_all [Payload.SameContents]
  · obtain ⟨gap, hresize, hgap, hoffset⟩ := resize_add buf offset obj.room
    have hfill : gap.length = (obj.pieces order).flatten.length := by
      rw [hgap, hbytes, room]
      cases obj.ttl <;> simp [ttlBytes] <;> omega
    have hcopy := copyAll_append (obj.pieces order) (resize buf offset) gap hfill
    rw [hoffset] at hcopy
    rw [serializeVector, hresize, hcopy, serialized_eq]

end RedisObject

end RoundTrip

/-! ## Doubles -/

/-- A `double` that is a number: a pattern that is not one of a NaN. -/
structure Double where
  bits : UInt64
  notNaN : bits.toNat % 2 ^ 63 ≤ 0x7FF0000000000000
  deriving DecidableEq, Repr

namespace Double

/-- The place of a number among all numbers; the two zeros are kept apart. -/
def rank (d : Double) : Int :=
  if d.bits.toNat < 2 ^ 63 then d.bits.toNat else 2 ^ 63 - 1 - d.bits.toNat

lemma rank_injective : Function.Injective rank := by
  rintro ⟨a, ha⟩ ⟨b, hb⟩ h
  have hbits : a.toNat = b.toNat := by
    unfold rank at h
    simp only at h
    split_ifs at h <;> omega
  obtain rfl := UInt64.toNat_inj.mp hbits
  rfl

instance : LinearOrder Double := LinearOrder.lift' rank rank_injective

instance : ScoreBits Double where
  toBits := bits
  ofBits b := if h : b.toNat % 2 ^ 63 ≤ 0x7FF0000000000000 then some ⟨b, h⟩ else none
  ofBits_toBits d := by rw [dif_pos d.notNaN]

/-- Scores written as their bit patterns. -/
instance : ScoreTexts Double where
  string2double s := (string2ull s).bind fun bits => ScoreBits.ofBits (UInt64.ofNat bits)
  d2string d := stdToString d.bits.toNat
  length_d2string_le d := by
    have hbits : d.bits.toNat < 10 ^ 24 := Nat.lt_trans d.bits.toNat_lt (by decide)
    rw [stdToString, length_map]
    exact Nat.toDigits_length 10 _ 24 (by decide) hbits
  infinity := ⟨0x7FF0000000000000, by decide⟩
  negativeInfinity := ⟨0xFFF0000000000000, by decide⟩

end Double

/-- A hash with a deadline, read from the middle of a buffer. -/
theorem ttlHash_round_trip :
    let h := RedisHashObject.empty.commitHSet [(ascii "f", ascii "1"), (ascii "g", [])]
    let obj : RedisObject Double := ⟨.hash h, some 7⟩
    ∃ obj' : RedisObject Double,
      deserializeObject ([9, 9] ++ obj.serialized listedOrder ++ [255]) 2 = .ok (obj', 2 + 32) ∧
        obj'.ttl = some 7 ∧ obj'.payload.SameContents (.hash h) := by
  intro h obj
  have hwf : obj.WellFormed := Hashes.RedisHashObject.wellFormed_empty.commitHSet _
  have httl : TTLFits obj.ttl := fun t ht => by
    obtain rfl : 7 = t := Option.some.inj ht
    decide
  obtain ⟨⟨obj', hread, -, hsame, hcontents, -, -⟩, -, -⟩ :=
    RedisObject.serialize_round_trip listedOrder hwf (by decide) httl [9, 9] [255]
  exact ⟨obj', hread, hsame, hcontents⟩

end EloqKV.Objects
