/-
  What RESTORE commits.

  `CommitOn` reads the value with the unchecked readers of the objects.  What they build is in order
  exactly if the value starts with the serialized form of contents that are in order: nothing listed
  twice, something listed at all, numbers for scores, and not more than the size limit.  A payload
  of Redis is turned into such a form by the server, but nothing asks whether the contents are in
  order.
-/
import EloqKV.Lib.Filling
import EloqKV.Rdb.DumpTrip

open Option
open List hiding Cursor

namespace EloqKV.Zset.RedisZsetObject

open Lib.Filling

variable {S : Type} [LinearOrder S]

lemma members_insertNode_subperm (z : RedisZsetObject S) (field : Bytes) (num : S) :
    (z.insertNode field num).members.Subperm (field :: z.members) := by
  have hnodes : (z.insertNode field num).zOrderedSet
      = (Lib.OrderedSet.insert cmp ⟨z.nextAddr, field, num⟩ z.zOrderedSet).1 := by
    simp only [insertNode, emplace]
    split <;> rfl
  obtain ⟨nodes, hperm, hsub⟩ :=
    Lib.OrderedSet.insert_subperm cmp ⟨z.nextAddr, field, num⟩ z.zOrderedSet
  rw [members, hnodes]
  exact ⟨nodes.map ZNode.field, hperm.map ZNode.field, hsub.map ZNode.field⟩

lemma members_insertAll_subperm (z : RedisZsetObject S) (pairs : List (Bytes × S)) :
    (z.insertAll pairs).members.Subperm (pairs.map Prod.fst ++ z.members) :=
  foldl_subperm members Prod.fst (fun z p => members_insertNode_subperm z p.1 p.2)
    pairs z

lemma members_filled_subperm (pairs : List (Bytes × S)) :
    ((empty : RedisZsetObject S).insertAll pairs).members.Subperm (pairs.map Prod.fst) := by
  have hfill := members_insertAll_subperm (empty : RedisZsetObject S) pairs
  rwa [show (empty : RedisZsetObject S).members = [] from rfl, append_nil] at hfill

lemma WellFormed.nodup_of_subperm {z : RedisZsetObject S} (hz : z.WellFormed)
    {members : List Bytes} (hsub : z.members.Subperm members)
    (hlength : z.serializedLength = lengthOf members) : members.Nodup := by
  have hweight : (members.map elementLength).sum = (z.members.map elementLength).sum := by
    have hsized := hlength.symm.trans hz.sized
    simp only [lengthOf] at hsized
    omega
  have hperm := perm_of_subperm_of_weight hsub
    (fun m => by rw [elementLength]; omega) hweight
  exact hperm.nodup_iff.mp hz.distinct

end EloqKV.Zset.RedisZsetObject

namespace EloqKV.Objects

open Hashes (RedisHashObject)
open Sets (RedisHashSetObject)
open Zset (RedisZsetObject)

/-! ## Contents in order -/

/-- The length the limit is about, of an object with these contents. -/
def Contents.size : Contents → Nat
  | .string value => value.length
  | .list elements => 1 + (Contents.list elements).encode.length
  | .hash pairs => 1 + (Contents.hash pairs).encode.length
  | .set members => 1 + (Contents.set members).encode.length
  | .zset pairs => 1 + (Contents.zset pairs).encode.length

/-- A collection without entries; a string is not a collection. -/
def Contents.isEmpty : Contents → Bool
  | .string _ => false
  | .list elements => elements.isEmpty
  | .hash pairs => pairs.isEmpty
  | .set members => members.isEmpty
  | .zset pairs => pairs.isEmpty

section Sound

variable (S : Type) [LinearOrder S] [ScoreBits S]

def Contents.Numbers : Contents → Prop
  | .zset pairs => ∀ p ∈ pairs, (ScoreBits.ofBits (S := S) p.2).isSome = true
  | _ => True

/-- Contents in order. -/
structure Contents.Sound (c : Contents) : Prop where
  distinct : c.Distinct
  nonempty : c.isEmpty = false
  numbers : c.Numbers S
  limit : c.size ≤ maxObjectSize

variable {S}

omit [LinearOrder S] in
lemma Contents.Sound.fits {c : Contents} (hc : c.Sound S) : c.Fits := by
  apply Contents.fits_of_length
  have hlimit := hc.limit
  have hmax : maxObjectSize = 268435456 := rfl
  have hsize : c.encode.length ≤ 4 + c.size := by
    cases c with
    | string value =>
      rw [Contents.encode_string, length_sizedBytes, itemLength]
      exact Nat.le_refl _
    | _ => exact Nat.le_trans (Nat.le_add_left _ 1) (Nat.le_add_left _ 4)
  omega

omit [LinearOrder S] in
lemma exists_mapM_ofBits_iff (pairs : List (Bytes × UInt64)) :
    (∃ scored : List (Bytes × S),
      (pairs.mapM fun p => (ScoreBits.ofBits (S := S) p.2).map (p.1, ·)) = some scored) ↔
      ∀ p ∈ pairs, (ScoreBits.ofBits (S := S) p.2).isSome = true := by
  induction pairs with
  | nil => simp
  | cons p pairs ih =>
    rw [forall_mem_cons, ← ih, mapM_cons]
    cases hbits : ScoreBits.ofBits (S := S) p.2 with
    | none => simp
    | some score =>
      simp only [map_some, bind_eq_bind, bind_some, bind_eq_some_iff, isSome_some, true_and]
      exact ⟨fun ⟨_, rest, hrest, _⟩ => ⟨rest, hrest⟩, fun ⟨rest, hrest⟩ => ⟨_, rest, hrest, rfl⟩⟩

lemma Contents.exists_build_iff (c : Contents) (read : Nat) :
    (∃ payload : Payload S, c.build read = some payload) ↔ c.Numbers S := by
  cases c with
  | zset pairs =>
    refine Iff.trans ?_ (exists_mapM_ofBits_iff pairs)
    constructor
    · rintro ⟨payload, hbuild⟩
      obtain ⟨scored, hscored, -⟩ := map_eq_some_iff.mp hbuild
      exact ⟨scored, hscored⟩
    · rintro ⟨scored, hscored⟩
      exact ⟨_, map_eq_some_iff.mpr ⟨scored, hscored, rfl⟩⟩
  | _ => exact ⟨fun _ => trivial, fun _ => ⟨_, rfl⟩⟩

lemma Contents.size_of_build {c : Contents} {payload : Payload S}
    (hbuild : c.build (1 + c.encode.length) = some payload) : payload.size = c.size := by
  cases c with
  | list elements =>
    cases hbuild
    show 1 + 4 + itemsLength elements = 1 + (Contents.list elements).encode.length
    rw [Contents.length_encode_list]
    omega
  | zset pairs =>
    obtain ⟨scored, hscored, rfl⟩ := map_eq_some_iff.mp hbuild
    show 1 + 4 + (scored.map fun p => Zset.elementLength p.1).sum
      = 1 + (Contents.zset pairs).encode.length
    have hmembers := congrArg (map Zset.elementLength) (map_fst_of_mapM hscored)
    rw [List.map_map, List.map_map] at hmembers
    rw [Contents.length_encode_zset]
    simp only [Function.comp_def] at hmembers
    rw [hmembers]
    omega
  | _ =>
    cases hbuild
    rfl

lemma Contents.isEmpty_of_build {c : Contents} (hc : c.Distinct) {payload : Payload S}
    (hbuild : c.build (1 + c.encode.length) = some payload) : payload.isEmpty = c.isEmpty := by
  cases c with
  | string value =>
    cases hbuild
    rfl
  | list elements =>
    cases hbuild
    rfl
  | hash pairs =>
    cases hbuild
    have hempty := ((entries_filled hc 0).map Sigma.fst).isEmpty_eq
    rw [List.isEmpty_map, List.map_map, List.isEmpty_map] at hempty
    show (map Sigma.fst _).isEmpty = pairs.isEmpty
    rw [isEmpty_map, hempty]
  | set members =>
    cases hbuild
    show (RedisHashSetObject.empty.commitSAdd members).hashSet.isEmpty = members.isEmpty
    rw [hashSet_filled hc]
  | zset pairs =>
    obtain ⟨scored, hscored, rfl⟩ := map_eq_some_iff.mp hbuild
    have hmembers := map_fst_of_mapM hscored
    have hnodup : (scored.map Prod.fst).Nodup := by rwa [hmembers]
    have hempty := (RedisZsetObject.wellFormed_deserialize hnodup).2.isEmpty_eq
    rw [RedisZsetObject.pairs, isEmpty_map] at hempty
    have hlisted := congrArg List.isEmpty hmembers
    rw [isEmpty_map, isEmpty_map] at hlisted
    exact hempty.trans hlisted

end Sound

lemma entries_commitHSet_subperm (h : RedisHashObject) (pairs : List (Bytes × Bytes)) :
    (h.commitHSet pairs).hashMap.entries.Subperm
      (pairs.map (fun p => ⟨p.1, p.2⟩) ++ h.hashMap.entries) := by
  refine Lib.Filling.foldl_subperm (fun h : RedisHashObject => h.hashMap.entries) _ ?_ pairs h
  intro h p
  show (h.hashMap.insert p.1 p.2).entries.Subperm _
  rw [AList.entries_insert]
  exact ((kerase_sublist p.1 h.hashMap.entries).cons_cons _).subperm

lemma hashSet_commitSAdd_subperm (s : RedisHashSetObject) (members : List Bytes) :
    (s.commitSAdd members).hashSet.Subperm (members ++ s.hashSet) := by
  have hstep : ∀ (s : RedisHashSetObject) (m : Bytes),
      (s.emplace m).hashSet.Subperm (m :: s.hashSet) := by
    intro s m
    unfold RedisHashSetObject.emplace
    split
    · exact List.Subperm.cons_self
    · show (s.hashSet.concat m).Subperm (m :: s.hashSet)
      rw [concat_eq_append]
      exact (perm_append_singleton m s.hashSet).subperm
  have hfill := Lib.Filling.foldl_subperm (fun s : RedisHashSetObject => s.hashSet) id hstep
    members s
  rwa [List.map_id] at hfill

lemma nodup_of_entriesLength {pairs : List (Bytes × Bytes)}
    (h : (pairs.map fun p => Hashes.entryLength p.1 p.2).sum = Hashes.entriesLength
      ((⟨∅, 0⟩ : RedisHashObject).commitHSet pairs).hashMap.entries) :
    (pairs.map Prod.fst).Nodup := by
  have hsub := entries_commitHSet_subperm ⟨∅, 0⟩ pairs
  rw [show (∅ : Hashes.FieldMap).entries = [] from rfl, append_nil] at hsub
  have hpos : ∀ e : (_ : Bytes) × Bytes, 0 < Hashes.entryLength e.1 e.2 := fun e => by
    rw [Hashes.entryLength, itemLength]
    omega
  have hperm := Lib.Filling.perm_of_subperm_of_weight hsub hpos (by rwa [List.map_map])
  have hkeys := (hperm.map Sigma.fst).nodup_iff.mp (AList.keys_nodup _)
  rwa [List.map_map] at hkeys

lemma nodup_of_itemsLength {members : List Bytes} (h : itemsLength members
      = itemsLength (RedisHashSetObject.empty.commitSAdd members).hashSet) : members.Nodup := by
  have hsub := hashSet_commitSAdd_subperm .empty members
  rw [show RedisHashSetObject.empty.hashSet = [] from rfl, append_nil] at hsub
  have hpos : ∀ m, 0 < itemLength m := fun m => by
    rw [itemLength]
    omega
  have hperm := Lib.Filling.perm_of_subperm_of_weight hsub hpos h
  exact hperm.nodup_iff.mp (RedisHashSetObject.nodup _)

end EloqKV.Objects

namespace EloqKV.Rdb

open Lib.Endian (le ofLe)
open Lib.Reader (Cursor Outcome Read)
open Lib.Reader.Read
open Hashes (RedisHashObject)
open Objects (Contents HashOrder Payload RedisObject RedisObjectType ScoreBits)
open Sets (RedisHashSetObject)
open Zset (RedisZsetObject)

section Commit

variable {S : Type} [LinearOrder S] [ScoreBits S]

/-! ## What a well-formed result says of the contents -/

variable {c : Contents}

/-- **Contents from which a well-formed object comes list nothing twice**, or its length would tell.
-/
theorem distinct_of_wellFormed {payload : Payload S}
    (hbuild : c.build (1 + c.encode.length) = some payload) {expireWhen : Nat}
    (hwf : (setExpireWhen expireWhen ⟨payload, none⟩).WellFormed) : c.Distinct := by
  cases c with
  | string value => trivial
  | list elements => trivial
  | hash pairs =>
    cases hbuild
    have hlength : 1 + (Contents.hash pairs).encode.length = 1 + 4 + Hashes.entriesLength
        ((⟨∅, 0⟩ : RedisHashObject).commitHSet pairs).hashMap.entries := by
      unfold setExpireWhen at hwf
      split_ifs at hwf <;> exact hwf
    rw [Contents.length_encode_hash] at hlength
    exact Objects.nodup_of_entriesLength (by omega)
  | set members =>
    cases hbuild
    have hlength : 1 + (Contents.set members).encode.length = 1 + 4 + itemsLength
        (RedisHashSetObject.empty.commitSAdd members).hashSet := by
      unfold setExpireWhen at hwf
      split_ifs at hwf <;> exact hwf
    rw [Contents.length_encode_set] at hlength
    exact Objects.nodup_of_itemsLength (by omega)
  | zset pairs =>
    obtain ⟨scored, hscored, rfl⟩ := map_eq_some_iff.mp hbuild
    show (pairs.map Prod.fst).Nodup
    rw [← Objects.map_fst_of_mapM hscored]
    have hsub := RedisZsetObject.members_filled_subperm scored
    have hlength : (RedisZsetObject.deserialize scored).serializedLength
        = RedisZsetObject.lengthOf (scored.map Prod.fst) := by
      show 1 + 4 + _ = 1 + 4 + _
      rw [List.map_map]
      rfl
    unfold setExpireWhen at hwf
    split_ifs at hwf
    · exact RedisZsetObject.WellFormed.nodup_of_subperm hwf hsub hlength
    · -- the copy is filled from what the first object holds, and takes over its length
      have hcopy := RedisZsetObject.members_filled_subperm
        (RedisZsetObject.deserialize scored).pairs
      rw [← RedisZsetObject.members_eq_pairs] at hcopy
      exact RedisZsetObject.WellFormed.nodup_of_subperm hwf (hcopy.trans hsub) hlength

/-- An object in order: not empty, coherent, and within the limit. -/
structure InOrder (obj : RedisObject S) : Prop where
  nonempty : obj.isEmpty = false
  wellFormed : obj.WellFormed
  limit : obj.size ≤ maxObjectSize

lemma inOrder_iff_sound {payload : Payload S}
    (hbuild : c.build (1 + c.encode.length) = some payload) (expireWhen : Nat) :
    InOrder (setExpireWhen expireWhen ⟨payload, none⟩) ↔ c.Sound S := by
  have hsize := (size_setExpireWhen expireWhen payload).trans (Contents.size_of_build hbuild)
  constructor
  · rintro ⟨hempty, hwf, hlimit⟩
    have hdistinct := distinct_of_wellFormed hbuild hwf
    have hpayload := Contents.wellFormed_of_build hdistinct hbuild
    rw [(setExpireWhen_spec expireWhen hpayload).2.2.1,
      Contents.isEmpty_of_build hdistinct hbuild] at hempty
    exact ⟨hdistinct, hempty, (c.exists_build_iff _).mp ⟨payload, hbuild⟩, hsize ▸ hlimit⟩
  · rintro ⟨hdistinct, hempty, -, hlimit⟩
    obtain ⟨hwf, -, hempty', -⟩ :=
      setExpireWhen_spec expireWhen (Contents.wellFormed_of_build hdistinct hbuild)
    rw [Contents.isEmpty_of_build hdistinct hbuild] at hempty'
    exact ⟨hempty'.trans hempty, hwf, hsize ▸ hlimit⟩

/-! ## What `CommitOn` reads -/

lemma hasTTL_of_restoreType {b : UInt8} {type : RedisObjectType}
    (h : restoreType b = some type) : type.toByte = b ∧ type.hasTTL = false := by
  obtain ⟨hbyte, httl⟩ := filter_eq_some_iff.mp h
  exact ⟨RedisObjectType.toByte_of_ofByte hbyte, by simpa using httl⟩

namespace RestoreCommand

/-- **An object is committed only where the value starts with the form of contents of its type**:
behind the type stands any byte, and behind the contents whatever there is. -/
theorem commitOn_eq_ok {cmd : RestoreCommand} {obj : RedisObject S}
    (h : cmd.commitOn = .ok (some obj)) :
    ∃ (c : Contents) (b : UInt8) (post : Bytes) (payload : Payload S),
      cmd.value = (c.type none).toByte :: b :: (c.encode ++ post) ∧
      c.build (1 + c.encode.length) = some payload ∧
      obj = setExpireWhen cmd.expireWhen ⟨payload, none⟩ := by
  obtain ⟨obj', hread, rfl⟩ : ∃ obj', (readValue (S := S) (.at cmd.value)).1 = .ok (some obj') ∧
      obj = setExpireWhen cmd.expireWhen obj' := by
    unfold commitOn at h
    split at h
    · exact nomatch h
    · rename_i obj' hobj'
      exact ⟨obj', hobj', (Option.some.inj (Outcome.ok.inj h)).symm⟩
    · exact nomatch h
    · exact nomatch h
  have hrun : readValue (S := S) ⟨cmd.value, false⟩ = (.ok (some obj'), _) := Prod.ext hread rfl
  obtain ⟨t, _, ht, hrun⟩ := bind_eq_ok.mp hrun
  obtain ⟨_, rest, hvalue, rfl, rfl⟩ := accepts_byte ht
  cases htype : restoreType t with
  | none =>
    rw [htype] at hrun
    exact nomatch (pure_eq_ok.mp hrun).1
  | some type =>
    rw [htype] at hrun
    obtain ⟨_, _, hobj, hrun⟩ := bind_eq_ok.mp hrun
    obtain rfl := Option.some.inj (pure_eq_ok.mp hrun).1
    obtain ⟨rfl, httl⟩ := hasTTL_of_restoreType htype
    obtain ⟨c, b, post, rfl, rfl, hbuild, hnone⟩ := Objects.deserialize_eq_ok httl hobj
    refine ⟨c, b, post, obj'.payload, hvalue, hbuild, ?_⟩
    rw [← hnone]

end RestoreCommand

/-! ## What RESTORE accepts -/

/-- The value starts with the serialized form of contents in order. -/
def HoldsObject (S : Type) [ScoreBits S] (value : Bytes) : Prop :=
  ∃ (c : Contents) (b : UInt8) (post : Bytes),
    value = (c.type none).toByte :: b :: (c.encode ++ post) ∧ c.Sound S

/-- `CommitOn` reads nothing but the value and returns an object in order. -/
def CommitsSafely (S : Type) [LinearOrder S] [ScoreBits S] (cmd : RestoreCommand) : Prop :=
  ∃ obj : RedisObject S, cmd.commitOn = .ok (some obj) ∧ InOrder obj

lemma commitsSafely_iff (cmd : RestoreCommand) :
    CommitsSafely S cmd ↔ HoldsObject S cmd.value := by
  constructor
  · rintro ⟨obj, hcommit, horder⟩
    obtain ⟨c, b, post, payload, hvalue, hbuild, rfl⟩ := RestoreCommand.commitOn_eq_ok hcommit
    exact ⟨c, b, post, hvalue, (inOrder_iff_sound hbuild cmd.expireWhen).mp horder⟩
  · rintro ⟨c, b, post, hvalue, hsound⟩
    obtain ⟨payload, hbuild⟩ := (c.exists_build_iff (1 + c.encode.length)).mpr hsound.numbers
    exact ⟨_, RestoreCommand.commitOn_of_build hsound.fits hvalue hbuild,
      (inOrder_iff_sound hbuild cmd.expireWhen).mpr hsound⟩

/-- RESTORE accepts an argument: for some deadline and options it becomes a command that runs. -/
def Accepted (env : RestoreEnv) (arg : Bytes) (cmd : RestoreCommand) : Prop :=
  ∃ clock ttl absttl replace,
    parseRestoreCommand env clock ttl absttl replace arg = .ok (.command cmd) ∧
      cmd.executeOn = .write

/-- The argument holds an object: the payload as it came if it is of version 0, and what the
server writes for its elements if it is one of Redis. -/
def HoldsSafePayload (S : Type) [ScoreBits S] (env : RestoreEnv) (arg : Bytes) : Prop :=
  let payload := arg.take (arg.length - 10)
  match verifyDumpPayload env arg with
  | none => False
  | some .eloqKV => HoldsObject S payload
  | some .redisRdb => ∃ c, (decodeRedisObject env.lzf env.string2ld (.at payload)).1 = .ok c ∧
      HoldsObject S (serializePayload env.order c)

omit [LinearOrder S] in
/-- What is asked of the argument is asked of the value the parser made of it. -/
lemma Accepted.holdsSafePayload_iff {env : RestoreEnv} {arg : Bytes} {cmd : RestoreCommand}
    (h : Accepted env arg cmd) : HoldsSafePayload S env arg ↔ HoldsObject S cmd.value := by
  obtain ⟨clock, ttl, absttl, replace, hparse, hrun⟩ := h
  have hvalid : ∀ {expireWhen message}, ¬rejected expireWhen replace message = .command cmd :=
    fun hrejected => by cases hrun.symm.trans (executeOn_of_rejected hrejected)
  unfold parseRestoreCommand at hparse
  unfold HoldsSafePayload
  split_ifs at hparse with httl
  · cases hparse
  · cases hverify : verifyDumpPayload env arg with
    | none =>
      rw [hverify] at hparse
      exact absurd (Outcome.ok.inj hparse) hvalid
    | some format =>
      rw [hverify] at hparse
      cases format with
      | eloqKV =>
        obtain rfl := ParsedRestore.command.inj (Outcome.ok.inj hparse)
        exact Iff.rfl
      | redisRdb =>
        simp only [convertRedisDumpPayloadToEloqPayload] at hparse
        cases hdecode : (decodeRedisObject env.lzf env.string2ld
            (.at (arg.take (arg.length - 10)))).1 with
        | ok c =>
          simp only [hdecode] at hparse
          obtain rfl := ParsedRestore.command.inj (Outcome.ok.inj hparse)
          constructor
          · rintro ⟨c', hc', hholds⟩
            obtain rfl := Outcome.ok.inj (hc'.symm.trans hdecode)
            exact hholds
          · exact fun hholds => ⟨c, hdecode, hholds⟩
        | fail =>
          simp only [hdecode] at hparse
          exact absurd (Outcome.ok.inj hparse) hvalid
        | fault =>
          simp only [hdecode] at hparse
          cases hparse

/-- **What RESTORE accepts is committed safely exactly if it holds an object in order.** -/
theorem accepted_commits_safely_iff {env : RestoreEnv} {arg : Bytes} {cmd : RestoreCommand}
    (h : Accepted env arg cmd) : CommitsSafely S cmd ↔ HoldsSafePayload S env arg :=
  (commitsSafely_iff cmd).trans h.holdsSafePayload_iff.symm

end Commit

/-! ## Accepted, and not in order -/

/-- A payload and the footer that the process accepts. -/
def withFooter (version : Nat) (payload : Bytes) : Bytes :=
  payload ++ le 2 version ++ le 8 (payload.length + 2)

/-- A footer of version 0 with nothing in front of it. -/
def noPayload : Bytes := withFooter 0 []

/-- A list of Redis without elements. -/
def noElements : Bytes := withFooter 10 [1, 0]

/-- A sorted set of Redis that lists the member `a` twice, with the scores 1 and 2. -/
def memberTwice : Bytes :=
  withFooter 10 ([5, 2] ++ [1, 97] ++ le 8 0x3FF0000000000000 ++ [1, 97] ++ le 8 0x4000000000000000)

/-- The command that RESTORE makes of a value without a deadline. -/
def plainRestore (value : Bytes) : RestoreCommand := ⟨value, uint64Max, false, true, []⟩

lemma not_commitsSafely_of_eq {cmd : RestoreCommand} {obj : RedisObject Objects.Double}
    (hcommit : cmd.commitOn = .ok (some obj)) (hobj : ¬InOrder obj) :
    ¬CommitsSafely Objects.Double cmd := by
  rintro ⟨obj', hcommit', horder⟩
  obtain rfl := Option.some.inj (Outcome.ok.inj (hcommit.symm.trans hcommit'))
  exact hobj horder

/-- The first is read outside its bytes, the second gives an empty list, and the third a sorted
set that has a member twice in its order and once in its map. -/
theorem accepted_payloads_not_safe :
    (∃ cmd, Accepted plainEnv noPayload cmd ∧ cmd.commitOn (S := Objects.Double) = .fault ∧
      ¬CommitsSafely Objects.Double cmd) ∧
    (∃ cmd, Accepted plainEnv noElements cmd ∧ ¬CommitsSafely Objects.Double cmd) ∧
    (∃ cmd, Accepted plainEnv memberTwice cmd ∧ ¬CommitsSafely Objects.Double cmd) := by
  refine ⟨⟨plainRestore [], ⟨0, 0, false, false, by decide +kernel, rfl⟩, rfl, ?_⟩,
    ⟨plainRestore [1, 1, 0, 0, 0, 0], ⟨0, 0, false, false, by decide +kernel, rfl⟩, ?_⟩,
    ⟨plainRestore ([4, 4] ++ le 4 2 ++ le 4 1 ++ [97] ++ le 8 0x3FF0000000000000 ++ le 4 1 ++
      [97] ++ le 8 0x4000000000000000), ⟨0, 0, false, false, by decide +kernel, rfl⟩, ?_⟩⟩
  · rintro ⟨obj, hcommit, -⟩
    have hfault : (plainRestore []).commitOn (S := Objects.Double) = .fault := rfl
    exact nomatch hfault.symm.trans hcommit
  · exact not_commitsSafely_of_eq rfl fun h => nomatch h.nonempty
  · refine not_commitsSafely_of_eq rfl fun h => ?_
    have htwice := (show RedisZsetObject.WellFormed _ from h.wellFormed).distinct
    exact absurd htwice (by decide +kernel)

/-- A payload of version 0 with a hash of one field, restored with a deadline. -/
theorem legacy_hash_commits_safely :
    let value : Bytes := [2, 2] ++ (Contents.hash [(ascii "f", ascii "1")]).encode
    let cmd : RestoreCommand := ⟨value, 1000, false, true, []⟩
    Accepted plainEnv (withFooter 0 value) cmd ∧ CommitsSafely Objects.Double cmd := by
  intro value cmd
  have haccepted : Accepted plainEnv (withFooter 0 value) cmd :=
    ⟨0, 1000, true, false, by decide +kernel, rfl⟩
  refine ⟨haccepted, (accepted_commits_safely_iff haccepted).mpr ?_⟩
  have hformat : verifyDumpPayload plainEnv (withFooter 0 value) = some .eloqKV := by
    decide +kernel
  unfold HoldsSafePayload
  rw [hformat]
  refine ⟨.hash [(ascii "f", ascii "1")], 2, [], by decide +kernel, ?_⟩
  exact ⟨by decide, rfl, trivial, by decide +kernel⟩

end EloqKV.Rdb
