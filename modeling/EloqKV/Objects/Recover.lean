/-
  EXPIRE, PERSIST and GETEX, and the command that stands in for them in the log
  (`ExpireCommand`, `PersistCommand`, `GetExCommand` and `RecoverObjectCommand` in
  `src/redis_command.cpp`).

  A command that only moves a deadline cannot be replayed where the object it ran on is gone, so
  `ExecuteOn` also builds a `RecoverObjectCommand` with the bytes, and the deadline, the object had
  before the commit.
-/
import EloqKV.Objects.RoundTrip

open List hiding Cursor

namespace EloqKV.Objects

open RedisObject Payload

open Lib.Reader (Cursor Read Outcome)
open Lib.Reader.Read (bind_of_ok bind_eq_ok remaining_bind byte_bind)
open EloqKV.Lists (RedisListObject)
open Hashes (RedisHashObject)
open Sets (RedisHashSetObject)
open Zset (RedisZsetObject)
open Strings (uint64Max)

/-! ## The recovering command -/

/-- `RecoverObjectCommand`: the bytes of a whole object. -/
structure RecoverObjectCommand where
  result : Bytes
  deriving DecidableEq, Repr

open RecoverObjectCommand

namespace RecoverObjectCommand

/-- `RecoverObjectCommand::Serialize`, with the number of `RedisCommandType::RECOVER`. -/
def serialize (cmd : RecoverObjectCommand) : Bytes := 167 :: sizedBytes cmd.result

/-- `RecoverObjectCommand::Deserialize`, behind the number of the command. -/
def deserialize : Read RecoverObjectCommand := do
  let result ← readSized
  pure ⟨result⟩

end RecoverObjectCommand

/-- The class with a deadline that holds values of a type. -/
def Payload.ttlType {S : Type} : Payload S → RedisObjectType
  | .string _ => .ttlString
  | .list _ => .ttlList
  | .hash _ => .ttlHash
  | .set _ => .ttlSet
  | .zset _ => .ttlZset

section Model

variable {S : Type} [LinearOrder S] [ScoreBits S]

namespace RecoverObjectCommand

variable (cmd : RecoverObjectCommand)

/-- `CreateObject`: an empty object of the class in the bytes, null if it has no deadline. -/
def createObject : Option (RedisObject S) :=
  match cmd.result.head?.bind RedisObjectType.ofByte with
  | some .ttlString => some ⟨.string none, some uint64Max⟩
  | some .ttlList => some ⟨.list .empty, some uint64Max⟩
  | some .ttlHash => some ⟨.hash .empty, some uint64Max⟩
  | some .ttlZset => some ⟨.zset .empty, some uint64Max⟩
  | some .ttlSet => some ⟨.set .empty, some uint64Max⟩
  | _ => none

/-- `RecoverObjectCommand::CommitOn`. An object with a deadline reads the bytes as one of its own
class. Another one makes way for a new object; the cast of that one is not checked, and
`Deserialize` is virtual, so it reads the bytes as one of the class they name. -/
def commitOn (prior : RedisObject S) : Outcome (RedisObject S) :=
  if prior.ttl.isSome then (Objects.deserialize prior.payload.ttlType (.at cmd.result)).1
  else match cmd.createObject (S := S) with
    | some obj => (Objects.deserialize obj.payload.ttlType (.at cmd.result)).1
    -- the call goes through a null pointer
    | none => .fault

/-- The commit under a key: where there is no object, one is created first. -/
def commit : Option (RedisObject S) → Outcome (RedisObject S)
  | some prior => cmd.commitOn prior
  | none => match cmd.createObject (S := S) with
    | some obj => cmd.commitOn obj
    | none => .fault

/-- A replica reads the command from its image and commits it. -/
def replay (image : Bytes) (prior : Option (RedisObject S)) : Outcome (RedisObject S) :=
  match deserialize (.at image.tail) with
  | (.ok cmd, _) => cmd.commit prior
  | _ => .fault

end RecoverObjectCommand

/-! ## The commands that move a deadline -/

structure ExpireCommand where
  expireTs : UInt64
  flags : UInt8
  deriving DecidableEq, Repr

namespace ExpireCommand

def expireNX : UInt8 := 1

def expireXX : UInt8 := 2

def expireGT : UInt8 := 4

def expireLT : UInt8 := 8

/-- `(flags_ & flag) != 0`. -/
def has (cmd : ExpireCommand) (flag : UInt8) : Bool := cmd.flags &&& flag != 0

/-- `will_set_ttl` of `ExpireCommand::ExecuteOn`, for an object with this deadline. -/
def willSetTTL (cmd : ExpireCommand) (now : Nat) (ttl : Option Nat) : Bool :=
  if cmd.flags ≠ 0 then
    match ttl with
    | some oldExpireTs =>
      if now < oldExpireTs then
        if cmd.has expireXX then
          if cmd.has expireLT then cmd.expireTs.toNat < oldExpireTs else true
        else if cmd.has expireGT ∧ oldExpireTs < cmd.expireTs.toNat then true
        else if cmd.has expireLT ∧ cmd.expireTs.toNat < oldExpireTs then true
        else false
      else false
    | none =>
      if cmd.has expireNX then true
      else if cmd.has expireLT then !cmd.has expireXX
      else false
  else true

end ExpireCommand

/-- `GetExCommand`; the largest number stands for no deadline given. -/
structure GetExCommand where
  expireTs : UInt64
  isPersist : Bool
  deriving DecidableEq, Repr

/-- `UINT64_MAX` among the 64-bit numbers. -/
def noExpireTs : UInt64 := 0xFFFFFFFFFFFFFFFF

/-- The commands that move a deadline and leave the value. -/
inductive TTLCommand where
  | expire (cmd : ExpireCommand)
  | persist
  | getEx (cmd : GetExCommand)
  deriving DecidableEq, Repr

namespace TTLCommand

/-- `ExecuteOn` of the three commands at a time: the result, and `recover_ttl_obj_cmd_`. -/
def executeOn (order : HashOrder) (now : Nat) (cmd : TTLCommand) (obj : RedisObject S) :
    ExecResult × Option RecoverObjectCommand :=
  match cmd with
  | expire cmd =>
    if cmd.willSetTTL now obj.ttl then
      (.write, if obj.ttl.isSome then some ⟨obj.serialized order⟩ else none)
    else (.read, none)
  | persist =>
    if obj.ttl.isSome then (.write, some ⟨obj.serialized order⟩) else (.read, none)
  | getEx cmd =>
    match obj.payload with
    | .string _ =>
      if (cmd.expireTs = noExpireTs ∧ cmd.isPersist = false) ∨
          (cmd.isPersist = true ∧ obj.ttl.isSome = false) then (.read, none)
      else (.write, some ⟨obj.serialized order⟩)
    | _ => (.fail, none)

/-- `CommitOn` of the three commands: `AddTTL` or `SetTTL`, and `RemoveTTL`. -/
def commitOn (cmd : TTLCommand) (obj : RedisObject S) : RedisObject S :=
  match cmd with
  | expire cmd => { obj with ttl := some cmd.expireTs.toNat }
  | persist => { obj with ttl := none }
  | getEx cmd =>
    if cmd.expireTs < noExpireTs then { obj with ttl := some cmd.expireTs.toNat }
    else if cmd.isPersist then { obj with ttl := none }
    else obj

/-- The deadline a command asks for, `none` if there is to be none. -/
def deadline : TTLCommand → Option Nat
  | expire cmd => some cmd.expireTs.toNat
  | persist => none
  | getEx cmd => if cmd.expireTs < noExpireTs then some cmd.expireTs.toNat else none

/-- A command was built, and its image leaves the owner's contents and deadline under the key. -/
def RecoveredBy (order : HashOrder) (now : Nat) (cmd : TTLCommand) (obj : RedisObject S)
    (prior : Option (RedisObject S)) : Prop :=
  ∃ recover, (cmd.executeOn order now obj).2 = some recover ∧
    ∃ obj', replay recover.serialize prior = .ok obj' ∧
      obj'.payload.SameContents (cmd.commitOn obj).payload ∧ obj'.ttl = (cmd.commitOn obj).ttl

end TTLCommand

/-! ## What the executions leave -/

lemma noExpireTs_of_not_lt {ts : UInt64} (h : ¬ts < noExpireTs) : ts = noExpireTs := by
  rw [UInt64.lt_iff_toNat_lt] at h
  have hmax : noExpireTs.toNat = 2 ^ 64 - 1 := rfl
  have hts := ts.toNat_lt
  exact UInt64.toNat_inj.mp (by omega)

namespace TTLCommand

omit [LinearOrder S] in
lemma commitOn_of_write {order : HashOrder} {now : Nat} {cmd : TTLCommand} {obj : RedisObject S}
    (hwrite : (cmd.executeOn order now obj).1 = .write) :
    cmd.commitOn obj = ⟨obj.payload, cmd.deadline⟩ := by
  cases cmd with
  | expire cmd => rfl
  | persist => rfl
  | getEx cmd =>
    rw [commitOn, deadline]
    by_cases hts : cmd.expireTs < noExpireTs
    · rw [if_pos hts, if_pos hts]
    · -- without a deadline only PERSIST gets as far as a write
      have hmax := noExpireTs_of_not_lt hts
      by_cases hpersist : cmd.isPersist = true
      · rw [if_neg hts, if_neg hts, if_pos hpersist]
      · refine absurd hwrite ?_
        unfold executeOn
        cases obj.payload <;> simp [hmax, hpersist]

omit [LinearOrder S] in
/-- What a command that writes has built: the bytes of the object before the commit, or nothing
for an object without a deadline.  GETEX writes the bytes of a string in any case. -/
lemma recover_of_write {order : HashOrder} {now : Nat} {cmd : TTLCommand} {obj : RedisObject S}
    (hwrite : (cmd.executeOn order now obj).1 = .write) :
    ((cmd.executeOn order now obj).2 = some ⟨obj.serialized order⟩ ∧
        (obj.ttl = none → ∃ value, obj.payload = .string value)) ∨
      ((cmd.executeOn order now obj).2 = none ∧ obj.ttl = none) := by
  obtain ⟨payload, ttl⟩ := obj
  cases cmd with
  | expire cmd =>
    by_cases hset : cmd.willSetTTL now ttl
    · rw [executeOn, if_pos hset]
      cases ttl with
      | none => exact .inr ⟨rfl, rfl⟩
      | some t => exact .inl ⟨rfl, nofun⟩
    · rw [executeOn, if_neg hset] at hwrite
      exact nomatch hwrite
  | persist =>
    simp only [executeOn] at hwrite ⊢
    split_ifs at hwrite ⊢ with httl
    exact .inl ⟨rfl, fun hnone => absurd httl (by rw [hnone]; nofun)⟩
  | getEx cmd =>
    cases payload with
    | string value =>
      simp only [executeOn] at hwrite ⊢
      split_ifs at hwrite ⊢
      exact .inl ⟨rfl, fun _ => ⟨value, rfl⟩⟩
    | _ => exact nomatch hwrite

end TTLCommand

/-! ## What a recovering command reads -/

variable {obj : RedisObject S}

omit [LinearOrder S] [ScoreBits S] in
lemma RedisObject.type_of_isSome (httl : obj.ttl.isSome) : obj.type = obj.payload.ttlType := by
  unfold type
  rw [httl]
  cases obj.payload <;> rfl

omit [LinearOrder S] [ScoreBits S] in
lemma Payload.ttlType_of_sameContents {payload payload' : Payload S}
    (h : payload.SameContents payload') : payload.ttlType = payload'.ttlType := by
  cases payload <;> cases payload' <;> first | rfl | exact h.elim

omit [LinearOrder S] [ScoreBits S] in
lemma Payload.eq_string_of_sameContents {payload : Payload S} {value : Option Bytes}
    (h : payload.SameContents (.string value)) :
    ∃ value', payload = .string value' ∧ value'.getD [] = value.getD [] := by
  cases payload with
  | string value' => exact ⟨value', rfl, h⟩
  | _ => exact h.elim

lemma ttlType_of_deserialize {payload : Payload S} {cur : Cursor}
    (hok : (deserialize payload.ttlType cur).1 = .ok obj) :
    obj.payload.ttlType = payload.ttlType := by
  have h : deserialize payload.ttlType cur = (.ok obj, _) := Prod.ext hok rfl
  rw [deserialize, remaining_bind] at h
  obtain ⟨b, _, -, h⟩ := bind_eq_ok.mp h
  obtain ⟨ttl, _, -, h⟩ := bind_eq_ok.mp h
  obtain ⟨c, _, hc, h⟩ := bind_eq_ok.mp h
  rw [remaining_bind] at h
  generalize hbuild : Contents.build (S := S) _ c = built at h
  cases built with
  | none => cases congrArg Prod.fst h
  | some built =>
    obtain rfl : ⟨built, ttl⟩ = obj := Outcome.ok.inj (congrArg Prod.fst h)
    -- the contents are of the kind of the class, and the containers of the kind of the contents
    cases payload <;> rw [ttlType] at hc <;>
      obtain ⟨items, _, -, hc⟩ := bind_eq_ok.mp hc <;>
      obtain rfl := Outcome.ok.inj (congrArg Prod.fst hc) <;>
      rw [Contents.build] at hbuild
    case zset =>
      obtain ⟨pairs, -, rfl⟩ := Option.map_eq_some_iff.mp hbuild
      rfl
    all_goals
      cases hbuild
      rfl

/-- The deadline takes the length and the first bytes of a string that had none. -/
lemma length_of_deserialize_ttlString {b : UInt8} {bytes : Bytes}
    (hok : (deserialize .ttlString (.at (b :: sizedBytes bytes))).1 = .ok obj)
    {value : Option Bytes} (hobj : obj.payload = .string value) :
    (value.getD []).length < bytes.length := by
  have h : deserialize .ttlString (.at (b :: sizedBytes bytes)) = (.ok obj, _) := Prod.ext hok rfl
  rw [deserialize, remaining_bind, Lib.Reader.Cursor.at, byte_bind] at h
  obtain ⟨ttl, _, httl, h⟩ := bind_eq_ok.mp h
  obtain ⟨c, _, hc, h⟩ := bind_eq_ok.mp h
  obtain ⟨t, _, ht, hpure⟩ := bind_eq_ok.mp httl
  obtain ⟨_, rest, hbytes, ⟨rfl, -⟩, rfl⟩ := accepts_readU64 ht
  obtain ⟨-, rfl⟩ := Prod.mk.inj hpure
  obtain ⟨v, _, hv, hpure⟩ := bind_eq_ok.mp hc
  obtain ⟨_, post, rfl, ⟨rfl, -⟩, rfl⟩ := accepts_readSized hv
  obtain rfl := Outcome.ok.inj (congrArg Prod.fst hpure)
  obtain rfl : ⟨.string (some v), ttl⟩ = obj := Outcome.ok.inj (congrArg Prod.fst h)
  obtain rfl : some v = value := string.inj hobj
  -- nine more bytes have been passed than the image has in front of its value
  have hlength := congrArg List.length hbytes
  simp only [sizedBytes, length_append, Lib.Endian.length_le] at hlength
  show v.length < bytes.length
  omega

namespace RecoverObjectCommand

lemma replay_serialize {bytes : Bytes} (hlen : bytes.length < 2 ^ 32)
    (prior : Option (RedisObject S)) : replay (serialize ⟨bytes⟩) prior = commit ⟨bytes⟩ prior := by
  have hread : deserialize (.at (sizedBytes bytes))
      = (.ok ⟨bytes⟩, ⟨[], false⟩) := by
    have hparse := parses_readSized hlen [] false
    rw [append_nil] at hparse
    rw [deserialize, Lib.Reader.Cursor.at, bind_of_ok hparse]
    rfl
  rw [replay, serialize, tail_cons, hread]

variable {obj : RedisObject S} (order : HashOrder)

omit [LinearOrder S] in
lemma createObject_of_ttl (httl : obj.ttl.isSome) :
    ∃ fresh : RedisObject S, createObject ⟨obj.serialized order⟩ = some fresh ∧
      fresh.ttl.isSome ∧ fresh.payload.ttlType = obj.payload.ttlType := by
  rw [createObject, serialized_eq, flatten_pieces, List.head?_cons,
    Option.bind_some, RedisObjectType.ofByte_toByte, type_of_isSome httl]
  cases obj.payload <;> exact ⟨_, rfl, rfl, rfl⟩

omit [LinearOrder S] in
lemma createObject_of_no_ttl (httl : obj.ttl = none) :
    createObject (S := S) ⟨obj.serialized order⟩ = none := by
  rw [createObject, serialized_eq, flatten_pieces, List.head?_cons,
    Option.bind_some, RedisObjectType.ofByte_toByte, type, httl]
  cases obj.payload <;> rfl

lemma commitOn_of_ttl (cmd : RecoverObjectCommand) {prior : RedisObject S}
    (httl : prior.ttl.isSome) :
    cmd.commitOn prior = (Objects.deserialize prior.payload.ttlType (.at cmd.result)).1 := by
  rw [commitOn, if_pos httl]

lemma commitOn_of_no_ttl (cmd : RecoverObjectCommand) {prior : RedisObject S}
    (httl : ¬prior.ttl.isSome) : cmd.commitOn prior = cmd.commit (S := S) none := by
  rw [commitOn, if_neg httl, commit]
  cases hfresh : cmd.createObject (S := S) with
  | none => rfl
  | some fresh =>
    -- every object that is created has a deadline
    have hfreshTTL : fresh.ttl.isSome := by
      unfold createObject at hfresh
      split at hfresh <;> cases hfresh <;> rfl
    exact (commitOn_of_ttl cmd hfreshTTL).symm

lemma commit_none (httl : obj.ttl.isSome) :
    commit (S := S) ⟨obj.serialized order⟩ none
      = (Objects.deserialize obj.payload.ttlType (.at (obj.serialized order))).1 := by
  obtain ⟨fresh, hfresh, hfreshTTL, htype⟩ := createObject_of_ttl order httl
  simp only [commit, hfresh]
  rw [commitOn_of_ttl _ hfreshTTL, htype]

lemma commit_eq (httl : obj.ttl.isSome) {prior : Option (RedisObject S)}
    (hprior : ∀ p ∈ prior, p.ttl.isSome → p.type = obj.type) :
    commit ⟨obj.serialized order⟩ prior
      = (Objects.deserialize obj.payload.ttlType (.at (obj.serialized order))).1 := by
  cases prior with
  | none => exact commit_none order httl
  | some p =>
    by_cases hp : p.ttl.isSome
    · have htype := hprior p rfl hp
      rw [type_of_isSome hp, type_of_isSome httl] at htype
      rw [commit, commitOn_of_ttl _ hp, htype]
    · rw [commit, commitOn_of_no_ttl _ hp, commit_none order httl]

end RecoverObjectCommand

lemma RedisObject.deserialize_serialized (order : HashOrder)
    (hobj : obj.WellFormed) (httl : obj.ttl.isSome) (hfits : TTLFits obj.ttl)
    (hlen : (obj.serialized order).length < 2 ^ 32) :
    ∃ payload : Payload S,
      (deserialize obj.payload.ttlType (.at (obj.serialized order))).1 = .ok ⟨payload, obj.ttl⟩ ∧
        payload.SameContents obj.payload := by
  have hbytes := obj.serialized_eq order
  rw [obj.flatten_pieces order] at hbytes
  have hcontents : (obj.payload.contents order).Fits := by
    apply Contents.fits_of_length
    rw [hbytes, length_cons, length_append] at hlen
    omega
  obtain ⟨payload, hbuild, -, hsame, -⟩ := build_sameItems order hobj (.refl _)
  refine ⟨payload, ?_, hsame⟩
  have hrun := deserialize_run (S := S) hcontents hfits obj.type.toByte [] false
  rw [obj.type_contents order, type_of_isSome httl, append_nil,
    ← type_of_isSome httl, ← hbytes] at hrun
  rw [← type_of_isSome httl, Lib.Reader.Cursor.at, hrun]
  exact Contents.outcome_of_build hbuild obj.ttl

/-! ## The log keeps the owner's object -/

namespace TTLCommand

lemma not_recovered_of_no_ttl (order : HashOrder) {obj : RedisObject S} {value : Option Bytes}
    (hpayload : obj.payload = .string value) (httl : obj.ttl = none)
    (prior : Option (RedisObject S)) {obj' : RedisObject S}
    (hcommit : commit ⟨obj.serialized order⟩ prior = .ok obj') :
    ¬obj'.payload.SameContents obj.payload := by
  intro hsame
  have hcreate := createObject_of_no_ttl order httl
  have hnone : commit (S := S) ⟨obj.serialized order⟩ none = .fault := by
    rw [commit, hcreate]
  cases prior with
  | none => exact nomatch hnone.symm.trans hcommit
  | some p =>
    rw [commit] at hcommit
    by_cases hp : p.ttl.isSome
    · rw [commitOn_of_ttl _ hp] at hcommit
      have htype := (ttlType_of_deserialize hcommit).symm.trans
        (ttlType_of_sameContents hsame)
      rw [htype, hpayload] at hcommit
      have hbytes : obj.serialized order = obj.type.toByte :: sizedBytes (value.getD []) := by
        rw [obj.serialized_eq order, obj.flatten_pieces order, httl, hpayload]
        exact congrArg _ (Contents.encode_string _)
      rw [hpayload] at hsame
      obtain ⟨value', hstring, hvalue⟩ := eq_string_of_sameContents hsame
      rw [hbytes] at hcommit
      have hlt := length_of_deserialize_ttlString hcommit hstring
      exact absurd (congrArg List.length hvalue) hlt.ne
    · rw [commitOn_of_no_ttl _ hp] at hcommit
      exact nomatch hnone.symm.trans hcommit

lemma not_recovered_of_type_ne {cmd : RecoverObjectCommand} {obj prior obj' : RedisObject S}
    (hprior : prior.ttl.isSome) (httl : obj.ttl.isSome) (htype : prior.type ≠ obj.type)
    (hcommit : cmd.commit (some prior) = .ok obj') : ¬obj'.payload.SameContents obj.payload := by
  intro hsame
  rw [commit, commitOn_of_ttl _ hprior] at hcommit
  apply htype
  rw [type_of_isSome hprior, type_of_isSome httl,
    ← ttlType_of_deserialize hcommit, ttlType_of_sameContents hsame]

/-- A log that recovers the object holds the old image, so the deadline in it is the old one. -/
lemma RecoveredBy.unchanged {order : HashOrder} {now : Nat} {obj : RedisObject S}
    (hobj : obj.WellFormed) (hfits : TTLFits obj.ttl)
    (hlen : (obj.serialized order).length < 2 ^ 32) {cmd : TTLCommand}
    (hwrite : (cmd.executeOn order now obj).1 = .write) {prior : Option (RedisObject S)}
    (h : cmd.RecoveredBy order now obj prior) :
    (∃ t, obj.ttl = some t ∧ cmd.deadline = some t) ∧
      ∀ p ∈ prior, p.ttl.isSome → p.type = obj.type := by
  rw [RecoveredBy, commitOn_of_write hwrite] at h
  obtain ⟨recover, hrecover, obj', hcommit, hsame, hdeadline⟩ := h
  rcases recover_of_write hwrite with ⟨hbuilt, hstring⟩ | ⟨hbuilt, -⟩
  · obtain rfl := Option.some.inj (hbuilt.symm.trans hrecover)
    rw [replay_serialize hlen] at hcommit
    cases httl : obj.ttl with
    | none =>
      obtain ⟨value, hpayload⟩ := hstring httl
      exact absurd hsame (not_recovered_of_no_ttl order hpayload httl prior hcommit)
    | some t =>
      have hsome : obj.ttl.isSome := by rw [httl]; rfl
      have hprior : ∀ p ∈ prior, p.ttl.isSome → p.type = obj.type := by
        rintro p rfl hp
        by_contra htype
        exact not_recovered_of_type_ne hp hsome htype hcommit hsame
      -- the bytes are read by the class that wrote them, so the deadline is the old one
      rw [commit_eq order hsome hprior] at hcommit
      obtain ⟨payload, hread, -⟩ := obj.deserialize_serialized order hobj hsome hfits hlen
      obtain rfl := Outcome.ok.inj (hread.symm.trans hcommit)
      exact ⟨⟨t, rfl, hdeadline.symm.trans httl⟩, hprior⟩
  · exact nomatch hbuilt.symm.trans hrecover

/-- **When the log keeps the owner's object.** A replica gets the contents and the deadline of the
owner from the recovering command exactly if the object had a deadline and is given the same one
again, and the prior object, if it has a deadline, is of the same type. -/
theorem recovers_owner_iff (order : HashOrder) (now : Nat) {obj : RedisObject S}
    (hobj : obj.WellFormed) (hfits : TTLFits obj.ttl)
    (hlen : (obj.serialized order).length < 2 ^ 32) {cmd : TTLCommand}
    (hwrite : (cmd.executeOn order now obj).1 = .write) (prior : Option (RedisObject S)) :
    cmd.RecoveredBy order now obj prior ↔ (∃ t, obj.ttl = some t ∧ cmd.deadline = some t) ∧
        ∀ p ∈ prior, p.ttl.isSome → p.type = obj.type := by
  refine ⟨fun h => h.unchanged hobj hfits hlen hwrite, ?_⟩
  rintro ⟨⟨t, httl, hdeadline⟩, hprior⟩
  have hsome : obj.ttl.isSome := by rw [httl]; rfl
  rw [RecoveredBy, commitOn_of_write hwrite]
  rcases recover_of_write hwrite with ⟨hbuilt, -⟩ | ⟨-, hnone⟩
  · obtain ⟨payload, hread, hsame⟩ := obj.deserialize_serialized order hobj hsome hfits hlen
    refine ⟨_, hbuilt, ⟨payload, obj.ttl⟩, ?_, hsame, httl.trans hdeadline.symm⟩
    rw [replay_serialize hlen,
      commit_eq order hsome hprior, hread]
  · exact nomatch httl.symm.trans hnone

end TTLCommand

end Model

/-! ## What is recovered -/

def timedList : RedisObject Double := ⟨.list ⟨[ascii "a"], 10⟩, some 100⟩

lemma fits_hundred : TTLFits (some 100) := fun t ht => by
  obtain rfl : 100 = t := Option.some.inj ht
  decide

/-- A list that is given the deadline it has, over a set without one. -/
theorem list_recovered :
    (TTLCommand.expire ⟨100, 0⟩).RecoveredBy listedOrder 50 timedList
      (some ⟨.set .empty, none⟩) := by
  have hwf : timedList.WellFormed := rfl
  refine (TTLCommand.recovers_owner_iff listedOrder 50 hwf fits_hundred (by decide) rfl _).mpr
    ⟨⟨100, rfl, rfl⟩, ?_⟩
  rintro p hp hsome
  cases hp
  exact absurd hsome (by decide)

/-- EXPIRE from one deadline to another recovers the old one, and so does PERSIST; GETEX with a
deadline on a string without one builds a command that nothing can commit, and EXPIRE on it builds
none; and a list is not recovered where a set with a deadline stands. -/
theorem log_loses_owner :
    let timed : RedisObject Double := ⟨.string (some (ascii "v")), some 100⟩
    let plain : RedisObject Double := ⟨.string (some (ascii "v")), none⟩
    ¬(TTLCommand.expire ⟨200, 0⟩).RecoveredBy listedOrder 50 timed none ∧
      ¬TTLCommand.persist.RecoveredBy listedOrder 50 timed none ∧
      ¬(TTLCommand.getEx ⟨200, false⟩).RecoveredBy listedOrder 50 plain none ∧
      ¬(TTLCommand.expire ⟨200, 0⟩).RecoveredBy listedOrder 50 plain none ∧
      ¬(TTLCommand.expire ⟨100, 0⟩).RecoveredBy listedOrder 50 timedList
        (some ⟨.set .empty, some 60⟩) := by
  intro timed plain
  have htimed : timed.WellFormed := trivial
  have hplain : plain.WellFormed := trivial
  have hlist : timedList.WellFormed := rfl
  have hnone : TTLFits plain.ttl := nofun
  refine ⟨fun h => ?_, fun h => ?_, fun h => ?_, fun h => ?_, fun h => ?_⟩
  · obtain ⟨⟨t, ht, ht'⟩, -⟩ := h.unchanged htimed fits_hundred (by decide) rfl
    exact absurd (ht.trans ht'.symm) (by decide)
  · obtain ⟨⟨t, -, ht'⟩, -⟩ := h.unchanged htimed fits_hundred (by decide) rfl
    exact nomatch ht'
  · obtain ⟨⟨t, ht, -⟩, -⟩ := h.unchanged hplain hnone (by decide) rfl
    exact nomatch ht
  · obtain ⟨⟨t, ht, -⟩, -⟩ := h.unchanged hplain hnone (by decide) rfl
    exact nomatch ht
  · obtain ⟨-, hprior⟩ := h.unchanged hlist fits_hundred (by decide) rfl
    exact absurd (hprior _ rfl rfl) (by decide)

end EloqKV.Objects
