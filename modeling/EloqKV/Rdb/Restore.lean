/-
  DUMP and RESTORE (`DumpCommand` and `RestoreCommand` in `src/redis_command.cpp`,
  `ParseRestoreCommand` behind its options, `ConvertEloqObjectToRedisDumpPayload` in
  `src/redis_rdb_restore.cpp`).

  A dumped value is a payload and a footer of ten bytes: a version and a checksum.  A payload of the
  versions Redis writes is decoded and written out again in the server's own form; one of version 0
  is in that form already and is taken as it is.
-/
import EloqKV.Rdb.Decode

namespace EloqKV.Rdb

open Lib.Endian (le ofLe toSigned)
open Lib.Reader (Cursor Outcome Read)
open Lib.Reader.Read RdbType
open Objects (Contents HashOrder Payload RedisObject RedisObjectType ScoreBits)

/-- What the process contributes: the LZF decoder, scores, checksums and hash orders. -/
structure RestoreEnv where
  lzf : Bytes → Nat → Outcome Bytes
  string2ld : Bytes → Option UInt64
  crc64 : Bytes → UInt64
  crc64speedBig : Bytes → UInt64
  order : HashOrder

/-! ## DUMP -/

/-- A value as Redis writes it. -/
def rdbPayload : Contents → Bytes
  | .string value => RdbType.string.toByte :: appendRdbString value
  | .list elements =>
    RdbType.list.toByte :: (appendRdbLen elements.length ++ elements.flatMap appendRdbString)
  | .set members =>
    RdbType.set.toByte :: (appendRdbLen members.length ++ members.flatMap appendRdbString)
  | .hash pairs => RdbType.hash.toByte :: (appendRdbLen pairs.length ++
      pairs.flatMap fun p => appendRdbString p.1 ++ appendRdbString p.2)
  | .zset pairs => RdbType.zset2.toByte :: (appendRdbLen pairs.length ++
      pairs.flatMap fun p => appendRdbString p.1 ++ le 8 p.2.toNat)

section Commands

variable {S : Type} [LinearOrder S] [ScoreBits S] (env : RestoreEnv)

def convertEloqObjectToRedisDumpPayload (obj : RedisObject S) : Bytes :=
  rdbPayload (obj.payload.contents env.order)

def redisDumpVersion : Nat := 10

/-- `DumpCommand::ExecuteOn`: the string of its result. -/
def dump (obj : RedisObject S) : Bytes :=
  let str := convertEloqObjectToRedisDumpPayload env obj ++ le 2 redisDumpVersion
  str ++ le 8 (env.crc64 str).toNat

/-! ## RESTORE -/

inductive RestorePayloadFormat where
  | eloqKV
  | redisRdb
  deriving DecidableEq, Repr

/-- `RestoreCommand::VerifyDumpPayload`: the format, if it returns true. -/
def verifyDumpPayload (dumpPayload : Bytes) : Option RestorePayloadFormat :=
  if dumpPayload.length < 10 then none
  else
    let footer := dumpPayload.drop (dumpPayload.length - 10)
    let dumpVersion := ofLe (footer.take 2)
    let checked := dumpPayload.take (dumpPayload.length - 8)
    if dumpVersion = 0 then
      if ofLe (footer.drop 2) = (env.crc64speedBig checked).toNat then some .eloqKV else none
    else if dumpVersion = 4 ∨ dumpVersion = 10 then
      if le 8 (env.crc64 checked).toNat = footer.drop 2 then some .redisRdb else none
    else none

structure RestoreCommand where
  value : Bytes
  expireWhen : Nat
  replace : Bool
  payloadValid : Bool
  payloadErrorMessage : Bytes
  deriving DecidableEq, Repr

/-- What the parser comes to: an error it replies at once, or a command. -/
inductive ParsedRestore where
  | error (message : Bytes)
  | command (cmd : RestoreCommand)
  deriving DecidableEq, Repr

/-- A payload that is not valid: an error at once under REPLACE, else when the command runs. -/
def rejected (expireWhen : Nat) (replace : Bool) (message : Bytes) : ParsedRestore :=
  if replace then .error message else .command ⟨[], expireWhen, replace, false, message⟩

/-- `UINT64_MAX`, which stands for no deadline. -/
def uint64Max : Nat := 2 ^ 64 - 1

/-- The deadline: an `int64_t` to which the clock is added unless it is absolute already. -/
def expireWhenOf (clock : Nat) (ttl : Int) (absttl : Bool) : Nat :=
  let ttl := if ttl ≠ 0 ∧ absttl = false then toSigned 64 ((ttl.toNat + clock) % 2 ^ 64) else ttl
  if 0 < ttl then ttl.toNat else uint64Max

/-- `ParseRestoreCommand`, once the options and the number of the TTL are read. -/
def parseRestoreCommand (clock : Nat) (ttl : Int) (absttl replace : Bool) (arg : Bytes) :
    Outcome ParsedRestore :=
  if ttl < 0 then .ok (.error (ascii "Invalid TTL value, must be >= 0"))
  else
    let expireWhen := expireWhenOf clock ttl absttl
    let objectPayload := arg.take (arg.length - 10)
    match verifyDumpPayload env arg with
    | none =>
      .ok (rejected expireWhen replace (ascii "DUMP payload version or checksum are wrong"))
    | some .eloqKV => .ok (.command ⟨objectPayload, expireWhen, replace, true, []⟩)
    | some .redisRdb =>
      match convertRedisDumpPayloadToEloqPayload env.lzf env.string2ld env.order objectPayload with
      | (.ok true, converted) => .ok (.command ⟨converted, expireWhen, replace, true, []⟩)
      | (.ok false, _) =>
        .ok (rejected expireWhen replace (ascii "DUMP payload format is not supported"))
      | _ => .fault

/-- The `switch` of `CommitOn`; the classes with a deadline are not in it. -/
def restoreType (b : UInt8) : Option RedisObjectType :=
  (RedisObjectType.ofByte b).filter fun type => !type.hasTTL

/-- `AddTTL` of an object.  A sorted set is copied. -/
def addTTL (ttl : Nat) (obj : RedisObject S) : RedisObject S :=
  match obj.payload with
  | .zset z => ⟨.zset z.copy, some ttl⟩
  | payload => ⟨payload, some ttl⟩

/-- The end of `CommitOn`: the deadline, if there is one. -/
def setExpireWhen (expireWhen : Nat) (obj : RedisObject S) : RedisObject S :=
  if expireWhen = uint64Max then obj else addTTL expireWhen obj

namespace RestoreCommand

def executeOn (cmd : RestoreCommand) : ExecResult := if cmd.payloadValid then .write else .fail

/-- The object in the value; null for a type that `CommitOn` does not know. -/
def readValue : Read (Option (RedisObject S)) := do
  let objType ← byte
  match restoreType objType with
  | some type => do
    let obj ← Objects.deserialize type
    pure (some obj)
  | none => pure none

def commitOn (cmd : RestoreCommand) : Outcome (Option (RedisObject S)) :=
  match (readValue (S := S) (.at cmd.value)).1 with
  | .ok none => .ok none
  | .ok (some obj) => .ok (some (setExpireWhen cmd.expireWhen obj))
  | .fail => .fail
  | .fault => .fault

end RestoreCommand

end Commands

/-! ## The decoder is safe -/

/-- What is asked of the decoder for one payload: it comes to an end without a byte outside the
payload being read and without bits being lost; and if it returns false, its output is empty and
no RESTORE of that payload writes anything. -/
def DecodesSafely (env : RestoreEnv) (payload : Bytes) : Prop :=
  (decodeRedisObject env.lzf env.string2ld (.at payload)).1 ≠ .fault ∧
  (decodeRedisObject env.lzf env.string2ld (.at payload)).2.overflowed = false ∧
  ((decodeRedisObject env.lzf env.string2ld (.at payload)).1 = .fail →
    convertRedisDumpPayloadToEloqPayload env.lzf env.string2ld env.order payload = (.ok false, []) ∧
    ∀ arg, verifyDumpPayload env arg = some .redisRdb → arg.take (arg.length - 10) = payload →
      ∀ clock ttl absttl replace cmd,
        parseRestoreCommand env clock ttl absttl replace arg = .ok (.command cmd) →
          cmd.executeOn = .fail)

lemma executeOn_of_rejected {expireWhen : Nat} {replace : Bool} {message : Bytes}
    {cmd : RestoreCommand} (h : rejected expireWhen replace message = .command cmd) :
    cmd.executeOn = .fail := by
  unfold rejected at h
  split at h
  · exact nomatch h
  · obtain rfl := ParsedRestore.command.inj h
    rfl

/-- **The decoder is safe exactly on payloads without a listpack in which, at a place the
decoder gets to, the tenth group of a back length has more than one bit.** -/
theorem decodes_safely_iff (env : RestoreEnv) (hlzf : ∀ bytes n, env.lzf bytes n ≠ .fault)
    (payload : Bytes) : DecodesSafely env payload ↔ ¬LostPayload env.lzf payload := by
  obtain ⟨r, rest, l, hr, hl, hrun⟩ := tracks_decodeRedisObject env.string2ld hlzf payload
  have hdecode := hrun false
  rw [DecodesSafely, Cursor.at, hdecode]
  constructor
  · rintro ⟨-, hnote, -⟩ hlost
    rw [hl.mpr hlost] at hnote
    exact Bool.false_ne_true hnote.symm
  · intro hlost
    refine ⟨hr, ?_, ?_⟩
    · exact Bool.eq_false_iff.mpr fun h => hlost (hl.mp h)
    · intro hfail
      have hconvert : convertRedisDumpPayloadToEloqPayload env.lzf env.string2ld env.order payload
          = (.ok false, []) := by
        rw [convertRedisDumpPayloadToEloqPayload, Cursor.at, hdecode]
        simp [show r = .fail from hfail]
      refine ⟨hconvert, ?_⟩
      intro arg hverify hpayload clock ttl absttl replace cmd hparse
      rw [parseRestoreCommand, hverify] at hparse
      simp only [hpayload, hconvert] at hparse
      split at hparse
      · cases hparse
      · exact executeOn_of_rejected (Outcome.ok.inj hparse)

/-- A process whose LZF decoder refuses everything, and whose checksums are the length. -/
def plainEnv : RestoreEnv where
  lzf _ _ := .fail
  string2ld _ := none
  crc64 bytes := UInt64.ofNat bytes.length
  crc64speedBig bytes := UInt64.ofNat bytes.length
  order := Objects.listedOrder

/-- A list of two strings, the second in sixteen bytes. -/
def plainListPayload : Bytes := [1, 2, 1, 97, 0xC1, 0x10, 0x27]

theorem plain_list_decodes_safely :
    (decodeRedisObject plainEnv.lzf plainEnv.string2ld (.at plainListPayload)).1
        = .ok (.list [ascii "a", ascii "10000"]) ∧
      DecodesSafely plainEnv plainListPayload := by
  refine ⟨by decide +kernel, ?_⟩
  refine (decodes_safely_iff plainEnv (fun _ _ => nofun) plainListPayload).mpr ?_
  rintro ⟨type, body, hcons, hlost⟩
  obtain ⟨htype, -⟩ := List.cons.inj hcons
  obtain rfl : list = type := toByte_injective htype
  exact hlost

/-- A set of the number 5 in a listpack.  Its back length is written in ten groups of seven bits
with the value `2 ^ 64 + 1`; the highest group is shifted out, and the rest is the 1 that the
reader wants. -/
def wideBackLenPayload : Bytes :=
  [20, 18, 18, 0, 0, 0, 1, 0, 5, 0x81, 0x80, 0x80, 0x80, 0x80, 0x80, 0x80, 0x80, 0x80, 2, 0xFF]

theorem back_length_overflow_accepted :
    (decodeRedisObject plainEnv.lzf plainEnv.string2ld (.at wideBackLenPayload)).1
        = .ok (.set [ascii "5"]) ∧
      ¬DecodesSafely plainEnv wideBackLenPayload := by
  refine ⟨by decide +kernel, ?_⟩
  rintro ⟨-, hnote, -⟩
  have hlost : (decodeRedisObject plainEnv.lzf plainEnv.string2ld
      (.at wideBackLenPayload)).2.overflowed = true := by decide +kernel
  rw [hlost] at hnote
  exact Bool.false_ne_true hnote.symm

end EloqKV.Rdb
