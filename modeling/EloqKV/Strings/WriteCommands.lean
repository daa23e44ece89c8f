/-
  The write commands that change a string value in place (`src/redis_string_object.cpp`,
  the string commands of `src/redis_command.cpp`).

  SETBIT, SETRANGE and APPEND check the size the value will have, BITFIELD and the counters do
  not.  The value of an object that was just created is empty.
-/
import EloqKV.Numbers
import EloqKV.Objects.Outcome
import EloqKV.Strings.BitField
import EloqKV.Strings.SetCommand

open List

namespace EloqKV.Strings

open BitField

/-- The string commands that write, without SET; offsets are not negative. -/
inductive StringCommand (F : Type) where
  | setbit (offset : Nat) (value : Bool)
  | setrange (offset : Nat) (value : Bytes)
  | append (value : Bytes)
  | bitfield (subs : List SubCommand)
  | incrby (incr : Int64)
  | incrbyfloat (incr : F)

namespace RedisString

open SetCommand (checkSerializedLength)

/-! ### The decisions -/

variable (value : Bytes)

def executeSetBit (offset : Nat) : Bool :=
  if value.length ≤ offset / 8 then checkSerializedLength (offset / 8 + 1) else true

def executeSetRange (offset : Nat) (new : Bytes) : Bool :=
  if offset + new.length ≤ value.length then true
  else checkSerializedLength (offset + new.length)

/-- `Execute(AppendCommand &)`: a deadline makes `SerializedLength` eight bytes longer. -/
def executeAppend (hasTTL : Bool) (value new : Bytes) : Bool :=
  let serializedLength := (if hasTTL then 8 else 0) + (1 + 4 + value.length)
  serializedLength + new.length ≤ maxObjectSize

/-- The old value of a counter: nothing is zero. -/
def counterValue : Option Int :=
  if value.length = 0 then some 0 else string2ll value

def executeIntOp (incr : Int64) : Bool :=
  match counterValue value with
  | none => false
  | some old => !incrOverflows incr.toInt old

/-! ### The mutations -/

def commitSetBit (offset : Nat) (bit : Bool) : Bytes :=
  let byPos := offset / 8
  let c : UInt8 := 1 <<< UInt8.ofNat (7 - offset % 8)
  if value.length ≤ byPos then
    let str := value ++ List.replicate (byPos + 1 - value.length) 0
    if bit then str.modify byPos (· ||| c) else str
  else value.modify byPos fun b => if bit then b ||| c else b &&& ~~~c

def commitSetRange (offset : Nat) (new : Bytes) : Bytes :=
  if value.length ≤ offset + new.length then
    value.take offset ++ List.replicate (offset - value.length) 0 ++ new
  else value.take offset ++ new ++ value.drop (offset + new.length)

def commitAppend (value new : Bytes) : Bytes := value ++ new

/-- `CommitIncrDecr`; the branches that log an error leave the value alone. -/
def commitIncrDecr (incr : Int64) : Bytes :=
  match counterValue value with
  | none => value
  | some old =>
    if incrOutOfRange incr.toInt old then value else int64ToString (old + incr.toInt)

section Float

variable {F : Type} [LongDouble F]

/-- The old value of a fraction: nothing is zero. -/
def fractionValue (F : Type) [LongDouble F] (value : Bytes) : Option F :=
  if value.length = 0 then some LongDouble.zero else LongDouble.string2ld value

def executeFloatOp (value : Bytes) (incr : F) : Bool :=
  match fractionValue F value with
  | none => false
  | some old => !LongDouble.isNanOrInf (LongDouble.add old incr)

/-- `CommitFloatIncr`: the increment arrives as a `double`. -/
def commitFloatIncr (value : Bytes) (incr : F) : Bytes :=
  match fractionValue F value with
  | none => value
  | some old => LongDouble.ld2string (LongDouble.add old (LongDouble.toDouble incr))

end Float

end RedisString

namespace StringCommand

open RedisString

variable {F : Type} [LongDouble F]

def proceedOnNonExistentObject : StringCommand F → Bool
  | setrange _ value => !value.isEmpty
  | _ => true

/-- `ExecuteOn` for a string object. -/
def executeOn (hasTTL : Bool) (cmd : StringCommand F) (value : Bytes) : ExecResult :=
  match cmd with
  | setbit offset _ => if executeSetBit value offset then .write else .fail
  | setrange offset new => if executeSetRange value offset new then .write else .fail
  | append new => if executeAppend hasTTL value new then .write else .fail
  | bitfield subs => if (BitField.executeBitField value subs).2 then .write else .read
  | incrby incr => if executeIntOp value incr then .write else .fail
  | incrbyfloat incr => if executeFloatOp value incr then .write else .fail

/-- The value after `CommitOn`. -/
def commit (cmd : StringCommand F) (value : Bytes) : Bytes :=
  match cmd with
  | setbit offset bit => commitSetBit value offset bit
  | setrange offset new => commitSetRange value offset new
  | append new => commitAppend value new
  | bitfield subs => BitField.commitBitField value subs
  | incrby incr => commitIncrDecr value incr
  | incrbyfloat incr => commitFloatIncr value incr

/-! ## The size limit -/

lemma length_commitSetBit (value : Bytes) (offset : Nat) (bit : Bool) :
    (commitSetBit value offset bit).length = max value.length (offset / 8 + 1) := by
  simp only [commitSetBit]
  split
  · next hle =>
    have hpadded : (value ++ List.replicate (offset / 8 + 1 - value.length) 0).length =
        max value.length (offset / 8 + 1) := by
      rw [length_append, length_replicate]
      omega
    split
    · rw [length_modify, hpadded]
    · exact hpadded
  · rw [length_modify]
    omega

lemma length_commitSetRange (value : Bytes) (offset : Nat) (new : Bytes) :
    (commitSetRange value offset new).length = max value.length (offset + new.length) := by
  simp only [commitSetRange]
  split
  · simp only [length_append, length_take, length_replicate]
    omega
  · simp only [length_append, length_take, length_drop]
    omega

variable {value : Bytes}

lemma isInt64_of_counterValue {n : Int} (hn : counterValue value = some n) : IsInt64 n := by
  unfold counterValue at hn
  split at hn
  · exact Option.some.inj hn ▸ ⟨by decide, by decide⟩
  · exact isInt64_of_string2ll hn

lemma length_commitIncrDecr_le (hmax : value.length ≤ maxObjectSize)
    (incr : Int64) : (commitIncrDecr value incr).length ≤ maxObjectSize := by
  unfold commitIncrDecr
  split
  · exact hmax
  · next old hold =>
    split
    · exact hmax
    · next hrange =>
      have hint := isInt64_add_of_not_incrOutOfRange (isInt64_toInt incr)
        (isInt64_of_counterValue hold) (Bool.eq_false_iff.2 hrange)
      exact Nat.le_trans (length_int64ToString_le hint) (by decide)

lemma length_commitFloatIncr_le (hmax : value.length ≤ maxObjectSize)
    (incr : F) : (commitFloatIncr value incr).length ≤ maxObjectSize := by
  unfold commitFloatIncr
  split
  · exact hmax
  · exact Nat.le_trans (LongDouble.length_ld2string_le _) (by decide)

/-- When the new value is covered by a check; BITFIELD has none. -/
def Fits (cmd : StringCommand F) (value : Bytes) : Prop :=
  match cmd with
  | bitfield subs =>
    (BitField.executeBitField value subs).2 = true →
      max value.length (BitField.neededBytes subs) % 2 ^ 32 ≤ maxObjectSize
  | _ => True

/-- All commands but BITFIELD test the length that the commit will leave. -/
theorem size_commit_iff (hasTTL : Bool) (cmd : StringCommand F)
    (hmax : value.length ≤ maxObjectSize) :
    (cmd.executeOn hasTTL value = .write → (cmd.commit value).length ≤ maxObjectSize) ↔
      cmd.Fits value := by
  cases cmd with
  | setbit offset bit =>
    refine iff_of_true (fun hwrite => ?_) trivial
    have hpass : executeSetBit value offset = true := ExecResult.ite_eq_write.1 hwrite
    rw [commit, length_commitSetBit]
    unfold executeSetBit SetCommand.checkSerializedLength at hpass
    split_ifs at hpass
    · have := of_decide_eq_true hpass
      omega
    · omega
  | setrange offset new =>
    refine iff_of_true (fun hwrite => ?_) trivial
    have hpass : executeSetRange value offset new = true := ExecResult.ite_eq_write.1 hwrite
    rw [commit, length_commitSetRange]
    unfold executeSetRange SetCommand.checkSerializedLength at hpass
    split_ifs at hpass
    · omega
    · have := of_decide_eq_true hpass
      omega
  | append new =>
    refine iff_of_true (fun hwrite => ?_) trivial
    have hpass : executeAppend hasTTL value new = true := ExecResult.ite_eq_write.1 hwrite
    have := of_decide_eq_true hpass
    rw [commit, commitAppend, length_append]
    omega
  | bitfield subs =>
    simp only [executeOn, commit, Fits]
    constructor
    · intro hsize hupdate
      rw [← length_commitBitField hupdate]
      exact hsize (if_pos hupdate)
    · intro hfits hwrite
      have hupdate : (executeBitField value subs).2 = true := by
        by_contra hno
        simp [hno] at hwrite
      rw [length_commitBitField hupdate]
      exact hfits hupdate
  | incrby incr => exact iff_of_true (fun _ => length_commitIncrDecr_le hmax incr) trivial
  | incrbyfloat incr => exact iff_of_true (fun _ => length_commitFloatIncr_le hmax incr) trivial

end StringCommand

end EloqKV.Strings
