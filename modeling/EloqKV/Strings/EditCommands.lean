/-
  What SETBIT, SETRANGE and APPEND leave and reply, and what GETRANGE reads
  (`src/redis_string_object.cpp`).

  `Execute` computes the reply before `Commit` makes the change.  The commit of a value that grows
  builds a new buffer of zeros, the other one writes into the old bytes.
-/
import EloqKV.Strings.WriteCommands

open List

namespace EloqKV.Strings

open BitField (bitAt bitAt_natCast bitAt_setBitAt setBitAt)
open RedisString

inductive EditCommand where
  | setbit (offset : Nat) (value : Bool)
  | setrange (offset : Nat) (value : Bytes)
  | append (value : Bytes)
  deriving DecidableEq, Repr

open EditCommand

namespace EditCommand

variable (F : Type) [LongDouble F]

def command : EditCommand → StringCommand F
  | setbit offset value => .setbit offset value
  | setrange offset value => .setrange offset value
  | append value => .append value

/-- `int_ret_`, which `Execute` fills. -/
def intRet (value : Bytes) : EditCommand → Nat
  | setbit offset _ =>
    if value.length ≤ offset / 8 then 0
    else ((value.getD (offset / 8) 0 >>> UInt8.ofNat (7 - offset % 8)) &&& 1).toNat
  | setrange offset new =>
    if offset + new.length ≤ value.length then value.length else offset + new.length
  | append new => new.length + value.length

/-- A command on a key: what is left there, and the reply; no reply is the error for the size. -/
def run (hasTTL : Bool) (cmd : EditCommand) (key : Option Bytes) : Option Bytes × Option Nat :=
  if key.isNone && !(cmd.command F).proceedOnNonExistentObject then (none, some 0)
  else if (cmd.command F).executeOn hasTTL (key.getD []) = .write then
    (some ((cmd.command F).commit (key.getD [])), some (cmd.intRet (key.getD [])))
  else (key, none)

end EditCommand

/-- `Execute(GetRangeCommand &)`. -/
def getRange (value : Bytes) (start stop : Int) : Bytes :=
  let length : Int := value.length
  let first := if start < 0 then (if length + start < 0 then 0 else length + start)
    else if length < start then length else start
  let last := if stop < 0 then length + stop + 1 else if length ≤ stop then length else stop + 1
  if first < last then (value.drop first.toNat).take (last - first).toNat else []

/-! ## The reference -/

/-- What a command makes of a value, padded with zeros as far as it writes: one bit is set, bytes
are replaced, or a suffix comes behind it. -/
def EditCommand.Makes (value after : Bytes) : EditCommand → Prop
  | setbit offset bit => after.length = max value.length (offset / 8 + 1) ∧
      ∀ n : Nat, bitAt after n = if n = offset then bit else bitAt value n
  | setrange _ [] => after = value
  | setrange offset new => after.length = max value.length (offset + new.length) ∧
      ∀ i, after.getD i 0 = if offset ≤ i ∧ i < offset + new.length then new.getD (i - offset) 0
        else value.getD i 0
  | append new => after = value ++ new

/-- The value would grow beyond the limit; APPEND counts the deadline. -/
def EditCommand.TooBig (hasTTL : Bool) (value : Bytes) : EditCommand → Prop
  | setbit offset _ => value.length ≤ offset / 8 ∧ maxObjectSize < 1 + 4 + (offset / 8 + 1)
  | setrange _ [] => False
  | setrange offset new => value.length < offset + new.length ∧
      maxObjectSize < 1 + 4 + (offset + new.length)
  | append new =>
    maxObjectSize < (if hasTTL then 8 else 0) + (1 + 4 + value.length) + new.length

/-- The old bit, or the new length. -/
def EditCommand.Replies (value after : Bytes) (reply : Nat) : EditCommand → Prop
  | setbit offset _ => reply = (bitAt value offset).toNat
  | _ => reply = after.length

/-- The bytes between two positions, both of them included, where negative ones count from the
end. -/
def slice (value : Bytes) (start stop : Int) : Bytes :=
  let first := if start < 0 then max 0 (value.length + start) else start
  let last := if stop < 0 then value.length + stop else stop
  (value.drop first.toNat).take (last - first + 1).toNat

/-! ## The changes -/

lemma bitAt_modify {value : Bytes} {offset : Nat} (hlen : offset / 8 < value.length) (bit : Bool)
    (n : Nat) :
    bitAt (value.modify (offset / 8) fun b =>
        if bit then b ||| 1 <<< UInt8.ofNat (7 - offset % 8)
        else b &&& ~~~(1 <<< UInt8.ofNat (7 - offset % 8))) n
      = if n = offset then bit else bitAt value n := by
  rw [← bitAt_setBitAt hlen, setBitAt, if_neg (by omega), Int.toNat_natCast]
  congr 2
  funext b
  cases bit
  · exact (UInt8.or_zero).symm
  · -- setting a bit does not depend on clearing it first
    refine UInt8.toBitVec_inj.mp (BitVec.eq_of_getLsbD_eq fun j hj => ?_)
    simp only [if_true, UInt8.toBitVec_or, UInt8.toBitVec_and, UInt8.toBitVec_not,
      BitVec.getLsbD_or, BitVec.getLsbD_and, BitVec.getLsbD_not, hj, decide_true, Bool.true_and]
    grind

variable (value : Bytes)

lemma getD_padded (m i : Nat) : (value ++ replicate m 0).getD i 0 = value.getD i 0 := by
  simp only [getD_eq_getElem?_getD, getElem?_append, getElem?_replicate]
  split
  · rfl
  · rw [getElem?_eq_none (by omega)]
    split <;> rfl

lemma makes_setBit (offset : Nat) (bit : Bool) :
    (setbit offset bit).Makes value (commitSetBit value offset bit) := by
  refine ⟨StringCommand.length_commitSetBit value offset bit, fun n => ?_⟩
  simp only [commitSetBit]
  split
  · next hle =>
    -- the new bytes are zeros, so a cleared bit is one already
    have hpad : ∀ n : Nat, bitAt (value ++ replicate (offset / 8 + 1 - value.length) 0) n
        = bitAt value n := by
      intro n
      rw [bitAt_natCast, bitAt_natCast, getD_padded]
    cases bit with
    | true =>
      have hlen : offset / 8 < (value ++ replicate (offset / 8 + 1 - value.length) 0).length := by
        rw [length_append, length_replicate]
        omega
      have hset := bitAt_modify hlen true n
      rw [hpad] at hset
      exact hset
    | false =>
      rw [if_neg Bool.false_ne_true, hpad]
      split
      · next heq =>
        rw [heq, bitAt_natCast, getD_eq_default _ _ hle]
        exact BitVec.getLsbD_zero
      · rfl
  · next hlt => exact bitAt_modify (Nat.not_le.mp hlt) bit n

lemma commitSetRange_eq (offset : Nat) (new : Bytes) :
    commitSetRange value offset new = value.take offset ++ replicate (offset - value.length) 0 ++
      (new ++ value.drop (offset + new.length)) := by
  rw [commitSetRange]
  split
  · next hle => rw [drop_eq_nil_of_le hle, append_nil]
  · rw [show offset - value.length = 0 by omega, replicate_zero, append_nil, append_assoc]

lemma getD_commitSetRange (offset : Nat) (new : Bytes) (i : Nat) :
    (commitSetRange value offset new).getD i 0
      = if offset ≤ i ∧ i < offset + new.length then new.getD (i - offset) 0
        else value.getD i 0 := by
  have hfront : (value.take offset ++ replicate (offset - value.length) (0 : UInt8)).length
      = offset := by
    rw [length_append, length_take, length_replicate]
    omega
  rw [commitSetRange_eq]
  by_cases hi : i < offset
  · rw [getD_append _ _ _ _ (by omega), getD_padded, if_neg (by omega), getD_eq_getElem?_getD,
      getElem?_take_of_lt hi, getD_eq_getElem?_getD]
  · rw [getD_append_right _ _ _ _ (by omega), hfront]
    by_cases hin : i < offset + new.length
    · rw [if_pos ⟨by omega, hin⟩, getD_append _ _ _ _ (by omega)]
    · rw [if_neg (by omega), getD_append_right _ _ _ _ (by omega), getD_eq_getElem?_getD,
        getElem?_drop, getD_eq_getElem?_getD, show offset + new.length + (i - offset - new.length)
          = i by omega]

lemma getRange_eq (start stop : Int) : getRange value start stop = slice value start stop := by
  simp only [getRange, slice]
  obtain ⟨first, hfirst⟩ : ∃ first, first = if start < 0 then max 0 (value.length + start)
    else start := ⟨_, rfl⟩
  obtain ⟨last, hlast⟩ : ∃ last, last = if stop < 0 then value.length + stop else stop := ⟨_, rfl⟩
  have hleft : (if start < 0 then (if (value.length : Int) + start < 0 then 0
      else value.length + start) else if value.length < start then (value.length : Int) else start)
      = min (value.length : Int) first := by
    rw [hfirst]
    split_ifs <;> omega
  have hright : (if stop < 0 then (value.length : Int) + stop + 1
      else if value.length ≤ stop then (value.length : Int) else stop + 1)
      = min (value.length : Int) (last + 1) := by
    rw [hlast]
    split_ifs <;> omega
  have hpos : 0 ≤ first := by
    rw [hfirst]
    split_ifs <;> omega
  rw [hleft, hright, ← hfirst, ← hlast]
  split
  · rw [show min (value.length : Int) first = first by omega, take_eq_take_iff, length_drop]
    omega
  · rw [eq_comm, take_eq_nil_iff, drop_eq_nil_iff]
    omega

/-! ## The commands -/

namespace EditCommand

variable (F : Type) [LongDouble F]

/-- A command that makes the value too big changes nothing and is an error, every other one makes
and replies what it should. -/
def Right (hasTTL : Bool) (cmd : EditCommand) (key : Option Bytes) : Prop :=
  (cmd.TooBig hasTTL (key.getD []) → cmd.run F hasTTL key = (key, none)) ∧
  (¬cmd.TooBig hasTTL (key.getD []) → ∃ after reply, cmd.run F hasTTL key = (after, some reply) ∧
    cmd.Makes (key.getD []) (after.getD []) ∧ cmd.Replies (key.getD []) (after.getD []) reply)

/-- SETRANGE of nothing, beyond the end of a value. -/
def OnlyPads (key : Option Bytes) : EditCommand → Prop
  | setrange offset new => new = [] ∧ ∃ value ∈ key, value.length < offset
  | _ => False

variable {F}

lemma right_of {hasTTL : Bool} {cmd : EditCommand} {key : Option Bytes}
    (hproceed : key = none → (cmd.command F).proceedOnNonExistentObject = true)
    (hwrite : (cmd.command F).executeOn hasTTL (key.getD []) = .write ↔
      ¬cmd.TooBig hasTTL (key.getD []))
    (hmakes : cmd.Makes (key.getD []) ((cmd.command F).commit (key.getD [])))
    (hreplies : cmd.Replies (key.getD []) ((cmd.command F).commit (key.getD []))
      (cmd.intRet (key.getD []))) :
    cmd.Right F hasTTL key := by
  have hrun : cmd.run F hasTTL key = if (cmd.command F).executeOn hasTTL (key.getD []) = .write then
      (some ((cmd.command F).commit (key.getD [])), some (cmd.intRet (key.getD [])))
      else (key, none) := by
    rw [run, if_neg]
    cases key with
    | none => rw [hproceed rfl]; nofun
    | some value => nofun
  constructor
  · intro hbig
    rw [hrun, if_neg fun h => hwrite.1 h hbig]
  · intro hfits
    exact ⟨some ((cmd.command F).commit (key.getD [])), _, by rw [hrun, if_pos (hwrite.2 hfits)],
      hmakes, hreplies⟩

variable (hasTTL : Bool)

lemma setBit_right (offset : Nat) (bit : Bool) (key : Option Bytes) :
    (setbit offset bit).Right F hasTTL key := by
  refine right_of (fun _ => rfl) (ExecResult.ite_eq_write.trans ?_) (makes_setBit _ offset bit) ?_
  · rw [executeSetBit, TooBig, SetCommand.checkSerializedLength]
    split
    · next hgrows => rw [decide_eq_true_eq, not_and, not_lt, forall_prop_of_true hgrows]
    · next hin => exact iff_of_true rfl fun h => hin h.1
  · rw [Replies, bitAt, if_neg (by omega), Int.toNat_natCast, intRet]
    split
    · next hgrows =>
      rw [getD_eq_default _ _ hgrows, UInt8.zero_shiftRight]
      rfl
    · generalize (key.getD []).getD (offset / 8) 0 >>> UInt8.ofNat (7 - offset % 8) = b
      have hmod : (b &&& 1).toNat = b.toNat % 2 :=
        (UInt8.toNat_and b 1).trans (Nat.and_one_is_mod _)
      by_cases hzero : b &&& 1 = 0
      · rw [hzero]
        rfl
      · rw [bne_iff_ne.2 hzero, Bool.toNat_true]
        have : (b &&& 1).toNat ≠ 0 := fun h => hzero (UInt8.toNat_inj.1 h)
        omega

lemma append_right (new : Bytes) (key : Option Bytes) : (append new).Right F hasTTL key := by
  refine right_of (fun _ => rfl) (ExecResult.ite_eq_write.trans ?_) rfl ?_
  · rw [executeAppend, TooBig, decide_eq_true_eq, not_lt]
  · exact (Nat.add_comm _ _).trans length_append.symm

lemma setRange_right (offset : Nat) (first : UInt8) (new : Bytes)
    (key : Option Bytes) : (setrange offset (first :: new)).Right F hasTTL key := by
  have hlen := StringCommand.length_commitSetRange (key.getD []) offset (first :: new)
  refine right_of (fun _ => rfl) (ExecResult.ite_eq_write.trans ?_)
    ⟨hlen, getD_commitSetRange _ _ _⟩ ?_
  · rw [executeSetRange, TooBig.eq_3 _ _ _ _ (cons_ne_nil _ _), SetCommand.checkSerializedLength]
    split
    · next hin => exact iff_of_true rfl fun h => absurd hin (Nat.not_le.2 h.1)
    · next hgrows =>
      rw [decide_eq_true_eq, not_and, not_lt, forall_prop_of_true (Nat.not_le.1 hgrows)]
  · refine Eq.trans ?_ hlen.symm
    rw [intRet]
    split <;> omega

lemma setRange_nothing_right_iff (offset : Nat) (key : Option Bytes) :
    (setrange offset []).Right F hasTTL key ↔ ∀ value ∈ key, offset ≤ value.length := by
  cases key with
  | none => exact iff_of_true ⟨nofun, fun _ => ⟨none, 0, rfl, rfl, rfl⟩⟩ nofun
  | some value =>
    simp only [Option.mem_some_iff, forall_eq']
    constructor
    · rintro ⟨-, hright⟩
      obtain ⟨after, reply, hrun, hsame, -⟩ := hright id
      by_contra hbeyond
      have hlen := StringCommand.length_commitSetRange value offset []
      rw [run, if_neg nofun] at hrun
      split at hrun
      · rw [← (Prod.mk.inj hrun).1] at hsame
        rw [show commitSetRange value offset [] = value from hsame, length_nil] at hlen
        omega
      · cases hrun
    · intro hle
      have hsame : commitSetRange value offset [] = value := by
        rw [commitSetRange_eq, Nat.sub_eq_zero_of_le hle, replicate_zero, append_nil, nil_append,
          length_nil, Nat.add_zero, take_append_drop]
      refine right_of nofun (ExecResult.ite_eq_write.trans (iff_of_true (if_pos hle) id)) hsame ?_
      exact (if_pos hle).trans (congrArg length hsame).symm

end EditCommand

/-- **The commands that write bytes make and reply what they should**, exactly when they are no
SETRANGE of nothing beyond the end of a value, which lengthens the value. GETRANGE reads the slice
between any two positions. -/
theorem string_edits_right_iff (F : Type) [LongDouble F] :
    (∀ (hasTTL : Bool) (cmd : EditCommand) (key : Option Bytes),
      cmd.Right F hasTTL key ↔ ¬cmd.OnlyPads key) ∧
    ∀ value start stop, getRange value start stop = slice value start stop := by
  refine ⟨fun hasTTL cmd key => ?_, getRange_eq⟩
  match cmd with
  | .setbit offset bit => exact iff_of_true (setBit_right hasTTL offset bit key) id
  | .append new => exact iff_of_true (append_right hasTTL new key) id
  | .setrange offset (first :: new) =>
    exact iff_of_true (setRange_right hasTTL offset first new key) nofun
  | .setrange offset [] =>
    rw [setRange_nothing_right_iff]
    simp [EditCommand.OnlyPads]

/-- `SETRANGE k 5 ""` makes a value of three bytes five bytes long. -/
theorem setrange_of_nothing_pads :
    ¬(EditCommand.setrange 5 []).Right Int false (some [97, 98, 99]) ∧
      (EditCommand.setrange 5 []).run Int false (some [97, 98, 99])
        = (some [97, 98, 99, 0, 0], some 5) := by
  rw [setRange_nothing_right_iff]
  exact ⟨fun h => absurd (h _ rfl) (by decide), rfl⟩

end EloqKV.Strings
