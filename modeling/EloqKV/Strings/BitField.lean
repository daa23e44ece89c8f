/-
  BITFIELD on a string value (`Execute(BitFieldCommand &)`, `CommitBitField` and their helpers
  in `src/redis_string_object.cpp`).

  Both functions copy the value into a buffer that reaches to the last bit any subcommand
  names, GET included, and run the subcommands on it in order.  A negative offset reads and writes
  in front of the buffer in the source; here such positions read as zero and are not written.
-/
import EloqKV.Bytes

open List

namespace EloqKV.Strings

inductive OpType where
  | get
  | set
  | incr
  deriving DecidableEq, Repr

inductive Overflow where
  | wrap
  | sat
  | fail
  deriving DecidableEq, Repr

structure SubCommand where
  opType : OpType
  encodingI : Bool
  encodingBits : Nat
  ovf : Overflow
  offset : Int
  value : BitVec 64
  deriving DecidableEq, Repr

namespace BitField

/-! ## Bits -/

variable (p : Bytes)

/-- The bit at a position counted from the first byte's highest bit. -/
def bitAt (pos : Int) : Bool :=
  if pos < 0 then false
  else (p.getD (pos.toNat / 8) 0 >>> UInt8.ofNat (7 - pos.toNat % 8)) &&& 1 != 0

def setBitAt (pos : Int) (bit : Bool) : Bytes :=
  if pos < 0 then p
  else
    let one : UInt8 := 1 <<< UInt8.ofNat (7 - pos.toNat % 8)
    p.modify (pos.toNat / 8) fun b => (b &&& ~~~one) ||| (if bit then one else 0)

lemma shift_eq {k : Nat} (hk : k < 8) : (UInt8.ofNat k).toNat % 8 = k := by
  rw [UInt8.toNat_ofNat']
  omega

lemma bitAt_natCast (n : Nat) : bitAt p n = (p.getD (n / 8) 0).toBitVec.getLsbD (7 - n % 8) := by
  rw [bitAt, if_neg (by omega), Int.toNat_natCast]
  generalize p.getD (n / 8) 0 = b
  have hbit : ((b >>> UInt8.ofNat (7 - n % 8)) &&& 1).toNat = 1 &&& (b.toNat >>> (7 - n % 8)) := by
    rw [UInt8.toNat_and, UInt8.toNat_shiftRight, shift_eq (by omega), Nat.and_comm]
    rfl
  rw [← BitVec.testBit_toNat, Nat.testBit, UInt8.toNat_toBitVec, ← hbit, Bool.eq_iff_iff,
    bne_iff_ne, bne_iff_ne, ne_eq, ne_eq, ← UInt8.toNat_inj]
  rfl

lemma getLsbD_one {k : Nat} (hk : k < 8) (j : Nat) :
    ((1 : UInt8) <<< UInt8.ofNat k).toBitVec.getLsbD j = decide (k = j) := by
  have hpow : ((1 : UInt8) <<< UInt8.ofNat k).toNat = 2 ^ k := by
    rw [UInt8.toNat_shiftLeft, shift_eq hk, UInt8.toNat_one, Nat.one_shiftLeft]
    exact Nat.mod_eq_of_lt (Nat.pow_lt_pow_right (by decide) hk)
  rw [← BitVec.testBit_toNat, UInt8.toNat_toBitVec, hpow, Nat.testBit_two_pow]

def getBitFieldValue (offset : Int) (encBits : Nat) (bsign : Bool) : BitVec 64 :=
  let val := (List.range encBits).foldl (fun (val : BitVec 64) (i : Nat) =>
      (val <<< 1) ||| (if bitAt p (offset + (i : Int)) then 1 else 0)) 0
  if bsign && encBits != 64 && val.getLsbD (encBits - 1) then
    val ||| (BitVec.allOnes 64 <<< encBits)
  else val

/-- `SetBitFieldValue`: from the last bit to the first. -/
def setBitFieldValue (val : BitVec 64) (offset : Int) (encBits : Nat) : Bytes :=
  (List.range encBits).foldl
    (fun p (i : Nat) => setBitAt p (offset + (encBits : Int) - 1 - (i : Int)) (val.getLsbD i)) p

/-- `IsBitfieldUnoverflow`: `limit`, if it returns true; the mask is shifted modulo 64. -/
def isBitfieldUnoverflow (value incr : BitVec 64) (encBits : Nat) (bsign : Bool)
    (owtype : Overflow) : Option (BitVec 64) :=
  let bits := if bsign then 64 - encBits + 1 else 64 - encBits
  let max : BitVec 64 := if bits = 64 then 0 else BitVec.allOnes 64 >>> bits
  let min : BitVec 64 := if bsign then BitVec.allOnes 64 <<< (encBits - 1) else 0
  let res := value + incr
  let bovf64 := decide (63 ≤ encBits) && ((BitVec.slt 0 value && BitVec.slt 0 incr && res.msb) ||
      (BitVec.slt value 0 && BitVec.slt incr 0 && !res.msb))
  if !bovf64 && BitVec.sle res max && BitVec.sle min res then some res
  else
    match owtype with
    | .wrap =>
      let mask := BitVec.allOnes 64 <<< (encBits % 64)
      some (if res.getLsbD (encBits - 1) then res ||| mask else res &&& ~~~mask)
    | .sat => some (if BitVec.slt max res then max else if BitVec.slt res min then min else 0)
    | .fail => none

/-! ## The two functions -/

/-- One subcommand: the buffer after it, and its entry in the answer. -/
def runSub (s : SubCommand) : Bytes × (Bool × BitVec 64) :=
  let old := getBitFieldValue p s.offset s.encodingBits s.encodingI
  match s.opType with
  | .get => (p, true, old)
  | .set =>
    match isBitfieldUnoverflow s.value 0 s.encodingBits s.encodingI s.ovf with
    | none => (p, false, 0)
    | some limit => (setBitFieldValue p limit s.offset s.encodingBits, true, old)
  | .incr =>
    match isBitfieldUnoverflow old s.value s.encodingBits s.encodingI s.ovf with
    | none => (p, false, 0)
    | some limit => (setBitFieldValue p limit s.offset s.encodingBits, true, limit)

/-- `b_len`: the bytes needed to reach the last bit of every subcommand. -/
def neededBytes (subs : List SubCommand) : Nat :=
  ((subs.foldl (fun bLen s => max bLen (s.offset + (s.encodingBits : Int)))
    (0 : Int)).toNat + 7) / 8

variable (value : Bytes) (subs : List SubCommand)

/-- `v_bys`: the value, padded with zeros. -/
def buffer : Bytes :=
  value ++ List.replicate (neededBytes subs - value.length) 0

/-- Whether a subcommand sets `b_update` in `Execute`: SET always, INCRBY if it did not fail. -/
def updates (s : SubCommand) (answer : Bool × BitVec 64) : Bool :=
  match s.opType with
  | .get => false
  | .set => true
  | .incr => answer.1

/-- The loop of `Execute(BitFieldCommand &)`: the answers, and `b_update`. -/
def executeLoop (p : Bytes) : List SubCommand → List (Bool × BitVec 64) × Bool
  | [] => ([], false)
  | s :: subs =>
    let (p, answer) := runSub p s
    let (answers, update) := executeLoop p subs
    (answer :: answers, updates s answer || update)

def executeBitField : List (Bool × BitVec 64) × Bool :=
  executeLoop (buffer value subs) subs

/-- `CommitBitField`: a SET or an INCRBY replaces the value, with a length of 32 bits. -/
def commitBitField : Bytes :=
  let p := subs.foldl (fun p s => (runSub p s).1) (buffer value subs)
  if subs.any fun s => s.opType != .get then p.take (p.length % 2 ^ 32) else value

/-! ## Lengths -/

@[simp] lemma length_setBitAt (pos : Int) (bit : Bool) :
    (setBitAt p pos bit).length = p.length := by
  unfold setBitAt
  split
  · rfl
  · rw [length_modify]

lemma length_foldl_setBitAt (pos : Nat → Int) (bit : Nat → Bool) (is : List Nat) :
    (is.foldl (fun p i => setBitAt p (pos i) (bit i)) p).length = p.length := by
  induction is generalizing p with
  | nil => rfl
  | cons i is ih => rw [foldl_cons, ih, length_setBitAt]

@[simp] lemma length_setBitFieldValue (val : BitVec 64) (offset : Int)
    (encBits : Nat) : (setBitFieldValue p val offset encBits).length = p.length := by
  exact length_foldl_setBitAt _ _ _ _

@[simp] lemma length_runSub (s : SubCommand) : (runSub p s).1.length = p.length := by
  simp only [runSub]
  split
  · rfl
  · split <;> simp
  · split <;> simp

lemma length_foldl_runSub (p : Bytes) :
    (subs.foldl (fun p s => (runSub p s).1) p).length = p.length := by
  induction subs generalizing p with
  | nil => rfl
  | cons s subs ih => rw [foldl_cons, ih, length_runSub]

lemma length_buffer : (buffer value subs).length = max value.length (neededBytes subs) := by
  rw [buffer, length_append, length_replicate]
  omega

lemma any_of_executeLoop {subs : List SubCommand} {p : Bytes}
    (hupdate : (executeLoop p subs).2 = true) : (subs.any fun s => s.opType != .get) = true := by
  induction subs generalizing p with
  | nil => contradiction
  | cons s subs ih =>
    simp only [executeLoop, Bool.or_eq_true] at hupdate
    rw [any_cons, Bool.or_eq_true]
    rcases hupdate with hnow | hlater
    · cases htype : s.opType <;> simp [updates, htype] at hnow ⊢
    · exact Or.inr (ih hlater)

lemma length_commitBitField {value : Bytes} {subs : List SubCommand}
    (hupdate : (executeBitField value subs).2 = true) :
    (commitBitField value subs).length = max value.length (neededBytes subs) % 2 ^ 32 := by
  have hany := any_of_executeLoop hupdate
  simp only [commitBitField, hany, if_true, length_take, length_foldl_runSub, length_buffer]
  omega

/-! ## Fields -/

lemma bitAt_setBitAt {p : Bytes} {m : Nat} (hlen : m / 8 < p.length) (bit : Bool) (n : Nat) :
    bitAt (setBitAt p m bit) n = if n = m then bit else bitAt p n := by
  rw [setBitAt, if_neg (by omega), bitAt_natCast, bitAt_natCast, Int.toNat_natCast,
    getD_eq_getElem?_getD, getElem?_modify]
  by_cases hbyte : m / 8 = n / 8
  · have hsame : n = m ↔ 7 - m % 8 = 7 - n % 8 := by omega
    have hget : p[n / 8]? = some (p.getD (n / 8) 0) := by
      rw [getElem?_eq_getElem (by omega), getD_eq_getElem]
    have hone := getLsbD_one (show 7 - m % 8 < 8 by omega) (7 - n % 8)
    have hbit : (if bit then 1 <<< UInt8.ofNat (7 - m % 8) else (0 : UInt8)).toBitVec.getLsbD
        (7 - n % 8) = (decide (7 - m % 8 = 7 - n % 8) && bit) := by
      cases bit
      · rw [Bool.and_false]
        exact BitVec.getLsbD_zero
      · rw [if_pos rfl, hone, Bool.and_true]
    simp only [hget, hbyte, if_true, Option.map_eq_map, Option.map_some, Option.getD_some, hsame,
      UInt8.toBitVec_or, UInt8.toBitVec_and, UInt8.toBitVec_not, BitVec.getLsbD_or,
      BitVec.getLsbD_and, BitVec.getLsbD_not, hone, hbit, show 7 - n % 8 < 8 by omega]
    split
    · next h => simp only [h, decide_true, Bool.not_true, Bool.and_false, Bool.false_or,
        Bool.true_and]
    · next h => simp only [h, decide_true, decide_false, Bool.not_false, Bool.and_true,
        Bool.false_and, Bool.or_false]
  · have hne : n ≠ m := fun h => hbyte (by rw [h])
    simp [hbyte, if_neg hne]

lemma ext_bitAt {p q : Bytes} (hlen : p.length = q.length)
    (hbits : ∀ n : Nat, bitAt p n = bitAt q n) : p = q := by
  refine ext_getElem hlen fun i hp hq => UInt8.toBitVec_inj.mp (BitVec.eq_of_getLsbD_eq ?_)
  intro j hj
  have hbit := hbits (8 * i + (7 - j))
  rwa [bitAt_natCast, bitAt_natCast, show (8 * i + (7 - j)) / 8 = i by omega,
    show 7 - (8 * i + (7 - j)) % 8 = j by omega, getD_eq_getElem _ _ hp,
    getD_eq_getElem _ _ hq] at hbit

section

variable {p : Bytes} {offset width : Nat}

lemma bitAt_setBitFieldValue (val : BitVec 64) (hin : offset + width ≤ 8 * p.length) (n : Nat) :
    bitAt (setBitFieldValue p val offset width) n =
      if offset ≤ n ∧ n < offset + width then val.getLsbD (offset + width - 1 - n)
      else bitAt p n := by
  -- the first `k` rounds write the last `k` bits of the field
  suffices h : ∀ k ≤ width, ∀ n : Nat, bitAt ((List.range k).foldl (fun p (i : Nat) =>
      setBitAt p (offset + (width : Int) - 1 - (i : Int)) (val.getLsbD i)) p) n =
      if offset + width - k ≤ n ∧ n < offset + width then val.getLsbD (offset + width - 1 - n)
      else bitAt p n by
    rw [setBitFieldValue, h width (Nat.le_refl _), Nat.add_sub_cancel]
  intro k hk
  induction k with
  | zero =>
    intro n
    rw [if_neg (by omega)]
    rfl
  | succ k ih =>
    intro n
    have hpos : offset + (width : Int) - 1 - (k : Int) = (offset + width - 1 - k : Nat) := by omega
    rw [range_succ, foldl_append, foldl_cons, foldl_nil, hpos,
      bitAt_setBitAt (by rw [length_foldl_setBitAt]; omega), ih (by omega)]
    by_cases hn : n = offset + width - 1 - k
    · rw [if_pos hn, if_pos (by omega), show offset + width - 1 - n = k by omega]
    · rw [if_neg hn]
      exact if_congr (by omega) rfl rfl

lemma getLsbD_foldl_bitAt (k : Nat) {j : Nat} (hj : j < 64) :
    ((List.range k).foldl (fun (val : BitVec 64) (i : Nat) =>
      (val <<< 1) ||| (if bitAt p (offset + (i : Int)) then 1 else 0)) 0).getLsbD j =
      (decide (j < k) && bitAt p (offset + (k - 1 - j : Nat))) := by
  induction k generalizing j with
  | zero => simp
  | succ k ih =>
    rw [range_succ, foldl_append, foldl_cons, foldl_nil, BitVec.getLsbD_or,
      BitVec.getLsbD_shiftLeft]
    rcases j with _ | j
    · rw [show k + 1 - 1 - 0 = k by omega]
      cases bitAt p (offset + (k : Int)) <;> simp
    · have hlow : (if bitAt p (offset + (k : Int)) then (1 : BitVec 64) else 0).getLsbD (j + 1)
          = false := by
        split <;> simp
      rw [hlow, show k + 1 - 1 - (j + 1) = k - 1 - j by omega, Nat.add_sub_cancel, ih (by omega)]
      simp only [hj, Nat.add_lt_add_iff_right, decide_true, Bool.true_and, Bool.or_false,
        show ¬j + 1 < 1 by omega, decide_false, Bool.not_false]

lemma getLsbD_getBitFieldValue (bsign : Bool) (hpos : 0 < width) {j : Nat}
    (hj : j < 64) : (getBitFieldValue p offset width bsign).getLsbD j =
      if j < width then bitAt p (offset + (width - 1 - j : Nat))
      else bsign && bitAt p offset := by
  have hfold := fun j (hj : j < 64) => @getLsbD_foldl_bitAt p offset width j hj
  rw [getBitFieldValue]
  generalize (List.range width).foldl _ _ = val at hfold
  by_cases hlt : j < width
  · rw [if_pos hlt]
    split
    · simp [hfold j hj, hlt]
    · simp [hfold j hj, hlt]
  · have hsign := hfold (width - 1) (by omega)
    have hval := hfold j hj
    rw [decide_eq_true (by omega), Nat.sub_self, Int.natCast_zero, Int.add_zero,
      Bool.true_and] at hsign
    rw [decide_eq_false hlt, Bool.false_and] at hval
    rw [if_neg hlt, bne_iff_ne.mpr (show width ≠ 64 by omega), Bool.and_true, hsign]
    split
    · next h =>
      rw [h, BitVec.getLsbD_or, hval, BitVec.getLsbD_shiftLeft, BitVec.getLsbD_allOnes]
      simp only [hj, hlt, show j - width < 64 by omega]
      rfl
    · next h => rw [hval, (Bool.not_eq_true _).mp h]

/-- The value of a field: the low bits of the number, with the sign repeated in front. -/
def fieldValue (val : BitVec 64) (width : Nat) (bsign : Bool) : BitVec 64 :=
  if bsign then (val.setWidth width).signExtend 64 else (val.setWidth width).setWidth 64

lemma getLsbD_fieldValue (val : BitVec 64) (bsign : Bool) (hpos : 0 < width) {j : Nat}
    (hj : j < 64) : (fieldValue val width bsign).getLsbD j =
      if j < width then val.getLsbD j else bsign && val.getLsbD (width - 1) := by
  rw [fieldValue]
  split
  · next h =>
    rw [h, BitVec.getLsbD_signExtend, BitVec.msb_eq_getLsbD_last, BitVec.getLsbD_setWidth,
      BitVec.getLsbD_setWidth, decide_eq_true hj, decide_eq_true (show width - 1 < width by omega)]
    split
    · next h => rw [decide_eq_true h]; rfl
    · rfl
  · next h =>
    rw [(Bool.not_eq_true _).mp h, BitVec.getLsbD_setWidth, BitVec.getLsbD_setWidth,
      decide_eq_true hj]
    split
    · next h => rw [decide_eq_true h]; rfl
    · next h => rw [decide_eq_false h]; rfl

/-- **Fields of bits**: a field reads back what was written to it, cut to its width, writing what
was read changes nothing, and no bit outside the field is touched. -/
theorem bit_field_laws (p : Bytes) (offset width : Nat) (val : BitVec 64) (bsign : Bool)
    (hpos : 0 < width) (hwidth : width ≤ 64) (hin : offset + width ≤ 8 * p.length) :
    getBitFieldValue (setBitFieldValue p val offset width) offset width bsign =
        fieldValue val width bsign ∧
      setBitFieldValue p (getBitFieldValue p offset width bsign) offset width = p ∧
      (setBitFieldValue p val offset width).length = p.length ∧
      ∀ n : Nat, n < offset ∨ offset + width ≤ n →
        bitAt (setBitFieldValue p val offset width) n = bitAt p n := by
  have hset := fun val n => bitAt_setBitFieldValue val hin n
  refine ⟨BitVec.eq_of_getLsbD_eq fun j hj => ?_, ext_bitAt (by simp) fun n => ?_, by simp,
    fun n hn => ?_⟩
  · rw [getLsbD_getBitFieldValue bsign hpos hj, getLsbD_fieldValue val bsign hpos hj,
      ← Int.natCast_add]
    split
    · rw [hset, if_pos (by omega)]
      congr 1
      omega
    · rw [hset, if_pos (by omega)]
      congr 2
      omega
  · rw [hset]
    split
    · rw [getLsbD_getBitFieldValue bsign hpos (by omega), if_pos (by omega), ← Int.natCast_add]
      congr 1
      omega
    · rfl
  · rw [hset, if_neg (by omega)]

/-- A signed field of eleven bits over three bytes. -/
theorem bit_field_straddles :
    getBitFieldValue (setBitFieldValue [255, 0, 255] 1500 (6 : Nat) 11) (6 : Nat) 11 true
      = -548 := by
  rw [(bit_field_laws [255, 0, 255] 6 11 1500 true (by decide) (by decide) (by decide)).1]
  decide

end

end BitField

end EloqKV.Strings
