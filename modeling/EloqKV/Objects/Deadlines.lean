/-
  The deadlines that the parsers compute (`ParseSetCommand`, `ParseExpireCommand`,
  `ParseGetExCommand` and `ParseRestoreCommand` in `src/redis_command.cpp`).

  The argument is signed, the clock is not.  Their sum is a `uint64_t`, and the test whether it is
  negative never holds: a time before 1970 becomes one in the far future.  All ones stand for no
  deadline, except to EXPIRE.
-/
import EloqKV.Rdb.Restore
import EloqKV.StringNum

namespace EloqKV.Deadlines

open Lib.Endian (toSigned ofSigned)
open Rdb (uint64Max expireWhenOf)

/-- `expire_ts_tmp` in milliseconds, if the product does not overflow. -/
def milliseconds (isPx : Bool) (n : Int64) : Option Int64 :=
  if isPx then some n
  else if willMultiplicationOverflow n 1000 = some false then some (n * 1000) else none

/-- `expire_ts_tmp < 0 ? 0 : expire_ts_tmp`. -/
def onClock (n : Int64) : UInt64 := if n < 0 then 0 else n.toUInt64

/-- `current_ts + expire_ts_tmp` behind its test; the sum is not signed. -/
def fromNow (now : UInt64) (n : Int64) : Option UInt64 :=
  if willAdditionOverflow now.toInt64 n = some false then
    some (if now + n.toUInt64 < 0 then 0 else now + n.toUInt64)
  else none

/-- SET and GETEX with EX, PX, EXAT or PXAT, EXPIRE, PEXPIRE, EXPIREAT or PEXPIREAT, and RESTORE. -/
inductive Form where
  | set (isPx isAt : Bool)
  | expire (isPexpire isExpireat : Bool)
  | getex (isPx isAt : Bool)
  | restore (absttl : Bool)
  deriving DecidableEq, Repr

/-- The deadline of an argument, if it is accepted. -/
def Form.expireTs (now : UInt64) (n : Int64) : Form → Option Nat
  | set isPx isAt | expire isPx isAt => (milliseconds isPx n).bind fun n =>
      (if isAt then some (onClock n) else fromNow now n).map UInt64.toNat
  | getex isPx isAt => (milliseconds isPx n).bind fun n =>
      (if isAt then some n.toUInt64 else fromNow now n).map UInt64.toNat
  | restore absttl => if n < 0 then none else some (expireWhenOf now.toNat n.toInt absttl)

/-! ## What is to be stored -/

/-- The exact deadline. -/
def Form.exact (now : UInt64) (n : Int) : Form → Option Int
  | set isPx isAt | expire isPx isAt | getex isPx isAt =>
    some ((if isAt then 0 else now.toNat) + if isPx then n else n * 1000)
  | restore absttl => if n = 0 then none else some ((if absttl then 0 else now.toNat) + n)

/-- The numbers below this one are taken for deadlines. -/
def Form.top : Form → Nat
  | expire _ _ => 2 ^ 64
  | _ => uint64Max

/-- What is stored of a deadline is that deadline, or zero where it is negative. -/
def Stores (top ts : Nat) (exact : Option Int) : Prop :=
  (if ts < top then some (ts : Int) else none) = exact.map (max 0)

/-- Of every argument that is a number the exact deadline is stored, or it is refused. -/
def Form.Right (now : UInt64) (arg : Bytes) (form : Form) : Prop :=
  ∀ n, string2ll arg = some n →
    ∀ ts, form.expireTs now (Int64.ofInt n) = some ts → Stores form.top ts (form.exact now n)

/-- A time from now that can be stored. -/
def Reachable (top : Nat) (now : UInt64) (n : Int) : Prop :=
  0 ≤ now.toNat + n ∧ now.toNat + n < top

/-- The arguments that are refused or of which the deadline is right. -/
def Form.Safe (now : UInt64) (n : Int) (form : Form) : Prop :=
  match form with
  | set isPx isAt | expire isPx isAt =>
    let n := if isPx then n else n * 1000
    isAt = true ∨ ¬IsInt64 n ∨ Reachable form.top now n
  | getex isPx isAt =>
    let n := if isPx then n else n * 1000
    ¬IsInt64 n ∨ if isAt then 0 ≤ n else Reachable form.top now n
  | restore absttl => n ≤ 0 ∨ absttl = true ∨ now.toNat + n < 2 ^ 63

/-! ## The computations -/

/-- A signed number and the unsigned one with the same bits. -/
lemma toInt_eq_toSigned (n : Int64) : n.toInt = toSigned 64 n.toUInt64.toNat := by
  have hlt := n.toUInt64.toNat_lt
  have hbits : n.toInt = if 2 * n.toUInt64.toNat < 2 ^ 64 then (n.toUInt64.toNat : Int)
      else n.toUInt64.toNat - 2 ^ 64 := BitVec.toInt_eq_toNat_cond n.toBitVec
  rw [hbits, toSigned]
  split_ifs <;> omega

lemma Form.top_bounds (form : Form) : 2 ^ 64 - 1 ≤ form.top ∧ form.top ≤ 2 ^ 64 := by
  cases form <;> simp [Form.top, uint64Max]

variable {top : Nat}

lemma stores_some_iff {ts : Nat} {e : Int} :
    Stores top ts (some e) ↔ ts < top ∧ (ts : Int) = max 0 e := by
  rw [Stores, Option.map_some]
  split
  · next h => rw [Option.some.injEq, and_iff_right h]
  · next h => exact iff_of_false nofun fun hlt => h hlt.1

/-- The product with 1000 is exact or refused. -/
lemma milliseconds_eq (isPx : Bool) (n : Int64) :
    let exact := if isPx then n.toInt else n.toInt * 1000
    milliseconds isPx n = if IsInt64 exact then some (Int64.ofInt exact) else none := by
  have hint := isInt64_toInt n
  cases isPx with
  | true => simp [milliseconds, hint]
  | false =>
    have hthousand : (1000 : Int64).toInt = 1000 := rfl
    simp only [milliseconds, Bool.false_eq_true, if_false, willMultiplicationOverflow_eq, hthousand,
      Option.some.injEq, decide_eq_false_iff_not, not_not]
    rw [Int64.ofInt_mul, Int64.ofInt_toInt]
    rfl

/-- What follows an argument in milliseconds; `start` is zero or the clock. -/
lemma forall_milliseconds (Q : Int → Prop) {start : Int} {next : Int64 → Option UInt64}
    (h : ∀ m, (∀ ts, (next m).map UInt64.toNat = some ts → Stores top ts (some (start + m.toInt))) ↔
      Q m.toInt) (isPx : Bool) (n : Int64) :
    let exact := if isPx then n.toInt else n.toInt * 1000
    (∀ ts, ((milliseconds isPx n).bind fun m => (next m).map UInt64.toNat) = some ts →
      Stores top ts (some (start + exact))) ↔ ¬IsInt64 exact ∨ Q exact := by
  intro exact
  rw [milliseconds_eq]
  by_cases hint : IsInt64 exact
  · have hm := h (Int64.ofInt exact)
    rw [Int64.toInt_ofInt_of_le hint.1 hint.2] at hm
    rw [if_pos hint, Option.bind_some, hm, or_iff_right (not_not.mpr hint)]
  · rw [if_neg hint]
    exact iff_of_true nofun (.inl hint)

/-- The signed test refuses no sum that could be stored, and lets the negative ones pass. -/
lemma fromNow_right_iff (htop : 2 ^ 64 - 1 ≤ top ∧ top ≤ 2 ^ 64) (now : UInt64) (n : Int64) :
    (∀ ts, (fromNow now n).map UInt64.toNat = some ts →
      Stores top ts (some (now.toNat + n.toInt))) ↔ Reachable top now n.toInt := by
  have hnow := now.toNat_lt
  have hlt := n.toUInt64.toNat_lt
  have hn := toInt_eq_toSigned n
  have hclock := toInt_eq_toSigned now.toInt64
  rw [UInt64.toUInt64_toInt64] at hclock
  unfold toSigned at hn hclock
  simp only [fromNow, willAdditionOverflow_eq, Option.some.injEq, decide_eq_false_iff_not, not_not]
  split_ifs with hfits hneg
  · exact absurd hneg (by simp)
  · rw [Option.map_some, UInt64.toNat_add]
    simp only [Option.some.injEq, forall_eq', stores_some_iff, Reachable]
    omega
  · refine iff_of_true nofun ?_
    unfold IsInt64 at hfits
    unfold Reachable
    omega

lemma forall_some_iff {u : UInt64} {P : Nat → Prop} :
    (∀ ts, (some u).map UInt64.toNat = some ts → P ts) ↔ P u.toNat := by
  rw [Option.map_some]
  exact ⟨fun h => h _ rfl, fun h ts hts => Option.some.inj hts ▸ h⟩

lemma onClock_right (htop : 2 ^ 64 - 1 ≤ top) (n : Int64) :
    Stores top (onClock n).toNat (some (0 + n.toInt)) := by
  have hlt := n.toUInt64.toNat_lt
  have hn := toInt_eq_toSigned n
  unfold toSigned at hn
  rw [stores_some_iff, onClock]
  split_ifs with hneg
  · have hneg : n.toInt < 0 := Int64.lt_iff_toInt_lt.mp hneg
    rw [UInt64.toNat_zero]
    omega
  · have hpos : ¬n.toInt < 0 := fun h => hneg (Int64.lt_iff_toInt_lt.mpr h)
    omega

/-- GETEX takes the bits of a negative time for a number. -/
lemma toUInt64_right_iff (n : Int64) :
    Stores uint64Max n.toUInt64.toNat (some (0 + n.toInt)) ↔ 0 ≤ n.toInt := by
  have hlt := n.toUInt64.toNat_lt
  have hn := toInt_eq_toSigned n
  unfold toSigned at hn
  rw [stores_some_iff, uint64Max]
  omega

/-- RESTORE adds without a test, and takes a sum that became negative for no deadline. -/
lemma restore_right_iff (now : UInt64) (n : Int64) (absttl : Bool) :
    (∀ ts, (Form.restore absttl).expireTs now n = some ts →
      Stores uint64Max ts ((Form.restore absttl).exact now n.toInt)) ↔
        (Form.restore absttl).Safe now n.toInt := by
  have hnow := now.toNat_lt
  have hn := isInt64_toInt n
  unfold IsInt64 at hn
  have hlt : n < 0 ↔ n.toInt < 0 := Int64.lt_iff_toInt_lt
  simp only [Form.expireTs, Form.exact, Form.Safe, hlt]
  generalize n.toInt = n at *
  split
  · next hneg => exact iff_of_true nofun (.inl (by omega))
  next hpos =>
    simp only [Option.some.injEq, forall_eq']
    by_cases hzero : n = 0
    · subst hzero
      exact iff_of_true rfl (.inl (Int.le_refl 0))
    rw [if_neg hzero, stores_some_iff, expireWhenOf, uint64Max]
    cases absttl with
    | true =>
      refine iff_of_true ?_ (.inr (.inl rfl))
      simp only [Bool.true_eq_false, and_false, if_false, if_true]
      split <;> omega
    | false =>
      simp only [ne_eq, hzero, not_false_eq_true, and_self, if_true, Bool.false_eq_true, if_false,
        false_or, toSigned]
      split_ifs <;> omega

/-- **A deadline is stored exactly or refused**, of every text, form and time, if and only if the
sum with the clock is neither negative nor too large, the time GETEX gives on the
clock is not negative, and the sum of RESTORE fits in an `int64_t`. -/
theorem deadline_right_iff (now : UInt64) (form : Form) (arg : Bytes) :
    form.Right now arg ↔ ∀ n, string2ll arg = some n → form.Safe now n := by
  refine forall_congr' fun n => forall_congr' fun harg => ?_
  obtain ⟨m, rfl⟩ : ∃ m : Int64, m.toInt = n := by
    have hint := isInt64_of_string2ll harg
    exact ⟨Int64.ofInt n, Int64.toInt_ofInt_of_le hint.1 hint.2⟩
  rw [Int64.ofInt_toInt]
  have htop := form.top_bounds
  match form with
  | .restore absttl => exact restore_right_iff now m absttl
  | .set isPx true | .expire isPx true =>
    refine iff_of_true (Iff.mpr (forall_milliseconds (fun _ => True) (fun m => ?_) isPx m)
      (.inr trivial)) (.inl rfl)
    exact forall_some_iff.trans (iff_true_intro (onClock_right htop.1 m))
  | .set isPx false | .expire isPx false =>
    refine Iff.trans ?_ (or_iff_right Bool.false_ne_true).symm
    exact forall_milliseconds (Reachable _ now) (fromNow_right_iff htop now) isPx m
  | .getex isPx true =>
    exact forall_milliseconds (0 ≤ ·) (fun m => forall_some_iff.trans (toUInt64_right_iff m)) isPx m
  | .getex isPx false =>
    exact forall_milliseconds (Reachable _ now) (fromNow_right_iff htop now) isPx m

/-- `SET k v PX -1001` at the millisecond 1000 stores no deadline, `EXPIRE k -9000000000` in the
year 2023 and `GETEX k PXAT -5` store one in the far future. -/
theorem past_deadlines_become_future :
    (Form.set true false).expireTs 1000 (-1001) = some uint64Max ∧
      ¬(Form.set true false).Right 1000 (ascii "-1001") ∧
      (Form.expire false false).expireTs 1700000000000 (-9000000000)
        = some (2 ^ 64 - 7300000000000) ∧
      ¬(Form.expire false false).Right 1700000000000 (ascii "-9000000000") ∧
      (Form.getex true true).expireTs 1000 (-5) = some (2 ^ 64 - 5) ∧
      ¬(Form.getex true true).Right 1000 (ascii "-5") := by
  refine ⟨by decide, fun h => ?_, by decide, fun h => ?_, by decide, fun h => ?_⟩
  · have hstores := h (-1001) (by decide) uint64Max (by decide)
    exact absurd (stores_some_iff.mp hstores).1 (by decide)
  · have hstores := h (-9000000000) (by decide) (2 ^ 64 - 7300000000000) (by decide)
    exact absurd (stores_some_iff.mp hstores).2 (by decide)
  · have hstores := h (-5) (by decide) (2 ^ 64 - 5) (by decide)
    exact absurd (stores_some_iff.mp hstores).2 (by decide)

end EloqKV.Deadlines
