/-
  The counters INCR, DECR, INCRBY, DECRBY and HINCRBY (their parsers in `src/redis_command.cpp`,
  `Execute(IntOpCommand &)`, `CommitIncrDecr`, `Execute(HIncrByCommand &)`, `CommitHincrby`).

  A stored text counts as a number exactly if it is the text `std::to_string` writes for it.
-/
import EloqKV.Errors
import EloqKV.Objects.HashObject
import EloqKV.Strings.WriteCommands

namespace EloqKV.Counters

open Option

open Hashes (RedisHashObject withinLimit)
open Strings.RedisString (commitIncrDecr counterValue executeIntOp)

/-! ## The requests -/

/-- The counters under a key of their own. -/
inductive CounterCommand where
  | incr | decr | incrby | decrby
  deriving DecidableEq, Repr

def wrongNumber (name : String) : String :=
  "ERR wrong number of arguments for '" ++ name ++ "' command"

def parseNumber (sv : Bytes) : Except String Int64 :=
  match string2ll sv with
  | none => .error RdCode.digitalInvalid.message
  | some n => .ok (.ofInt n)

/-- The parsers of INCR, DECR, INCRBY and DECRBY: the key and `incr_`. -/
def CounterCommand.parse : CounterCommand → List Bytes → Except String (Bytes × Int64)
  | incr, [_, key] => .ok (key, 1)
  | incr, _ => .error (wrongNumber "incr")
  | decr, [_, key] => .ok (key, -1)
  | decr, _ => .error (wrongNumber "decr")
  | incrby, [_, key, sv] => return (key, ← parseNumber sv)
  | incrby, _ => .error (wrongNumber "incrby")
  | decrby, [_, key, sv] => return (key, -(← parseNumber sv))
  | decrby, _ => .error (wrongNumber "decrby")

/-- `ParseHIncrByCommand`: the key, the field and `score_`. -/
def parseHIncrBy : List Bytes → Except String (Bytes × Bytes × Int64)
  | [_, key, field, sv] => return (key, field, ← parseNumber sv)
  | _ => .error (wrongNumber "hincrby")

/-- The reply to a counter, if it is no error, and the string under the key afterwards. -/
def runIntOp (stored : Option Bytes) (incr : Int64) : Option Int × Option Bytes :=
  let value := stored.getD []
  if executeIntOp value incr then
    (some ((counterValue value).getD 0 + incr.toInt), some (commitIncrDecr value incr))
  else (none, stored)

/-- The reply to HINCRBY, if it is no error, and the hash under the key afterwards. -/
def runHIncrBy (stored : Option RedisHashObject) (field : Bytes) (score : Int64) :
    Option Int × Option RedisHashObject :=
  let h := stored.getD .empty
  if h.executeHIncrBy field score then
    (some (((h.hashMap.lookup field).bind string2ll).getD 0 + score.toInt),
      some (h.commitHIncrBy field score))
  else (none, stored)

/-! ## What a counter promises -/

def CounterCommand.amount : CounterCommand → List Bytes → Option Int
  | incr, _ => some 1
  | decr, _ => some (-1)
  | incrby, args => string2ll (args.getD 2 [])
  | decrby, args => (string2ll (args.getD 2 [])).map (-·)

/-- The number a stored text stands for; nothing stands for zero. -/
def Denotes (stored : Option Bytes) (n : Int) : Prop :=
  IsInt64 n ∧ stored.getD (int64ToString 0) = int64ToString n

/-- A number whose sum is an `int64_t` is replaced by it and replied; anything else is an error. -/
def CountsRight (stored : Option Bytes) (amount : Int) (out : Option Int × Option Bytes) : Prop :=
  (∃ n, Denotes stored n ∧ IsInt64 (n + amount) ∧
      out = (some (n + amount), some (int64ToString (n + amount)))) ∨
    ((∀ n, Denotes stored n → ¬IsInt64 (n + amount)) ∧ out = (none, stored))

def fieldValue (h : Option RedisHashObject) (field : Bytes) : Option Bytes :=
  h.bind (·.hashMap.lookup field)

/-- The field counts right and no other one changes. -/
def FieldCountsRight (h : Option RedisHashObject) (field : Bytes) (amount : Int)
    (out : Option Int × Option RedisHashObject) : Prop :=
  CountsRight (fieldValue h field) amount (out.1, fieldValue out.2 field) ∧
    (out.1 = none → out.2 = h) ∧
    ∀ other, other ≠ field → fieldValue out.2 other = fieldValue h other

/-- The sum is none of the two at the ends, or nothing is added. -/
def InsideRange (n amount : Int) : Prop :=
  amount = 0 ∨ (-2 ^ 63 < n + amount ∧ n + amount < 2 ^ 63 - 1)

instance decidableInsideRange (n amount : Int) : Decidable (InsideRange n amount) :=
  inferInstanceAs (Decidable (_ ∨ _))

/-- Where a counter is right: no sum at the ends, no negation of the smallest number but on zero,
and an empty string only with an amount that is refused on zero. -/
def CounterSafe (stored : Option Bytes) (amount : Int) : Prop :=
  (stored = some [] → amount ≤ -2 ^ 63 ∨ 2 ^ 63 - 1 ≤ amount) ∧ ∀ n, Denotes stored n →
      (amount = 2 ^ 63 → n = 0) ∧ (IsInt64 (n + amount) → InsideRange n amount)

/-- The hash has room for twenty characters. -/
def hasRoom (h : Option RedisHashObject) (field : Bytes) : Bool :=
  withinLimit (h.getD .empty).serializedLength ((h.getD .empty).counterGrowth field + 20)

/-- Where HINCRBY is right. -/
def FieldSafe (h : Option RedisHashObject) (field : Bytes) (amount : Int) : Prop :=
  ∀ n, Denotes (fieldValue h field) n → IsInt64 (n + amount) →
    InsideRange n amount ∧ hasRoom h field = true

lemma denotes_iff {stored : Option Bytes} {n : Int} :
    Denotes stored n ↔ stored.elim (some 0) string2ll = some n := by
  cases stored <;> exact string2ll_eq_some.symm

/-! ## One step of a counter -/

section Steps

variable {stored : Option Bytes} {n incr amount : Int} {out : Option Int × Option Bytes}

lemma countsRight_iff (hn : Denotes stored n) : CountsRight stored amount out ↔
    out = if IsInt64 (n + amount) then (some (n + amount), some (int64ToString (n + amount)))
      else (none, stored) := by
  have hunique : ∀ m, Denotes stored m → m = n := fun m hm =>
    some.inj ((denotes_iff.mp hm).symm.trans (denotes_iff.mp hn))
  split
  · next hsum =>
    refine ⟨?_, fun h => .inl ⟨n, hn, hsum, h⟩⟩
    rintro (⟨m, hm, -, h⟩ | ⟨hno, -⟩)
    · rwa [hunique m hm] at h
    · exact absurd hsum (hno n hn)
  · next hsum =>
    refine ⟨?_, fun h => .inr ⟨fun m hm => hunique m hm ▸ hsum, h⟩⟩
    rintro (⟨m, hm, hin, -⟩ | ⟨-, h⟩)
    · exact absurd (hunique m hm ▸ hin) hsum
    · exact h

lemma countsRight_iff_of_not_denotes (hnone : ∀ n, ¬Denotes stored n) :
    CountsRight stored amount out ↔ out = (none, stored) := by
  refine ⟨?_, fun h => .inr ⟨fun n hn => absurd hn (hnone n), h⟩⟩
  rintro (⟨n, hn, -⟩ | ⟨-, h⟩)
  · exact absurd hn (hnone n)
  · exact h

/-- What a counter does that has found a number and knows whether the result fits. -/
def counted (n incr : Int) (fits : Bool) (stored : Option Bytes) : Option Int × Option Bytes :=
  if InsideRange n incr ∧ fits = true then (some (n + incr), some (int64ToString (n + incr)))
  else (none, stored)

lemma incrOverflows_eq (hincr : IsInt64 incr) (hn : IsInt64 n) :
    incrOverflows incr n = !decide (InsideRange n incr) := by
  rw [Bool.eq_iff_iff, Bool.not_eq_true', decide_eq_false_iff_not]
  simp only [incrOverflows, InsideRange, Bool.or_eq_true, Bool.and_eq_true, decide_eq_true_eq]
  unfold IsInt64 at hincr hn
  omega

lemma countsRight_counted_iff {fits : Bool} (hn : Denotes stored n) :
    CountsRight stored amount (counted n incr fits stored) ↔
      if IsInt64 (n + amount) then (InsideRange n incr ∧ fits = true) ∧ incr = amount
      else ¬(InsideRange n incr ∧ fits = true) := by
  rw [countsRight_iff hn, counted]
  by_cases hpass : InsideRange n incr ∧ fits = true
  · rw [if_pos hpass]
    split
    · rw [Prod.mk.injEq, some_inj, Int.add_right_inj, and_iff_right hpass]
      refine ⟨fun h => h.1, ?_⟩
      rintro rfl
      exact ⟨rfl, rfl⟩
    · exact iff_of_false nofun (not_not.mpr hpass)
  · rw [if_neg hpass]
    split
    · exact iff_of_false nofun fun h => hpass h.1
    · exact iff_of_true rfl hpass

/-- What a counter does with the text it finds. -/
def countText (incr : Int) (fits : Bool) (stored : Option Bytes) : Option Int × Option Bytes :=
  match stored.elim (some 0) string2ll with
  | none => (none, stored)
  | some n => counted n incr fits stored

lemma countsRight_countText_iff {fits : Bool} :
    CountsRight stored amount (countText incr fits stored) ↔ ∀ n, Denotes stored n →
      if IsInt64 (n + amount) then (InsideRange n incr ∧ fits = true) ∧ incr = amount
      else ¬(InsideRange n incr ∧ fits = true) := by
  unfold countText
  cases hread : stored.elim (some 0) string2ll with
  | none =>
    have hnone : ∀ n, ¬Denotes stored n := by
      intro n hn
      exact nomatch hread.symm.trans (denotes_iff.mp hn)
    exact iff_of_true ((countsRight_iff_of_not_denotes hnone).mpr rfl) fun n hn =>
      absurd hn (hnone n)
  | some n =>
    rw [countsRight_counted_iff (denotes_iff.mpr hread)]
    simp [denotes_iff, hread]

end Steps

/-! ## The commands -/

lemma runIntOp_eq (stored : Option Bytes) (incr : Int64) : runIntOp stored incr
    = if stored = some [] then counted 0 incr.toInt true stored
      else countText incr.toInt true stored := by
  have hvalue : counterValue (stored.getD [])
      = if stored = some [] then some 0 else stored.elim (some 0) string2ll := by
    rcases stored with _ | _ | ⟨b, rest⟩ <;> rfl
  have hrun : runIntOp stored incr = match counterValue (stored.getD []) with
      | none => (none, stored)
      | some n => counted n incr.toInt true stored := by
    rw [runIntOp, executeIntOp, commitIncrDecr]
    cases hold : counterValue (stored.getD []) with
    | none => rfl
    | some n =>
      have hn := Strings.StringCommand.isInt64_of_counterValue hold
      have hagain : InsideRange n incr.toInt → incrOutOfRange incr.toInt n = false := by
        simp only [InsideRange, incrOutOfRange, Bool.or_eq_false_iff, Bool.and_eq_false_iff,
          decide_eq_false_iff_not]
        omega
      simp only [incrOverflows_eq (isInt64_toInt incr) hn, counted]
      by_cases hpass : InsideRange n incr.toInt
      · simp [hpass, hagain hpass]
      · simp [hpass]
  rw [hrun, hvalue, countText]
  by_cases hempty : stored = some []
  · rw [if_pos hempty, if_pos hempty]
  · rw [if_neg hempty, if_neg hempty]

/-- Wrong are the ends the test refuses, the empty string taken for zero, and the negated `-2 ^ 63`.
-/
lemma runIntOp_right_iff (stored : Option Bytes) {incr : Int64} {amount : Int}
    (hamount : incr.toInt = amount ∨ (amount = 2 ^ 63 ∧ incr.toInt = -2 ^ 63)) :
    CountsRight stored amount (runIntOp stored incr) ↔ CounterSafe stored amount := by
  have hincr := isInt64_toInt incr
  unfold IsInt64 at hincr
  rw [runIntOp_eq, CounterSafe]
  by_cases hempty : stored = some []
  · have hnone : ∀ n, ¬Denotes stored n := by
      intro n hn
      rw [denotes_iff, hempty] at hn
      exact nomatch hn
    have hrefused : counted 0 incr.toInt true stored = (none, stored) ↔
        ¬InsideRange 0 incr.toInt := by
      unfold counted
      split <;> simp_all
    rw [if_pos hempty, countsRight_iff_of_not_denotes hnone, hrefused]
    simp only [hempty, true_implies, hempty ▸ hnone, false_implies, implies_true, and_true]
    unfold InsideRange
    omega
  · rw [if_neg hempty, countsRight_countText_iff, and_iff_right fun h => absurd h hempty]
    refine forall_congr' fun n => forall_congr' fun hn => ?_
    have hint := hn.1
    by_cases hsum : IsInt64 (n + amount)
    · simp only [hsum, if_true, true_implies, and_true]
      unfold InsideRange
      omega
    · simp only [hsum, if_false, false_implies, and_true]
      unfold InsideRange
      unfold IsInt64 at hint hsum
      omega

section Fields

variable (h : Option RedisHashObject) (field : Bytes) (score : Int64)

lemma lookup_getD_empty : (h.getD .empty).hashMap.lookup field = fieldValue h field := by
  cases h <;> rfl

lemma runHIncrBy_eq : ((runHIncrBy h field score).1, fieldValue (runHIncrBy h field score).2 field)
    = countText score.toInt (hasRoom h field) (fieldValue h field) := by
  have hroom : withinLimit (h.getD .empty).serializedLength
      ((h.getD .empty).counterGrowth field + 20) = hasRoom h field := rfl
  simp only [runHIncrBy, Hashes.HashCommand.executeHIncrBy_eq, lookup_getD_empty, hroom, countText]
  cases hn : (fieldValue h field).elim (some 0) string2ll with
  | none => rfl
  | some n =>
    obtain ⟨hint, hold⟩ := Hashes.HashCommand.storedNumber_eq hn
    simp only [any_some, incrOverflows_eq (isInt64_toInt score) hint, Bool.not_not, hold,
      Bool.and_eq_true, decide_eq_true_eq, counted]
    by_cases hpass : InsideRange n score.toInt ∧ hasRoom h field = true
    · rw [if_pos hpass, if_pos hpass]
      refine Prod.ext rfl ?_
      show AList.lookup field (AList.insert field _ _) = _
      rw [AList.lookup_insert, lookup_getD_empty, hold]
    · rw [if_neg hpass, if_neg hpass]

lemma runHIncrBy_frame : ((runHIncrBy h field score).1 = none → (runHIncrBy h field score).2 = h) ∧
    ∀ other, other ≠ field →
      fieldValue (runHIncrBy h field score).2 other = fieldValue h other := by
  unfold runHIncrBy
  dsimp only
  split
  · refine ⟨nofun, fun other hne => ?_⟩
    rw [← lookup_getD_empty h other]
    exact AList.lookup_insert_ne hne
  · exact ⟨fun _ => rfl, fun _ _ => rfl⟩

lemma runHIncrBy_right_iff : FieldCountsRight h field score.toInt (runHIncrBy h field score) ↔
    FieldSafe h field score.toInt := by
  rw [FieldCountsRight, and_iff_left (runHIncrBy_frame h field score), runHIncrBy_eq,
    countsRight_countText_iff]
  refine forall_congr' fun n => forall_congr' fun hn => ?_
  by_cases hsum : IsInt64 (n + score.toInt)
  · simp [hsum]
  · have hout : ¬InsideRange n score.toInt := by
      have hint := hn.1
      unfold InsideRange
      unfold IsInt64 at hint hsum
      omega
    simp [hsum, hout]

end Fields

/-! ## The requests count right -/

lemma parseNumber_bind {α : Type} {f : Int64 → α} {sv : Bytes} {a : α}
    (h : (do return f (← parseNumber sv)) = Except.ok a) :
    ∃ n : Int64, string2ll sv = some n.toInt ∧ f n = a := by
  unfold parseNumber at h
  cases hn : string2ll sv with
  | none => rw [hn] at h; exact nomatch h
  | some n =>
    rw [hn] at h
    obtain ⟨hlo, hhi⟩ := isInt64_of_string2ll hn
    exact ⟨.ofInt n, by rw [Int64.toInt_ofInt_of_le hlo (by omega)], Except.ok.inj h⟩

lemma CounterCommand.amount_of_parse {cmd : CounterCommand} {args : List Bytes} {key : Bytes}
    {incr : Int64} (hparse : cmd.parse args = .ok (key, incr)) :
    ∃ amount, cmd.amount args = some amount ∧
      (incr.toInt = amount ∨ (amount = 2 ^ 63 ∧ incr.toInt = -2 ^ 63)) := by
  unfold CounterCommand.parse at hparse
  split at hparse
  · cases hparse
    exact ⟨1, rfl, .inl rfl⟩
  · exact nomatch hparse
  · cases hparse
    exact ⟨-1, rfl, .inl rfl⟩
  · exact nomatch hparse
  · obtain ⟨n, hn, heq⟩ := parseNumber_bind hparse
    cases heq
    exact ⟨_, hn, .inl rfl⟩
  · exact nomatch hparse
  · obtain ⟨n, hn, heq⟩ := parseNumber_bind hparse
    cases heq
    refine ⟨-n.toInt, congrArg (Option.map _) hn, ?_⟩
    have hint := isInt64_toInt n
    unfold IsInt64 at hint
    rw [Int64.toInt_neg, Int.bmod_def]
    split <;> omega
  · exact nomatch hparse

/-- **The counters count right exactly where it is safe**, for every value and amount. -/
theorem counters_right_iff (args : List Bytes) (key : Bytes) :
    (∀ (cmd : CounterCommand) (incr : Int64) (stored : Option Bytes),
      cmd.parse args = .ok (key, incr) →
      ∃ amount, cmd.amount args = some amount ∧
        (CountsRight stored amount (runIntOp stored incr) ↔ CounterSafe stored amount)) ∧
    (∀ (field : Bytes) (score : Int64) (h : Option RedisHashObject),
      parseHIncrBy args = .ok (key, field, score) →
      ∃ amount, string2ll (args.getD 3 []) = some amount ∧
        (FieldCountsRight h field amount (runHIncrBy h field score) ↔
          FieldSafe h field amount)) := by
  constructor
  · intro cmd incr stored hparse
    obtain ⟨amount, hamount, hincr⟩ := CounterCommand.amount_of_parse hparse
    exact ⟨amount, hamount, runIntOp_right_iff stored hincr⟩
  · intro field score h hparse
    unfold parseHIncrBy at hparse
    split at hparse
    · obtain ⟨n, hn, heq⟩ := parseNumber_bind hparse
      obtain ⟨-, rfl, rfl⟩ := heq
      exact ⟨_, hn, runHIncrBy_right_iff h field _⟩
    · exact nomatch hparse

/-- `INCRBY k 5` on `"7"`. -/
theorem incrby_counts : CountsRight (some (ascii "7")) 5 (runIntOp (some (ascii "7")) 5) := by
  obtain ⟨amount, hamount, hiff⟩ :=
    (counters_right_iff [ascii "incrby", ascii "k", ascii "5"] (ascii "k")).1 .incrby 5
      (some (ascii "7")) (by decide)
  obtain rfl : 5 = amount := some.inj hamount
  refine hiff.mpr ⟨nofun, fun n hn => ⟨nofun, fun _ => .inr ?_⟩⟩
  obtain rfl : 7 = n := some.inj (denotes_iff.mp hn)
  omega

/-- The largest sum is refused, an empty string counts, and DECRBY of the smallest number is wrong.
-/
theorem counters_at_the_ends :
    runIntOp (some (ascii "9223372036854775806")) 1 = (none, some (ascii "9223372036854775806")) ∧
      runIntOp (some []) 1 = (some 1, some (ascii "1")) ∧
      CounterCommand.parse .decrby [ascii "decrby", ascii "k", ascii "-9223372036854775808"]
        = .ok (ascii "k", .ofInt (-2 ^ 63)) ∧
      runIntOp (some (ascii "5")) (.ofInt (-2 ^ 63))
        = (some (5 - 2 ^ 63), some (ascii "-9223372036854775803")) := by
  decide

end EloqKV.Counters
