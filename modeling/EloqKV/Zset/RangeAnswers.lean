/-
  What the range commands of a sorted set answer (`ZRangeByRank`, `Execute(ZRemRangeCommand &)`
  and `CommitZRemRange` in `src/redis_zset_object.cpp`).

  Ranks arrive as 64-bit numbers and are narrowed to `int`, and so is the size of the set.
  Where nothing is cut, listing and removing select the slice the ranks name.
-/
import EloqKV.Zset.RangeCopies

open List

namespace EloqKV.ZRange

open Objects (Double)
open Zset (RedisZsetObject ZNode rankSlice)
open Zset.RedisZsetObject (selected)

section Listings

variable {S : Type} [ScoreTexts S] {nodes : List (ZNode S)} {arg : ZRangeConstraint}

def ZRangeConstraint.Unlimited (arg : ZRangeConstraint) : Prop :=
  arg.optOffset = 0 ∧ arg.optLimit = -1

lemma emplaceLoop_unlimited (withscores : Bool) (nodes : List (ZNode S)) :
    emplaceLoop withscores nodes (-1) = (nodes.flatMap (nodeTexts withscores), -1) := by
  induction nodes with
  | nil => rfl
  | cons n rest ih => simp [emplaceLoop, ih]

lemma emplaceForwardElements_unlimited {posBegin posEnd : Nat} (hle : posBegin ≤ posEnd)
    (harg : arg.Unlimited) :
    emplaceForwardElements posBegin posEnd arg nodes
      = .ok (((nodes.take posEnd).drop posBegin).flatMap (nodeTexts arg.optWithscores), arg) := by
  obtain ⟨withscores, offset, limit, rangetype, direction⟩ := arg
  obtain ⟨rfl, rfl⟩ := harg
  rw [emplaceForwardElements, if_neg (by omega)]
  dsimp only
  by_cases hsize : (posEnd : Int) - posBegin ≤ 0
  · have hnil : (nodes.take posEnd).drop posBegin = [] := by
      rw [drop_eq_nil_iff, length_take]
      omega
    rw [if_pos hsize, hnil, show (0 : Int) - (posEnd - posBegin) = 0 by omega]
    rfl
  · rw [if_neg hsize, if_neg (by omega), Int.add_zero, Int.toNat_natCast, emplaceLoop_unlimited]

variable [LinearOrder S] {spec : ZRangeSpec S}

lemma zRangeByRank_unlimited (harg : arg.Unlimited) {start stop : Int}
    (hstart : spec.optStart.getInt = .ok start) (hstop : spec.optEnd.getInt = .ok stop) :
    zRangeByRank arg spec nodes = .ok (if arg.direction = .reverse then
          (rankSlice start stop nodes.reverse).flatMap (revRankTexts arg.optWithscores)
        else (rankSlice start stop nodes).flatMap (nodeTexts arg.optWithscores), arg) := by
  have hreverse := Zset.rankBounds_spec start stop nodes.reverse
  rw [length_reverse] at hreverse
  rw [zRangeByRank, hstart, hstop]
  simp only [bind, Except.bind]
  rcases Zset.rankBounds_spec start stop nodes with
    ⟨hnone, hslice⟩ | ⟨first, last, hsome, hle, hslice⟩
  · have hslice' : rankSlice start stop nodes.reverse = [] := by
      rcases hreverse with ⟨-, h⟩ | ⟨_, _, h, -⟩
      · exact h
      · cases hnone.symm.trans h
    rw [hnone, hslice, hslice', flatMap_nil, flatMap_nil, ite_self]
    rfl
  · have hslice' : rankSlice start stop nodes.reverse = (nodes.reverse.take last).drop first := by
      rcases hreverse with ⟨h, -⟩ | ⟨_, _, h, -, hslice'⟩
      · cases hsome.symm.trans h
      · obtain ⟨rfl, rfl⟩ := Prod.mk.inj (Option.some.inj (hsome.symm.trans h))
        exact hslice'
    rw [hsome, hslice, hslice']
    dsimp only
    split
    · rfl
    · exact emplaceForwardElements_unlimited hle harg

end Listings

section Removals

variable {S : Type} [LinearOrder S] {z : RedisZsetObject S}

/-- The reply and the object after a ZREMRANGE that removes exactly `gone`. -/
def Removes (z : RedisZsetObject S) (gone : List (ZNode S)) (reply : Except Fault (Reply S)) :
    Prop :=
  ∃ object, reply = .ok (.removed gone.length object) ∧
    object.elim [] RedisZsetObject.zOrderedSet = z.zOrderedSet.filter (· ∉ gone) ∧
    ∀ z' ∈ object, z'.WellFormed

lemma evaluate_removes (hz : z.WellFormed) {cmd : ZRemRangeCommand S} {bounds : Zset.ZRangeSpec S}
    (hexecute : cmd.executeSpec = .ok bounds) (hcommit : cmd.commitSpec = .ok bounds)
    (hwalk : z.Walkable bounds) : Removes z (selected bounds z.zOrderedSet) (cmd.evaluate z) := by
  obtain ⟨z', isEmpty, hcnt, hdone, hwf, hsub, hnodes, hisEmpty⟩ :=
    hz.commitZRemRange_selected hwalk
  unfold ZRemRangeCommand.evaluate
  rw [hexecute]
  simp only [bind, Except.bind]
  rw [hcnt]
  dsimp only
  by_cases hnil : selected bounds z.zOrderedSet = []
  · rw [hnil]
    exact ⟨some z, rfl, (filter_eq_self.mpr (by simp)).symm, fun _ h => Option.some.inj h ▸ hz⟩
  · have hpos := length_pos_iff.mpr hnil
    have hstate : CommandExecuteState.ofRemoved (selected bounds z.zOrderedSet).length
        z.zOrderedSet.length ≠ .noChange := by
      rw [CommandExecuteState.ofRemoved, if_neg (by omega)]
      split <;> simp
    rw [if_neg hstate, hcommit]
    simp only [hdone, hisEmpty hnil]
    refine ⟨_, rfl, ?_, ?_⟩
    · rw [← hnodes]
      cases h : z'.zOrderedSet <;> simp [h]
    · split
      · intro _ h
        cases h
      · exact fun _ h => Option.some.inj h ▸ hwf

end Removals

/-! ## Ranks -/

section Ranks

variable {S : Type} [LinearOrder S] [ScoreTexts S] {z : RedisZsetObject S}

/-- The number a text names as a rank; a parenthesis in front of it means nothing. -/
def rankNumber (sv : Bytes) : Option Int :=
  string2ll (if firstByte sv = 40 then sv.drop 1 else sv)

lemma getIntFromSv_eq (sv : Bytes) : getIntFromSv sv
    = (rankNumber sv).map fun num => (decide (firstByte sv = 40), toInt32 num) := by
  unfold getIntFromSv rankNumber
  split
  · next hinf =>
    simp only [mem_cons, not_mem_nil, or_false] at hinf
    rcases hinf with rfl | rfl | rfl <;> rfl
  · split
    · next h => rw [decide_eq_true h]
    · next h => rw [decide_eq_false h]

/-- No number on the way to the positions is cut: ranks, size and `-pos_end` fit into `int`. -/
def RanksExact (start stop : Int) (size : Nat) : Prop :=
  IsInt32 start ∧ IsInt32 stop ∧ IsInt32 size ∧
    (stop < 0 → ¬(0 < start ∧ (size : Int) ≤ start) → IsInt32 (-stop))

/-- ZRANGE by rank lists the slice both ways, ZREMRANGEBYRANK removes it, no number is cut. -/
structure RanksRight (z : RedisZsetObject S) (spec : ZRangeSpec S) (start stop : Int) : Prop where
  exact : RanksExact start stop z.zOrderedSet.length
  forward : ∀ withscores, ∃ after,
    getZrangeResult { optWithscores := withscores, rangetype := .rank, direction := .forward }
      spec z.zOrderedSet
      = .ok ((rankSlice start stop z.zOrderedSet).flatMap (nodeTexts withscores), after)
  reverse : ∀ withscores, ∃ after,
    getZrangeResult { optWithscores := withscores, rangetype := .rank, direction := .reverse }
      spec z.zOrderedSet
      = .ok ((rankSlice start stop z.zOrderedSet.reverse).flatMap (revRankTexts withscores), after)
  removed : Removes z (rankSlice start stop z.zOrderedSet)
    (ZRemRangeCommand.evaluate ⟨.rank, spec⟩ z)

lemma toInt32_of_isInt32 {n : Int} (h : IsInt32 n) : toInt32 n = n := by
  unfold IsInt32 at h
  unfold toInt32
  omega

/-- **Ranges by rank are the slices they name exactly where no number is cut.** -/
theorem ranks_right_iff (hz : z.WellFormed) {min max : Bytes} {spec : ZRangeSpec S}
    (hparse : parseEnds .rank min max = .ok spec) :
    ∃ start stop, rankNumber min = some start ∧ rankNumber max = some stop ∧
      (RanksRight z spec start stop ↔ RanksExact start stop z.zOrderedSet.length) := by
  rw [parseEnds, getIntFromSv_eq, getIntFromSv_eq] at hparse
  cases hmin : rankNumber min with
  | none => rw [hmin] at hparse; exact nomatch hparse
  | some start =>
    cases hmax : rankNumber max with
    | none => rw [hmin, hmax] at hparse; exact nomatch hparse
    | some stop =>
      rw [hmin, hmax] at hparse
      cases hparse
      refine ⟨start, stop, rfl, rfl, RanksRight.exact, fun hexact => ?_⟩
      rw [toInt32_of_isInt32 hexact.1, toInt32_of_isInt32 hexact.2.1]
      have hwalk : z.Walkable (.rank start stop) := trivial
      exact {
        exact := hexact
        forward := fun _ => ⟨_, zRangeByRank_unlimited ⟨rfl, rfl⟩ rfl rfl⟩
        reverse := fun _ => ⟨_, zRangeByRank_unlimited ⟨rfl, rfl⟩ rfl rfl⟩
        removed := evaluate_removes hz rfl rfl hwalk }

def sampleZset : RedisZsetObject Double :=
  RedisZsetObject.empty.updateElement (⟨5, by decide⟩, .ofView (ascii "a"))

def threeMembers : RedisZsetObject Double :=
  (sampleZset.updateElement (⟨7, by decide⟩, .ofView (ascii "c"))).updateElement
    (⟨5, by decide⟩, .ofView (ascii "b"))

/-- `ZRANGE k 1 -2` and the like on a set of three members. -/
theorem all_ranks_right : ∃ spec : ZRangeSpec Double,
    parseEnds .rank (ascii "1") (ascii "-2") = .ok spec ∧
      RanksRight threeMembers spec 1 (-2) ∧
      (rankSlice 1 (-2) threeMembers.zOrderedSet).map (·.2) = [ascii "b"] := by
  have hz : threeMembers.WellFormed :=
    ((RedisZsetObject.wellFormed_empty.updateElement _).1.updateElement _).1.updateElement _ |>.1
  have hparse : parseEnds .rank (ascii "1") (ascii "-2")
      = .ok ({ optStart := .int 1, optEnd := .int (-2) } : ZRangeSpec Double) := by decide +kernel
  obtain ⟨start, stop, hstart, hstop, hiff⟩ := ranks_right_iff hz hparse
  obtain rfl : 1 = start := Option.some.inj hstart
  obtain rfl : -2 = stop := Option.some.inj hstop
  refine ⟨_, hparse, hiff.mpr ?_, ?_⟩
  · unfold RanksExact IsInt32
    decide +kernel
  · decide +kernel

/-- `ZRANGE k 4294967296 -1` lists a set of one member, from rank 0. -/
theorem rank_beyond_int_listed : ∃ spec : ZRangeSpec Double,
    parseEnds .rank (ascii "4294967296") (ascii "-1") = .ok spec ∧
      getZrangeResult { rangetype := .rank, direction := .forward } spec sampleZset.zOrderedSet
        = .ok ([ascii "a"], { rangetype := .rank, direction := .forward }) ∧
      rankSlice (2 ^ 32) (-1) sampleZset.zOrderedSet = [] :=
  ⟨{ optStart := .int 0, optEnd := .int (-1) }, by decide +kernel, by decide +kernel,
    by decide +kernel⟩

end Ranks

end EloqKV.ZRange
