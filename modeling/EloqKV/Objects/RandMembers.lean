/-
  Random members: `Execute` of SRANDMEMBER (`src/redis_set_object.cpp`), HRANDFIELD
  (`src/redis_hash_object.cpp`) and ZRANDMEMBER (`src/redis_zset_object.cpp`), with the counts their
  parsers accept, and what SPOP, whose count is cut to 32 bits, replies and removes.

  The reply is a vector of empty slots.  A container a hundred times larger than the count is read
  from its start; otherwise the map of `GenRandMap` says which member goes to which slot.
-/
import EloqKV.Objects.SetObject

open List

namespace EloqKV

open RandMap

inductive RandCommand where
  | srandmember
  | hrandfield
  | zrandmember
  deriving DecidableEq, Repr

namespace RandCommand

/-- The counts a parser accepts; `pairs` is WITHVALUES or WITHSCORES. -/
def accepts (cmd : RandCommand) (pairs : Bool) (count : Int) : Bool :=
  match cmd, pairs with
  | hrandfield, true | zrandmember, true => -2 ^ 62 < count ∧ count ≤ 2 ^ 62 - 1
  | _, _ => -2 ^ 63 < count ∧ count < 2 ^ 63 - 1

/-- How many members are drawn from `sz`. -/
def drawCount (cmd : RandCommand) (sz count : Int) : Int :=
  match cmd with
  | srandmember =>
    let n := if count < 0 then -count else count
    if 0 ≤ count then (if sz < n then sz else n) else n
  | hrandfield =>
    let n := if count = 2 ^ 63 - 1 then 1 else count
    if 0 ≤ n then (if n < sz then n else sz) else -n
  | zrandmember => if 0 ≤ count then (if count < sz then count else sz) else -count

variable {α : Type} (cmd : RandCommand) (bucketCount : Nat) (rand : Nat → Nat) (walk : List α)

/-- The slots of the reply.  A slot holds a member together with its value or score, if asked for;
`walk` is the container in its own order. -/
def slots (count : Int) : Option (List (Option α)) :=
  let sz := toInt32 walk.length
  let n := cmd.drawCount sz count
  let members := walk.map some
  if 0 < sz ∧ 0 < n ∧ 100 < sz / n ∧ n < bucketCount then
    some (around members n.toNat members)
  else
    (genRandMap sz.toNat (decide (count < 0)) rand n.toNat).map fun map =>
      map.fill members (replicate (if cmd = srandmember then map.length else n.toNat) none)

variable {cmd} {walk} {count : Int}

lemma drawCount_eq {pairs : Bool} (h : cmd.accepts pairs count) (sz : Int) :
    cmd.drawCount sz count = if 0 ≤ count then min count sz else -count := by
  have hmax : count ≠ 2 ^ 63 - 1 := by
    cases cmd <;> cases pairs <;> simp [accepts] at h <;> omega
  cases cmd <;> simp only [drawCount, if_neg hmax] <;> split_ifs <;> omega

/-- What the slots of a reply are to be filled with. -/
structure Filled (name : α → Bytes) (walk : List α) (count : Int) (rows : List α) : Prop where
  members : ∀ row ∈ rows, row ∈ walk
  distinct : 0 ≤ count → (rows.length : Int) = min count walk.length ∧ (rows.map name).Nodup
  repeated : count < 0 → (rows.length : Int) = -count

/-- Both ways of drawing fill every slot: a walk from the start, or a map whose results are all
slots. -/
lemma exists_filled {pairs : Bool} (h : cmd.accepts pairs count) (hne : walk ≠ [])
    {name : α → Bytes} (hnames : (walk.map name).Nodup) (hsize : walk.length < 2 ^ 31) :
    ∃ rows, cmd.slots bucketCount rand walk count = some (rows.map some) ∧
      Filled name walk count rows := by
  have hpos : 0 < walk.length := length_pos_of_ne_nil hne
  have hsz : toInt32 walk.length = walk.length := by
    unfold toInt32
    omega
  have hn := drawCount_eq h walk.length
  unfold slots
  dsimp only
  rw [hsz, Int.toNat_natCast]
  generalize cmd.drawCount walk.length count = n at hn
  -- what is left: members, as many as drawn, and different ones if repetition is off
  have hfilled (rows : List α) (hmem : ∀ row ∈ rows, row ∈ walk) (hlen : rows.length = n.toNat)
      (hdistinct : 0 ≤ count → rows.Nodup) : Filled name walk count rows := by
    refine ⟨hmem, fun hcount => ?_, fun hcount => ?_⟩
    · rw [if_pos hcount] at hn
      refine ⟨by omega, (hdistinct hcount).map_on fun x hx y hy => ?_⟩
      exact inj_on_of_nodup_map hnames (hmem x hx) (hmem y hy)
    · rw [if_neg (by omega)] at hn
      omega
  have hnodup : walk.Nodup := hnames.of_map
  have hlength : (walk.map some).length = walk.length := length_map _
  split
  · next hlarge =>
    have hle : n.toNat ≤ walk.length := by
      by_contra hgt
      have hzero := Int.ediv_eq_zero_of_lt hlarge.1.le (show (walk.length : Int) < n by omega)
      omega
    refine ⟨walk.take n.toNat, ?_, hfilled _ (fun row => mem_of_mem_take) ?_ fun _ => ?_⟩
    · rw [around_eq_take (hlength ▸ hle), map_take]
    · rw [length_take, Nat.min_eq_left hle]
    · exact hnodup.sublist (take_sublist _ _)
  · have hle : decide (count < 0) = false → n.toNat ≤ (walk.map some).length := by
      intro hcount
      rw [if_pos (by simpa using hcount)] at hn
      omega
    obtain ⟨map, hmap, hplaces, hlen, hmem, hanswer⟩ := exists_answer (hlength ▸ hpos)
      (hnodup.map (Option.some_injective α)) _ rand hle
    rw [hlength] at hmap
    rw [hmap, Option.map_some, ← hplaces, ite_self]
    obtain ⟨rows, hrows⟩ : map.answer (walk.map some) ∈ Set.range (List.map some) := by
      rw [Set.range_list_map]
      intro o ho
      obtain ⟨row, -, hrow⟩ := mem_map.1 (hmem o ho)
      exact ⟨row, hrow⟩
    rw [← hrows] at hlen hmem hanswer
    refine ⟨rows, congrArg some hrows.symm, hfilled rows (by simpa using hmem) ?_ fun hcount => ?_⟩
    · simpa using hlen
    · exact (hanswer (by simpa using hcount)).of_map

end RandCommand

namespace Sets.RedisHashSetObject

lemma length_spopMembers (host : SetHost) (s : RedisHashSetObject) (count : Option Nat)
    (hsize : s.hashSet.length < 2 ^ 31) :
    (s.spopMembers host count).length = min (count.getD 1) s.hashSet.length := by
  have hsz : toInt32 s.hashSet.length = s.hashSet.length := by
    unfold toInt32
    omega
  have hn : (s.spopCount count).toNat = min (count.getD 1) s.hashSet.length := by
    rw [spopCount, hsz]
    split <;> omega
  have hperm := (host.perm s.hashSet).length_eq
  rw [← hn, spopMembers]
  split
  · rw [around_eq_take (by omega), length_take]
    omega
  · have hdrawn := drawn_sample (s.spopCount_le count) host.rand
    refine (answer_mem (hdrawn.sorted.imp Nat.le_of_lt) (fun k hk => ?_) hdrawn.results).1
    have := hdrawn.bound k hk
    omega

/-- What `SPopCommand(int32_t count)` keeps of a count.  `-1` is no count, and for another negative
one nothing is drawn. -/
def keptCount : Option Nat → Option Nat
  | none => none
  | some n => if toInt32 n = -1 then none else some (toInt32 n).toNat

/-- SPOP replies with different members, as many as asked for, and removes exactly these. -/
def PopsRight (host : SetHost) (s : RedisHashSetObject) (count : Option Nat) : Prop :=
  let popped := s.spopMembers host (keptCount count)
  popped.length = min (count.getD 1) s.hashSet.length ∧ popped.Nodup ∧
    (∀ m ∈ popped, m ∈ s.hashSet) ∧
    ∀ m, m ∈ (s.commitSRem popped).hashSet ↔ m ∈ s.hashSet ∧ m ∉ popped

/-- The count is an `int32_t`, or its lower half still asks for all members. -/
def KeepsCount (size : Nat) (count : Option Nat) : Prop :=
  ∀ n ∈ count, n < 2 ^ 31 ∨ size ≤
    if n % 2 ^ 32 < 2 ^ 31 then n % 2 ^ 32 else if n % 2 ^ 32 = 2 ^ 32 - 1 then 1 else 0

/-- The members drawn are right by themselves, so only their number is in question. -/
lemma popsRight_iff (host : SetHost) {s : RedisHashSetObject} (hset : s.hashSet.length < 2 ^ 31)
    (count : Option Nat) : PopsRight host s count ↔ KeepsCount s.hashSet.length count := by
  obtain ⟨hnodup, hmem⟩ := s.spopMembers_spec host (keptCount count)
  rw [PopsRight, and_iff_left ⟨hnodup, hmem, s.mem_commitSRem _⟩,
    s.length_spopMembers host _ hset]
  cases count with
  | none => exact iff_of_true rfl nofun
  | some n =>
    -- the narrowed number gets a name, for it must not be unfolded to be compared
    have hkept := keptCount.eq_2 n
    generalize hc : toInt32 n = c at hkept
    rw [hkept, KeepsCount]
    rw [toInt32] at hc
    simp only [Option.mem_some_iff, forall_eq', Option.getD_some]
    by_cases hnone : c = -1
    · rw [if_pos hnone, Option.getD_none]
      split_ifs <;> omega
    · rw [if_neg hnone, Option.getD_some]
      split_ifs <;> omega

/-- **Random members.** The slots of SRANDMEMBER, HRANDFIELD and ZRANDMEMBER are all filled, with as
many members as asked for, different ones unless the count is negative. SPOP is right exactly where
its count is kept. -/
theorem random_members_right_iff {α : Type} (name : α → Bytes) (cmd : RandCommand) {pairs : Bool}
    {count : Int} (hcount : cmd.accepts pairs count) {walk : List α} (hne : walk ≠ [])
    (hnames : (walk.map name).Nodup) (hsize : walk.length < 2 ^ 31) (bucketCount : Nat)
    (rand : Nat → Nat) (host : SetHost) (s : RedisHashSetObject)
    (hset : s.hashSet.length < 2 ^ 31) (popCount : Option Nat) :
    (∃ rows, cmd.slots bucketCount rand walk count = some (rows.map some) ∧
      RandCommand.Filled name walk count rows) ∧
    (PopsRight host s popCount ↔ KeepsCount s.hashSet.length popCount) :=
  ⟨RandCommand.exists_filled bucketCount rand hcount hne hnames hsize,
    popsRight_iff host hset popCount⟩

/-- `HRANDFIELD h -3` on a hash with two fields, and `SPOP s 1` on a set with two members. -/
theorem hrandfield_repeats :
    let fields := [ascii "f", ascii "g"]
    let host : SetHost := ⟨id, fun _ => .refl _, fun _ => 0, id⟩
    let s : RedisHashSetObject := RedisHashSetObject.empty.commitSAdd [ascii "a", ascii "b"]
    (∃ rows, RandCommand.hrandfield.slots 1 id fields (-3) = some (rows.map some) ∧
      RandCommand.Filled id fields (-3) rows) ∧
      s.spopMembers host (some 1) = [ascii "a"] ∧ PopsRight host s (some 1) := by
  intro fields host s
  obtain ⟨hslots, hpops⟩ := random_members_right_iff id .hrandfield
    (by decide : RandCommand.hrandfield.accepts false (-3)) (cons_ne_nil _ _ : fields ≠ [])
    (by decide) (by decide) 1 id host s (by decide) (some 1)
  refine ⟨hslots, by decide, hpops.mpr ?_⟩
  rintro n ⟨⟩
  decide

/-- `SPOP s 4294967296` pops nothing. -/
theorem spop_count_cut : ∃ host s, s.hashSet ≠ [] ∧ ¬PopsRight host s (some (2 ^ 32)) := by
  refine ⟨⟨id, fun _ => .refl _, fun _ => 0, id⟩, ⟨[ascii "a"], by simp, 0⟩, by simp, fun h => ?_⟩
  exact absurd ((popsRight_iff _ (by decide) _).1 h _ rfl) (by decide)

end Sets.RedisHashSetObject

end EloqKV
