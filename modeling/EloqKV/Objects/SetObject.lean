/-
  The set object and its write commands (`src/redis_set_object.cpp`, the set commands of
  `src/redis_command.cpp`).

  The order in which the `absl::flat_hash_set` walks the members, its bucket count and the draws of
  `std::rand` belong to the process and are parameters.  SPOP is the one command whose `Execute`
  chooses what the mutation does: `CommitOn` removes exactly the members it drew.
-/
import EloqKV.EloqString
import EloqKV.Numbers
import EloqKV.Objects.Items
import EloqKV.Objects.Outcome
import EloqKV.Objects.RandMap

open List

namespace EloqKV.Sets

structure RedisHashSetObject where
  hashSet : List Bytes
  nodup : hashSet.Nodup
  serializedLength : Nat
  deriving DecidableEq, Repr

/-- What the process contributes: the walk over a hash set, its buckets, and the draws. -/
structure SetHost where
  iterate : List Bytes → List Bytes
  perm : ∀ members, (iterate members).Perm members
  bucketCount : List Bytes → Nat
  rand : Nat → Nat

/-- The set commands that write; SPOP has its count, `none` for `-1`, and the drawn members. -/
inductive HashSetCommand where
  | sadd (paras : List Bytes)
  | srem (paras : List Bytes)
  | spop (count : Option Nat) (stringList : List Bytes)
  deriving DecidableEq, Repr

namespace RedisHashSetObject

def empty : RedisHashSetObject := ⟨[], nodup_nil, 1 + 4⟩

variable (s : RedisHashSetObject)

/-- `hash_set_.emplace` and the length that goes with a new member. -/
def emplace (element : Bytes) : RedisHashSetObject :=
  if h : element ∈ s.hashSet then s
  else ⟨s.hashSet.concat element, s.nodup.concat h, s.serializedLength + itemLength element⟩

/-- `hash_set_.erase` and the length that goes with a removed member. -/
def erase (element : Bytes) : RedisHashSetObject :=
  ⟨s.hashSet.erase element, s.nodup.erase element,
    if element ∈ s.hashSet then s.serializedLength - itemLength element else s.serializedLength⟩

/-! ### The decisions -/

/-- `Execute(SAddCommand &)`: a new member counts as often as it is listed. -/
def executeSAdd (paras : List Bytes) : CommandExecuteState :=
  let fresh := paras.filter (· ∉ s.hashSet)
  if maxObjectSize < s.serializedLength + itemsLength fresh then .noChange
  else if 0 < fresh.length then .modified
  else .noChange

def executeSRem (paras : List Bytes) : CommandExecuteState :=
  .ofRemoved (paras.countP (· ∈ s.hashSet)) s.hashSet.length

/-- The number of members to draw, `count` after `count = sz < count ? sz : count`. -/
def spopCount (count : Option Nat) : Int :=
  let sz := toInt32 s.hashSet.length
  let count : Int := count.getD 1
  if sz < count then sz else count

lemma spopCount_le (count : Option Nat) :
    (s.spopCount count).toNat ≤ (toInt32 s.hashSet.length).toNat := by
  unfold spopCount
  simp only
  split <;> omega

/-- The members `Execute(SPopCommand &)` draws. -/
def spopMembers (host : SetHost) (s : RedisHashSetObject) (count : Option Nat) : List Bytes :=
  let sz := toInt32 s.hashSet.length
  let n := s.spopCount count
  let members := host.iterate s.hashSet
  if 0 < sz ∧ 0 < n ∧ 100 < sz / n ∧ n < host.bucketCount s.hashSet then
    RandMap.around members n.toNat members
  else (RandMap.sample (s.spopCount_le count) host.rand).answer members

/-- `Execute(SPopCommand &)`, given the members it drew. -/
def executeSPop (stringList : List Bytes) : CommandExecuteState :=
  .ofRemoved stringList.length s.hashSet.length

/-! ### The mutations -/

def commitSAdd (paras : List Bytes) : RedisHashSetObject :=
  paras.foldl emplace s

/-- `CommitSRem`, and `CommitSPop` with the drawn members. -/
def commitSRem (paras : List Bytes) : RedisHashSetObject :=
  paras.foldl erase s

end RedisHashSetObject

/-! ### SADD as the last step of a STORE command -/

variable (paras : List Bytes)

/-- `SAddCommand::ExecuteOn` with `force_remove_add_`: the old object is not looked at. -/
def executeForceAdd : ExecResult :=
  -- the estimate counts eight bytes for every length, where the object has four
  if maxObjectSize < (paras.map fun e => 8 + e.length).sum then .fail
  else if paras.isEmpty then .delete
  else .write

/-- `SAddCommand::CommitOn` with `force_remove_add_`. -/
def commitForceAdd : Option RedisHashSetObject :=
  if paras.isEmpty then none
  else
    let s := RedisHashSetObject.empty.commitSAdd paras
    if s.hashSet.isEmpty then none else some s

namespace HashSetCommand

open RedisHashSetObject

/-- The command as `ExecuteOn` leaves it. -/
def executed (host : SetHost) (cmd : HashSetCommand) (s : RedisHashSetObject) : HashSetCommand :=
  match cmd with
  | spop count _ => spop count (s.spopMembers host count)
  | cmd => cmd

/-- `ExecuteOn` for an object of the right type. -/
def executeOn (host : SetHost) (cmd : HashSetCommand) (s : RedisHashSetObject) : ExecResult :=
  match cmd with
  | sadd paras => (s.executeSAdd paras).toWriteResult
  | srem paras => (s.executeSRem paras).toExecResult
  | spop count _ => (s.executeSPop (s.spopMembers host count)).toExecResult

/-- The object after `CommitOn`. -/
def commit (cmd : HashSetCommand) (s : RedisHashSetObject) : RedisHashSetObject :=
  match cmd with
  | sadd paras => s.commitSAdd paras
  | srem paras => s.commitSRem paras
  | spop _ stringList => s.commitSRem stringList

/-- `CommitOn`: the object left, or none if the key is to go. -/
def commitOn (cmd : HashSetCommand) (s : RedisHashSetObject) : Option RedisHashSetObject :=
  let s' := cmd.commit s
  if s'.hashSet.isEmpty then none else some s'

end HashSetCommand

/-! ## What the mutations do -/

namespace RedisHashSetObject

/-- The length field is the number of bytes the object serializes to. -/
def WellFormed (s : RedisHashSetObject) : Prop :=
  s.serializedLength = 1 + 4 + itemsLength s.hashSet

lemma mem_emplace (s : RedisHashSetObject) (e m : Bytes) :
    m ∈ (s.emplace e).hashSet ↔ m ∈ s.hashSet ∨ m = e := by
  unfold emplace
  by_cases he : e ∈ s.hashSet
  · rw [dif_pos he]
    exact ⟨Or.inl, fun h => h.elim id fun heq => heq ▸ he⟩
  · rw [dif_neg he]
    simp

variable {s : RedisHashSetObject}

lemma WellFormed.emplace (hs : s.WellFormed) (e : Bytes) : (s.emplace e).WellFormed := by
  unfold RedisHashSetObject.emplace
  split
  · exact hs
  · unfold WellFormed at hs ⊢
    simp only [concat_eq_append, itemsLength_append, itemsLength_cons, itemsLength_nil]
    omega

lemma WellFormed.erase (hs : s.WellFormed) (e : Bytes) : (s.erase e).WellFormed := by
  unfold WellFormed at hs ⊢
  by_cases he : e ∈ s.hashSet
  · have := itemsLength_erase he
    simp only [RedisHashSetObject.erase, if_pos he]
    omega
  · simp [RedisHashSetObject.erase, if_neg he, erase_of_not_mem he, hs]

lemma WellFormed.commitSAdd (hs : s.WellFormed) (paras : List Bytes) :
    (s.commitSAdd paras).WellFormed := by
  induction paras generalizing s with
  | nil => exact hs
  | cons e paras ih => exact ih (hs.emplace e)

lemma WellFormed.commitSRem (hs : s.WellFormed) (paras : List Bytes) :
    (s.commitSRem paras).WellFormed := by
  induction paras generalizing s with
  | nil => exact hs
  | cons e paras ih => exact ih (hs.erase e)

variable (s)

variable (paras : List Bytes)

lemma mem_commitSAdd (m : Bytes) :
    m ∈ (s.commitSAdd paras).hashSet ↔ m ∈ s.hashSet ∨ m ∈ paras := by
  unfold commitSAdd
  induction paras generalizing s with
  | nil => simp
  | cons e paras ih => rw [foldl_cons, ih, mem_emplace, mem_cons, or_assoc]

lemma hashSet_commitSRem : (s.commitSRem paras).hashSet = s.hashSet.diff paras := by
  unfold commitSRem
  induction paras generalizing s with
  | nil => rfl
  | cons e paras ih => rw [foldl_cons, ih, diff_cons, erase]

lemma mem_commitSRem (m : Bytes) :
    m ∈ (s.commitSRem paras).hashSet ↔ m ∈ s.hashSet ∧ m ∉ paras := by
  rw [hashSet_commitSRem, s.nodup.mem_sdiff_iff]

lemma serializedLength_erase_le (e : Bytes) :
    (s.erase e).serializedLength ≤ s.serializedLength := by
  simp only [erase]
  split
  · exact Nat.sub_le _ _
  · exact Nat.le_refl _

lemma serializedLength_commitSRem_le :
    (s.commitSRem paras).serializedLength ≤ s.serializedLength := by
  induction paras generalizing s with
  | nil => exact Nat.le_refl _
  | cons e paras ih => exact Nat.le_trans (ih _) (serializedLength_erase_le s e)

lemma serializedLength_commitSAdd_le : (s.commitSAdd paras).serializedLength ≤
      s.serializedLength + itemsLength (paras.filter (· ∉ s.hashSet)) := by
  induction paras generalizing s with
  | nil => exact Nat.le_refl _
  | cons e paras ih =>
    refine Nat.le_trans (ih (s.emplace e)) ?_
    have hfresh : itemsLength (paras.filter (· ∉ (s.emplace e).hashSet)) ≤
        itemsLength (paras.filter (· ∉ s.hashSet)) := by
      refine itemsLength_le_of_sublist (monotone_filter_right _ fun m hm => ?_)
      simp only [decide_eq_true_eq] at hm ⊢
      exact fun hmem => hm ((mem_emplace s e m).2 (Or.inl hmem))
    by_cases he : e ∈ s.hashSet
    · simp only [emplace, filter_cons, he, not_true_eq_false, decide_false,
        Bool.false_eq_true, if_false]
      exact Nat.le_refl _
    · simp only [emplace, dif_neg he] at hfresh ⊢
      simp only [filter_cons, he, not_false_eq_true, decide_true, if_true, itemsLength_cons]
      omega

/-! ### The drawn members -/

variable {s}

lemma spopMembers_spec (host : SetHost) (s : RedisHashSetObject) (count : Option Nat) :
    (s.spopMembers host count).Nodup ∧ ∀ m ∈ s.spopMembers host count, m ∈ s.hashSet := by
  have hperm := host.perm s.hashSet
  have hnodup : (host.iterate s.hashSet).Nodup := hperm.nodup_iff.2 s.nodup
  have hsize : (toInt32 s.hashSet.length).toNat ≤ s.hashSet.length := by
    have := toInt32_le (Int.natCast_nonneg s.hashSet.length)
    omega
  have hcount := s.spopCount_le count
  simp only [spopMembers]
  split
  · rw [RandMap.around_eq_take (by rw [hperm.length_eq]; omega)]
    exact ⟨hnodup.sublist (take_sublist _ _), fun m hm => hperm.mem_iff.1 (mem_of_mem_take hm)⟩
  · have hdrawn := RandMap.drawn_sample hcount host.rand
    have hbound : RandMap.Drawn (host.iterate s.hashSet).length (s.spopCount count).toNat
        (RandMap.sample hcount host.rand) :=
      ⟨hdrawn.sorted, fun k hk => by
        rw [hperm.length_eq]
        exact Nat.lt_of_lt_of_le (hdrawn.bound k hk) hsize, hdrawn.results⟩
    obtain ⟨-, hdistinct, hmem⟩ := hbound.answer_spec hnodup
    exact ⟨hdistinct, fun m hm => hperm.mem_iff.1 (hmem m hm)⟩

end RedisHashSetObject

open RedisHashSetObject

/-! ## Decisions against mutations -/

def isEmptySet (s : RedisHashSetObject) : Bool := s.hashSet.isEmpty

lemma isEmptySet_commitSRem (s : RedisHashSetObject) (paras : List Bytes) :
    isEmptySet (s.commitSRem paras) = true ↔ ∀ m ∈ s.hashSet, m ∈ paras := by
  rw [isEmptySet, List.isEmpty_iff, List.eq_nil_iff_forall_not_mem]
  simp [mem_commitSRem]

namespace HashSetCommand

open RedisHashSetObject

variable {s : RedisHashSetObject}

lemma wellFormed_commit (cmd : HashSetCommand) (hs : s.WellFormed) :
    (cmd.commit s).WellFormed := by
  cases cmd with
  | sadd paras => exact hs.commitSAdd paras
  | srem paras => exact hs.commitSRem paras
  | spop count stringList => exact hs.commitSRem stringList

lemma executeSAdd_eq_modified {paras : List Bytes} :
    s.executeSAdd paras = .modified ↔
      s.serializedLength + itemsLength (paras.filter (· ∉ s.hashSet)) ≤ maxObjectSize ∧
        0 < (paras.filter (· ∉ s.hashSet)).length := by
  simp only [executeSAdd]
  generalize paras.filter (· ∉ s.hashSet) = fresh
  by_cases hbig : maxObjectSize < s.serializedLength + itemsLength fresh
  · rw [if_pos hbig]
    exact iff_of_false (by simp) fun h => Nat.not_le.2 hbig h.1
  · by_cases hpos : 0 < fresh.length
    · rw [if_neg hbig, if_pos hpos]
      exact iff_of_true rfl ⟨Nat.le_of_not_lt hbig, hpos⟩
    · rw [if_neg hpos]
      exact iff_of_false (by simp) fun h => hpos h.2

theorem size_commit_le (host : SetHost) (cmd : HashSetCommand)
    (hmax : s.serializedLength ≤ maxObjectSize) (hwrite : cmd.executeOn host s = .write) :
    ((cmd.executed host s).commit s).serializedLength ≤ maxObjectSize := by
  cases cmd with
  | sadd paras =>
    simp only [executeOn, CommandExecuteState.toWriteResult_eq_write,
      executeSAdd_eq_modified] at hwrite
    exact Nat.le_trans (serializedLength_commitSAdd_le s paras) hwrite.1
  | srem paras => exact Nat.le_trans (serializedLength_commitSRem_le s paras) hmax
  | spop count stringList => exact Nat.le_trans (serializedLength_commitSRem_le s _) hmax

/-- `ParseSRemCommand` drops a member that is listed again. -/
def Distinct : HashSetCommand → Prop
  | srem paras => paras.Nodup
  | _ => True

lemma announces_spop (host : SetHost) (s : RedisHashSetObject) (count : Option Nat)
    (stringList : List Bytes) :
    ((spop count stringList).executeOn host s).Announces isEmptySet
      (((spop count stringList).executed host s).commitOn s) := by
  obtain ⟨hnodup, hmem⟩ := s.spopMembers_spec host count
  have hall : (s.spopMembers host count).countP (· ∈ s.hashSet) =
      (s.spopMembers host count).length :=
    countP_eq_length.2 fun m hm => by simpa using hmem m hm
  have hright := ExecResult.announces_keyed_removal s.nodup hnodup (fun _ => decide_eq_true_iff)
    (isEmptySet_commitSRem s (s.spopMembers host count))
  rwa [hall] at hright

theorem announces (host : SetHost) {cmd : HashSetCommand} (s : RedisHashSetObject)
    (hdistinct : cmd.Distinct) :
    (cmd.executeOn host s).Announces isEmptySet ((cmd.executed host s).commitOn s) := by
  cases cmd with
  | sadd paras =>
    refine ⟨fun hdelete => absurd hdelete (by simp [executeOn]), fun hwrite => ?_⟩
    simp only [executeOn, CommandExecuteState.toWriteResult_eq_write,
      executeSAdd_eq_modified] at hwrite
    obtain ⟨m, hm⟩ := exists_mem_of_length_pos hwrite.2
    have hmem : m ∈ (s.commitSAdd paras).hashSet :=
      (mem_commitSAdd s paras m).2 (Or.inr (mem_of_mem_filter hm))
    have hne : isEmptySet (s.commitSAdd paras) = false :=
      isEmpty_eq_false_iff.2 (ne_nil_of_mem hmem)
    exact ⟨s.commitSAdd paras, if_neg (Bool.eq_false_iff.1 hne), hne⟩
  | srem paras =>
    exact ExecResult.announces_keyed_removal s.nodup hdistinct (fun _ => decide_eq_true_iff)
      (isEmptySet_commitSRem s paras)
  | spop count stringList => exact announces_spop host s count stringList

end HashSetCommand

/-! ## The STORE commands -/

/-- The five bytes a STORE estimate misses are made up for as soon as there are two members. -/
def ForceAddFits : Prop :=
  paras.map length ≠ [maxObjectSize - 8]

instance decidableForceAddFits (paras : List Bytes) : Decidable (ForceAddFits paras) :=
  inferInstanceAs (Decidable (_ ≠ _))

lemma commitForceAdd_eq {paras : List Bytes} (hne : paras ≠ []) :
    commitForceAdd paras = some (empty.commitSAdd paras) ∧
      isEmptySet (empty.commitSAdd paras) = false := by
  obtain ⟨m, hm⟩ := exists_mem_of_ne_nil paras hne
  have hmem : m ∈ (empty.commitSAdd paras).hashSet :=
    (mem_commitSAdd _ paras m).2 (Or.inr hm)
  have hleft : (empty.commitSAdd paras).hashSet ≠ [] := ne_nil_of_mem hmem
  refine ⟨?_, isEmpty_eq_false_iff.2 hleft⟩
  simp [commitForceAdd, hne, hleft]

lemma executeForceAdd_eq_write {paras : List Bytes} :
    executeForceAdd paras = .write ↔
      (paras.map fun e => 8 + e.length).sum ≤ maxObjectSize ∧ paras ≠ [] := by
  unfold executeForceAdd
  split_ifs <;> simp_all

lemma sum_eight_eq :
    (paras.map fun e => 8 + e.length).sum = itemsLength paras + 4 * paras.length := by
  induction paras with
  | nil => rfl
  | cons e paras ih =>
    rw [map_cons, sum_cons, itemsLength_cons, itemLength, length_cons]
    omega

/-- **STORE into a set stays within the limit** but for a single member of one length. -/
theorem size_commitForceAdd_iff :
    (executeForceAdd paras = .write →
        (empty.commitSAdd paras).serializedLength ≤ maxObjectSize) ↔
      ForceAddFits paras := by
  rw [executeForceAdd_eq_write, sum_eight_eq]
  have hle := serializedLength_commitSAdd_le .empty paras
  have hfresh : paras.filter (· ∉ empty.hashSet) = paras := by
    simp [empty]
  rw [hfresh] at hle
  have hmax : maxObjectSize = 268435456 := rfl
  match paras with
  | [] => simp [ForceAddFits]
  | [e] =>
    have hone : (empty.commitSAdd [e]).serializedLength = 5 + itemLength e := rfl
    simp only [hone, itemsLength_cons, itemsLength_nil, itemLength, ForceAddFits, map_cons, map_nil,
      ne_eq, List.cons.injEq, and_true, length_cons, length_nil, reduceCtorEq, not_false_eq_true]
    omega
  | e :: e' :: rest =>
    have hempty : empty.serializedLength = 5 := rfl
    refine iff_of_true (fun ⟨hsum, _⟩ => ?_) (by simp [ForceAddFits])
    rw [length_cons, length_cons] at hsum
    omega

lemma announces_forceAdd :
    (executeForceAdd paras).Announces isEmptySet (commitForceAdd paras) := by
  by_cases hnil : paras = []
  · subst hnil
    exact ⟨fun _ => rfl, fun hwrite => absurd rfl (executeForceAdd_eq_write.1 hwrite).2⟩
  · obtain ⟨hcommit, hne⟩ := commitForceAdd_eq hnil
    refine ⟨fun hdelete => ?_, fun _ => ⟨_, hcommit, hne⟩⟩
    unfold executeForceAdd at hdelete
    split_ifs at hdelete with hbig hempty
    exact absurd (isEmpty_iff.1 hempty) hnil

end EloqKV.Sets
