/-
  The hash object and its write commands (`src/redis_hash_object.cpp`, the hash commands of
  `src/redis_command.cpp`).

  `Execute` estimates the size of the object after the command, in a signed sum that is then
  added to the unsigned length: a sum that would be negative wraps around and is refused.  HSET
  looks every field up in the object as it is before the command, so a field that is listed
  twice is charged, or credited, twice.
-/
import EloqKV.EloqString
import EloqKV.Numbers
import EloqKV.Objects.Items
import EloqKV.Objects.Outcome

open List Option

namespace EloqKV.Hashes

open LongDouble ExecResult

/-- `hash_map_`: fields and their values, every field once. -/
abbrev FieldMap := AList fun _ : Bytes => Bytes

structure RedisHashObject where
  hashMap : FieldMap
  serializedLength : Nat
  deriving DecidableEq

def entryLength (field value : Bytes) : Nat := itemLength field + itemLength value

def entriesLength (entries : List ((_ : Bytes) × Bytes)) : Nat :=
  (entries.map fun e => entryLength e.1 e.2).sum

inductive HashCommand (F : Type) where
  | hset (pairs : List (Bytes × Bytes))
  | hsetnx (key value : Bytes)
  | hincrby (field : Bytes) (score : Int64)
  | hincrbyfloat (field : Bytes) (incr : F)
  | hdel (keys : List Bytes)

/-- The comparison `serialized_length_ + len > MAX_OBJECT_SIZE`, negated: the sum is unsigned. -/
def withinLimit (serializedLength : Nat) (len : Int) : Bool :=
  (serializedLength + len) % 2 ^ 64 ≤ (maxObjectSize : Int)

namespace RedisHashObject

def empty : RedisHashObject := ⟨∅, 1 + 4⟩

/-! ### The decisions -/

variable (h : RedisHashObject)

/-- What one pair adds to `len` in `Execute(HSetCommand &)`. -/
def pairGrowth (pair : Bytes × Bytes) : Int :=
  match h.hashMap.lookup pair.1 with
  | none => entryLength pair.1 pair.2
  | some old => (pair.2.length : Int) - old.length

def executeHSet (pairs : List (Bytes × Bytes)) : Bool :=
  withinLimit h.serializedLength (pairs.map h.pairGrowth).sum

def executeHSetNx (key value : Bytes) : Bool :=
  match h.hashMap.lookup key with
  | none => h.serializedLength + entryLength key value ≤ maxObjectSize
  | some _ => false

/-- The part of `len` that comes from the old value, or from a new field. -/
def counterGrowth (field : Bytes) : Int :=
  match h.hashMap.lookup field with
  | none => 4 * 2 + (field.length : Int)
  | some old => -(old.length : Int)

def executeHIncrBy (field : Bytes) (score : Int64) : Bool :=
  match (match h.hashMap.lookup field with | none => some 0 | some old => string2ll old) with
  | none => false
  | some old =>
    if incrOverflows score.toInt old then false
    else withinLimit h.serializedLength (h.counterGrowth field + 20)

def executeHDel (keys : List Bytes) : CommandExecuteState :=
  .ofRemoved (keys.countP (· ∈ h.hashMap.keys)) h.hashMap.keys.length

/-! ### The mutations -/

def setField (field value : Bytes) : RedisHashObject :=
  ⟨h.hashMap.insert field value,
    match h.hashMap.lookup field with
    | none => h.serializedLength + entryLength field value
    | some old => h.serializedLength + value.length - old.length⟩

def commitHSet (pairs : List (Bytes × Bytes)) : RedisHashObject :=
  pairs.foldl (fun h pair => h.setField pair.1 pair.2) h

def commitHSetNx (key value : Bytes) : RedisHashObject :=
  ⟨h.hashMap.insert key value, h.serializedLength + entryLength key value⟩

/-- The end of `CommitHincrby` and `CommitHIncrByFloat`: the new text replaces the old value. -/
def commitCounter (field text : Bytes) : RedisHashObject :=
  let length := match h.hashMap.lookup field with
    | none => h.serializedLength + (4 * 2 + field.length)
    | some old => h.serializedLength - old.length
  ⟨h.hashMap.insert field text, length + text.length⟩

def commitHIncrBy (field : Bytes) (score : Int64) : RedisHashObject :=
  let oldScore := ((h.hashMap.lookup field).bind string2ll).getD 0
  h.commitCounter field (int64ToString (oldScore + score.toInt))

/-- One round of `CommitHdel`. -/
def delField (key : Bytes) : RedisHashObject :=
  match h.hashMap.lookup key with
  | none => h
  | some old => ⟨h.hashMap.erase key, h.serializedLength - entryLength key old⟩

def commitHDel (keys : List Bytes) : RedisHashObject :=
  keys.foldl delField h

section Float

variable {F : Type} [LongDouble F]

def executeHIncrByFloat (h : RedisHashObject) (field : Bytes) (incr : F) : Bool :=
  match (match h.hashMap.lookup field with
    | none => some LongDouble.zero
    | some old => LongDouble.string2ld old) with
  | none => false
  | some old =>
    let new := LongDouble.add old incr
    if LongDouble.isNanOrInf new then false
    else withinLimit h.serializedLength (h.counterGrowth field + (LongDouble.ld2string new).length)

def commitHIncrByFloat (h : RedisHashObject) (field : Bytes) (incr : F) : RedisHashObject :=
  let old := ((h.hashMap.lookup field).bind LongDouble.string2ld).getD LongDouble.zero
  h.commitCounter field (LongDouble.ld2string (LongDouble.add old incr))

end Float

end RedisHashObject

namespace HashCommand

open RedisHashObject

variable {F : Type} [LongDouble F]

/-- `ExecuteOn` for an object of the right type. -/
def executeOn (cmd : HashCommand F) (h : RedisHashObject) : ExecResult :=
  match cmd with
  | hset pairs => if h.executeHSet pairs then .write else .fail
  | hsetnx key value => if h.executeHSetNx key value then .write else .fail
  | hincrby field score => if h.executeHIncrBy field score then .write else .fail
  | hincrbyfloat field incr => if h.executeHIncrByFloat field incr then .write else .fail
  | hdel keys => (h.executeHDel keys).toExecResult

/-- The object after `CommitOn`. -/
def commit (cmd : HashCommand F) (h : RedisHashObject) : RedisHashObject :=
  match cmd with
  | hset pairs => h.commitHSet pairs
  | hsetnx key value => h.commitHSetNx key value
  | hincrby field score => h.commitHIncrBy field score
  | hincrbyfloat field incr => h.commitHIncrByFloat field incr
  | hdel keys => h.commitHDel keys

/-- `CommitOn`: only HDEL asks whether anything is left. -/
def commitOn (cmd : HashCommand F) (h : RedisHashObject) : Option RedisHashObject :=
  match cmd with
  | hdel keys =>
    let h' := h.commitHDel keys
    if h'.hashMap.keys.isEmpty then none else some h'
  | cmd => some (cmd.commit h)

end HashCommand

/-! ## What the mutations do -/

lemma entriesLength_kerase (field : Bytes) (entries : List ((_ : Bytes) × Bytes)) :
    entriesLength entries = entriesLength (entries.kerase field) +
        ((entries.dlookup field).map (entryLength field)).getD 0 := by
  induction entries with
  | nil => rfl
  | cons e entries ih =>
    obtain ⟨field', value⟩ := e
    by_cases heq : field = field'
    · subst heq
      have herase : List.kerase field (⟨field, value⟩ :: entries) = entries := kerase_cons_eq rfl
      rw [herase, dlookup_cons_eq]
      simp only [entriesLength, map_cons, sum_cons, map_some, getD_some]
      omega
    · have herase : List.kerase field (⟨field', value⟩ :: entries) =
          ⟨field', value⟩ :: List.kerase field entries := kerase_cons_ne heq
      rw [herase, dlookup_cons_ne _ _ heq]
      simp only [entriesLength, map_cons, sum_cons] at ih ⊢
      omega

namespace RedisHashObject

/-- The length field is the number of bytes the object serializes to. -/
def WellFormed (h : RedisHashObject) : Prop :=
  h.serializedLength = 1 + 4 + entriesLength h.hashMap.entries

lemma wellFormed_empty : empty.WellFormed := rfl

/-- The bytes the map holds for a field. -/
def held (h : RedisHashObject) (field : Bytes) : Nat :=
  ((h.hashMap.lookup field).map (entryLength field)).getD 0

variable {h : RedisHashObject}

lemma WellFormed.split (hh : h.WellFormed) (field : Bytes) :
    h.serializedLength = 1 + 4 + entriesLength (h.hashMap.entries.kerase field) + h.held field := by
  unfold WellFormed at hh
  have := entriesLength_kerase field h.hashMap.entries
  unfold held AList.lookup
  omega

lemma WellFormed.insert (hh : h.WellFormed) (field value : Bytes)
    {length : Nat}
    (hlength : length + h.held field = h.serializedLength + entryLength field value) :
    (⟨h.hashMap.insert field value, length⟩ : RedisHashObject).WellFormed := by
  have hsplit := hh.split field
  unfold WellFormed
  simp only [AList.entries_insert, entriesLength, map_cons, sum_cons] at hsplit ⊢
  omega

lemma held_le (hh : h.WellFormed) (field : Bytes) : h.held field ≤ h.serializedLength := by
  have := hh.split field
  omega

lemma held_of_none {field : Bytes}
    (hnone : h.hashMap.lookup field = none) : h.held field = 0 := by
  simp [held, hnone]

lemma held_of_some {field old : Bytes}
    (hsome : h.hashMap.lookup field = some old) : h.held field = entryLength field old := by
  simp [held, hsome]

lemma pairGrowth_eq (h : RedisHashObject) (pair : Bytes × Bytes) :
    h.pairGrowth pair = (entryLength pair.1 pair.2 : Int) - h.held pair.1 := by
  unfold pairGrowth
  cases hold : h.hashMap.lookup pair.1 with
  | none => simp [held_of_none hold]
  | some old =>
    rw [held_of_some hold]
    simp only [entryLength, itemLength]
    omega

variable (hh : h.WellFormed)
include hh

lemma serializedLength_setField (field value : Bytes) :
    (h.setField field value).serializedLength + h.held field =
      h.serializedLength + entryLength field value := by
  have hle := held_le hh field
  simp only [setField]
  cases hold : h.hashMap.lookup field with
  | none => simp [held_of_none hold]
  | some old =>
    rw [held_of_some hold] at hle ⊢
    simp only [entryLength, itemLength] at hle ⊢
    omega

lemma WellFormed.setField (field value : Bytes) : (h.setField field value).WellFormed :=
  hh.insert field value (serializedLength_setField hh field value)

lemma WellFormed.commitHSet (pairs : List (Bytes × Bytes)) : (h.commitHSet pairs).WellFormed := by
  induction pairs generalizing h with
  | nil => exact hh
  | cons pair pairs ih => exact ih (hh.setField pair.1 pair.2)

lemma WellFormed.commitHSetNx {key : Bytes}
    (hnone : h.hashMap.lookup key = none) (value : Bytes) : (h.commitHSetNx key value).WellFormed :=
  hh.insert key value (by rw [held_of_none hnone, Nat.add_zero])

lemma serializedLength_commitCounter (field text : Bytes) :
    ((h.commitCounter field text).serializedLength : Int) =
        h.serializedLength + (h.counterGrowth field + text.length) ∧
      (h.commitCounter field text).serializedLength + h.held field =
        h.serializedLength + entryLength field text := by
  have hle := held_le hh field
  simp only [commitCounter, counterGrowth]
  cases hold : h.hashMap.lookup field with
  | none =>
    simp only [held_of_none hold, entryLength, itemLength]
    omega
  | some old =>
    rw [held_of_some hold] at hle ⊢
    simp only [entryLength, itemLength] at hle ⊢
    omega

lemma WellFormed.commitCounter (field text : Bytes) : (h.commitCounter field text).WellFormed :=
  hh.insert field text (serializedLength_commitCounter hh field text).2

lemma WellFormed.delField (key : Bytes) : (h.delField key).WellFormed := by
  have hsplit := hh.split key
  unfold RedisHashObject.delField
  cases hold : h.hashMap.lookup key with
  | none => exact hh
  | some old =>
    rw [held_of_some hold] at hsplit
    unfold WellFormed
    simp only [AList.erase]
    omega

lemma WellFormed.commitHDel (keys : List Bytes) : (h.commitHDel keys).WellFormed := by
  induction keys generalizing h with
  | nil => exact hh
  | cons key keys ih => exact ih (hh.delField key)

variable (h)

omit hh

lemma mem_delField (key k : Bytes) :
    k ∈ (h.delField key).hashMap.keys ↔ k ∈ h.hashMap.keys ∧ k ≠ key := by
  unfold delField
  cases hold : h.hashMap.lookup key with
  | none =>
    refine ⟨fun hk => ⟨hk, fun heq => ?_⟩, fun hk => hk.1⟩
    exact AList.lookup_eq_none.1 hold (AList.mem_keys.2 (heq ▸ hk))
  | some old =>
    simp only [← AList.mem_keys, AList.mem_erase]
    exact and_comm

lemma mem_commitHDel (keys : List Bytes) (k : Bytes) :
    k ∈ (h.commitHDel keys).hashMap.keys ↔ k ∈ h.hashMap.keys ∧ k ∉ keys := by
  unfold commitHDel
  induction keys generalizing h with
  | nil => simp
  | cons key keys ih =>
    rw [foldl_cons, ih, mem_delField, mem_cons, not_or, and_assoc]

lemma serializedLength_commitHDel_le (keys : List Bytes) :
    (h.commitHDel keys).serializedLength ≤ h.serializedLength := by
  induction keys generalizing h with
  | nil => exact Nat.le_refl _
  | cons key keys ih =>
    refine Nat.le_trans (ih _) ?_
    unfold delField
    split
    · exact Nat.le_refl _
    · exact Nat.sub_le _ _

/-! ### Fields that are listed more than once -/

/-- What a list of pairs really adds: only the last pair of a field counts. -/
def lastGrowth (h : RedisHashObject) : List (Bytes × Bytes) → Int
  | [] => 0
  | pair :: pairs =>
    (if pair.1 ∈ pairs.map (·.1) then 0 else h.pairGrowth pair) + h.lastGrowth pairs

lemma pairGrowth_setField_self (field value value' : Bytes) :
    (h.setField field value).pairGrowth (field, value') =
      h.pairGrowth (field, value') - h.pairGrowth (field, value) := by
  have hlookup : (h.setField field value).hashMap.lookup field = some value :=
    AList.lookup_insert h.hashMap
  simp only [pairGrowth_eq, held_of_some hlookup]
  omega

lemma pairGrowth_setField_of_ne {field : Bytes} (value : Bytes) {pair : Bytes × Bytes}
    (hne : pair.1 ≠ field) : (h.setField field value).pairGrowth pair = h.pairGrowth pair := by
  have hlookup : (h.setField field value).hashMap.lookup pair.1 = h.hashMap.lookup pair.1 :=
    AList.lookup_insert_ne hne
  simp [pairGrowth, hlookup]

/-- Writing a field changes what a later list adds only if the field is written again. -/
lemma lastGrowth_setField (field value : Bytes) (pairs : List (Bytes × Bytes)) :
    (h.setField field value).lastGrowth pairs = h.lastGrowth pairs -
        if field ∈ pairs.map (·.1) then h.pairGrowth (field, value) else 0 := by
  induction pairs with
  | nil => rfl
  | cons pair pairs ih =>
    obtain ⟨field', value'⟩ := pair
    simp only [lastGrowth, ih, map_cons, mem_cons]
    by_cases heq : field' = field
    · subst heq
      by_cases hagain : field' ∈ pairs.map (·.1)
      · simp only [hagain, if_true, or_true]
        omega
      · simp only [hagain, if_false, or_false, if_true, pairGrowth_setField_self]
        omega
    · have hne : ¬field = field' := fun h => heq h.symm
      have hother := pairGrowth_setField_of_ne h value (show (field', value').1 ≠ field from heq)
      simp only [hother, hne, false_or]
      omega

variable {h}

lemma serializedLength_commitHSet (hh : h.WellFormed) (pairs : List (Bytes × Bytes)) :
    ((h.commitHSet pairs).serializedLength : Int) = h.serializedLength + h.lastGrowth pairs := by
  unfold commitHSet
  induction pairs generalizing h with
  | nil => simp [lastGrowth]
  | cons pair pairs ih =>
    obtain ⟨field, value⟩ := pair
    have hfield := serializedLength_setField hh field value
    have hgrowth := h.pairGrowth_eq (field, value)
    rw [foldl_cons, ih (hh.setField field value), lastGrowth_setField, lastGrowth]
    simp only at hgrowth ⊢
    split_ifs <;> omega

end RedisHashObject

/-! ## Decisions against mutations -/

def isEmptyHash (h : RedisHashObject) : Bool := h.hashMap.keys.isEmpty

lemma isEmptyHash_insert (h : RedisHashObject) (field value : Bytes) (length : Nat) :
    isEmptyHash ⟨h.hashMap.insert field value, length⟩ = false := by
  simp [isEmptyHash, AList.keys_insert]

namespace HashCommand

open RedisHashObject

variable {F : Type} [LongDouble F]

/-- When the check covers what the mutation adds; HSET counts every pair against the old object. -/
def Fits (cmd : HashCommand F) (h : RedisHashObject) : Prop :=
  match cmd with
  | hset pairs =>
    (h.serializedLength + (pairs.map h.pairGrowth).sum) % 2 ^ 64 ≤ (maxObjectSize : Int) →
      h.serializedLength + h.lastGrowth pairs ≤ (maxObjectSize : Int)
  | _ => True

variable {h : RedisHashObject}

lemma storedNumber_eq {stored : Option Bytes} {n : Int}
    (hn : stored.elim (some 0) string2ll = some n) :
    IsInt64 n ∧ (stored.bind string2ll).getD 0 = n := by
  cases stored with
  | none => exact Option.some.inj hn ▸ ⟨by decide, rfl⟩
  | some old =>
    rw [elim_some] at hn
    exact ⟨isInt64_of_string2ll hn, by rw [bind_some, hn]; rfl⟩

lemma executeHIncrBy_eq (h : RedisHashObject) (field : Bytes) (score : Int64) :
    h.executeHIncrBy field score = ((h.hashMap.lookup field).elim (some 0) string2ll).any fun old =>
      !incrOverflows score.toInt old &&
        withinLimit h.serializedLength (h.counterGrowth field + 20) := by
  have hif : ∀ stop pass : Bool, (if stop then false else pass) = (!stop && pass) := by decide
  unfold executeHIncrBy
  cases h.hashMap.lookup field with
  | none => exact hif _ _
  | some old =>
    cases hold : string2ll old with
    | none => simp [hold]
    | some n => simpa only [elim_some, hold, any_some] using hif _ _

lemma executeHIncrBy_eq_true {field : Bytes} {score : Int64}
    (hpass : h.executeHIncrBy field score = true) :
    IsInt64 (((h.hashMap.lookup field).bind string2ll).getD 0 + score.toInt) ∧
      withinLimit h.serializedLength (h.counterGrowth field + 20) = true := by
  rw [executeHIncrBy_eq, Option.any_eq_true] at hpass
  obtain ⟨n, hn, hpass⟩ := hpass
  rw [Bool.and_eq_true, Bool.not_eq_true'] at hpass
  obtain ⟨hint, hold⟩ := storedNumber_eq hn
  rw [hold]
  exact ⟨isInt64_add_of_not_incrOverflows (isInt64_toInt score) hint hpass.1, hpass.2⟩

lemma executeHIncrByFloat_eq_true {field : Bytes} {incr : F}
    (hpass : h.executeHIncrByFloat field incr = true) :
    withinLimit h.serializedLength (h.counterGrowth field + (ld2string
      (add (((h.hashMap.lookup field).bind string2ld).getD zero)
        incr)).length) = true := by
  unfold executeHIncrByFloat at hpass
  cases hlookup : h.hashMap.lookup field with
  | none =>
    simp only [hlookup] at hpass
    split at hpass
    · contradiction
    · exact hpass
  | some old =>
    simp only [hlookup] at hpass
    cases hold : (string2ld old : Option F) with
    | none => simp [hold] at hpass
    | some x =>
      simp only [hold] at hpass
      split at hpass
      · contradiction
      · simpa only [bind_some, hold, getD_some] using hpass

lemma executeHSetNx_eq_true {key value : Bytes} :
    h.executeHSetNx key value = true ↔ h.hashMap.lookup key = none ∧
      h.serializedLength + entryLength key value ≤ maxObjectSize := by
  unfold executeHSetNx
  cases hlookup : h.hashMap.lookup key <;> simp

lemma size_commitCounter_le (hh : h.WellFormed)
    (hmax : h.serializedLength ≤ maxObjectSize) {field text : Bytes} {reserve : Nat}
    (hreserve : reserve < 2 ^ 32) (hfield : field.length < 2 ^ 32) (htext : text.length ≤ reserve)
    (hpass : withinLimit h.serializedLength (h.counterGrowth field + reserve) = true) :
    (h.commitCounter field text).serializedLength ≤ maxObjectSize := by
  have hlimit : maxObjectSize = 268435456 := rfl
  obtain ⟨hlength, hheld⟩ := serializedLength_commitCounter hh field text
  have hgrowth : h.counterGrowth field ≤ 8 + field.length := by
    unfold counterGrowth
    split <;> omega
  rw [withinLimit, decide_eq_true_iff, Int.emod_eq_of_lt (by omega) (by omega)] at hpass
  omega

/-- What the parser and `EloqString` guarantee: HSET has pairs, lengths are 32-bit numbers. -/
def Admitted : HashCommand F → Prop
  | hset pairs => pairs ≠ []
  | hincrby field _ | hincrbyfloat field _ => field.length < 2 ^ 32
  | _ => True

/-- What `CommitOn` takes for granted: HSETNX of a new field, an HINCRBY without overflow. -/
def Committable (cmd : HashCommand F) (h : RedisHashObject) : Prop :=
  match cmd with
  | hsetnx key _ => h.hashMap.lookup key = none
  | hincrby field score =>
    IsInt64 (((h.hashMap.lookup field).bind string2ll).getD 0 + score.toInt)
  | _ => True

variable {cmd : HashCommand F}

lemma wellFormed_commit_of_committable
    (hh : h.WellFormed) (hcmd : cmd.Committable h) : (cmd.commit h).WellFormed := by
  cases cmd with
  | hset pairs => exact hh.commitHSet pairs
  | hsetnx key value => exact hh.commitHSetNx hcmd value
  | hincrby field score => exact hh.commitCounter field _
  | hincrbyfloat field incr => exact hh.commitCounter field _
  | hdel keys => exact hh.commitHDel keys

theorem size_commit_iff (hh : h.WellFormed)
    (hmax : h.serializedLength ≤ maxObjectSize) (hcmd : cmd.Admitted) :
    (cmd.executeOn h = .write → (cmd.commit h).serializedLength ≤ maxObjectSize) ↔ cmd.Fits h := by
  cases cmd with
  | hset pairs =>
    have hlength := serializedLength_commitHSet hh pairs
    simp only [executeOn, ite_eq_write, commit, Fits]
    rw [executeHSet, withinLimit, decide_eq_true_iff, ← hlength, Int.ofNat_le]
  | hsetnx key value =>
    refine iff_of_true (fun hwrite => ?_) trivial
    simp only [executeOn, ite_eq_write] at hwrite
    exact (executeHSetNx_eq_true.1 hwrite).2
  | hincrby field score =>
    refine iff_of_true (fun hwrite => ?_) trivial
    simp only [executeOn, ite_eq_write] at hwrite
    obtain ⟨hint, hpass⟩ := executeHIncrBy_eq_true hwrite
    exact size_commitCounter_le hh hmax (by decide) hcmd (length_int64ToString_le hint) hpass
  | hincrbyfloat field incr =>
    refine iff_of_true (fun hwrite => ?_) trivial
    simp only [executeOn, ite_eq_write] at hwrite
    refine size_commitCounter_le hh hmax ?_ hcmd (Nat.le_refl _)
      (executeHIncrByFloat_eq_true hwrite)
    exact Nat.lt_of_le_of_lt (length_ld2string_le _) (by decide)
  | hdel keys =>
    exact iff_of_true (fun _ => Nat.le_trans (serializedLength_commitHDel_le h keys) hmax) trivial

/-- `ParseHDelCommand` drops a field that is listed again. -/
def Distinct : HashCommand F → Prop
  | hdel keys => keys.Nodup
  | _ => True

variable (h : RedisHashObject)

lemma isEmptyHash_commitHDel (keys : List Bytes) :
    isEmptyHash (h.commitHDel keys) = true ↔ ∀ k ∈ h.hashMap.keys, k ∈ keys := by
  rw [isEmptyHash, List.isEmpty_iff, List.eq_nil_iff_forall_not_mem]
  simp [mem_commitHDel]

lemma isEmptyHash_commitHSet {pairs : List (Bytes × Bytes)}
    (hne : pairs ≠ []) : isEmptyHash (h.commitHSet pairs) = false := by
  obtain ⟨init, last, rfl⟩ := (eq_nil_or_concat pairs).resolve_left hne
  rw [commitHSet, concat_eq_append, foldl_concat]
  exact isEmptyHash_insert _ _ _ _

lemma announces_of_pass (pass : Bool) {h' : RedisHashObject} (hne : isEmptyHash h' = false) :
    (if pass then write else fail).Announces isEmptyHash (some h') := by
  refine ⟨fun hdelete => ?_, fun _ => ⟨h', rfl, hne⟩⟩
  cases pass <;> simp at hdelete

theorem announces (hcmd : cmd.Admitted) (hdistinct : cmd.Distinct) :
    (cmd.executeOn h).Announces isEmptyHash (cmd.commitOn h) := by
  cases cmd with
  | hset pairs =>
    exact announces_of_pass _ (isEmptyHash_commitHSet h hcmd)
  | hsetnx key value =>
    exact announces_of_pass _ (isEmptyHash_insert h _ _ _)
  | hincrby field score =>
    exact announces_of_pass _ (isEmptyHash_insert h _ _ _)
  | hincrbyfloat field incr =>
    exact announces_of_pass _ (isEmptyHash_insert h _ _ _)
  | hdel keys =>
    exact announces_keyed_removal h.hashMap.keys_nodup hdistinct (fun _ => decide_eq_true_iff)
      (isEmptyHash_commitHDel h keys)

end HashCommand

end EloqKV.Hashes
