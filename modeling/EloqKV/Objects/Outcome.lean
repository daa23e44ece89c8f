/-
  What a command reports before its mutation is applied (`CommandExecuteState` in
  `include/redis_object.h`, `txservice::ExecResult`).

  The removing commands turn the decision of `Execute` into a write or a deletion, the others only
  know a write.
-/
import Mathlib

namespace EloqKV

inductive CommandExecuteState where
  | noChange
  | modified
  | modifiedToEmpty
  deriving DecidableEq, Repr

open CommandExecuteState

inductive ExecResult where
  | fail
  | read
  | write
  | delete
  deriving DecidableEq, Repr

namespace CommandExecuteState

/-- The `switch` of the removing commands. -/
def toExecResult : CommandExecuteState → ExecResult
  | noChange => .fail
  | modified => .write
  | modifiedToEmpty => .delete

/-- `state == CommandExecuteState::Modified ? Write : Fail`. -/
def toWriteResult : CommandExecuteState → ExecResult
  | modified => .write
  | _ => .fail

/-- The decision of the removing commands: `removed` of `size` elements go. -/
def ofRemoved (removed size : Nat) : CommandExecuteState :=
  if removed = 0 then noChange
  else if size ≤ removed then modifiedToEmpty
  else modified

variable (state : CommandExecuteState)

@[simp] lemma toExecResult_eq_delete :
    state.toExecResult = .delete ↔ state = modifiedToEmpty := by
  cases state <;> simp [toExecResult]

@[simp] lemma toExecResult_eq_write : state.toExecResult = .write ↔ state = modified := by
  cases state <;> simp [toExecResult]

@[simp] lemma toWriteResult_eq_write : state.toWriteResult = .write ↔ state = modified := by
  cases state <;> simp [toWriteResult]

@[simp] lemma toWriteResult_ne_delete : state.toWriteResult ≠ .delete := by
  cases state <;> simp [toWriteResult]

lemma ofRemoved_eq_modifiedToEmpty (removed size : Nat) :
    ofRemoved removed size = modifiedToEmpty ↔ 0 < removed ∧ size ≤ removed := by
  unfold ofRemoved
  by_cases hzero : removed = 0
  · simp [hzero]
  · by_cases hsize : size ≤ removed
    · simp [hzero, hsize]
      omega
    · simp [hzero, hsize]

lemma ofRemoved_eq_modified (removed size : Nat) :
    ofRemoved removed size = modified ↔ 0 < removed ∧ removed < size := by
  unfold ofRemoved
  by_cases hzero : removed = 0
  · simp [hzero]
  · by_cases hsize : size ≤ removed
    · simp [hzero, hsize]
    · simp [hzero, hsize]
      omega

end CommandExecuteState

namespace ExecResult

lemma ite_eq_write {pass : Bool} :
    (if pass then ExecResult.write else ExecResult.fail) = .write ↔ pass = true := by
  cases pass <;> simp

/-- A result announces what `CommitOn` leaves: no object after a deletion, elements after a write.
-/
def Announces {α : Type} (result : ExecResult) (isEmpty : α → Bool) (left : Option α) : Prop :=
  (result = .delete → left = none) ∧
    (result = .write → ∃ object, left = some object ∧ isEmpty object = false)

/-- The same for functions that may have no result: both have one wherever they are called. -/
def Announced {α : Type} (isEmpty : α → Bool) (result : Option ExecResult)
    (left : Option (Option α)) : Prop :=
  ∃ r, result = some r ∧ (r = .write ∨ r = .delete → ∃ l, left = some l ∧ r.Announces isEmpty l)

section

variable {α : Type}

lemma announced_some (isEmpty : α → Bool) (result : ExecResult) (left : Option α) :
    Announced isEmpty (some result) (some left) ↔ result.Announces isEmpty left := by
  constructor
  · rintro ⟨r, hr, hrun⟩
    cases hr
    refine ⟨fun hdelete => ?_, fun hwrite => ?_⟩
    · obtain ⟨l, hl, hannounces⟩ := hrun (Or.inr hdelete)
      exact Option.some.inj hl ▸ hannounces.1 hdelete
    · obtain ⟨l, hl, hannounces⟩ := hrun (Or.inl hwrite)
      exact Option.some.inj hl ▸ hannounces.2 hwrite
  · exact fun hannounces => ⟨result, rfl, fun _ => ⟨left, rfl, hannounces⟩⟩

variable {isEmpty : α → Bool}

lemma announced_map {β : Type} {isEmpty' : β → Bool} (f : α → β)
    (hf : ∀ a, isEmpty' (f a) = isEmpty a) (result : Option ExecResult) (left : Option (Option α)) :
    Announced isEmpty' result (left.map (Option.map f)) ↔ Announced isEmpty result left := by
  have hone : ∀ (r : ExecResult) (l : Option α),
      r.Announces isEmpty' (l.map f) ↔ r.Announces isEmpty l := by
    intro r l
    cases l <;> simp [Announces, hf]
  cases left with
  | none => simp [Announced]
  | some l =>
    simp [Announced, hone]

lemma announces_toWriteResult (state : CommandExecuteState) {object : α}
    (hobject : state = .modified → isEmpty object = false) :
    state.toWriteResult.Announces isEmpty (some object) := by
  refine ⟨fun hdelete => absurd hdelete (by simp), fun hwrite => ⟨object, rfl, hobject ?_⟩⟩
  simpa using hwrite

/-- **The removing commands** are right iff the count reaches the size exactly when nothing is left.
-/
theorem announces_removal_iff (isEmpty : α → Bool) (removed size : Nat) (object : α) :
    (ofRemoved removed size).toExecResult.Announces isEmpty
        (if isEmpty object then none else some object) ↔
      (0 < removed → (size ≤ removed ↔ isEmpty object = true)) := by
  unfold Announces
  simp only [toExecResult_eq_delete, toExecResult_eq_write,
    ofRemoved_eq_modifiedToEmpty, ofRemoved_eq_modified]
  cases hempty : isEmpty object
  · simp only [Bool.false_eq_true, if_false, iff_false]
    constructor
    · rintro ⟨hdelete, -⟩ hpos hsize
      exact absurd (hdelete ⟨hpos, hsize⟩) (by simp)
    · intro hright
      exact ⟨fun ⟨hpos, hsize⟩ => absurd hsize (hright hpos), fun _ => ⟨object, rfl, hempty⟩⟩
  · simp only [if_true, iff_true]
    constructor
    · rintro ⟨-, hwrite⟩ hpos
      by_contra hsize
      obtain ⟨object', hsome, -⟩ := hwrite ⟨hpos, Nat.lt_of_not_le hsize⟩
      exact absurd hsome (by simp)
    · intro hright
      exact ⟨fun _ => trivial, fun ⟨hpos, hlt⟩ => absurd (hright hpos) (Nat.not_le.2 hlt)⟩

/-- The commands that remove by key.  `Execute` counts the listed keys that are there, so it reaches
the size exactly if every key is listed, as no key is listed twice. -/
lemma announces_keyed_removal {κ : Type} {keys args : List κ} (hkeys : keys.Nodup)
    (hargs : args.Nodup) {hit : κ → Bool} (hhit : ∀ k, hit k = true ↔ k ∈ keys)
    {object : α} (hempty : isEmpty object = true ↔ ∀ k ∈ keys, k ∈ args) :
    (ofRemoved (args.countP hit) keys.length).toExecResult.Announces
      isEmpty (if isEmpty object then none else some object) := by
  refine (announces_removal_iff _ _ _ _).2 fun _ => ?_
  rw [hempty, List.countP_eq_length_filter]
  have hsub : args.filter hit ⊆ keys := fun k hk => (hhit k).1 (List.mem_filter.1 hk).2
  constructor
  · intro hle k hk
    have hperm := (List.subperm_of_subset (hargs.filter _) hsub).perm_of_length_le hle
    exact (List.mem_filter.1 (hperm.mem_iff.2 hk)).1
  · intro hall
    refine (List.subperm_of_subset hkeys fun k hk => ?_).length_le
    exact List.mem_filter.2 ⟨hall k hk, (hhit k).2 hk⟩

end

end ExecResult

end EloqKV
