/-
  SET on an existing object (`SetCommand` in `src/redis_command.cpp`, `CommitSet` in
  `src/redis_string_object.cpp`).

  The value is a view of the request on the node that runs the command and an owned string where the
  command was cloned or replayed.  `CommitSet` copies a view but moves an owned string out of the
  command, so the command is part of the state the commit works on.
-/
import EloqKV.EloqString
import EloqKV.Objects.Outcome

namespace EloqKV.Strings

open EloqString

/-- `UINT64_MAX`, the deadline of an object that never expires. -/
def uint64Max : Nat := 2 ^ 64 - 1

/-- What SET can find: a string (`none` if it is new), or one of the other four types. -/
inductive Payload where
  | string (str : Option EloqString)
  | list
  | hash
  | zset
  | set
  deriving DecidableEq, Repr

/-- An object as the commands on strings see it, with its deadline if it is of the TTL variant. -/
structure ObjectView where
  payload : Payload
  ttl : Option Nat
  deriving DecidableEq, Repr

/-- Whether `dynamic_cast<RedisStringObject *>` succeeds. -/
def ObjectView.isString (obj : ObjectView) : Bool :=
  match obj.payload with
  | .string _ => true
  | _ => false

/-- `SetCommand`.  `keepttl` is bit 4 of the flags, which EX and its relatives set as well. -/
structure SetCommand where
  value : EloqString
  nx : Bool
  xx : Bool
  get : Bool
  keepttl : Bool
  objExpireTs : Nat
  deriving DecidableEq, Repr

namespace SetCommand

variable (cmd : SetCommand)

/-- What `ParseSetCommand` produces: not both NX and XX, and bit 4 with every deadline. -/
def Admitted : Prop :=
  ¬(cmd.nx ∧ cmd.xx) ∧ (cmd.objExpireTs ≠ uint64Max → cmd.keepttl = true)

def checkSerializedLength (len : Nat) : Bool := 1 + 4 + len ≤ maxObjectSize

variable (obj : ObjectView)

def executeOn : ExecResult :=
  let fits := checkSerializedLength cmd.value.stringView.length
  if cmd.get then
    match obj.payload with
    | .string none => if cmd.xx then .read else .write
    | .string (some _) => if cmd.nx then .read else if fits then .write else .read
    | _ => .fail
  else if fits then .write else .fail

/-- `RedisStringObject::CommitSet`: the new string, and what is left of the argument. -/
def commitSet (val : EloqString) : EloqString × EloqString :=
  match val.type with
  | .view => (val.clone, val)
  | _ => (EloqString.ofPtr val.stringView, EloqString.ofPtr [])

/-- `SetCommand::CommitOn`; on another type `CommitSet` is called again with what it has left. -/
def commitOn : ObjectView :=
  if obj.isString then
    let str := (commitSet cmd.value).1
    if cmd.objExpireTs ≠ uint64Max then ⟨.string (some str), some cmd.objExpireTs⟩
    else if obj.ttl.isSome && !cmd.keepttl then ⟨.string (some str), none⟩
    else ⟨.string (some str), obj.ttl⟩
  else
    let rest := (commitSet cmd.value).2
    let str := (commitSet rest).1
    ⟨.string (some str), if cmd.objExpireTs ≠ uint64Max then some cmd.objExpireTs else none⟩

/-- `Serialize` followed by `Deserialize`. -/
def image : SetCommand :=
  { cmd with value := EloqString.ofPtr cmd.value.stringView }

/-! ## What SET promises -/

/-- The expiry a SET leaves: the requested deadline, the old one under KEEPTTL, or none. -/
def expiry : Option Nat :=
  if cmd.objExpireTs ≠ uint64Max then some cmd.objExpireTs
  else if cmd.keepttl then obj.ttl
  else none

/-- The result is a string object with the given bytes and that expiry. -/
def Sets (obj result : ObjectView) : Prop :=
  (∃ str : EloqString, result.payload = .string (some str) ∧
    str.stringView = cmd.value.stringView) ∧ result.ttl = cmd.expiry obj

/-! ## The two branches -/

@[simp] lemma stringView_commitSet (val : EloqString) :
    (commitSet val).1.stringView = val.stringView := by
  unfold commitSet
  split <;> simp

/-- The second commit of an owned string finds it empty; a view is still there. -/
lemma stringView_commitSet_rest (val : EloqString) :
    (commitSet val).2.stringView = if val.type = .view then val.stringView else [] := by
  unfold commitSet
  split
  · rename_i hview
    simp [hview]
  · rename_i hview
    rw [if_neg hview]
    rfl

lemma sets_of_isString (hobj : obj.isString = true) : cmd.Sets obj (cmd.commitOn obj) := by
  unfold Sets commitOn expiry
  rw [if_pos hobj]
  by_cases hts : cmd.objExpireTs = uint64Max
  · by_cases hkeep : cmd.keepttl = true
    · simp [hts, hkeep]
    · cases obj.ttl <;> simp [hts, hkeep]
  · simp [hts]

lemma sets_of_not_isString (hobj : obj.isString = false) :
    cmd.Sets obj (cmd.commitOn obj) ↔ (cmd.value.type = .view ∨ cmd.value.stringView = []) ∧
        (cmd.objExpireTs = uint64Max → cmd.keepttl = true → obj.ttl = none) := by
  unfold Sets commitOn expiry
  rw [if_neg (by simp [hobj])]
  refine and_congr ?_ ?_
  · simp only [Payload.string.injEq, Option.some.injEq, exists_eq_left', stringView_commitSet,
      stringView_commitSet_rest]
    by_cases hview : cmd.value.type = .view
    · simp [hview]
    · simp only [hview, if_false, false_or]
      exact eq_comm
  · by_cases hts : cmd.objExpireTs = uint64Max
    · by_cases hkeep : cmd.keepttl = true
      · simp [hts, hkeep, eq_comm]
      · simp [hts, hkeep]
    · simp [hts]

@[simp] lemma stringView_image : cmd.image.value.stringView = cmd.value.stringView :=
  stringView_ofPtr _

lemma sets_image (obj result : ObjectView) :
    cmd.image.Sets obj result ↔ cmd.Sets obj result := by
  have hexpiry : cmd.image.expiry obj = cmd.expiry obj := rfl
  unfold Sets
  rw [stringView_image, hexpiry]

/-- **SET stores its value and expiry, on the owner and on every replay, exactly when the
object replaced is a string, or the value is empty and no deadline is to be kept.** -/
theorem set_commit_iff (_hcmd : cmd.Admitted) (_hwrite : cmd.executeOn obj = .write) :
    (cmd.Sets obj (cmd.commitOn obj) ∧ cmd.Sets obj (cmd.image.commitOn obj)) ↔
      obj.isString = true ∨ (cmd.value.stringView = [] ∧
          (cmd.objExpireTs = uint64Max → cmd.keepttl = true → obj.ttl = none)) := by
  rw [← sets_image cmd obj (cmd.image.commitOn obj)]
  cases hobj : obj.isString with
  | true =>
    simp only [true_or, iff_true]
    exact ⟨sets_of_isString cmd obj hobj, sets_of_isString cmd.image obj hobj⟩
  | false =>
    have howned : cmd.image.value.type ≠ .view := type_ofPtr_ne_view _
    rw [sets_of_not_isString cmd obj hobj, sets_of_not_isString cmd.image obj hobj,
      stringView_image]
    constructor
    · rintro ⟨⟨_, hkeep⟩, hbytes, _⟩
      exact Or.inr ⟨hbytes.resolve_left howned, hkeep⟩
    · rintro (hfalse | ⟨hempty, hkeep⟩)
      · exact absurd hfalse (by simp)
      · exact ⟨⟨Or.inr hempty, hkeep⟩, Or.inr hempty, hkeep⟩

/-- A string object with a deadline, and `SET k v KEEPTTL`. -/
theorem set_keepttl_on_string :
    let cmd : SetCommand := ⟨ofView (ascii "v"), false, false, false, true, uint64Max⟩
    let obj : ObjectView := ⟨.string (some (ofPtr (ascii "old"))), some 7⟩
    cmd.Sets obj (cmd.commitOn obj) ∧ cmd.Sets obj (cmd.image.commitOn obj) := by
  intro cmd obj
  exact (set_commit_iff cmd obj (by simp [Admitted, cmd]) (by decide)).mpr (Or.inl rfl)

/-- `SET k v XX` on a list leaves an empty string on the replica, `v` on the owner. -/
theorem set_replay_on_list_is_empty :
    let cmd : SetCommand := ⟨ofView (ascii "v"), false, true, false, false, uint64Max⟩
    let obj : ObjectView := ⟨.list, none⟩
    cmd.executeOn obj = .write ∧
      cmd.commitOn obj = ⟨.string (some (ofPtr (ascii "v"))), none⟩ ∧
      cmd.image.commitOn obj = ⟨.string (some (ofPtr [])), none⟩ := by
  decide

end SetCommand

end EloqKV.Strings
