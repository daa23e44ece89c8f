/-
  Commands that say they overwrite (`IsOverwrite()` of SET, DEL, the STORE of SORT and RESTORE
  in `include/redis_command.h`).

  The log drops what stood under a key before such a command, so a replica may replay the command
  over anything.  Two branches of SET and one of SORT look at the prior object all the same.
-/
import EloqKV.Rdb.Restore

namespace EloqKV.Objects

open Lib.Reader (Outcome)
open EloqKV.Lists (RedisListObject)
open Strings (SetCommand uint64Max)
open Rdb (RestoreCommand)

inductive OverwriteCommand where
  | set (cmd : SetCommand)
  | del (lazyDelete : Bool)
  | storeList (elements : List Bytes)
  | restore (cmd : RestoreCommand)
  deriving DecidableEq, Repr

namespace OverwriteCommand

def isOverwrite : OverwriteCommand → Bool
  | set _ => true
  | del _ => true
  | storeList _ => true
  | restore cmd => cmd.replace

section Model

variable {S : Type}

/-- `CreateObject(nullptr)` of the commands that have one; DEL commits on nothing. -/
def createObject : OverwriteCommand → RedisObject S
  | storeList _ => ⟨.list .empty, none⟩
  | _ => ⟨.string none, none⟩

/-- What a command commits on: the object under the key, or a new one. -/
def target (cmd : OverwriteCommand) (prior : Option (RedisObject S)) : RedisObject S :=
  prior.getD cmd.createObject

/-- `CommitOn`: the object left, or none if the key is to go. -/
def commit [LinearOrder S] [ScoreBits S] (cmd : OverwriteCommand)
    (prior : Option (RedisObject S)) : Outcome (Option (RedisObject S)) :=
  match cmd with
  | set c => .ok (some (ofSetView (c.commitOn (cmd.target prior).toSetView)))
  | del _ => .ok none
  | storeList elements => .ok (Command.commitStoreList elements (cmd.target prior))
  | restore c => c.commitOn

/-! ## What a replica can tell -/

/-- The same type, contents and deadline, or no object on both sides. -/
def SameObject : Option (RedisObject S) → Option (RedisObject S) → Prop
  | some obj, some obj' =>
    obj.type = obj'.type ∧ obj.payload.SameContents obj'.payload ∧ obj.ttl = obj'.ttl
  | none, none => True
  | _, _ => False

/-- Two commits end alike, and with the same object. -/
def Agree : Outcome (Option (RedisObject S)) → Outcome (Option (RedisObject S)) → Prop
  | .ok obj, .ok obj' => SameObject obj obj'
  | .fail, .fail => True
  | .fault, .fault => True
  | _, _ => False

lemma sameContents_refl : ∀ payload : Payload S, payload.SameContents payload
  | .string _ => rfl
  | .list _ => rfl
  | .hash _ => fun _ => rfl
  | .set _ => fun _ => Iff.rfl
  | .zset _ => rfl

lemma agree_refl : ∀ out : Outcome (Option (RedisObject S)), Agree out out
  | .ok (some obj) => ⟨rfl, sameContents_refl obj.payload, rfl⟩
  | .ok none => trivial
  | .fail => trivial
  | .fault => trivial

/-! ## What the commits take from the prior object -/

def findsString (prior : Option (RedisObject S)) : Bool :=
  prior.all fun obj => match obj.payload with
    | .string _ => true
    | _ => false

def stringTTL (prior : Option (RedisObject S)) : Option Nat :=
  prior.bind fun obj => match obj.payload with
    | .string _ => obj.ttl
    | _ => none

def emptyListTTL (prior : Option (RedisObject S)) : Option Nat :=
  prior.bind fun obj => match obj.payload with
    | .list l => if l.listObject.isEmpty then obj.ttl else none
    | _ => none

/-- What a command takes from the prior object is the same in both. -/
def Indifferent (cmd : OverwriteCommand) (prior prior' : Option (RedisObject S)) : Prop :=
  match cmd with
  | set c =>
    (c.value.type = .view ∨ c.value.stringView = [] ∨ findsString prior = findsString prior') ∧
      (c.objExpireTs = uint64Max → c.keepttl = true → stringTTL prior = stringTTL prior')
  | storeList elements => elements ≠ [] → emptyListTTL prior = emptyListTTL prior'
  | del _ | restore _ => True

/-! ### SET -/

variable (cmd : SetCommand) (prior : Option (RedisObject S))

/-- The bytes SET leaves: an owned value is gone when it is written for the second time. -/
def setBytes : Bytes :=
  if findsString prior = true ∨ cmd.value.type = .view then cmd.value.stringView else []

def setTTL : Option Nat :=
  if cmd.objExpireTs ≠ uint64Max then some cmd.objExpireTs
  else if cmd.keepttl then stringTTL prior
  else none

lemma isString_target : ((set cmd).target prior).toSetView.isString = findsString prior := by
  rcases prior with _ | ⟨payload, ttl⟩
  · rfl
  · cases payload <;> rfl

variable (prior prior' : Option (RedisObject S))

lemma setBytes_eq_iff :
    setBytes cmd prior = setBytes cmd prior' ↔ cmd.value.type = .view ∨ cmd.value.stringView = [] ∨
        findsString prior = findsString prior' := by
  unfold setBytes
  by_cases hview : cmd.value.type = .view
  · simp [hview]
  · cases findsString prior <;> cases findsString prior' <;> simp [hview, eq_comm]

lemma setTTL_eq_iff : setTTL cmd prior = setTTL cmd prior' ↔
      (cmd.objExpireTs = uint64Max → cmd.keepttl = true → stringTTL prior = stringTTL prior') := by
  unfold setTTL
  by_cases hts : cmd.objExpireTs = uint64Max
  · by_cases hkeep : cmd.keepttl = true
    · simp [hts, hkeep]
    · simp [hts, hkeep]
  · simp [hts]

variable [LinearOrder S] [ScoreBits S]

lemma commit_set :
    (set cmd).commit prior
      = .ok (some ⟨.string (some (setBytes cmd prior)), setTTL cmd prior⟩) := by
  have hview := isString_target cmd prior
  by_cases hstring : findsString prior = true
  · have httl : ((set cmd).target prior).toSetView.ttl = stringTTL prior := by
      rcases prior with _ | ⟨payload, ttl⟩
      · rfl
      · cases payload <;> first | rfl | exact absurd hstring nofun
    have hbytes : setBytes cmd prior = cmd.value.stringView := if_pos (.inl hstring)
    rw [commit, SetCommand.commitOn, if_pos (hview.trans hstring), httl, hbytes, setTTL]
    by_cases hts : cmd.objExpireTs = uint64Max
    · by_cases hkeep : cmd.keepttl = true
      · simp [hts, hkeep, ofSetView]
      · cases stringTTL prior <;> simp [hts, hkeep, ofSetView]
    · simp [hts, ofSetView]
  · have httl : stringTTL prior = none := by
      rcases prior with _ | ⟨payload, ttl⟩
      · rfl
      · cases payload <;> first | rfl | exact absurd rfl hstring
    have hbytes : setBytes cmd prior
        = if cmd.value.type = .view then cmd.value.stringView else [] := by
      rw [setBytes]
      simp [hstring]
    rw [commit, SetCommand.commitOn, if_neg (by rw [hview]; exact hstring), hbytes, setTTL, httl]
    simp [ofSetView, SetCommand.stringView_commitSet, SetCommand.stringView_commitSet_rest]

lemma agree_set_iff (prior prior' : Option (RedisObject S)) :
    Agree ((set cmd).commit prior) ((set cmd).commit prior') ↔
      setBytes cmd prior = setBytes cmd prior' ∧ setTTL cmd prior = setTTL cmd prior' := by
  rw [commit_set, commit_set]
  constructor
  · rintro ⟨-, hbytes, httl⟩
    exact ⟨hbytes, httl⟩
  · rintro ⟨hbytes, httl⟩
    rw [hbytes, httl]
    exact agree_refl (.ok (some _))

/-! ### The STORE of SORT -/

lemma commit_storeList {elements : List Bytes} (helements : elements ≠ [])
    (prior : Option (RedisObject S)) :
    ∃ l : RedisListObject, l.listObject = elements ∧
      (storeList elements).commit prior = .ok (some ⟨.list l, emptyListTTL prior⟩) := by
  have hne : ¬elements.isEmpty = true := by rwa [List.isEmpty_iff]
  have hfresh : ∃ l : RedisListObject, l.listObject = elements ∧
      (.ok (some ⟨.list (RedisListObject.empty.commitRPush elements), none⟩) :
        Outcome (Option (RedisObject S))) = .ok (some ⟨.list l, none⟩) :=
    ⟨_, by rw [RedisListObject.commitRPush_eq]; exact List.nil_append elements, rfl⟩
  rcases prior with _ | ⟨payload, ttl⟩
  · rw [commit, Command.commitStoreList, if_neg hne]
    exact hfresh
  · rw [commit, target, Option.getD_some, Command.commitStoreList, if_neg hne]
    cases payload with
    | list l =>
      by_cases hempty : l.listObject.isEmpty = true
      · refine ⟨l.commitRPush elements, ?_, ?_⟩
        · rw [RedisListObject.commitRPush_eq, List.isEmpty_iff.mp hempty, List.nil_append]
        · simp only [hempty, if_true, emptyListTTL, Option.bind_some, RedisObject.withPayload]
      · simp only [hempty, if_false, emptyListTTL, Option.bind_some, Bool.false_eq_true]
        exact hfresh
    | _ => exact hfresh

lemma agree_storeList_iff (elements : List Bytes) (prior prior' : Option (RedisObject S)) :
    Agree ((storeList elements).commit prior) ((storeList elements).commit prior') ↔
      (elements ≠ [] → emptyListTTL prior = emptyListTTL prior') := by
  by_cases helements : elements = []
  · subst helements
    exact ⟨fun _ h => absurd rfl h, fun _ => trivial⟩
  · obtain ⟨l, hl, hcommit⟩ := commit_storeList helements prior
    obtain ⟨l', hl', hcommit'⟩ := commit_storeList helements prior'
    rw [hcommit, hcommit']
    constructor
    · rintro ⟨-, -, httl⟩ -
      exact httl
    · intro httl
      have httl := httl helements
      refine ⟨?_, hl.trans hl'.symm, httl⟩
      rw [RedisObject.type, RedisObject.type, httl]

/-! ## Overwriting -/

/-- **When a command that says it overwrites does**: DEL and RESTORE always; SET if the value is
still a view, or empty, or both prior objects are strings or absent or neither is, and if a deadline
to be kept is the same in both; the STORE of SORT if it stores nothing or an empty list among the
prior objects has no deadline the other one has not. -/
theorem overwrite_agrees_iff (cmd : OverwriteCommand) (_hover : cmd.isOverwrite = true)
    (prior prior' : Option (RedisObject S)) :
    Agree (cmd.commit prior) (cmd.commit prior') ↔ cmd.Indifferent prior prior' := by
  cases cmd with
  | set cmd =>
    rw [agree_set_iff, setBytes_eq_iff, setTTL_eq_iff]
    rfl
  | del lazyDelete => exact ⟨fun _ => trivial, fun _ => trivial⟩
  | storeList elements =>
    rw [agree_storeList_iff]
    rfl
  | restore cmd => exact ⟨fun _ => trivial, fun _ => agree_refl _⟩

end Model

/-- `SET k v` from a request, over nothing and over a hash. -/
theorem set_view_overwrites :
    Agree (S := Double)
      ((set ⟨EloqString.ofView (ascii "v"), false, false, false, false, uint64Max⟩).commit none)
      ((set ⟨EloqString.ofView (ascii "v"), false, false, false, false, uint64Max⟩).commit
        (some ⟨.hash .empty, some 5⟩)) :=
  (overwrite_agrees_iff _ rfl _ _).mpr ⟨.inl rfl, nofun⟩

/-- A replayed `SET k v` leaves the value over nothing and an empty string over a hash;
`SET k v KEEPTTL` leaves no deadline over nothing and the old one over a string; and the STORE of
SORT keeps the deadline of an empty list. -/
theorem overwrite_depends_on_prior :
    let owned := EloqString.ofPtr (ascii "v")
    ¬Agree (S := Double) ((set ⟨owned, false, false, false, false, uint64Max⟩).commit none)
        ((set ⟨owned, false, false, false, false, uint64Max⟩).commit (some ⟨.hash .empty, none⟩)) ∧
      ¬Agree (S := Double) ((set ⟨owned, false, false, false, true, uint64Max⟩).commit none)
        ((set ⟨owned, false, false, false, true, uint64Max⟩).commit
          (some ⟨.string (some (ascii "w")), some 5⟩)) ∧
      ¬Agree (S := Double) ((storeList [ascii "a"]).commit none)
        ((storeList [ascii "a"]).commit (some ⟨.list .empty, some 5⟩)) := by
  refine ⟨fun h => ?_, fun h => ?_, fun h => ?_⟩
  · exact absurd ((agree_set_iff _ _ _).mp h).1 (by decide)
  · exact absurd ((agree_set_iff _ _ _).mp h).2 (by decide)
  · exact absurd ((agree_storeList_iff _ _ _).mp h (by decide)) (by decide)

end OverwriteCommand

end EloqKV.Objects
