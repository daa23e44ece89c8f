/-
  The size limit of objects.  Every command checks the size its mutation will lead to before it
  reports a write; `MAX_OBJECT_SIZE` is kept by exactly those calls whose check covers the
  mutation.
-/
import EloqKV.Objects.Commands

open Option

namespace EloqKV.Objects

section SizeLimit

variable {S F : Type} [LinearOrder S] [LongDouble F]

open Strings (SetCommand)

namespace Command

/-- After a write the mutation has a result, and an object it leaves is within the limit. -/
def StaysWithinLimit (env : Process S) (cmd : Command S F) (obj : RedisObject S) : Prop :=
  cmd.executeOn env obj = some .write →
    ∃ left, (cmd.executed env obj).commitOn env obj = some left ∧
      ∀ obj', left = some obj' → obj'.size ≤ maxObjectSize

/-- When the check of a SET covers its value: with GET a null string is replaced unchecked. -/
def SetFits (cmd : SetCommand) (obj : RedisObject S) : Prop :=
  cmd.get = true → cmd.xx = false → obj.toSetView.payload = .string none →
    cmd.value.stringView.length ≤ maxObjectSize

/-- When the check of a command covers what its mutation does. -/
def Fits (cmd : Command S F) (obj : RedisObject S) : Prop :=
  match cmd, obj.payload with
  | string cmd, .string value => cmd.Fits (value.getD [])
  | list cmd, .list l => cmd.Fits l
  | hash cmd, .hash h => cmd.Fits h
  | set cmd, _ => SetFits cmd obj
  | storeList elements, _ => 1 + 4 + itemsLength elements ≤ maxObjectSize
  | storeSet paras, _ => Sets.ForceAddFits paras
  | storeZset elements, _ => Zset.ForceClearFits elements
  | restore (some payload) _, _ => payload.size ≤ maxObjectSize
  | _, _ => True

/-! ## Commands that report nothing but a write -/

variable {obj : RedisObject S} {cmd : Command S F} {env : Process S}

lemma staysWithinLimit_iff_of_some
    {result : ExecResult} {obj' : RedisObject S} (hexec : cmd.executeOn env obj = some result)
    (hcommit : (cmd.executed env obj).commitOn env obj = some (some obj')) :
    cmd.StaysWithinLimit env obj ↔ (result = .write → obj'.size ≤ maxObjectSize) := by
  unfold StaysWithinLimit
  rw [hexec, hcommit]
  simp

lemma staysWithinLimit_of_le {result : ExecResult} {left : Option (RedisObject S)}
    (hexec : cmd.executeOn env obj = some result)
    (hcommit : (cmd.executed env obj).commitOn env obj = some left)
    (hle : result = .write → ∀ obj', left = some obj' → obj'.size ≤ maxObjectSize) :
    cmd.StaysWithinLimit env obj := by
  intro hwrite
  rw [hexec] at hwrite
  exact ⟨left, hcommit, hle (Option.some.inj hwrite)⟩

lemma staysWithinLimit_of_ne_write
    (hexec : cmd.executeOn env obj ≠ some .write) : cmd.StaysWithinLimit env obj :=
  fun hwrite => absurd hwrite hexec

lemma staysWithinLimit_of_fail
    (hexec : cmd.executeOn env obj = some .fail) : cmd.StaysWithinLimit env obj := by
  apply staysWithinLimit_of_ne_write
  rw [hexec]
  nofun

/-! ## SET -/

omit [LinearOrder S] in
lemma size_ofSetView_le (cmd : SetCommand) (obj : Strings.ObjectView) :
    (ofSetView (cmd.commitOn obj) : RedisObject S).size ≤ cmd.value.stringView.length := by
  unfold SetCommand.commitOn
  split
  · split_ifs <;> simp [ofSetView, RedisObject.size, Payload.size]
  · simp only [ofSetView, RedisObject.size, Payload.size, map_some, getD_some,
      SetCommand.stringView_commitSet, SetCommand.stringView_commitSet_rest]
    split <;> simp

omit [LinearOrder S] in
lemma size_ofSetView_of_isString (cmd : SetCommand) {obj : Strings.ObjectView}
    (hobj : obj.isString = true) :
    (ofSetView (cmd.commitOn obj) : RedisObject S).size = cmd.value.stringView.length := by
  unfold SetCommand.commitOn
  rw [if_pos hobj]
  split_ifs <;> simp [ofSetView, RedisObject.size, Payload.size]

lemma checked_of_executeOn_set {cmd : SetCommand} {obj : Strings.ObjectView}
    (hwrite : cmd.executeOn obj = .write) :
    SetCommand.checkSerializedLength cmd.value.stringView.length = true ∨
      (cmd.get = true ∧ cmd.xx = false ∧ obj.payload = .string none) := by
  simp only [SetCommand.executeOn] at hwrite
  split at hwrite
  · next hget =>
    split at hwrite
    · next hnull =>
      split at hwrite
      · contradiction
      · next hxx => exact Or.inr ⟨hget, Bool.eq_false_iff.2 hxx, hnull⟩
    · split_ifs at hwrite with hnx hfits
      exact Or.inl hfits
    · contradiction
  · split_ifs at hwrite with hfits
    exact Or.inl hfits

variable (env)

lemma set_staysWithinLimit_iff (cmd : SetCommand) (obj : RedisObject S) :
    (set cmd : Command S F).StaysWithinLimit env obj ↔ SetFits cmd obj := by
  refine (staysWithinLimit_iff_of_some rfl rfl).trans ?_
  constructor
  · intro hsize hget hxx hnull
    have hstring : obj.toSetView.isString = true := by simp [Strings.ObjectView.isString, hnull]
    have hwrite : cmd.executeOn obj.toSetView = .write := by
      simp [SetCommand.executeOn, hget, hxx, hnull]
    have hle := hsize hwrite
    rwa [size_ofSetView_of_isString cmd hstring] at hle
  · intro hfits hwrite
    refine Nat.le_trans (size_ofSetView_le cmd _) ?_
    rcases checked_of_executeOn_set hwrite with hchecked | ⟨hget, hxx, hnull⟩
    · have := of_decide_eq_true hchecked
      omega
    · exact hfits hget hxx hnull

/-! ## The STORE commands -/

lemma size_commitStoreList {elements : List Bytes} (hne : elements ≠ []) (hobj : obj.WellFormed) :
    ∃ obj', commitStoreList elements obj = some obj' ∧
      obj'.size = 1 + 4 + itemsLength elements ∧ obj'.isEmpty = false := by
  have hlist : ∀ l : Lists.RedisListObject, l.WellFormed → l.listObject = [] →
      (l.commitRPush elements).serializedLength = 1 + 4 + itemsLength elements ∧
        Lists.ListCommand.isEmptyList (l.commitRPush elements) = false := by
    intro l hl hnil
    rw [Lists.RedisListObject.commitRPush_eq]
    unfold Lists.RedisListObject.WellFormed at hl
    rw [hnil] at hl ⊢
    exact ⟨by rw [hl]; rfl, by simpa [Lists.ListCommand.isEmptyList] using hne⟩
  obtain ⟨payload, ttl⟩ := obj
  have hsome : elements.isEmpty = false := by simpa using hne
  unfold commitStoreList
  rw [if_neg (by simp [hsome])]
  cases payload with
  | list l =>
    by_cases hnil : l.listObject = []
    · simp only [hnil, List.isEmpty_nil, if_true]
      exact ⟨_, rfl, hlist l hobj hnil⟩
    · simp only [List.isEmpty_iff, hnil, if_false]
      exact ⟨_, rfl, hlist .empty rfl rfl⟩
  | _ => exact ⟨_, rfl, hlist .empty rfl rfl⟩

lemma storeList_staysWithinLimit_iff (elements : List Bytes) (hobj : obj.WellFormed) :
    (storeList elements : Command S F).StaysWithinLimit env obj ↔
      1 + 4 + itemsLength elements ≤ maxObjectSize := by
  by_cases hnil : elements = []
  · subst hnil
    exact iff_of_true (staysWithinLimit_of_ne_write (nofun : some ExecResult.delete ≠ some .write))
      (by decide : 1 + 4 + 0 ≤ maxObjectSize)
  · obtain ⟨obj', hcommit, hsize, -⟩ := size_commitStoreList hnil hobj
    have hstore : (storeList elements : Command S F).commitOn env obj = some (some obj') :=
      congrArg some hcommit
    refine (staysWithinLimit_iff_of_some rfl hstore).trans ?_
    rw [hsize]
    exact ⟨fun h => h (if_neg (by simpa using hnil)), fun h _ => h⟩

lemma storeSet_staysWithinLimit_iff (paras : List Bytes) (obj : RedisObject S) :
    (storeSet paras : Command S F).StaysWithinLimit env obj ↔ Sets.ForceAddFits paras := by
  rw [← Sets.size_commitForceAdd_iff]
  by_cases hnil : paras = []
  · have hdelete : Sets.executeForceAdd paras ≠ .write := fun hwrite =>
      (Sets.executeForceAdd_eq_write.1 hwrite).2 hnil
    exact iff_of_true (staysWithinLimit_of_ne_write fun h => hdelete (Option.some.inj h))
      fun h => absurd h hdelete
  · have hstore : ((storeSet paras : Command S F).executed env obj).commitOn env obj =
        some (some ⟨.set (Sets.RedisHashSetObject.empty.commitSAdd paras), none⟩) := by
      change some ((Sets.commitForceAdd paras).map _) = _
      rw [(Sets.commitForceAdd_eq hnil).1, map_some]
    exact staysWithinLimit_iff_of_some rfl hstore

lemma storeZset_staysWithinLimit_iff
    (elements : Option (List (Zset.Element S))) (obj : RedisObject S) :
    (storeZset elements : Command S F).StaysWithinLimit env obj ↔ Zset.ForceClearFits elements := by
  rw [← Zset.size_commitForceClear_iff]
  constructor
  · intro hstays hwrite z hz
    obtain ⟨left, hcommit, hsize⟩ := hstays (congrArg some hwrite)
    refine hsize ⟨.zset z, none⟩ ?_
    rw [← Option.some.inj hcommit, hz]
    rfl
  · intro hsize
    refine staysWithinLimit_of_le rfl rfl fun hwrite obj' hobj' => ?_
    obtain ⟨z, hz, rfl⟩ := map_eq_some_iff.1 hobj'
    exact hsize hwrite z hz

/-! ## The commands on one type -/

lemma string_staysWithinLimit_iff (cmd : Strings.StringCommand F)
    (hsize : obj.size ≤ maxObjectSize) :
    (string cmd : Command S F).StaysWithinLimit env obj ↔ (string cmd : Command S F).Fits obj := by
  obtain ⟨payload, ttl⟩ := obj
  cases payload with
  | string value =>
    exact (staysWithinLimit_iff_of_some rfl rfl).trans (cmd.size_commit_iff ttl.isSome hsize)
  | _ => exact iff_of_true (staysWithinLimit_of_fail rfl) trivial

lemma list_staysWithinLimit_iff (cmd : Lists.ListCommand) (hsize : obj.size ≤ maxObjectSize) :
    (list cmd : Command S F).StaysWithinLimit env obj ↔ (list cmd : Command S F).Fits obj := by
  obtain ⟨payload, ttl⟩ := obj
  cases payload with
  | list l =>
    have hlimit := cmd.size_commit_iff (l := l) hsize
    cases hremoves : cmd.removes
    · have hcommit : (cmd.executed l).commitOn l = some (cmd.commit l) := by
        rw [Lists.ListCommand.commitOn_executed, Lists.ListCommand.commitOn, hremoves]
        rfl
      have hstore : ((list cmd : Command S F).executed env ⟨.list l, ttl⟩).commitOn env
          ⟨.list l, ttl⟩ = some (some ⟨.list (cmd.commit l), ttl⟩) := by
        change some (((cmd.executed l).commitOn l).map _) = _
        rw [hcommit]
        rfl
      exact (staysWithinLimit_iff_of_some rfl hstore).trans hlimit
    · -- a removing command never grows the object
      have hfits : cmd.Fits l := by cases cmd <;> trivial
      refine iff_of_true (staysWithinLimit_of_le rfl rfl fun hwrite obj' hobj' => ?_) hfits
      obtain ⟨l', hl', rfl⟩ := map_eq_some_iff.1 hobj'
      rw [Lists.ListCommand.commitOn_executed] at hl'
      exact Lists.ListCommand.eq_commit_of_commitOn hl' ▸ hlimit.2 hfits hwrite
  | _ => exact iff_of_true (staysWithinLimit_of_fail rfl) trivial

lemma hash_staysWithinLimit_iff {cmd : Hashes.HashCommand F}
    (hcmd : cmd.Admitted) (hobj : obj.WellFormed) (hsize : obj.size ≤ maxObjectSize) :
    (hash cmd : Command S F).StaysWithinLimit env obj ↔ (hash cmd : Command S F).Fits obj := by
  obtain ⟨payload, ttl⟩ := obj
  cases payload with
  | hash h =>
    have hlimit := Hashes.HashCommand.size_commit_iff hobj hsize hcmd
    cases cmd with
    | hdel keys =>
      refine iff_of_true (staysWithinLimit_of_le rfl rfl fun hwrite obj' hobj' => ?_) trivial
      obtain ⟨h', hh', rfl⟩ := map_eq_some_iff.1 hobj'
      simp only [Hashes.HashCommand.commitOn] at hh'
      split at hh'
      · contradiction
      · exact Option.some.inj hh' ▸ hlimit.2 trivial hwrite
    | _ => exact (staysWithinLimit_iff_of_some rfl rfl).trans hlimit
  | _ => exact iff_of_true (staysWithinLimit_of_fail rfl) trivial

lemma hashSet_staysWithinLimit (cmd : Sets.HashSetCommand)
    (hsize : obj.size ≤ maxObjectSize) : (hashSet cmd : Command S F).StaysWithinLimit env obj := by
  obtain ⟨payload, ttl⟩ := obj
  cases payload with
  | set s =>
    refine staysWithinLimit_of_le rfl rfl fun hwrite obj' hobj' => ?_
    obtain ⟨s', hs', rfl⟩ := map_eq_some_iff.1 hobj'
    simp only [Sets.HashSetCommand.commitOn] at hs'
    split at hs'
    · contradiction
    · exact Option.some.inj hs' ▸ cmd.size_commit_le env.setHost hsize hwrite
  | _ => exact staysWithinLimit_of_fail rfl

lemma zset_staysWithinLimit (cmd : Zset.ZsetCommand S) (hobj : obj.WellFormed)
    (hsize : obj.size ≤ maxObjectSize) : (zset cmd : Command S F).StaysWithinLimit env obj := by
  obtain ⟨payload, ttl⟩ := obj
  cases payload with
  | zset z =>
    intro hwrite
    obtain ⟨⟨z', gone⟩, hcommit⟩ := cmd.exists_commit hobj hwrite
    refine ⟨(if gone then none else some z').map fun z => ⟨.zset z, ttl⟩, ?_, ?_⟩
    · change ((cmd.executed env.arith env.host z).commitOn env.arith env.host z).map _ = _
      rw [Zset.ZsetCommand.commitOn, hcommit]
      rfl
    · intro obj' hobj'
      obtain ⟨z'', hz'', rfl⟩ := map_eq_some_iff.1 hobj'
      split at hz''
      · contradiction
      · exact Option.some.inj hz'' ▸ cmd.size_commit_le env.arith env.host hsize hwrite hcommit
  | _ => exact staysWithinLimit_of_fail rfl

/-! ## All commands -/

variable {env}

omit [LinearOrder S] [LongDouble F] in
lemma size_createObject_le (cmd : Command S F) : cmd.createObject.size ≤ maxObjectSize := by
  have hfive : cmd.createObject.size ≤ 5 := by
    cases cmd <;> exact Nat.le_of_ble_eq_true rfl
  exact Nat.le_trans hfive (by decide)

/-- **The size limit.** A command that reports a write leaves an object within the limit exactly if
its check covers the mutation: always, but for an LMOVE push, an HSET that lists a field more than
once, a BITFIELD, a SET with GET on a new key, the STORE commands and RESTORE. -/
theorem write_stays_within_limit_iff (env : Process S) (cmd : Command S F)
    (prior : Option (RedisObject S)) (hprior : ∀ obj, prior = some obj → obj.WellFormed)
    (hmax : ∀ obj, prior = some obj → obj.size ≤ maxObjectSize) (hcmd : cmd.Admitted) :
    cmd.StaysWithinLimit env (cmd.target prior) ↔ cmd.Fits (cmd.target prior) := by
  have hobj := cmd.wellFormed_target hprior
  have hsize : (cmd.target prior).size ≤ maxObjectSize := by
    cases prior with
    | none => exact cmd.size_createObject_le
    | some obj => exact hmax obj rfl
  generalize cmd.target prior = obj at hobj hsize ⊢
  cases cmd with
  | string cmd => exact string_staysWithinLimit_iff env cmd hsize
  | set cmd => exact set_staysWithinLimit_iff env cmd obj
  | list cmd => exact list_staysWithinLimit_iff env cmd hsize
  | hash cmd => exact hash_staysWithinLimit_iff env hcmd hobj hsize
  | hashSet cmd => exact iff_of_true (hashSet_staysWithinLimit env cmd hsize) trivial
  | zset cmd => exact iff_of_true (zset_staysWithinLimit env cmd hobj hsize) trivial
  | storeList elements => exact storeList_staysWithinLimit_iff env elements hobj
  | storeSet paras => exact storeSet_staysWithinLimit_iff env paras obj
  | storeZset elements => exact storeZset_staysWithinLimit_iff env elements obj
  | del => exact iff_of_true (staysWithinLimit_of_le rfl rfl nofun) trivial
  | getdel =>
    refine iff_of_true ?_ trivial
    obtain ⟨payload, ttl⟩ := obj
    cases payload with
    | string value =>
      exact staysWithinLimit_of_ne_write (nofun : some ExecResult.delete ≠ some .write)
    | _ => exact staysWithinLimit_of_fail rfl
  | retime ttl =>
    have hretimed : (⟨obj.payload, ttl⟩ : RedisObject S).size ≤ maxObjectSize := hsize
    exact iff_of_true ((staysWithinLimit_iff_of_some rfl rfl).2 fun _ => hretimed) trivial
  | restore payload ttl =>
    cases payload with
    | none => exact iff_of_true (staysWithinLimit_of_fail rfl) trivial
    | some payload =>
      have hrestored : (⟨payload, ttl⟩ : RedisObject S).size ≤ maxObjectSize ↔
          (restore (some payload) ttl : Command S F).Fits obj := Iff.rfl
      rw [← hrestored]
      exact (staysWithinLimit_iff_of_some rfl rfl).trans ⟨fun h => h rfl, fun h _ => h⟩

end Command

end SizeLimit

/-! ## Two objects at the limit -/

/-- RPUSH of `b` to the list `[a]`. -/
theorem rpush_stays_within_limit :
    let cmd : Command Nat Int := .list (.rpush [ascii "b"])
    let prior : RedisObject Nat := ⟨.list ⟨[ascii "a"], 10⟩, none⟩
    cmd.executeOn plainProcess prior = some .write ∧
      cmd.StaysWithinLimit plainProcess (cmd.target (some prior)) := by
  refine ⟨by decide +kernel, (Command.write_stays_within_limit_iff plainProcess _ _ ?_ ?_ ?_).2
    trivial⟩
  · rintro obj hobj
    cases hobj
    rfl
  · rintro obj hobj
    cases hobj
    exact (by decide : 10 ≤ maxObjectSize)
  · exact List.cons_ne_nil _ _

/-- A list with one element of `n` bytes. -/
def oneElement (n : Nat) : Lists.RedisListObject := ⟨[List.replicate n 97], 9 + n⟩

lemma wellFormed_oneElement (n : Nat) : (oneElement n).WellFormed := by
  simp only [Lists.RedisListObject.WellFormed, oneElement, itemsLength_cons, itemsLength_nil,
    itemLength, List.length_replicate]
  omega

/-- LMOVE pushes `e` onto a list that is one byte short of the limit, and BITFIELD SET u8 at bit
`2 ^ 31` of a new key needs one byte more than the limit: both report a write and leave an
object that is too long. -/
theorem lmove_and_bitfield_exceed_limit :
    let push : Command Nat Int := .list (.lmovePush true (ascii "e"))
    let list : RedisObject Nat := ⟨.list (oneElement (maxObjectSize - 10)), none⟩
    let setBits : Command Nat Int := .string (.bitfield [⟨.set, false, 8, .wrap, 2 ^ 31, 1⟩])
    (list.WellFormed ∧ list.size = maxObjectSize - 1 ∧ push.Admitted ∧
      ¬push.StaysWithinLimit plainProcess (push.target (some list))) ∧
      setBits.Admitted ∧ ¬setBits.StaysWithinLimit plainProcess (setBits.target none) := by
  intro push list setBits
  have hsize : list.size = maxObjectSize - 1 :=
    (by decide : 9 + (maxObjectSize - 10) = maxObjectSize - 1)
  refine ⟨⟨wellFormed_oneElement _, hsize, trivial, fun hstays => ?_⟩, trivial, fun hstays => ?_⟩
  · -- the check sees one byte, the object grows by five
    have hfits := (Command.list_staysWithinLimit_iff plainProcess _
      (hsize ▸ Nat.sub_le _ _)).1 hstays
    have hno : ¬(9 + (maxObjectSize - 10) + itemLength (ascii "e") ≤ maxObjectSize ∨
        maxObjectSize < 9 + (maxObjectSize - 10) + (ascii "e").length) := by decide
    exact hno hfits
  · have hfits := (Command.string_staysWithinLimit_iff plainProcess _ (Nat.zero_le _)).1 hstays
    have hlong := hfits (by rfl)
    exact absurd hlong (by decide)

end EloqKV.Objects
