/-
  Empty collections.  A collection that loses its last element is deleted with its key.  Whether
  that happens is decided twice: `ExecuteOn` counts what will be removed and announces a write or a
  deletion, `CommitOn` removes and looks at what is left.
-/
import EloqKV.Objects.SizeLimit

namespace EloqKV.Objects

open RedisObject ExecResult

section Emptiness

variable {S F : Type} [LinearOrder S] [LongDouble F]

namespace Command

/-- The commands on lists, hashes, sets and sorted sets. -/
def OnCollection : Command S F → Prop
  | list _ | hash _ | hashSet _ | zset _ | storeList _ | storeSet _ | storeZset _ => True
  | _ => False

variable (env : Process S)

/-- The decision has a result.  If it is to write or to delete, the mutation has one too: a deletion
leaves no object, a write leaves one that has elements. -/
def DecidesRightly (cmd : Command S F) (obj : RedisObject S) : Prop :=
  ExecResult.Announced RedisObject.isEmpty (cmd.executeOn env obj)
    ((cmd.executed env obj).commitOn env obj)

/-- When the two halves walk the same elements. -/
def SameWalk (cmd : Command S F) (obj : RedisObject S) : Prop :=
  match cmd, obj.payload with
  | list cmd, .list l => cmd.SameWalk l
  | zset cmd, .zset z => cmd.SameWalk z
  | storeZset elements, _ => elements ≠ some []
  | _, _ => True

/-- No argument twice: the parsers of SREM, HDEL and ZREM drop repetitions. -/
def Distinct : Command S F → Prop
  | hash cmd => cmd.Distinct
  | hashSet cmd => cmd.Distinct
  | zset cmd => cmd.Distinct
  | _ => True

variable {obj : RedisObject S}

lemma decidesRightly_of_fail {env : Process S} {cmd : Command S F}
    (hexec : cmd.executeOn env obj = some .fail) : cmd.DecidesRightly env obj :=
  ⟨.fail, hexec, fun hrun => by rcases hrun with h | h <;> contradiction⟩

lemma list_decidesRightly_iff {cmd : Lists.ListCommand}
    (hcmd : cmd.Admitted) (hobj : obj.WellFormed) :
    (list cmd : Command S F).DecidesRightly env obj ↔ (list cmd : Command S F).SameWalk obj := by
  obtain ⟨payload, ttl⟩ := obj
  cases payload with
  | list l =>
    refine (announced_map (fun l => mk (S := S) (.list l) ttl) (fun _ => rfl) _
      (some ((cmd.executed l).commitOn l))).trans ?_
    exact (announced_some _ _ _).trans (Lists.ListCommand.announces_iff hobj hcmd)
  | _ => exact iff_of_true (decidesRightly_of_fail rfl) trivial

lemma hash_decidesRightly {cmd : Hashes.HashCommand F} (hcmd : cmd.Admitted)
    (hdistinct : cmd.Distinct) (obj : RedisObject S) :
    (hash cmd : Command S F).DecidesRightly env obj := by
  obtain ⟨payload, ttl⟩ := obj
  cases payload with
  | hash h =>
    refine (announced_map (fun h => mk (S := S) (.hash h) ttl) (fun _ => rfl) _
      (some (cmd.commitOn h))).2 ((announced_some _ _ _).2 ?_)
    exact Hashes.HashCommand.announces h hcmd hdistinct
  | _ => exact decidesRightly_of_fail rfl

lemma hashSet_decidesRightly {cmd : Sets.HashSetCommand} (hdistinct : cmd.Distinct)
    (obj : RedisObject S) : (hashSet cmd : Command S F).DecidesRightly env obj := by
  obtain ⟨payload, ttl⟩ := obj
  cases payload with
  | set s =>
    refine (announced_map (fun s => mk (S := S) (.set s) ttl) (fun _ => rfl) _
      (some ((cmd.executed env.setHost s).commitOn s))).2 ((announced_some _ _ _).2 ?_)
    exact Sets.HashSetCommand.announces env.setHost s hdistinct
  | _ => exact decidesRightly_of_fail rfl

lemma zset_decidesRightly_iff {cmd : Zset.ZsetCommand S} (hdistinct : cmd.Distinct)
    (hobj : obj.WellFormed) :
    (zset cmd : Command S F).DecidesRightly env obj ↔ (zset cmd : Command S F).SameWalk obj := by
  obtain ⟨payload, ttl⟩ := obj
  cases payload with
  | zset z =>
    refine (announced_map (fun z => mk (S := S) (.zset z) ttl) (fun _ => rfl) _
      ((cmd.executed env.arith env.host z).commitOn env.arith env.host z)).trans ?_
    exact Zset.ZsetCommand.announced_iff hobj env.arith env.host hdistinct
  | _ => exact iff_of_true (decidesRightly_of_fail rfl) trivial

/-! ## The STORE commands -/

lemma storeList_decidesRightly (elements : List Bytes)
    (hobj : obj.WellFormed) : (storeList elements : Command S F).DecidesRightly env obj := by
  refine (announced_some _ _ _).2 ?_
  by_cases hnil : elements = []
  · subst hnil
    exact ⟨fun _ => rfl, fun hwrite => by simp at hwrite⟩
  · obtain ⟨obj', hcommit, -, hne⟩ := size_commitStoreList hnil hobj
    refine ⟨fun hdelete => ?_, fun _ => ⟨obj', hcommit, hne⟩⟩
    simp [hnil] at hdelete

lemma storeSet_decidesRightly (paras : List Bytes) (obj : RedisObject S) :
    (storeSet paras : Command S F).DecidesRightly env obj := by
  refine (announced_map (fun s => mk (S := S) (.set s) none) (fun _ => rfl) _
    (some (Sets.commitForceAdd paras))).2 ((announced_some _ _ _).2 ?_)
  exact Sets.announces_forceAdd paras

lemma storeZset_decidesRightly_iff
    (elements : Option (List (Zset.Element S))) (obj : RedisObject S) :
    (storeZset elements : Command S F).DecidesRightly env obj ↔ elements ≠ some [] := by
  refine (announced_map (fun z => mk (S := S) (.zset z) none) (fun _ => rfl) _
    (some (Zset.commitForceClear elements))).trans ?_
  exact (announced_some _ _ _).trans (Zset.announces_forceClear_iff elements)

/-! ## All commands -/

/-- **Empty collections.** `ExecuteOn` announces what `CommitOn` does exactly if the two walk the
same elements: always, but for LREM with a count beyond an `int`, ZREMRANGEBYSCORE over one score
with both ends excluded, and a STORE of a sorted set that is sent a vector without elements. -/
theorem decides_rightly_iff (cmd : Command S F)
    (prior : Option (RedisObject S)) (hprior : ∀ obj, prior = some obj → obj.WellFormed)
    (hcmd : cmd.Admitted) (hdistinct : cmd.Distinct) (hcoll : cmd.OnCollection) :
    cmd.DecidesRightly env (cmd.target prior) ↔ cmd.SameWalk (cmd.target prior) := by
  have hobj := cmd.wellFormed_target hprior
  generalize cmd.target prior = obj at hobj ⊢
  cases cmd with
  | list cmd => exact list_decidesRightly_iff env hcmd hobj
  | hash cmd => exact iff_of_true (hash_decidesRightly env hcmd hdistinct obj) trivial
  | hashSet cmd => exact iff_of_true (hashSet_decidesRightly env hdistinct obj) trivial
  | zset cmd => exact zset_decidesRightly_iff env hdistinct hobj
  | storeList elements => exact iff_of_true (storeList_decidesRightly env elements hobj) trivial
  | storeSet paras => exact iff_of_true (storeSet_decidesRightly env paras obj) trivial
  | storeZset elements => exact storeZset_decidesRightly_iff env elements obj
  | _ => exact absurd hcoll id

end Command

end Emptiness

/-- SREM of `a` leaves `b`, SREM of both deletes the key. -/
theorem srem_decides_rightly :
    let set : RedisObject Nat := ⟨.set ⟨[ascii "a", ascii "b"], by decide, 15⟩, none⟩
    (.hashSet (.srem [ascii "a"]) : Command Nat Int).DecidesRightly plainProcess set ∧
      (.hashSet (.srem [ascii "a", ascii "b"]) : Command Nat Int).DecidesRightly plainProcess
        set := by
  intro set
  have hprior : ∀ obj, some set = some obj → obj.WellFormed := by
    rintro _ ⟨⟩
    rfl
  constructor
  · exact (Command.decides_rightly_iff plainProcess (.hashSet (.srem [ascii "a"])) (some set)
      hprior trivial (show List.Nodup _ by decide) trivial).2 trivial
  · exact (Command.decides_rightly_iff plainProcess (.hashSet (.srem [ascii "a", ascii "b"]))
      (some set) hprior trivial (show List.Nodup _ by decide) trivial).2 trivial

/-- LREM of `2 ^ 32` elements counts the only one and announces a deletion, while `CommitOn` narrows
the count to zero and removes none.  A STORE of no elements announces one too, and leaves an empty
sorted set.  A range of one score without its ends walks past the last member. -/
theorem deletions_announced_wrongly :
    let lrem : Command Nat Int := .list (.lrem (2 ^ 32) (ascii "a"))
    let list : RedisObject Nat := ⟨.list ⟨[ascii "a"], 10⟩, none⟩
    let store : Command Nat Int := .storeZset (some [])
    let zremrange : Command Nat Int := .zset (.zremrange (.score true true 5 5))
    let zset : RedisObject Nat :=
      ⟨.zset (Zset.RedisZsetObject.empty.updateElement (5, .ofView (ascii "m"))), none⟩
    (list.WellFormed ∧ lrem.executeOn plainProcess list = some .delete ∧
      ((lrem.executed plainProcess list).commitOn plainProcess list).map
        (Option.map isEmpty) = some (some false)) ∧
      (store.executeOn plainProcess (store.target none) = some .delete ∧
        (store.commitOn plainProcess (store.target none)).map (Option.map isEmpty) =
          some (some true)) ∧
      zset.WellFormed ∧ zremrange.executeOn plainProcess zset = none := by
  refine ⟨⟨rfl, by decide +kernel⟩, by decide +kernel, ?_, by decide +kernel⟩
  exact (Zset.RedisZsetObject.wellFormed_empty.updateElement _).1

end EloqKV.Objects
