/-
  The two containers of a sorted set agree.

  `Coherent` is about the nodes and the map; `WellFormed` adds that the serialized length is the one
  of the members.
-/
import EloqKV.Zset.Commits

open List

namespace EloqKV.Zset

open Lib.OrderedSet ZNode

section Order

variable {S : Type} [LinearOrder S]

/-! ## The comparison -/

lemma cmp_iff (a b : ZNode S) :
    cmp a b = true ↔ a.score < b.score ∨ (a.score = b.score ∧ a.field < b.field) := by
  unfold cmp
  by_cases h : a.score = b.score
  · simp [h]
  · simp [h]

lemma cmp_trans (a b c : ZNode S) (hab : cmp a b = true) (hbc : cmp b c = true) :
    cmp a c = true := by
  rw [cmp_iff] at hab hbc ⊢
  rcases hab with hab | ⟨hab, hab'⟩ <;> rcases hbc with hbc | ⟨hbc, hbc'⟩
  · exact Or.inl (lt_trans hab hbc)
  · exact Or.inl (hbc ▸ hab)
  · exact Or.inl (hab ▸ hbc)
  · exact Or.inr ⟨hab.trans hbc, List.lt_trans hab' hbc'⟩

lemma cmp_or_cmp {a b : ZNode S} (hne : a.field ≠ b.field) : cmp a b = true ∨ cmp b a = true := by
  rw [cmp_iff, cmp_iff]
  rcases lt_trichotomy a.score b.score with h | h | h
  · exact Or.inl (Or.inl h)
  · by_cases hlt : a.field < b.field
    · exact Or.inl (Or.inr ⟨h, hlt⟩)
    · refine Or.inr (Or.inr ⟨h.symm, ?_⟩)
      by_contra hgt
      exact hne (List.le_antisymm hgt hlt)
  · exact Or.inr (Or.inl h)

end Order

lemma find?_of_nodup_map {α β : Type} [DecidableEq β] (f : α → β) {l : List α}
    (hl : (l.map f).Nodup) {a : α} (ha : a ∈ l) : l.find? (fun b => f b == f a) = some a := by
  induction l with
  | nil => exact absurd ha (by simp)
  | cons b bs ih =>
    obtain ⟨hb, hbs⟩ := nodup_cons.mp hl
    rcases mem_cons.mp ha with rfl | ha
    · simp
    · have hne : f b ≠ f a := fun heq => hb (heq ▸ mem_map_of_mem ha)
      rw [List.find?_cons_of_neg (by simpa using hne), ih hbs ha]

def ZNode.entry {S : Type} (n : ZNode S) : MapEntry S := ⟨n.addr, n.score⟩

namespace RedisZsetObject

section Invariant

variable {S : Type} [LinearOrder S]

/-! ## The invariant -/

def members (z : RedisZsetObject S) : List Bytes := z.zOrderedSet.map ZNode.field

/-- The bytes `Serialize` writes for given members. -/
def lengthOf (members : List Bytes) : Nat := 1 + 4 + (members.map elementLength).sum

/-- The containers describe the same sorted set. -/
structure Coherent (z : RedisZsetObject S) : Prop where
  sorted : Lib.OrderedSet.Sorted cmp z.zOrderedSet
  distinct : z.members.Nodup
  addrs : (z.zOrderedSet.map ZNode.addr).Nodup
  allocated : ∀ n ∈ z.zOrderedSet, n.addr < z.nextAddr
  entries : z.zHashMap.Perm (z.zOrderedSet.map ZNode.entry)

/-- The containers agree and the length is theirs. -/
structure WellFormed (z : RedisZsetObject S) : Prop extends Coherent z where
  sized : z.serializedLength = lengthOf z.members

lemma lengthOf_congr {ms ms' : List Bytes} (h : ms.Perm ms') : lengthOf ms = lengthOf ms' := by
  unfold lengthOf
  rw [(h.map elementLength).sum_nat]

@[simp] lemma lengthOf_cons (m : Bytes) (ms : List Bytes) :
    lengthOf (m :: ms) = lengthOf ms + elementLength m := by
  simp only [lengthOf, map_cons, sum_cons]
  omega

lemma wellFormed_empty : WellFormed (empty : RedisZsetObject S) where
  sorted := List.Pairwise.nil
  distinct := nodup_nil
  addrs := nodup_nil
  allocated := by simp [empty]
  entries := List.Perm.refl _
  sized := rfl

/-! ## Look-ups -/

variable {z : RedisZsetObject S}

omit [LinearOrder S] in
lemma denotes_of_mem (haddrs : (z.zOrderedSet.map addr).Nodup)
    {n : ZNode S} (hn : n ∈ z.zOrderedSet) : z.denotes n.addr = some n.field := by
  unfold denotes
  rw [find?_of_nodup_map addr haddrs hn]
  rfl

lemma Coherent.eq_of_field (hz : z.Coherent) {a b : ZNode S}
    (ha : a ∈ z.zOrderedSet) (hb : b ∈ z.zOrderedSet) (h : a.field = b.field) : a = b :=
  inj_on_of_nodup_map hz.distinct ha hb h

lemma Coherent.find_eq_some (hz : z.Coherent) {sv : Bytes} {m : MapEntry S} :
    z.find sv = some m ↔ ∃ n ∈ z.zOrderedSet, n.field = sv ∧ n.entry = m := by
  have hsound : ∀ m', z.find sv = some m' → ∃ n ∈ z.zOrderedSet, n.field = sv ∧ n.entry = m' := by
    intro m' hm'
    obtain ⟨n, hn, hentry⟩ := mem_map.mp (hz.entries.mem_iff.mp (mem_of_find?_eq_some hm'))
    have hkey : z.denotes m'.addr = some sv := by simpa using List.find?_some hm'
    have hdenotes : z.denotes m'.addr = some n.field := by
      rw [← hentry]
      exact denotes_of_mem hz.addrs hn
    exact ⟨n, hn, Option.some.inj (hdenotes.symm.trans hkey), hentry⟩
  refine ⟨hsound m, ?_⟩
  rintro ⟨n, hn, rfl, rfl⟩
  have hmem : n.entry ∈ z.zHashMap := hz.entries.mem_iff.mpr (mem_map_of_mem hn)
  have hhit : (z.denotes n.entry.addr == some n.field) = true := by
    rw [show z.denotes n.entry.addr = some n.field from denotes_of_mem hz.addrs hn]
    simp
  have hfound : (z.find n.field).isSome = true := List.find?_isSome.mpr ⟨n.entry, hmem, hhit⟩
  obtain ⟨m', hm'⟩ := Option.isSome_iff_exists.mp hfound
  obtain ⟨n', hn', hfield, hentry⟩ := hsound m' hm'
  rw [hm', ← hentry, hz.eq_of_field hn' hn hfield]

lemma Coherent.find_isSome (hz : z.Coherent) (sv : Bytes) :
    (z.find sv).isSome = true ↔ sv ∈ z.members := by
  rw [Option.isSome_iff_exists]
  simp only [hz.find_eq_some, members, mem_map]
  constructor
  · rintro ⟨_, n, hn, hfield, _⟩
    exact ⟨n, hn, hfield⟩
  · rintro ⟨n, hn, hfield⟩
    exact ⟨n.entry, n, hn, hfield, rfl⟩

lemma Coherent.find_eq_none (hz : z.Coherent) (sv : Bytes) :
    z.find sv = none ↔ sv ∉ z.members := by
  rw [← hz.find_isSome, Option.not_isSome_iff_eq_none]

/-! ## A node enters, a node leaves -/

/-- The address is new, so map and order still agree on all the old nodes. -/
lemma Coherent.insertNode (hz : z.Coherent) {field : Bytes}
    (hfresh : field ∉ z.members) (num : S) :
    (z.insertNode field num).Coherent ∧
      (z.insertNode field num).zOrderedSet.Perm (⟨z.nextAddr, field, num⟩ :: z.zOrderedSet) := by
  let node : ZNode S := ⟨z.nextAddr, field, num⟩
  have hne : ∀ n ∈ z.zOrderedSet, n.field ≠ field := fun n hn heq =>
    hfresh (heq ▸ mem_map_of_mem hn)
  obtain ⟨hperm, hat⟩ := insert_fresh cmp
    fun n hn => cmp_or_cmp (a := node) (b := n) (hne n hn).symm
  let z' : RedisZsetObject S := { z with
      zOrderedSet := (insert cmp node z.zOrderedSet).1
      nextAddr := z.nextAddr + 1 }
  have haddrs : (z'.zOrderedSet.map addr).Nodup := by
    refine (hperm.map addr).nodup_iff.mpr (nodup_cons.mpr ⟨fun hmem => ?_, hz.addrs⟩)
    obtain ⟨n, hn, haddr⟩ := mem_map.mp hmem
    have hlt := hz.allocated n hn
    rw [haddr] at hlt
    exact Nat.lt_irrefl _ hlt
  -- The old entries still denote the old members, so `emplace` finds no equal key.
  have hnone : z'.find field = none := by
    refine List.find?_eq_none.mpr fun m hm hhit => ?_
    obtain ⟨n, hn, rfl⟩ := mem_map.mp (hz.entries.mem_iff.mp hm)
    have hn' : n ∈ z'.zOrderedSet := hperm.mem_iff.mpr (mem_cons_of_mem _ hn)
    have hdenotes : z'.denotes n.entry.addr = some n.field := denotes_of_mem haddrs hn'
    rw [hdenotes] at hhit
    exact hne n hn (by simpa using hhit)
  have heq : z.insertNode field num =
      { z' with zHashMap := z.zHashMap ++ [⟨z.nextAddr, num⟩] } := by
    have haddr : (insert cmp node z.zOrderedSet).2.addr = z.nextAddr := by
      rw [hat]
    have hemplace : z.insertNode field num =
        z'.emplace (insert cmp node z.zOrderedSet).2.addr field num := rfl
    rw [hemplace, emplace, hnone, haddr]
  rw [heq]
  refine ⟨⟨sorted_insert cmp cmp_trans node hz.sorted, ?_, haddrs, ?_, ?_⟩, hperm⟩
  · exact (hperm.map ZNode.field).nodup_iff.mpr (nodup_cons.mpr ⟨hfresh, hz.distinct⟩)
  · intro n hn
    rcases mem_cons.mp (hperm.mem_iff.mp hn) with rfl | hn
    · exact Nat.lt_succ_self _
    · exact Nat.lt_succ_of_lt (hz.allocated n hn)
  · have hentries := (hz.entries.append_right [node.entry]).trans perm_append_comm
    exact hentries.trans (hperm.map entry).symm

@[simp] lemma serializedLength_insertNode (z : RedisZsetObject S) (field : Bytes) (num : S) :
    (z.insertNode field num).serializedLength = z.serializedLength := by
  unfold insertNode emplace
  split
  split <;> rfl

variable {nodes : List (ZNode S)}

lemma Coherent.remove (hz : z.Coherent) {n : ZNode S} (hsub : nodes.Sublist z.zOrderedSet)
    (hperm : z.zOrderedSet.Perm (n :: nodes)) (length : Nat) :
    ({ z with
        zOrderedSet := nodes
        zHashMap := z.zHashMap.erase n.entry
        serializedLength := length } : RedisZsetObject S).Coherent where
  sorted := hz.sorted.sublist hsub
  distinct := hz.distinct.sublist (hsub.map field)
  addrs := hz.addrs.sublist (hsub.map addr)
  allocated n hn := hz.allocated n (hsub.mem hn)
  entries := by
    have hentries := (hz.entries.trans (hperm.map entry)).erase n.entry
    rwa [map_cons, erase_cons_head] at hentries

lemma Coherent.eraseEntry (hz : z.Coherent) {sv : Bytes}
    {m : MapEntry S} (hm : z.find sv = some m) :
    (z.eraseEntry sv m).Coherent ∧ z.members.Perm (sv :: (z.eraseEntry sv m).members) := by
  obtain ⟨n, hn, rfl, rfl⟩ := hz.find_eq_some.mp hm
  obtain ⟨n', before, after, _, hhit, hsplit, herase⟩ := exists_of_eraseP hn
    (p := fun n' => n'.score == n.entry.score && n'.field == n.field) (by simp [entry])
  have hn' : n' ∈ z.zOrderedSet := by
    rw [hsplit]
    simp
  have hfield : n'.field = n.field := by
    simpa using (Bool.and_eq_true_iff.mp hhit).2
  obtain rfl := hz.eq_of_field hn' hn hfield
  have hperm : z.zOrderedSet.Perm (n' :: z.zOrderedSet.eraseP
      fun n => n.score == n'.entry.score && n.field == n'.field) := by
    rw [herase, hsplit]
    exact perm_middle
  exact ⟨hz.remove (eraseP_sublist) hperm z.serializedLength, hperm.map field⟩

/-! ## Adding members -/

lemma Coherent.with_length (hz : z.Coherent) (length : Nat) :
    ({ z with serializedLength := length } : RedisZsetObject S).Coherent :=
  ⟨hz.sorted, hz.distinct, hz.addrs, hz.allocated, hz.entries⟩

/-- A known member is taken out of the order and put back under its new score. -/
lemma WellFormed.updateElement (hz : z.WellFormed) (e : Element S) :
    (z.updateElement e).WellFormed ∧
      ∀ sv, sv ∈ (z.updateElement e).members ↔ sv ∈ z.members ∨ sv = e.2.stringView := by
  cases hfind : z.find e.2.stringView with
  | none =>
    have hfresh := (hz.find_eq_none _).mp hfind
    obtain ⟨hcoh, hperm⟩ := hz.toCoherent.insertNode hfresh e.1
    have hmembers := hperm.map ZNode.field
    have heq : z.updateElement e = { z.insertNode e.2.stringView e.1 with
          serializedLength := z.serializedLength + elementLength e.2.stringView } := by
      simp [RedisZsetObject.updateElement, hfind, elementLength]
    rw [heq]
    refine ⟨⟨hcoh.with_length _, ?_⟩, fun sv => ?_⟩
    · have hlen := lengthOf_congr hmembers
      rw [map_cons, lengthOf_cons] at hlen
      exact (congrArg (· + elementLength e.2.stringView) hz.sized).trans hlen.symm
    · have hmem := hmembers.mem_iff (a := sv)
      rw [map_cons, mem_cons, or_comm] at hmem
      exact hmem
  | some m =>
    obtain ⟨herased, hout⟩ := hz.toCoherent.eraseEntry hfind
    have hnodup := hout.nodup_iff.mp hz.distinct
    obtain ⟨hcoh, hperm⟩ := herased.insertNode (nodup_cons.mp hnodup).1 e.1
    have hmembers : ((z.eraseEntry e.2.stringView m).insertNode e.2.stringView e.1).members.Perm
        z.members := (hperm.map ZNode.field).trans hout.symm
    have heq : z.updateElement e =
        (z.eraseEntry e.2.stringView m).insertNode e.2.stringView e.1 := by
      simp [RedisZsetObject.updateElement, hfind]
    rw [heq]
    refine ⟨⟨hcoh, ?_⟩, fun sv => ?_⟩
    · rw [serializedLength_insertNode, lengthOf_congr hmembers]
      exact hz.sized
    · have hold : e.2.stringView ∈ z.members := (hz.find_isSome _).mp (by rw [hfind]; rfl)
      rw [hmembers.mem_iff]
      exact ⟨Or.inl, fun h => h.elim id fun h => h ▸ hold⟩

lemma WellFormed.foldl_update {f : RedisZsetObject S → Element S → RedisZsetObject S}
    (hf : ∀ z e, z.WellFormed → (f z e).WellFormed ∧
      ∀ sv, sv ∈ (f z e).members ↔ sv ∈ z.members ∨ sv = e.2.stringView)
    (es : List (Element S)) (hz : z.WellFormed) :
    (es.foldl f z).WellFormed ∧ ∀ sv, sv ∈ (es.foldl f z).members ↔
      sv ∈ z.members ∨ ∃ e ∈ es, sv = e.2.stringView := by
  induction es generalizing z with
  | nil => exact ⟨hz, by simp⟩
  | cons e es ih =>
    obtain ⟨hwf, hmem⟩ := hf z e hz
    obtain ⟨hwf', hmem'⟩ := ih hwf
    refine ⟨hwf', fun sv => ?_⟩
    rw [foldl_cons, hmem', hmem]
    simp only [mem_cons, exists_eq_or_imp, or_assoc]

lemma WellFormed.incrElement (hz : z.WellFormed) (add : S → S → S) (e : Element S) :
    (z.incrElement add e).WellFormed ∧
      ∀ sv, sv ∈ (z.incrElement add e).members ↔ sv ∈ z.members ∨ sv = e.2.stringView := by
  unfold RedisZsetObject.incrElement
  split
  · exact hz.updateElement e
  · exact hz.updateElement _

/-- **`CommitZAdd` keeps the containers together**, for all flags, variants and filters. -/
theorem WellFormed.commitZAddElements (hz : z.WellFormed)
    (add : S → S → S) (host : Host) (flags : ZAddFlags) (elements : Elements S) :
    (z.commitZAddElements add host flags elements).WellFormed := by
  cases elements with
  | monostate => exact hz
  | pair e =>
    simp only [RedisZsetObject.commitZAddElements]
    split
    · exact (hz.incrElement add e).1
    · exact (hz.updateElement e).1
  | vector es =>
    simp only [RedisZsetObject.commitZAddElements]
    split
    · exact (foldl_update (fun z e hz => hz.incrElement add e) es hz).1
    · exact (foldl_update (fun z e hz => hz.updateElement e) _ hz).1

/-! ## Removing members -/

lemma WellFormed.remElement (hz : z.WellFormed) (element : Bytes) :
    (z.remElement element).WellFormed ∧
      ∀ sv, sv ∈ (z.remElement element).members ↔ sv ∈ z.members ∧ sv ≠ element := by
  cases hfind : z.find element with
  | none =>
    have hout := (hz.find_eq_none _).mp hfind
    simp only [RedisZsetObject.remElement, hfind]
    exact ⟨hz, fun sv => ⟨fun h => ⟨h, fun heq => hout (heq ▸ h)⟩, And.left⟩⟩
  | some m =>
    obtain ⟨hcoh, hout⟩ := hz.toCoherent.eraseEntry hfind
    have hfresh := (nodup_cons.mp (hout.nodup_iff.mp hz.distinct)).1
    have hlen := lengthOf_congr hout
    rw [lengthOf_cons, ← hz.sized] at hlen
    simp only [RedisZsetObject.remElement, hfind]
    refine ⟨⟨hcoh.with_length _, ?_⟩, fun sv => ?_⟩
    · exact Nat.sub_eq_of_eq_add hlen
    · rw [hout.mem_iff, mem_cons]
      constructor
      · exact fun h => ⟨Or.inr h, fun heq => hfresh (heq ▸ h)⟩
      · exact fun ⟨h, hne⟩ => h.resolve_left hne

lemma WellFormed.commitZRem (hz : z.WellFormed) (elements : List Bytes) :
    (z.commitZRem elements).WellFormed ∧
      ∀ sv, sv ∈ (z.commitZRem elements).members ↔ sv ∈ z.members ∧ sv ∉ elements := by
  unfold RedisZsetObject.commitZRem
  induction elements generalizing z with
  | nil => exact ⟨hz, by simp⟩
  | cons element elements ih =>
    obtain ⟨hwf, hmem⟩ := hz.remElement element
    obtain ⟨hwf', hmem'⟩ := ih hwf
    refine ⟨hwf', fun sv => ?_⟩
    rw [foldl_cons, hmem', hmem, mem_cons, not_or, and_assoc]

lemma WellFormed.eraseNode (hz : z.WellFormed) {n : ZNode S}
    (hn : n ∈ z.zOrderedSet) : (z.eraseNode n).WellFormed := by
  have hfind : z.find n.field = some n.entry := hz.find_eq_some.mpr ⟨n, hn, rfl, rfl⟩
  have hperm := perm_cons_erase hn
  have hlen := lengthOf_congr (hperm.map field)
  rw [map_cons, lengthOf_cons] at hlen
  simp only [RedisZsetObject.eraseNode, eraseKey, hfind]
  refine ⟨hz.toCoherent.remove erase_sublist hperm _, ?_⟩
  exact Nat.sub_eq_of_eq_add (hz.sized.trans hlen)

lemma Coherent.nodup (hz : z.Coherent) : z.zOrderedSet.Nodup :=
  List.Nodup.of_map _ hz.addrs

lemma WellFormed.eraseNodes (hz : z.WellFormed)
    (hnodup : nodes.Nodup) (hsub : ∀ n ∈ nodes, n ∈ z.zOrderedSet) :
    (z.eraseNodes nodes).WellFormed ∧
      (z.eraseNodes nodes).zOrderedSet = z.zOrderedSet.filter (fun n => n ∉ nodes) := by
  have hdiff : (z.eraseNodes nodes).zOrderedSet = z.zOrderedSet.diff nodes := by
    clear hnodup hsub hz
    induction nodes generalizing z with
    | nil => rfl
    | cons n nodes ih => rw [diff_cons]; exact ih (z := z.eraseNode n)
  refine ⟨?_, hdiff.trans hz.nodup.sdiff_eq_filter⟩
  clear hdiff
  induction nodes generalizing z with
  | nil => exact hz
  | cons n nodes ih =>
    obtain ⟨hn, hnodes⟩ := nodup_cons.mp hnodup
    refine ih (hz.eraseNode (hsub n mem_cons_self)) hnodes fun n' hn' => ?_
    have hne : n' ≠ n := fun heq => hn (heq ▸ hn')
    exact (mem_erase_of_ne hne).mpr (hsub n' (mem_cons_of_mem n hn'))

lemma length_filter_add_of_sublist {α : Type} [DecidableEq α] {l selected : List α}
    (hl : l.Nodup) (hsel : selected.Sublist l) :
    (l.filter fun a => a ∉ selected).length + selected.length = l.length := by
  have hin : (l.filter fun a => a ∈ selected).Perm selected :=
    (perm_ext_iff_of_nodup (hl.filter _) (hl.sublist hsel)).mpr fun a => by
      simpa using fun ha => hsel.mem ha
  have hsplit := length_eq_length_filter_add (l := l) fun a => decide (a ∈ selected)
  rw [hin.length_eq] at hsplit
  simp only [decide_not]
  omega

/-- Erasing the keys first and the nodes afterwards, as `CommitZPop` does, comes to the same
as erasing node by node: a key that is still in the map points into a node that still is in
the set. -/
lemma foldl_eraseKey (haddrs : (z.zOrderedSet.map addr).Nodup)
    {live : List (ZNode S)} (hlive : live.Sublist z.zOrderedSet)
    (hz : ({ z with zOrderedSet := live } : RedisZsetObject S).WellFormed)
    (hnodup : nodes.Nodup) (hsub : ∀ n ∈ nodes, n ∈ live) :
    ({ nodes.foldl eraseKey z with
        zOrderedSet := (({ z with zOrderedSet := live } : RedisZsetObject S).eraseNodes
          nodes).zOrderedSet } : RedisZsetObject S) =
      ({ z with zOrderedSet := live } : RedisZsetObject S).eraseNodes nodes := by
  induction nodes generalizing z live with
  | nil => rfl
  | cons n nodes ih =>
    obtain ⟨hn, hnodes⟩ := nodup_cons.mp hnodup
    have hfind : z.find n.field = ({ z with zOrderedSet := live } : RedisZsetObject S).find
        n.field := by
      refine List.find?_congr fun m hm => ?_
      obtain ⟨n', hn', rfl⟩ := mem_map.mp (hz.entries.mem_iff.mp hm)
      exact congrArg (· == some n.field)
        ((denotes_of_mem haddrs (hlive.mem hn')).trans (denotes_of_mem hz.addrs hn').symm)
    have hstep : ({ z.eraseKey n with zOrderedSet := live.erase n } : RedisZsetObject S) =
        ({ z with zOrderedSet := live } : RedisZsetObject S).eraseNode n := by
      simp only [eraseNode, eraseKey, ← hfind]
      split <;> rfl
    have hkey : (z.eraseKey n).zOrderedSet = z.zOrderedSet := by
      unfold eraseKey
      split <;> rfl
    have hrest : ∀ n' ∈ nodes, n' ∈ live.erase n := fun n' hn' =>
      (mem_erase_of_ne fun heq : n' = n => hn (heq ▸ hn')).mpr (hsub n' (mem_cons_of_mem n hn'))
    have hwf : ({ z.eraseKey n with zOrderedSet := live.erase n } :
        RedisZsetObject S).WellFormed := by
      rw [hstep]
      exact hz.eraseNode (hsub n mem_cons_self)
    have htail := ih (by rw [hkey]; exact haddrs)
      (by rw [hkey]; exact erase_sublist.trans hlive) hwf hnodes hrest
    rw [hstep] at htail
    exact htail

lemma filter_take_drop {α : Type} [DecidableEq α] {l : List α} (h : l.Nodup) (k : Nat) :
    l.filter (fun x => x ∉ l.take k) = l.drop k ∧ l.filter (fun x => x ∉ l.drop k) = l.take k := by
  have hdisj := disjoint_take_drop h (Nat.le_refl k)
  have hsplit : ∀ p : α → Bool, l.filter p = (l.take k).filter p ++ (l.drop k).filter p := by
    intro p
    rw [← filter_append, take_append_drop]
  constructor
  · rw [hsplit, filter_eq_nil_iff.mpr (by simp), nil_append]
    exact filter_eq_self.mpr fun x hx => by simpa using fun ha => hdisj ha hx
  · have hnone : (l.drop k).filter (fun x => x ∉ l.drop k) = [] := filter_eq_nil_iff.mpr (by simp)
    rw [hsplit, hnone, append_nil]
    exact filter_eq_self.mpr fun x hx => by simpa using fun hb => hdisj hx hb

/-- Nodes go from one end of the order, and the map forgets the same members. -/
lemma WellFormed.commitZPop (hz : z.WellFormed) (popMax : Bool) (count : Nat) :
    (z.commitZPop popMax count).1.WellFormed ∧
      (z.commitZPop popMax count).1.zOrderedSet.length = z.zOrderedSet.length - count ∧
      (z.commitZPop popMax count).2 = (z.commitZPop popMax count).1.zOrderedSet.isEmpty := by
  by_cases hcount : z.zOrderedSet.length ≤ count
  · simp only [RedisZsetObject.commitZPop, hcount, if_true]
    refine ⟨⟨⟨List.Pairwise.nil, nodup_nil, nodup_nil, by simp, List.Perm.refl _⟩, rfl⟩, ?_, rfl⟩
    simp only [length_nil]
    omega
  · have hpopped : ∀ popped kept : List (ZNode S), popped.Nodup →
        (∀ n ∈ popped, n ∈ z.zOrderedSet) → z.zOrderedSet.filter (fun n => n ∉ popped) = kept →
        ({ popped.foldl eraseKey z with zOrderedSet := kept } : RedisZsetObject S).WellFormed := by
      intro popped kept hnodup hsub hkept
      obtain ⟨hwf, hnodes⟩ := hz.eraseNodes hnodup hsub
      have heq := foldl_eraseKey hz.addrs (List.Sublist.refl _) hz hnodup hsub
      rw [← hkept, ← hnodes, heq]
      exact hwf
    cases popMax with
    | false =>
      simp only [RedisZsetObject.commitZPop, hcount, if_false, Bool.false_eq_true,
        length_drop, and_true]
      exact hpopped _ _ (hz.nodup.sublist (take_sublist _ _))
        (fun n hn => (take_sublist _ _).mem hn) (filter_take_drop hz.nodup count).1
    | true =>
      simp only [RedisZsetObject.commitZPop, hcount, if_false, if_true, length_take, and_true]
      refine ⟨?_, by omega⟩
      rw [take_reverse]
      refine hpopped _ _ (nodup_reverse.mpr (hz.nodup.sublist (drop_sublist _ _)))
        (fun n hn => (drop_sublist _ _).mem (mem_reverse.mp hn)) ?_
      simpa only [mem_reverse] using (filter_take_drop hz.nodup _).2

/-! ## Copies -/

omit [LinearOrder S] in
lemma members_eq_pairs (z : RedisZsetObject S) : z.members = z.pairs.map Prod.fst := by
  simp only [members, pairs, map_map]
  rfl

lemma Coherent.insertAll (hz : z.Coherent) {ps : List (Bytes × S)}
    (hnodup : (ps.map Prod.fst).Nodup) (hfresh : ∀ p ∈ ps, p.1 ∉ z.members) :
    (z.insertAll ps).Coherent ∧ (z.insertAll ps).pairs.Perm (ps ++ z.pairs) := by
  induction ps generalizing z with
  | nil => exact ⟨hz, List.Perm.refl _⟩
  | cons p ps ih =>
    obtain ⟨hp, hps⟩ := nodup_cons.mp hnodup
    obtain ⟨hcoh, hperm⟩ := hz.insertNode (hfresh p mem_cons_self) p.2
    have hpairs : (z.insertNode p.1 p.2).pairs.Perm (p :: z.pairs) :=
      hperm.map fun n : ZNode S => (n.field, n.score)
    have hnext : ∀ q ∈ ps, q.1 ∉ (z.insertNode p.1 p.2).members := fun q hq hmem => by
      rw [members_eq_pairs, (hpairs.map Prod.fst).mem_iff, map_cons, mem_cons] at hmem
      rcases hmem with heq | hmem
      · exact hp (heq ▸ mem_map_of_mem hq)
      · rw [← members_eq_pairs] at hmem
        exact hfresh q (mem_cons_of_mem p hq) hmem
    obtain ⟨hcoh', hperm'⟩ := ih hcoh hps hnext
    refine ⟨hcoh', hperm'.trans ?_⟩
    exact (hpairs.append_left ps).trans perm_middle

lemma wellFormed_deserialize {ps : List (Bytes × S)} (hnodup : (ps.map Prod.fst).Nodup) :
    (deserialize ps).WellFormed ∧ (deserialize ps).pairs.Perm ps := by
  obtain ⟨hcoh, hperm⟩ := wellFormed_empty.toCoherent.insertAll (S := S) hnodup
    (by simp [empty, members])
  have hpairs : (deserialize ps).pairs.Perm ps := by
    rw [show (empty : RedisZsetObject S).pairs = [] from rfl, append_nil] at hperm
    exact hperm
  refine ⟨⟨hcoh.with_length _, ?_⟩, hpairs⟩
  rw [members_eq_pairs, lengthOf_congr (hpairs.map Prod.fst), lengthOf, map_map]
  rfl

lemma WellFormed.copy (hz : z.WellFormed) : z.copy.WellFormed ∧ z.copy.pairs.Perm z.pairs := by
  obtain ⟨hwf, hperm⟩ := wellFormed_deserialize (S := S) (members_eq_pairs z ▸ hz.distinct)
  refine ⟨⟨hwf.toCoherent.with_length _, ?_⟩, hperm⟩
  have hmembers : z.copy.members.Perm z.members := by
    rw [members_eq_pairs, members_eq_pairs]
    exact hperm.map Prod.fst
  exact hz.sized.trans (lengthOf_congr hmembers.symm)

end Invariant

end RedisZsetObject

end EloqKV.Zset
