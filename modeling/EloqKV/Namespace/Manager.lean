/-
  The namespace manager (`src/namespace/manager.cpp`): the metadata table with a cache in front.

  The manager hands out `std::shared_ptr`s and the dispatcher compares pointers, so the objects have
  identities here: a `MetaRef` is an index into the list of all objects ever made.
-/
import EloqKV.Namespace.Metadata

open EloqKV.Lib Function

namespace EloqKV

open NamespaceStorage List

structure NamespaceMetadata where
  nsName : Bytes
  encodedId : Bytes
  token : NamespaceToken
  epoch : Nat
  deriving DecidableEq

/-- A `std::shared_ptr<NamespaceMetadata>` that is not null. -/
abbrev MetaRef := Nat

/-- `CacheState`; the token map is keyed by the token's bytes, as `operator<` compares them. -/
structure CacheState where
  nsMetadata : Bytes → Option MetaRef
  tokenMetadata : Bytes → Option MetaRef

/-- `NamespaceManager` with the table behind its storage and all objects made so far. -/
structure NamespaceManager where
  table : NamespaceStorage.MetaTable
  cache : CacheState
  heap : List NamespaceMetadata

namespace NamespaceManager

def start (table : NamespaceStorage.MetaTable) : NamespaceManager where
  table := table
  cache := ⟨fun _ => none, fun _ => none⟩
  heap := []

def deref (m : NamespaceManager) (ref : MetaRef) : Option NamespaceMetadata :=
  m.heap[ref]?

section
variable (requirepass : Bytes) (outcomes : List Bool) (m : NamespaceManager)

/-- The callback of `GetMetadataByToken`: someone may have published for the token meanwhile. -/
def publish (token : NamespaceToken)
    (r : NamespaceStorage.ByTokenResult) : MetaRef × NamespaceManager :=
  match m.cache.tokenMetadata token.bytes with
  | some ref => (ref, m)
  | none =>
    let ref := m.heap.length
    (ref, { m with
        heap := m.heap ++ [⟨r.nsName, r.nsId, token, r.epoch⟩]
        cache := ⟨update m.cache.nsMetadata r.nsName (some ref),
            update m.cache.tokenMetadata token.bytes (some ref)⟩ })

def getMetadataByToken (token : NamespaceToken) : Option MetaRef × NamespaceManager :=
  match m.cache.tokenMetadata token.bytes with
  | some ref => (some ref, m)
  | none =>
    let r := NamespaceStorage.byToken requirepass outcomes token m.table
    if r.nsName = [] then (none, m)
    else
      let (ref, m') := m.publish token r
      (some ref, m')

variable (ns : Bytes)

/-- `NamespaceManager::RemoveMetadata`: the object of the name goes, with *its* token's entry. -/
def removeMetadata : NamespaceManager :=
  match (m.cache.nsMetadata ns).bind m.deref with
  | none => m
  | some md =>
    { m with
      cache := ⟨update m.cache.nsMetadata ns none,
          update m.cache.tokenMetadata md.token.bytes none⟩ }

def add (token : NamespaceToken) : Bool × NamespaceManager :=
  let (ok, t) := NamespaceStorage.add requirepass outcomes ns token m.table
  (ok, { m with table := t })

def set (token : NamespaceToken) : Bool × NamespaceManager :=
  let (ok, t) := NamespaceStorage.set requirepass outcomes ns token m.table
  let m := { m with table := t }
  (ok, if ok then m.removeMetadata ns else m)

def del : Bool × NamespaceManager :=
  let (ok, t) := NamespaceStorage.del outcomes ns m.table
  let m := { m with table := t }
  (ok, if ok then m.removeMetadata ns else m)

/-- `NamespaceManager::Get`: the text of the namespace's token, empty when there is none. -/
def get : Bytes :=
  (Tx.runTx NamespaceToken.empty (NamespaceStorage.getToken ns) m.table outcomes).1.toText

/-- The namespace branch of `ExecuteFlushDBCommand`: the new epoch, in the table and in the object.
-/
def flush (ref : MetaRef) : NamespaceManager :=
  match m.deref ref with
  | none => m
  | some md =>
    let (ok, t) :=
      Tx.runTx false (NamespaceStorage.flushScript md.encodedId md.epoch) m.table outcomes
    if ok then
      { m with
        table := t
        heap := m.heap.modify ref fun o => { o with epoch := (md.epoch + 1) % u64 } }
    else { m with table := t }

end

/-! ## The two maps of the cache -/

/-- Every cached token leads to an object of that token, and its name to the same object. -/
def Coherent (m : NamespaceManager) : Prop :=
  ∀ ⦃raw ref⦄, m.cache.tokenMetadata raw = some ref → ∃ md, m.deref ref = some md ∧
    md.token.bytes = raw ∧ m.cache.nsMetadata md.nsName = some ref

lemma removeMetadata_table (m : NamespaceManager) (ns : Bytes) :
    (m.removeMetadata ns).table = m.table := by
  unfold removeMetadata
  split <;> rfl

lemma removeMetadata_deref (m : NamespaceManager) (ns : Bytes) (ref : MetaRef) :
    (m.removeMetadata ns).deref ref = m.deref ref := by
  unfold removeMetadata
  split <;> rfl

variable {m : NamespaceManager}

lemma Coherent.of_mem_removeMetadata (h : m.Coherent) {ns raw : Bytes}
    {ref : MetaRef} (href : (m.removeMetadata ns).cache.tokenMetadata raw = some ref) :
    ∃ md, m.cache.tokenMetadata raw = some ref ∧ m.deref ref = some md ∧ md.token.bytes = raw ∧
      md.nsName ≠ ns ∧ (m.removeMetadata ns).cache.nsMetadata md.nsName = some ref := by
  unfold removeMetadata at href ⊢
  split at href
  · rename_i hnone
    obtain ⟨md, hmd, htok, hentry⟩ := h href
    refine ⟨md, href, hmd, htok, ?_, hentry⟩
    rintro rfl
    rw [hentry] at hnone
    exact nomatch hmd.symm.trans hnone
  · rename_i gone hgone
    change update m.cache.tokenMetadata gone.token.bytes none raw = some ref at href
    have hraw : raw ≠ gone.token.bytes := by
      rintro rfl
      rw [update_self] at href
      exact nomatch href
    rw [update_of_ne hraw] at href
    obtain ⟨md, hmd, htok, hentry⟩ := h href
    have hne : md.nsName ≠ ns := by
      rintro rfl
      rw [hentry] at hgone
      cases hmd.symm.trans hgone
      exact hraw htok.symm
    refine ⟨md, href, hmd, htok, hne, ?_⟩
    show update m.cache.nsMetadata ns none md.nsName = some ref
    rw [update_of_ne hne]
    exact hentry

lemma publish_table (m : NamespaceManager) (token : NamespaceToken)
    (r : NamespaceStorage.ByTokenResult) : (m.publish token r).2.table = m.table := by
  unfold publish
  split <;> rfl

lemma publish_self (m : NamespaceManager) (token : NamespaceToken)
    (r : NamespaceStorage.ByTokenResult) :
    (m.publish token r).2.cache.tokenMetadata token.bytes = some (m.publish token r).1 := by
  unfold publish
  split
  · assumption
  · exact update_self ..

lemma of_mem_publish {token : NamespaceToken} {r : NamespaceStorage.ByTokenResult}
    (hmiss : m.cache.tokenMetadata token.bytes = none) {raw : Bytes} {ref : MetaRef}
    (href : (m.publish token r).2.cache.tokenMetadata raw = some ref) :
    (raw = token.bytes ∧ (m.publish token r).2.deref ref = some ⟨r.nsName, r.nsId, token, r.epoch⟩ ∧
      (m.publish token r).2.cache.nsMetadata r.nsName = some ref) ∨
    (raw ≠ token.bytes ∧ m.cache.tokenMetadata raw = some ref ∧
      ∀ md, m.deref ref = some md → md.nsName ≠ r.nsName →
        (m.publish token r).2.deref ref = some md ∧
        (m.publish token r).2.cache.nsMetadata md.nsName = m.cache.nsMetadata md.nsName) := by
  unfold publish at href ⊢
  simp only [hmiss] at href ⊢
  by_cases hraw : raw = token.bytes
  · rw [hraw, update_self] at href
    cases href
    refine .inl ⟨hraw, ?_, update_self ..⟩
    show (m.heap ++ [_])[m.heap.length]? = _
    rw [getElem?_concat_length]
  · rw [update_of_ne hraw] at href
    refine .inr ⟨hraw, href, fun md hmd hne => ⟨?_, update_of_ne hne ..⟩⟩
    have hlt : ref < m.heap.length := (List.getElem?_eq_some_iff.mp hmd).1
    show (m.heap ++ [_])[ref]? = _
    rw [getElem?_append_left hlt]
    exact hmd

/-! ## What the manager keeps

Names of metadata objects never change, and none is the default namespace's. -/

/-- The records and the metadata objects never carry the name of the default namespace. -/
structure Named (m : NamespaceManager) : Prop where
  table : NamespaceStorage.NamesNotDefault m.table
  heap : ∀ md ∈ m.heap, md.nsName ≠ kDefaultNamespace

/-- Every object of `m` is still there in `m'`, under the same name. -/
def Extends (m m' : NamespaceManager) : Prop :=
  ∀ (ref : MetaRef) (name : Bytes),
    (m.deref ref).map (·.nsName) = some name → (m'.deref ref).map (·.nsName) = some name

lemma Extends.refl (m : NamespaceManager) : m.Extends m :=
  fun _ _ h => h

lemma Extends.trans {m m' m'' : NamespaceManager} (h : m.Extends m') (h' : m'.Extends m'') :
    m.Extends m'' :=
  fun ref name hn => h' ref name (h ref name hn)

lemma Extends.of_heap_eq {m m' : NamespaceManager} (h : m'.heap = m.heap) : m.Extends m' := by
  intro ref name hn
  unfold deref at hn ⊢
  rw [h]
  exact hn

/-- What every operation of the manager does to it: names stay legal, objects stay. -/
def Evolves (m m' : NamespaceManager) : Prop :=
  m.Named → m'.Named ∧ m.Extends m'

lemma Evolves.refl (m : NamespaceManager) : m.Evolves m :=
  fun h => ⟨h, .refl m⟩

lemma Evolves.trans {m m' m'' : NamespaceManager} (h : m.Evolves m') (h' : m'.Evolves m'') :
    m.Evolves m'' := by
  intro hm
  obtain ⟨hm', he⟩ := h hm
  obtain ⟨hm'', he'⟩ := h' hm'
  exact ⟨hm'', he.trans he'⟩

lemma evolves_table {t : NamespaceStorage.MetaTable}
    (ht : NamespaceStorage.NamesNotDefault m.table → NamespaceStorage.NamesNotDefault t) :
    m.Evolves { m with table := t } :=
  fun hm => ⟨⟨ht hm.table, hm.heap⟩, .of_heap_eq rfl⟩

lemma removeMetadata_evolves (m : NamespaceManager) (ns : Bytes) :
    m.Evolves (m.removeMetadata ns) := by
  intro hm
  unfold removeMetadata
  split
  · exact Evolves.refl m hm
  · exact ⟨⟨hm.table, hm.heap⟩, .of_heap_eq rfl⟩

lemma publish_evolves (m : NamespaceManager) (token : NamespaceToken)
    {r : NamespaceStorage.ByTokenResult} (hr : r.nsName ≠ kDefaultNamespace) :
    m.Evolves (m.publish token r).2 := by
  intro hm
  unfold publish
  split
  · exact Evolves.refl m hm
  · refine ⟨⟨hm.table, ?_⟩, ?_⟩
    · intro md hmd
      rcases mem_append.mp hmd with hold | hnew
      · exact hm.heap md hold
      · rw [mem_singleton.mp hnew]
        exact hr
    · intro ref name hn
      unfold deref at hn ⊢
      have hlt : ref < m.heap.length := by
        by_contra hge
        rw [getElem?_eq_none (Nat.le_of_not_lt hge)] at hn
        simp at hn
      rw [getElem?_append_left hlt]
      exact hn

section
variable (requirepass : Bytes) (outcomes : List Bool) (m : NamespaceManager)

lemma getMetadataByToken_evolves (token : NamespaceToken) :
    m.Evolves (m.getMetadataByToken requirepass outcomes token).2 := by
  intro hm
  have hname := byToken_nsName_ne requirepass outcomes token hm.table
  unfold getMetadataByToken
  split
  · exact Evolves.refl m hm
  · dsimp only
    split
    · exact Evolves.refl m hm
    · exact publish_evolves m token hname hm

lemma add_evolves {ns : Bytes} (hns : ns ≠ kDefaultNamespace)
    (token : NamespaceToken) : m.Evolves (m.add requirepass outcomes ns token).2 := by
  exact evolves_table ((add_effect requirepass outcomes ns token m.table).names hns)

lemma set_evolves {ns : Bytes} (hns : ns ≠ kDefaultNamespace)
    (token : NamespaceToken) : m.Evolves (m.set requirepass outcomes ns token).2 := by
  have htable : m.Evolves
      { m with table := (NamespaceStorage.set requirepass outcomes ns token m.table).2 } :=
    evolves_table ((set_effect requirepass outcomes ns token m.table).names hns)
  unfold NamespaceManager.set
  dsimp only
  split
  · exact htable.trans (removeMetadata_evolves _ ns)
  · exact htable

lemma del_evolves (ns : Bytes) : m.Evolves (m.del outcomes ns).2 := by
  have htable : m.Evolves { m with table := (NamespaceStorage.del outcomes ns m.table).2 } :=
    evolves_table (del_effect outcomes ns m.table).names
  unfold NamespaceManager.del
  dsimp only
  split
  · exact htable.trans (removeMetadata_evolves _ ns)
  · exact htable

lemma flush_evolves (ref : MetaRef) : m.Evolves (m.flush outcomes ref) := by
  intro hm
  unfold flush
  split
  · exact Evolves.refl m hm
  · rename_i md hmd
    have ht : NamespaceStorage.NamesNotDefault (Tx.runTx false
        (flushScript md.encodedId md.epoch) m.table outcomes).2 := by
      rcases flush_effect outcomes md.encodedId md.epoch m.table with h | h
      · rw [h]
        exact hm.table
      · rw [h]
        exact (hm.table.putRecord (by nofun)).putRecord (by nofun)
    dsimp only
    split
    · -- only the epoch of the one object changes
      refine ⟨⟨ht, ?_⟩, ?_⟩
      · intro o ho
        obtain ⟨i, hi⟩ := mem_iff_getElem?.mp ho
        rw [getElem?_modify] at hi
        obtain ⟨old, hold, rfl⟩ := Option.map_eq_some_iff.mp hi
        have hname := hm.heap old (mem_of_getElem? hold)
        split <;> exact hname
      · intro r name hn
        unfold deref at hn ⊢
        rw [getElem?_modify]
        obtain ⟨old, hold, rfl⟩ := Option.map_eq_some_iff.mp hn
        rw [hold]
        split <;> rfl
    · exact ⟨⟨ht, hm.heap⟩, .of_heap_eq rfl⟩

end

end NamespaceManager

end EloqKV
