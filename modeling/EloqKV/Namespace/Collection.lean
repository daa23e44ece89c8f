/-
  The life of namespaces on one server: the manager, the tenants' data and the collection of
  what flushed and deleted namespaces left behind (`src/namespace/gc.cpp`).

  The steps of a `World` are the namespace operations, the commands that use a namespace, and passes
  of the collector; the engine's answers are part of a step.  FLUSHDB takes the old epoch from the
  metadata object its connection holds and not from the table, so the invariant also ties the cached
  objects to the `e:` records.
-/
import EloqKV.Lib.Runs
import EloqKV.Namespace.Manager

open EloqKV.Lib List

namespace EloqKV

open NamespaceStorage NamespaceManager Option

/-! ## The collector -/

def kGcScanEnd : Bytes := ascii "g;"

/-- `ScanGCRecords`: of the keys the scan visits, the collection records that are there. -/
def scanGCRecords (t : MetaTable) (visited : List Bytes) : List Bytes :=
  visited.filter fun k => decide (kGcPrefix ≤ k ∧ k < kGcScanEnd) && (t k).isSome

/-- One turn of the loop of `CleanPrefixKeys`, as far as the engine decides it. -/
inductive CleanRound where
  /-- No transaction, no catalog entry or no scan: the loop sleeps and tries again. -/
  | unavailable
  /-- A batch of the scan failed. -/
  | scanFailed
  /-- The scan went through; `deleted` is whether the deleting transaction did. -/
  | scanned (deleted : Bool)
  deriving DecidableEq

/-- The keys `CleanPrefixKeys` scans for. -/
def inRange (oldPrefix k : Bytes) : Bool :=
  decide (oldPrefix ≤ k ∧ k < makePrefixNext oldPrefix)

/-- `CleanPrefixKeys`; the rounds end when the server is stopping. -/
def cleanPrefixKeys (oldPrefix : Bytes) : List CleanRound → List Bytes → Bool × List Bytes
  | [], data => (false, data)
  | .unavailable :: rounds, data => cleanPrefixKeys oldPrefix rounds data
  | .scanFailed :: _, data => (false, data)
  | .scanned deleted :: rounds, data =>
    if data.filter (inRange oldPrefix) = [] then (true, data)
    else if deleted then
      cleanPrefixKeys oldPrefix rounds (data.filter fun k => !inRange oldPrefix k)
    else cleanPrefixKeys oldPrefix rounds data

def deleteGCRecord (outcomes : List Bool) (k : Bytes) (t : MetaTable) : MetaTable :=
  (Tx.runTx () (do
    if ← Tx.delete k then return TxEnd.commit () () else return TxEnd.abort ()) t outcomes).2

/-- What the engine answers while one record is worked off. -/
structure CollectInput where
  rounds : List CleanRound
  outcomes : List Bool

/-- The table of records and the physical keys, which is what the collector works on. -/
structure Stored where
  table : MetaTable
  data : List Bytes

/-- The body of the loop of `RunDaemon` over the scanned records. -/
def collectRecord (input : CollectInput) (gcKey : Bytes) (s : Stored) : Stored :=
  let delete : Stored := { s with table := deleteGCRecord input.outcomes gcKey s.table }
  match findDelimiter gcKey 2 with
  | none => delete
  | some firstColon =>
    match stoull (gcKey.drop (firstColon + 1)) with
    | none => delete
    | some epoch =>
      let oldPrefix := makePrefix (substr gcKey 2 (firstColon - 2)) epoch
      let (cleanupComplete, data) := cleanPrefixKeys oldPrefix input.rounds s.data
      if cleanupComplete then ⟨deleteGCRecord input.outcomes gcKey s.table, data⟩
      else { s with data := data }

/-- The records of one scan, one after another; the inputs end when the server is stopping. -/
def collectRecords : List Bytes → List CollectInput → Stored → Stored
  | gcKey :: records, input :: inputs, s =>
    collectRecords records inputs (collectRecord input gcKey s)
  | _, _, s => s

/-- One pass of `RunDaemon`. -/
def gcPass (visited : List Bytes) (inputs : List CollectInput) (s : Stored) : Stored :=
  collectRecords (scanGCRecords s.table visited) inputs s

/-! ## What a pass deletes -/

/-- Physical keys under the epoch of a live namespace: those its connections read and write. -/
def InUse (R : Registry Bytes Bytes) (k : Bytes) : Prop :=
  ∃ ns raw id key, R.live ns = some (raw, id) ∧ R.epoch id < u64 ∧
    k = makePrefix (b255e id) (R.epoch id) ++ key

variable {R : Registry Bytes Bytes}

variable {t : MetaTable}

lemma not_inRange_of_inUse (ht : Represents t R) {k : Bytes} (hk : InUse R k) {id e : Nat}
    (he : e < u64) (hret : R.retired id e) : inRange (makePrefix (b255e id) e) k = false := by
  obtain ⟨ns, raw, id', key, hl, he', rfl⟩ := hk
  by_contra hin
  have hrange := of_decide_eq_true (Bool.of_not_eq_false hin)
  have hnext : makePrefixNext (makePrefix (b255e id) e)
      = composeNamespaceKeyNext (makePrefix (b255e id) e) := by
    rw [makePrefixNext_makePrefix, composeNamespaceKeyNext_makePrefix]
  obtain ⟨rest, hrest⟩ : makePrefix (b255e id) e <+:
      makePrefix (b255e id') (R.epoch id') ++ key := by
    apply isPrefix_of_lt_next (q := [])
    · rw [append_nil]
      exact List.not_lt.mpr hrange.1
    · rw [← hnext]
      exact hrange.2
  have hid : id < u64 := Nat.lt_trans (R.retired_lt hret) ht.nextId_lt
  obtain ⟨rfl, rfl, -⟩ := makePrefix_append_inj hid he (ht.id_lt hl) he' hrest
  exact Nat.lt_irrefl _ (R.retired_old hl hret)

lemma mem_cleanPrefixKeys {oldPrefix k : Bytes} (hk : inRange oldPrefix k = false) :
    ∀ (rounds : List CleanRound) {data : List Bytes}, k ∈ data →
      k ∈ (cleanPrefixKeys oldPrefix rounds data).2 := by
  intro rounds
  induction rounds with
  | nil => exact fun h => h
  | cons round rounds ih =>
    intro data hmem
    cases round with
    | unavailable => exact ih hmem
    | scanFailed => exact hmem
    | scanned deleted =>
      unfold cleanPrefixKeys
      by_cases hempty : data.filter (inRange oldPrefix) = []
      · rw [if_pos hempty]
        exact hmem
      rw [if_neg hempty]
      cases deleted with
      | false => exact ih hmem
      | true =>
        apply ih
        rw [mem_filter, hk]
        exact ⟨hmem, rfl⟩

lemma deleteGCRecord_effect (outcomes : List Bool) (k : Bytes) (t : MetaTable) :
    deleteGCRecord outcomes k t = t ∨ deleteGCRecord outcomes k t = Function.update t k none := by
  refine Tx.runTx_settles
    (R := fun (_ : Unit) t' => t' = t ∨ t' = Function.update t k none) ?_ (.inl rfl) outcomes
  exact .of_delete (.of_pure (.inl rfl)) (.of_pure ⟨.inr rfl, .inl rfl⟩)

lemma represents_deleteGCRecord (ht : Represents t R) (outcomes : List Bool)
    (x : Bytes) (e : Nat) : Represents (deleteGCRecord outcomes (RecordKey.gc x e).bytes t) R := by
  rcases deleteGCRecord_effect outcomes (RecordKey.gc x e).bytes t with h | h
  · rwa [h]
  · rw [h]
    exact ht.putGc fun hne => absurd rfl hne

/-- A collection record of a retired epoch. -/
def Collectable (R : Registry Bytes Bytes) (k : Bytes) : Prop :=
  ∃ id e, k = (RecordKey.gc (b255e id) e).bytes ∧ R.retired id e

/-- The scan of the collector finds only records of retired epochs. -/
lemma collectable_of_mem_scan (ht : Represents t R) {visited : List Bytes}
    {k : Bytes} (hk : k ∈ scanGCRecords t visited) : Collectable R k := by
  unfold scanGCRecords at hk
  rw [mem_filter, Bool.and_eq_true, decide_eq_true_eq, isSome_iff_ne_none] at hk
  obtain ⟨-, ⟨hlo, hhi⟩, hsome⟩ := hk
  obtain ⟨r, rfl⟩ := ht.keyed k hsome
  -- the range holds exactly the keys that begin with the two bytes of the collection records
  have hg : [103] ++ [58] <+: r.bytes := by
    have hsucc : ∀ d : UInt8, d < 59 → d ≤ 58 := by
      intro d hd
      have h59 : (59 : UInt8).toNat = 59 := rfl
      have h58 : (58 : UInt8).toNat = 58 := rfl
      rw [UInt8.lt_iff_toNat_lt] at hd
      rw [UInt8.le_iff_toNat_le]
      omega
    have hlo' : ¬ r.bytes < [103] ++ [58] ++ [] := List.not_lt.mpr hlo
    exact isPrefix_of_lt_succ [103] hsucc hlo' hhi
  have hkind : r.kind = kGcPrefix := by
    rw [← RecordKey.take_two_bytes]
    obtain ⟨rest, hrest⟩ := hg
    rw [← hrest]
    rfl
  cases r with
  | gc x e =>
    obtain ⟨id, rfl, hret⟩ := ht.gc_retired hsome
    exact ⟨id, e, rfl, hret⟩
  | _ => exact absurd hkind (by dsimp only [RecordKey.kind]; decide)

lemma parse_gcKey (id e : Nat) :
    ∃ c, findDelimiter (RecordKey.gc (b255e id) e).bytes 2 = some c ∧
      substr (RecordKey.gc (b255e id) e).bytes 2 (c - 2) = b255e id ∧
      (RecordKey.gc (b255e id) e).bytes.drop (c + 1) = stdToString e := by
  have hbytes : (RecordKey.gc (b255e id) e).bytes
      = kGcPrefix ++ (b255e id ++ b255Delimiter :: stdToString e) := by
    simp [RecordKey.bytes, gcKey, ascii, b255Delimiter]
  have hlen : kGcPrefix.length = 2 := by decide
  refine ⟨2 + (b255e id).length, ?_, ?_, ?_⟩
  · rw [hbytes]
    exact findDelimiter_append kGcPrefix (delimiter_notMem_b255e id)
  · rw [hbytes, substr, ← hlen, drop_left, Nat.add_sub_cancel_left, take_left]
  · rw [hbytes]
    have : kGcPrefix ++ (b255e id ++ b255Delimiter :: stdToString e)
        = (kGcPrefix ++ b255e id ++ [b255Delimiter]) ++ stdToString e := by simp
    rw [this]
    apply drop_left'
    simp only [length_append, length_singleton, hlen]

theorem collectRecord_keeps {s : Stored} (hs : Represents s.table R) {k : Bytes}
    (hk : Collectable R k) (input : CollectInput) :
    Represents (collectRecord input k s).table R ∧
      ∀ key, InUse R key → key ∈ s.data → key ∈ (collectRecord input k s).data := by
  obtain ⟨id, e, rfl, hret⟩ := hk
  obtain ⟨c, hfind, hid, hepoch⟩ := parse_gcKey id e
  have hdel := represents_deleteGCRecord hs input.outcomes (b255e id) e
  unfold collectRecord
  simp only [hfind, hid, hepoch, stoull_stdToString]
  by_cases he : e < u64
  · simp only [he, if_true]
    have hclean : ∀ key, InUse R key → key ∈ s.data →
        key ∈ (cleanPrefixKeys (makePrefix (b255e id) e) input.rounds s.data).2 :=
      fun key hkey => mem_cleanPrefixKeys (not_inRange_of_inUse hs hkey he hret) input.rounds
    split
    · exact ⟨hdel, hclean⟩
    · exact ⟨hs, hclean⟩
  · simp only [he, if_false]
    exact ⟨hdel, fun _ _ hmem => hmem⟩

lemma collectRecords_keeps (records : List Bytes) :
    ∀ (inputs : List CollectInput) {s : Stored}, Represents s.table R →
      (∀ k ∈ records, Collectable R k) →
      Represents (collectRecords records inputs s).table R ∧
        ∀ key, InUse R key → key ∈ s.data → key ∈ (collectRecords records inputs s).data := by
  induction records with
  | nil => exact fun _ _ hs _ => ⟨hs, fun _ _ hmem => hmem⟩
  | cons k records ih =>
    intro inputs s hs hall
    cases inputs with
    | nil => exact ⟨hs, fun _ _ hmem => hmem⟩
    | cons input inputs =>
      obtain ⟨hs', hkeep⟩ := collectRecord_keeps hs (hall k mem_cons_self) input
      obtain ⟨hs'', hkeep'⟩ := ih inputs hs' fun k' hk' => hall k' (mem_cons_of_mem _ hk')
      exact ⟨hs'', fun key hkey hmem => hkeep' key hkey (hkeep key hkey hmem)⟩

theorem gcPass_keeps {s : Stored} (hs : Represents s.table R) (visited : List Bytes)
    (inputs : List CollectInput) :
    Represents (gcPass visited inputs s).table R ∧
      ∀ key, InUse R key → key ∈ s.data → key ∈ (gcPass visited inputs s).data :=
  collectRecords_keeps _ inputs hs fun _ hk => collectable_of_mem_scan hs hk

/-! ## Steps -/

structure World where
  manager : NamespaceManager
  data : List Bytes
  /-- The ids given out so far, oldest first. -/
  issued : List Nat

namespace World

def start : World := ⟨NamespaceManager.start fun _ => none, [], []⟩

/-- The world with another manager; an id counts as given out when the counter moves. -/
def withManager (w : World) (m : NamespaceManager) : World :=
  { w with
    manager := m
    issued :=
      if nextIdOf m.table = nextIdOf w.manager.table then w.issued
      else w.issued ++ [nextIdOf w.manager.table] }

def gcPass (w : World) (visited : List Bytes) (inputs : List CollectInput) : World :=
  let s := EloqKV.gcPass visited inputs ⟨w.manager.table, w.data⟩
  { w with manager := { w.manager with table := s.table }, data := s.data }

inductive Step where
  | add (ns : Bytes) (token : NamespaceToken) (outcomes : List Bool)
  | set (ns : Bytes) (token : NamespaceToken) (outcomes : List Bool)
  | del (ns : Bytes) (outcomes : List Bool)
  /-- AUTH with a token, or the check before every command of a connection bound to it. -/
  | lookup (token : NamespaceToken)
  /-- A command bound to the token's namespace stores a key. -/
  | store (token : NamespaceToken) (key : Bytes)
  /-- FLUSHDB of the token's namespace. -/
  | flushdb (token : NamespaceToken) (outcomes : List Bool)
  | gc (visited : List Bytes) (inputs : List CollectInput)
  /-- A restart of the server: the cache is empty again. -/
  | restart

section
variable (requirepass : Bytes)

/-- A command of a connection bound to `token`, run with the object the token leads to. -/
def withBinding (w : World) (token : NamespaceToken)
    (run : World → MetaRef → NamespaceMetadata → World) : World :=
  let (ref, m) := w.manager.getMetadataByToken requirepass [] token
  let w := w.withManager m
  match ref with
  | none => w
  | some ref =>
    match m.deref ref with
    | none => w
    | some md => run w ref md

def step (w : World) : Step → World
  | .add ns token outcomes => w.withManager (w.manager.add requirepass outcomes ns token).2
  | .set ns token outcomes => w.withManager (w.manager.set requirepass outcomes ns token).2
  | .del ns outcomes => w.withManager (w.manager.del outcomes ns).2
  | .lookup token => w.withBinding requirepass token fun w _ _ => w
  | .store token key => w.withBinding requirepass token fun w _ md =>
      { w with data := composeNamespaceKey (makePrefix md.encodedId md.epoch) key :: w.data }
  | .flushdb token outcomes => w.withBinding requirepass token fun w ref _ =>
      w.withManager (w.manager.flush outcomes ref)
  | .gc visited inputs => w.gcPass visited inputs
  | .restart => { w with manager := { w.manager with cache := ⟨fun _ => none, fun _ => none⟩ } }

end

/-- The next id and the next epochs still fit 64 bits. -/
def Roomy (w : World) : Prop :=
  nextIdOf w.manager.table + 1 < u64 ∧ (∀ encodedId, epochOf w.manager.table encodedId + 1 < u64) ∧
    ∀ md ∈ w.manager.heap, md.epoch + 1 < u64

end World

/-! ## The cache and the records -/

/-- Every cached object is that of a live namespace, with its epoch, and name and token agree. -/
def Cached (m : NamespaceManager) (R : Registry Bytes Bytes) : Prop :=
  ∀ ⦃raw ref⦄, m.cache.tokenMetadata raw = some ref → ∃ md id,
    m.deref ref = some md ∧ md.token.bytes = raw ∧ R.live md.nsName = some (raw, id) ∧
      md.encodedId = b255e id ∧ md.epoch = R.epoch id ∧ m.cache.nsMetadata md.nsName = some ref

namespace Cached

variable {m : NamespaceManager}

variable {R' : Registry Bytes Bytes}

lemma rewrites (h : Cached m R) {ns : Bytes} {raw : Option Bytes} (hns : R.live ns = none)
    (hrw : Represents.Rewrites ns raw R R') (t : MetaTable) : Cached { m with table := t } R' := by
  intro raw' ref href
  obtain ⟨md, id, hmd, htok, hl, hid, he, hentry⟩ := h href
  have hne : md.nsName ≠ ns := by
    rintro rfl
    exact nomatch hns.symm.trans hl
  obtain ⟨hl', he'⟩ := hrw.elsewhere hne hl
  exact ⟨md, id, hmd, htok, hl', hid, he.trans he'.symm, hentry⟩

lemma coherent (h : Cached m R) : m.Coherent := by
  intro raw ref href
  obtain ⟨md, -, hmd, htok, -, -, -, hentry⟩ := h href
  exact ⟨md, hmd, htok, hentry⟩

lemma removeMetadata (h : Cached m R) {ns : Bytes} (helse : Represents.Elsewhere ns R R')
    (t : MetaTable) : Cached (removeMetadata { m with table := t } ns) R' := by
  intro raw ref href
  have hcoherent : NamespaceManager.Coherent { m with table := t } := h.coherent
  obtain ⟨md, hin, hmd, htok, hne, hentry⟩ := hcoherent.of_mem_removeMetadata href
  obtain ⟨md', id, hmd', -, hl, hid, he, -⟩ := h hin
  obtain rfl : md = md' := some.inj (hmd.symm.trans hmd')
  obtain ⟨hl', he'⟩ := helse hne hl
  refine ⟨md, id, ?_, htok, hl', hid, he.trans he'.symm, hentry⟩
  rw [removeMetadata_deref]
  exact hmd

lemma publish (h : Cached m R) {token : NamespaceToken} {r : ByTokenResult} {id : Nat}
    (hmiss : m.cache.tokenMetadata token.bytes = none)
    (hl : R.live r.nsName = some (token.bytes, id)) (hid : r.nsId = b255e id)
    (he : r.epoch = R.epoch id) : Cached (m.publish token r).2 R := by
  intro raw ref href
  rcases of_mem_publish hmiss href with
    ⟨rfl, hnew, hentry⟩ | ⟨hraw, hin, hold⟩
  · exact ⟨_, id, hnew, rfl, hl, hid, he, hentry⟩
  · obtain ⟨md, id', hmd, htok, hl', hid', he', hentry⟩ := h hin
    have hne : md.nsName ≠ r.nsName := by
      intro heq
      rw [heq, hl] at hl'
      cases hl'
      exact hraw rfl
    obtain ⟨hmd', hsame⟩ := hold md hmd hne
    exact ⟨md, id', hmd', htok, hl', hid', he', hsame.trans hentry⟩

/-- The object behind a token is changed in place, and other tokens lead to other ids. -/
lemma grow (h : Cached m R) {raw : Bytes} {ref : MetaRef} {md : NamespaceMetadata} {id e : Nat}
    (href : m.cache.tokenMetadata raw = some ref) (hmd : m.deref ref = some md)
    (hl : R.live md.nsName = some (raw, id)) (hlive : R'.live = R.live) (hself : e = R'.epoch id)
    (hrest : ∀ i, i ≠ id → R'.epoch i = R.epoch i) (t : MetaTable) :
    Cached { m with table := t, heap := m.heap.modify ref fun o => { o with epoch := e } } R' := by
  have hmodify : ∀ r, (m.heap.modify ref fun o => { o with epoch := e })[r]?
      = (m.heap[r]?).map fun o => if ref = r then { o with epoch := e } else o := by
    intro r
    rw [List.getElem?_modify]
    rfl
  intro raw' ref' href'
  obtain ⟨md', id', hmd', htok', hl', hid', he', hns'⟩ := h href'
  by_cases heq : ref = ref'
  · subst heq
    obtain rfl : md = md' := some.inj (hmd.symm.trans hmd')
    rw [hl] at hl'
    cases hl'
    refine ⟨{ md with epoch := e }, id, ?_, htok', hlive ▸ hl, hid', hself, hns'⟩
    show (m.heap.modify ref _)[ref]? = _
    rw [hmodify, show m.heap[ref]? = some md from hmd]
    simp
  · refine ⟨md', id', ?_, htok', hlive ▸ hl', hid', ?_, hns'⟩
    · show (m.heap.modify ref _)[ref']? = _
      rw [hmodify, show m.heap[ref']? = some md' from hmd']
      simp [heq]
    · -- two objects with one id would be objects of one name
      have hne : id' ≠ id := by
        rintro rfl
        have hname := R.id_inj hl' hl
        obtain ⟨md₀, -, hmd₀, -, -, -, -, hns₀⟩ := h href
        obtain rfl : md = md₀ := some.inj (hmd.symm.trans hmd₀)
        rw [hname, hns₀] at hns'
        exact heq (some.inj hns')
      rw [hrest id' hne]
      exact he'

end Cached

lemma byToken_answered (requirepass : Bytes) (token : NamespaceToken) (t : MetaTable) :
    byToken requirepass [] token t = ⟨[], [], 1⟩ ∨
      ∃ x, t (RecordKey.token token.bytes).bytes = some x ∧ byToken requirepass [] token t
          = ⟨(t (RecordKey.idToName x).bytes).getD [], x, epochOf t x⟩ := by
  unfold byToken
  split
  · exact .inl rfl
  · unfold byTokenScript
    rw [Tx.runTx_read_answered]
    cases hx : t (kTokenPrefix ++ token.bytes) with
    | none => exact .inl (congrArg Prod.fst (Tx.runTx_commit_answered ..))
    | some x =>
      refine .inr ⟨x, hx, ?_⟩
      rfl

/-- A lookup only adds to the cache, and only what the records say. -/
theorem getMetadataByToken_cached {m : NamespaceManager} (ht : Represents m.table R)
    (hc : Cached m R) (requirepass : Bytes) (token : NamespaceToken) :
    let result := m.getMetadataByToken requirepass [] token
    result.2.table = m.table ∧ Cached result.2 R ∧
      (∀ md ∈ result.2.heap, md ∈ m.heap ∨ ∃ x, md.epoch = epochOf m.table x) ∧
      ∀ ref, result.1 = some ref → result.2.cache.tokenMetadata token.bytes = some ref := by
  unfold getMetadataByToken
  split
  · rename_i ref href
    refine ⟨rfl, hc, fun md hmd => .inl hmd, ?_⟩
    rintro _ ⟨⟩
    exact href
  rename_i hmiss
  dsimp only
  split
  · exact ⟨rfl, hc, fun md hmd => .inl hmd, nofun⟩
  rename_i hname
  -- a name was found, so the records of the token were there
  rcases byToken_answered requirepass token m.table with hempty | ⟨x, hx, hr⟩
  · rw [hempty] at hname
    exact absurd rfl hname
  obtain ⟨ns, id, hl, rfl⟩ := ht.token hx
  rw [ht.live_name hl] at hr
  rw [hr]
  have hc' := hc.publish (r := ⟨ns, b255e id, epochOf m.table (b255e id)⟩) hmiss hl rfl
    (ht.live_epoch hl)
  refine ⟨m.publish_table token _, hc', ?_, ?_⟩
  · unfold publish
    split
    · exact fun md hmd => .inl hmd
    · intro md hmd
      rcases mem_append.mp hmd with hold | hnew
      · exact .inl hold
      · rw [mem_singleton.mp hnew]
        exact .inr ⟨_, rfl⟩
  · rintro _ ⟨⟩
    exact m.publish_self token _

/-! ## The invariant -/

/-- The records, the cache and the history of a world agree on the registry `R`. -/
structure Sound (w : World) (R : Registry Bytes Bytes) : Prop where
  table : Represents w.manager.table R
  cached : Cached w.manager R
  issued : w.issued = List.range' 1 (R.nextId - 1)

lemma sound_start : Sound World.start Registry.empty where
  table := represents_empty
  cached _ _ h := nomatch h
  issued := rfl

lemma Sound.withManager {w : World} (h : Sound w R) {m : NamespaceManager}
    {R' : Registry Bytes Bytes} (ht : Represents m.table R') (hc : Cached m R')
    (hcount : Represents.Counts R R') : Sound (w.withManager m) R' := by
  refine ⟨ht, hc, ?_⟩
  unfold World.withManager
  rw [ht.nextId, h.table.nextId, h.issued]
  rcases hcount with heq | heq
  · rw [if_pos heq, heq]
  · -- the counter is the successor of the last id given out
    obtain ⟨n, hn⟩ := Nat.exists_eq_succ_of_ne_zero (Nat.ne_of_gt R.nextId_pos)
    rw [if_neg (by omega), heq, hn, Nat.add_sub_cancel, Nat.succ_sub_one, List.range'_1_concat,
      Nat.add_comm 1 n]

section
variable {w : World} (requirepass : Bytes)

lemma Sound.withBinding (h : Sound w R) (hroom : w.Roomy) (token : NamespaceToken)
    {run : World → MetaRef → NamespaceMetadata → World}
    (hrun : ∀ w' ref md, Sound w' R → w'.manager.table = w.manager.table →
      w'.manager.cache.tokenMetadata token.bytes = some ref →
      w'.manager.deref ref = some md → md.epoch + 1 < u64 → ∃ R', Sound (run w' ref md) R') :
    ∃ R', Sound (w.withBinding requirepass token run) R' := by
  obtain ⟨htable, hc, hheap, href⟩ := getMetadataByToken_cached h.table h.cached requirepass token
  unfold World.withBinding
  generalize w.manager.getMetadataByToken requirepass [] token = result at *
  obtain ⟨ref, m⟩ := result
  have hw : Sound (w.withManager m) R := h.withManager (htable ▸ h.table) hc (.inl rfl)
  cases ref with
  | none => exact ⟨R, hw⟩
  | some ref =>
    dsimp only
    cases hmd : m.deref ref with
    | none => exact ⟨R, hw⟩
    | some md =>
      refine hrun (w.withManager m) ref md hw htable (href ref rfl) hmd ?_
      rcases hheap md (mem_of_getElem? hmd) with hold | ⟨x, hx⟩
      · exact hroom.2.2 md hold
      · rw [hx]
        exact hroom.2.1 x

lemma Sound.add (h : Sound w R) (hroom : w.Roomy) (ns : Bytes) (token : NamespaceToken)
    (outcomes : List Bool) :
    ∃ R', Sound (w.withManager (w.manager.add requirepass outcomes ns token).2) R' := by
  have heff := add_effect requirepass outcomes ns token w.manager.table
  have hnext : R.nextId + 1 < u64 := h.table.nextId ▸ hroom.1
  obtain ⟨R', ht, rfl | ⟨hns, -, hrw⟩⟩ := h.table.add heff hnext
  · exact ⟨R', h.withManager ht h.cached (.inl rfl)⟩
  · exact ⟨R', h.withManager ht (h.cached.rewrites hns hrw _) hrw.counts⟩

lemma Sound.removeMetadata (h : Sound w R) {ns : Bytes} {t : MetaTable}
    {R' : Registry Bytes Bytes} (ht : Represents t R') (helse : Represents.Elsewhere ns R R')
    (hcount : Represents.Counts R R') :
    Sound (w.withManager (removeMetadata { w.manager with table := t } ns)) R' :=
  h.withManager ((removeMetadata_table _ ns).symm ▸ ht)
    (h.cached.removeMetadata helse t) hcount

lemma Sound.set (h : Sound w R) (hroom : w.Roomy) (ns : Bytes) (token : NamespaceToken)
    (outcomes : List Bool) :
    ∃ R', Sound (w.withManager (w.manager.set requirepass outcomes ns token).2) R' := by
  have heff := set_effect requirepass outcomes ns token w.manager.table
  have hnext : R.nextId + 1 < u64 := h.table.nextId ▸ hroom.1
  unfold NamespaceManager.set
  generalize NamespaceStorage.set requirepass outcomes ns token w.manager.table = result at *
  obtain ⟨ok, t⟩ := result
  obtain ⟨R', ht, ⟨rfl, -⟩ | ⟨rfl, -, hrw⟩⟩ := h.table.set heff hnext
  · cases ok with
    | false => exact ⟨R', h.withManager ht h.cached (.inl rfl)⟩
    | true => exact ⟨R', h.removeMetadata ht (fun _ _ _ _ hl => ⟨hl, rfl⟩) (.inl rfl)⟩
  · exact ⟨R', h.removeMetadata ht hrw.elsewhere hrw.counts⟩

lemma Sound.del (h : Sound w R) (ns : Bytes) (outcomes : List Bool) :
    ∃ R', Sound (w.withManager (w.manager.del outcomes ns).2) R' := by
  have heff := del_effect outcomes ns w.manager.table
  unfold NamespaceManager.del
  generalize NamespaceStorage.del outcomes ns w.manager.table = result at *
  obtain ⟨ok, t⟩ := result
  obtain ⟨R', ht, ⟨rfl, rfl⟩ | ⟨rfl, -, hrw⟩⟩ := h.table.del heff
  · exact ⟨R', h.withManager ht h.cached (.inl rfl)⟩
  · exact ⟨R', h.removeMetadata ht hrw.elsewhere hrw.counts⟩

lemma Sound.flush (h : Sound w R) {raw : Bytes} {ref : MetaRef} {md : NamespaceMetadata}
    (href : w.manager.cache.tokenMetadata raw = some ref) (hmd : w.manager.deref ref = some md)
    (hroom : md.epoch + 1 < u64) (outcomes : List Bool) :
    ∃ R', Sound (w.withManager (w.manager.flush outcomes ref)) R' := by
  obtain ⟨md', id, hmd', -, hl, hid, he, -⟩ := h.cached href
  obtain rfl : md = md' := some.inj (hmd.symm.trans hmd')
  unfold NamespaceManager.flush
  rw [hmd]
  dsimp only
  rcases flush_effect outcomes md.encodedId md.epoch w.manager.table with heff | heff
  · -- refused: nothing changes, in memory neither
    rw [heff]
    exact ⟨R, h.withManager h.table h.cached (.inl rfl)⟩
  · rw [heff, hid, Nat.mod_eq_of_lt hroom]
    rw [he] at hroom ⊢
    refine ⟨R.advance hl, h.withManager (h.table.advance hl hroom) ?_ (.inl rfl)⟩
    have hself : R.epoch id + 1 = (R.advance hl).epoch id := by
      change _ = Function.update R.epoch id (R.epoch id + 1) id
      rw [Function.update_self]
    have hrest : ∀ i, i ≠ id → (R.advance hl).epoch i = R.epoch i :=
      fun i hi => Function.update_of_ne hi ..
    exact h.cached.grow href hmd hl (Registry.advance_live R hl) hself hrest _

theorem Sound.step (h : Sound w R) (hroom : w.Roomy) (i : World.Step) :
    ∃ R', Sound (w.step requirepass i) R' := by
  cases i with
  | add ns token outcomes => exact h.add requirepass hroom ns token outcomes
  | set ns token outcomes => exact h.set requirepass hroom ns token outcomes
  | del ns outcomes => exact h.del ns outcomes
  | lookup token =>
    exact h.withBinding requirepass hroom token fun w' _ _ hw' _ _ _ _ => ⟨R, hw'⟩
  | store token key =>
    unfold World.step
    refine h.withBinding requirepass hroom token fun w' _ md hw' _ _ _ _ => ⟨R, ?_⟩
    exact ⟨hw'.table, hw'.cached, hw'.issued⟩
  | flushdb token outcomes =>
    exact h.withBinding requirepass hroom token fun w' ref md hw' _ href hmd hmroom =>
      hw'.flush href hmd hmroom outcomes
  | gc visited inputs =>
    obtain ⟨ht, -⟩ := gcPass_keeps (s := ⟨w.manager.table, w.data⟩) h.table visited inputs
    exact ⟨R, ht, h.cached, h.issued⟩
  | restart => exact ⟨R, h.table, nofun, h.issued⟩

end

/-! ## What the records of a run say -/

/-- The three records of a live namespace. -/
def Live (t : MetaTable) (ns raw : Bytes) (id : Nat) : Prop :=
  t (RecordKey.name ns).bytes = some raw ∧ t (RecordKey.token raw).bytes = some (b255e id) ∧
    t (RecordKey.idToName (b255e id)).bytes = some ns ∧ id < u64

/-- Names, tokens and ids of the live namespaces determine each other; ids were given out once,
below the counter; the objects that connections are bound to have the epochs of the records; and no
collection record names the epoch of a live namespace. -/
structure World.Consistent (w : World) : Prop where
  name_live : ∀ {ns raw}, w.manager.table (RecordKey.name ns).bytes = some raw →
    ∃ id, Live w.manager.table ns raw id
  token_live : ∀ {raw x}, w.manager.table (RecordKey.token raw).bytes = some x →
    ∃ ns id, x = b255e id ∧ Live w.manager.table ns raw id
  one_to_one : ∀ {ns raw id ns' raw' id'}, Live w.manager.table ns raw id →
    Live w.manager.table ns' raw' id' → (ns = ns' ↔ raw = raw') ∧ (raw = raw' ↔ id = id')
  issued_once : w.issued.Nodup
  issued_lt : ∀ id ∈ w.issued, id < nextIdOf w.manager.table
  live_issued : ∀ {ns raw id}, Live w.manager.table ns raw id → id ∈ w.issued
  nextId_lt : nextIdOf w.manager.table < u64
  epoch_lt : ∀ x, epochOf w.manager.table x < u64
  bound : ∀ {raw ref md}, w.manager.cache.tokenMetadata raw = some ref →
    w.manager.deref ref = some md → ∃ id, Live w.manager.table md.nsName raw id ∧
      md.encodedId = b255e id ∧ md.epoch = epochOf w.manager.table (b255e id)
  not_collected : ∀ {ns raw id}, Live w.manager.table ns raw id →
    w.manager.table (RecordKey.gc (b255e id) (epochOf w.manager.table (b255e id))).bytes = none
  keys_kept : ∀ {ns raw id}, Live w.manager.table ns raw id → ∀ visited inputs key,
    let k := composeNamespaceKey (makePrefix (b255e id) (epochOf w.manager.table (b255e id))) key
    k ∈ w.data → k ∈ (w.gcPass visited inputs).data

lemma epochOf_lt (t : MetaTable) (x : Bytes) : epochOf t x < u64 := by
  have hpos : 0 < u64 := by decide
  unfold epochOf parseCounter
  cases hs : (t (RecordKey.epoch x).bytes).bind stoull with
  | none => decide
  | some n =>
    obtain ⟨v, -, hv⟩ := bind_eq_some_iff.mp hs
    unfold stoull at hv
    dsimp only at hv
    split_ifs at hv with hbad hneg
    · cases hv
      exact Nat.mod_lt _ hpos
    · cases hv
      exact Nat.not_le.mp fun hle => hbad (.inr hle)

lemma NamespaceStorage.Represents.live_iff (h : Represents t R) {ns raw : Bytes} {id : Nat} :
    Live t ns raw id ↔ R.live ns = some (raw, id) := by
  constructor
  · rintro ⟨hname, htoken, -, hid⟩
    obtain ⟨id', hl⟩ := h.live_of_name hname
    rw [h.live_token hl] at htoken
    rw [hl, b255e_inj (h.id_lt hl) hid (some.inj htoken)]
  · intro hl
    refine ⟨?_, h.live_token hl, h.live_name hl, h.id_lt hl⟩
    rw [h.name, hl]
    rfl

/-- Each field is one of the registry, read through the representation. -/
lemma Sound.consistent {w : World} (h : Sound w R) : w.Consistent := by
  have hlive : ∀ {ns raw id}, Live w.manager.table ns raw id ↔ R.live ns = some (raw, id) :=
    h.table.live_iff
  constructor
  · intro ns raw hname
    obtain ⟨id, hl⟩ := h.table.live_of_name hname
    exact ⟨id, hlive.mpr hl⟩
  · intro raw x hx
    obtain ⟨ns, id, hl, rfl⟩ := h.table.token hx
    exact ⟨ns, id, rfl, hlive.mpr hl⟩
  · intro ns raw id ns' raw' id' hl hl'
    rw [hlive] at hl hl'
    refine ⟨⟨?_, ?_⟩, ⟨?_, ?_⟩⟩
    · rintro rfl
      cases hl.symm.trans hl'
      rfl
    · rintro rfl
      exact R.token_inj hl hl'
    · rintro rfl
      obtain rfl := R.token_inj hl hl'
      cases hl.symm.trans hl'
      rfl
    · rintro rfl
      obtain rfl := R.id_inj hl hl'
      cases hl.symm.trans hl'
      rfl
  · rw [h.issued]
    exact nodup_range'
  · intro id hid
    rw [h.issued, mem_range'_1] at hid
    rw [h.table.nextId]
    omega
  · intro ns raw id hl
    have hlt := R.id_lt (hlive.mp hl)
    have hpos := R.id_pos (hlive.mp hl)
    rw [h.issued, mem_range'_1]
    omega
  · rw [h.table.nextId]
    exact h.table.nextId_lt
  · exact epochOf_lt w.manager.table
  · intro raw ref md href hmd
    obtain ⟨md', id, hmd', -, hl, hid, he, -⟩ := h.cached href
    obtain rfl : md = md' := some.inj (hmd.symm.trans hmd')
    refine ⟨id, hlive.mpr hl, hid, ?_⟩
    rw [h.table.live_epoch hl]
    exact he
  · intro ns raw id hl
    rw [hlive] at hl
    rw [h.table.live_epoch hl]
    by_contra hne
    obtain ⟨id', hx, hret⟩ := h.table.gc_retired hne
    obtain rfl := b255e_inj (h.table.id_lt hl)
      (Nat.lt_trans (R.retired_lt hret) h.table.nextId_lt) hx
    exact Nat.lt_irrefl _ (R.retired_old hl hret)
  · intro ns raw id hl visited inputs key
    rw [hlive] at hl
    have hlt := epochOf_lt w.manager.table (b255e id)
    rw [h.table.live_epoch hl] at hlt ⊢
    rw [composeNamespaceKey_makePrefix]
    exact (gcPass_keeps (s := ⟨w.manager.table, w.data⟩) h.table visited inputs).2 _
      ⟨ns, raw, id, key, hl, hlt, rfl⟩

/-- **The metadata records stay consistent.**  After every sequence of namespace operations,
flushes, commands, collections and restarts on a new server, in which ids and epochs stay below
`2 ^ 64`. -/
theorem metadata_stays_consistent (requirepass : Bytes) (h : List World.Step) (w : World)
    (hr : GuardedRun (World.step requirepass) (fun _ w _ => w.Roomy) World.start h w) :
    w.Consistent := by
  have hinv : ∃ R, Sound w R := by
    apply hr.invariant fun _ w => ∃ R, Sound w R
    · exact ⟨_, sound_start⟩
    · rintro _ w i ⟨R, hw⟩ hroom
      exact hw.step requirepass hroom i
  obtain ⟨R, hw⟩ := hinv
  exact hw.consistent

lemma roomy_start : World.start.Roomy :=
  ⟨by decide, fun _ => show 1 + 1 < u64 by decide, nofun⟩

lemma roomy_add_start (requirepass ns : Bytes) (token : NamespaceToken) (outcomes : List Bool) :
    (World.start.step requirepass (.add ns token outcomes)).Roomy := by
  have hone : parseCounter (some (ascii "1")) + 1 < u64 := by decide
  have hnext : parseCounter (some (stdToString ((nextIdOf World.start.manager.table + 1) % u64)))
      + 1 < u64 := by decide
  rcases add_effect requirepass outcomes ns token World.start.manager.table with h | ⟨-, -, h⟩
  · refine ⟨?_, fun x => ?_, nofun⟩
    · exact lt_of_eq_of_lt (congrArg (nextIdOf · + 1) h) roomy_start.1
    · exact lt_of_eq_of_lt (congrArg (epochOf · x + 1) h) (roomy_start.2.1 x)
  · refine ⟨?_, fun x => ?_, nofun⟩
    · refine lt_of_eq_of_lt (congrArg (nextIdOf · + 1) h) ?_
      simpa [nextIdOf, freshTable, setTable, bumpTable] using hnext
    · refine lt_of_eq_of_lt (congrArg (epochOf · x + 1) h) ?_
      by_cases hx : x = b255e (nextIdOf World.start.manager.table)
      · simpa [epochOf, hx] using hone
      · simpa [epochOf, hx, freshTable, setTable, bumpTable] using roomy_start.2.1 x

/-- A namespace is created and flushed: its epoch is 2, and the first one is marked. -/
theorem flushed_namespace_consistent :
    let token := NamespaceToken.generateRandomToken (List.replicate 16 7)
    let w := (World.start.step [] (.add (ascii "a") token [])).step [] (.flushdb token [])
    w.Consistent ∧ epochOf w.manager.table (b255e 1) = 2 ∧
      w.manager.table (RecordKey.gc (b255e 1) 1).bytes = some (ascii "1") := by
  refine ⟨?_, by decide +kernel, by decide +kernel⟩
  exact metadata_stays_consistent [] _ _
    (.step (.step .init roomy_start) (roomy_add_start [] _ _ []))

end EloqKV
