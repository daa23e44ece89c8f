/-
  Lookups of tokens while namespaces are deleted or refreshed
  (`NamespaceManager::GetMetadataByToken`, `Set`, `Del` and `RemoveMetadata`).

  A lookup is up to three atomic steps: it reads the cache, reads the records in a transaction
  of their own, and publishes a metadata object in the cache.  DEL and REFRESH are two: their
  transaction commits, and then the cache entry of the name is removed.

  A lookup that has read the records of a token publishes its object also when the token was retired
  in between, and publishing an object for the new token of a name replaces the name's cache entry,
  by which the removal of REFRESH would have found the old token.
-/
import EloqKV.Lib.Runs
import EloqKV.Namespace.Manager

open EloqKV.Lib List Function Option

namespace EloqKV

open NamespaceStorage

/-! ## Threads -/

/-- A lookup that missed the cache; `found` is what its transaction has read. -/
structure Lookup where
  token : NamespaceToken
  /-- The token had been retired when the lookup began. -/
  late : Bool
  found : Option ByTokenResult

/-- A DEL or REFRESH between its commit and the removal from the cache; `old` is the retired token.
-/
structure Change where
  ns : Bytes
  old : Option Bytes

structure LookupReply where
  late : Bool
  ref : Option MetaRef

/-- The manager with the threads at work on it. -/
structure Race where
  manager : NamespaceManager
  lookups : Nat → Option Lookup
  changes : Nat → Option Change
  /-- The old tokens of the DELs and REFRESHs that have returned. -/
  retired : List Bytes
  /-- The tokens drawn for namespaces so far. -/
  drawn : List Bytes
  replies : List LookupReply

namespace Race

def start : Race where
  manager := NamespaceManager.start fun _ => none
  lookups _ := none
  changes _ := none
  retired := []
  drawn := []
  replies := []

/-- The atomic steps, threads by number; a step of a thread that is not at that point does nothing.
-/
inductive Input where
  /-- A lookup begins by reading the cache. -/
  | lookupCache (tid : Nat) (token : NamespaceToken)
  | readStorage (tid : Nat) (outcomes : List Bool)
  | insertCache (tid : Nat)
  | add (ns : Bytes) (token : NamespaceToken) (outcomes : List Bool)
  /-- The transaction of REFRESH. -/
  | commitSet (cid : Nat) (ns : Bytes) (token : NamespaceToken) (outcomes : List Bool)
  /-- The transaction of DEL. -/
  | commitDel (cid : Nat) (ns : Bytes) (outcomes : List Bool)
  /-- DEL or REFRESH removes the cache entry and returns. -/
  | removeCache (cid : Nat)

section
variable (requirepass : Bytes) (s : Race)

/-- The first step of `GetMetadataByToken`: a hit is returned at once. -/
def lookupCache (tid : Nat) (token : NamespaceToken) : Race :=
  match s.lookups tid with
  | some _ => s
  | none =>
    let late := decide (token.bytes ∈ s.retired)
    match s.manager.cache.tokenMetadata token.bytes with
    | some ref => { s with replies := ⟨late, some ref⟩ :: s.replies }
    | none => { s with lookups := update s.lookups tid (some ⟨token, late, none⟩) }

/-- The second step: the records are read, in one transaction. -/
def readStorage (tid : Nat) (outcomes : List Bool) : Race :=
  match s.lookups tid with
  | some ⟨token, late, none⟩ =>
    let r := byToken requirepass outcomes token s.manager.table
    if r.nsName = [] then
      { s with
        lookups := Function.update s.lookups tid none
        replies := ⟨late, none⟩ :: s.replies }
    else { s with lookups := Function.update s.lookups tid (some ⟨token, late, some r⟩) }
  | _ => s

/-- The third step: the cache is updated. -/
def insertCache (tid : Nat) : Race :=
  match s.lookups tid with
  | some ⟨token, late, some r⟩ =>
    let (ref, m) := s.manager.publish token r
    { s with
      manager := m
      lookups := update s.lookups tid none
      replies := ⟨late, some ref⟩ :: s.replies }
  | _ => s

/-- A DEL or REFRESH has ended its transaction; only a successful one goes on. -/
def committed (cid : Nat) (ns : Bytes) (result : Bool × MetaTable) : Race :=
  { s with
    manager := { s.manager with table := result.2 }
    changes :=
      if result.1 then
        Function.update s.changes cid (some ⟨ns, s.manager.table (RecordKey.name ns).bytes⟩)
      else s.changes }

def commitSet (cid : Nat) (ns : Bytes) (token : NamespaceToken) (outcomes : List Bool) : Race :=
  match s.changes cid with
  | some _ => s
  | none =>
    { s.committed cid ns (NamespaceStorage.set requirepass outcomes ns token s.manager.table)
      with drawn := token.bytes :: s.drawn }

def commitDel (cid : Nat) (ns : Bytes) (outcomes : List Bool) : Race :=
  match s.changes cid with
  | some _ => s
  | none => s.committed cid ns (NamespaceStorage.del outcomes ns s.manager.table)

/-- The second step of DEL and REFRESH; they return with it. -/
def removeCache (cid : Nat) : Race :=
  match s.changes cid with
  | none => s
  | some c =>
    { s with
      manager := s.manager.removeMetadata c.ns
      changes := update s.changes cid none
      retired := c.old.toList ++ s.retired }

def step : Input → Race
  | .lookupCache tid token => s.lookupCache tid token
  | .readStorage tid outcomes => s.readStorage requirepass tid outcomes
  | .insertCache tid => s.insertCache tid
  | .add ns token outcomes =>
    { s with
      manager := (s.manager.add requirepass outcomes ns token).2
      drawn := token.bytes :: s.drawn }
  | .commitSet cid ns token outcomes => s.commitSet requirepass cid ns token outcomes
  | .commitDel cid ns outcomes => s.commitDel cid ns outcomes
  | .removeCache cid => s.removeCache cid

end

/-- A token drawn for a namespace is one that was never drawn before, and its id fits. -/
def freshToken (s : Race) (token : NamespaceToken) : Bool :=
  !decide (token.bytes ∈ s.drawn) && decide (nextIdOf s.manager.table + 1 < u64)

/-- A lookup publishes only for a token still registered, and over no other object's entry. -/
def unraced (s : Race) : Input → Bool
  | .insertCache tid =>
    match s.lookups tid with
    | some ⟨token, _, some r⟩ =>
      (s.manager.cache.tokenMetadata token.bytes).isSome ||
        ((s.manager.table (RecordKey.token token.bytes).bytes).isSome &&
          (s.manager.cache.nsMetadata r.nsName).isNone)
    | _ => true
  | .add _ token _ => s.freshToken token
  | .commitSet _ _ token _ => s.freshToken token
  | _ => true

end Race

/-! ## What a lookup reads -/

lemma byToken_found {requirepass : Bytes} {outcomes : List Bool} {token : NamespaceToken}
    {t : MetaTable} (h : (byToken requirepass outcomes token t).nsName ≠ []) :
    ∃ x, t (RecordKey.token token.bytes).bytes = some x ∧ t (RecordKey.idToName x).bytes
        = some (byToken requirepass outcomes token t).nsName := by
  let Found (r : ByTokenResult) : Prop := r.nsName ≠ [] →
    ∃ x, t (RecordKey.token token.bytes).bytes = some x ∧
      t (RecordKey.idToName x).bytes = some r.nsName
  have hempty : Found ⟨[], [], 1⟩ := fun hne => absurd rfl hne
  have hfound : Found (byToken requirepass outcomes token t) := by
    unfold byToken
    split
    · exact hempty
    refine Tx.runTx_settles (R := fun r _ => Found r) ?_ hempty outcomes
    refine .of_read (.of_pure ⟨hempty, hempty⟩) ?_
    cases hx : t (kTokenPrefix ++ token.bytes) with
    | none => exact .of_pure ⟨hempty, hempty⟩
    | some x =>
      -- the epoch does not matter here
      have hrest : ∀ (name : Option (Option Bytes)), Found ⟨name.join.getD [], x, 1⟩ →
          Tx.Triple (· = t) (do
            let epoch ← Tx.read (kEpochPrefix ++ x)
            let r : ByTokenResult := ⟨(name.join).getD [], x, parseCounter epoch.join⟩
            return .commit r r) (Tx.Settles t fun r _ => Found r) := by
        intro name hname
        exact .of_read (.of_pure ⟨hname, hname⟩) (.of_pure ⟨hname, hname⟩)
      refine .of_read (hrest none fun hne => absurd rfl hne) (hrest _ ?_)
      intro hne
      refine ⟨x, hx, ?_⟩
      cases hname : t (kIdToNamePrefix ++ x) with
      | none =>
        rw [hname] at hne
        exact absurd rfl hne
      | some name => exact hname
  exact hfound h

/-! ## The invariant -/

namespace Race

variable {s : Race} {R : Registry Bytes Bytes}

/-- A token that was drawn once and belongs to no name. -/
def Gone (s : Race) (R : Registry Bytes Bytes) (raw : Bytes) : Prop :=
  raw ∈ s.drawn ∧ ∀ ns id, R.live ns ≠ some (raw, id)

/-- How the cache, the threads and the records go together while lookups are not raced. -/
structure Tracked (s : Race) (R : Registry Bytes Bytes) : Prop where
  table : Represents s.manager.table R
  drawn : ∀ ⦃ns raw id⦄, R.live ns = some (raw, id) → raw ∈ s.drawn
  /-- A cached token belongs to its name still, or a DEL or REFRESH is about to remove it. -/
  cached : ∀ ⦃raw ref⦄, s.manager.cache.tokenMetadata raw = some ref → ∃ md,
    s.manager.deref ref = some md ∧ md.token.bytes = raw ∧
      s.manager.cache.nsMetadata md.nsName = some ref ∧
      ((∃ id, R.live md.nsName = some (raw, id)) ∨
        ∃ cid, s.changes cid = some ⟨md.nsName, some raw⟩)
  pending : ∀ ⦃cid ns raw⦄, s.changes cid = some ⟨ns, some raw⟩ → s.Gone R raw
  pending_once : ∀ ⦃cid cid' ns ns' raw⦄, s.changes cid = some ⟨ns, some raw⟩ →
    s.changes cid' = some ⟨ns', some raw⟩ → cid = cid'
  retired : ∀ raw ∈ s.retired, s.Gone R raw ∧ s.manager.cache.tokenMetadata raw = none
  found : ∀ ⦃tid token late r⦄, s.lookups tid = some ⟨token, late, some r⟩ →
    late = false ∧ ((∃ id, R.live r.nsName = some (token.bytes, id)) ∨ s.Gone R token.bytes)
  late : ∀ ⦃tid token found⦄, s.lookups tid = some ⟨token, true, found⟩ → token.bytes ∈ s.retired
  replies : ∀ reply ∈ s.replies, reply.late = true → reply.ref = none

lemma tracked_start : start.Tracked Registry.empty where
  table := represents_empty
  drawn _ _ _ h := nomatch h
  cached _ _ h := nomatch h
  pending _ _ _ h := nomatch h
  pending_once _ _ _ _ _ h := nomatch h
  retired _ h := nomatch h
  found _ _ _ _ h := nomatch h
  late _ _ _ h := nomatch h
  replies _ h := nomatch h

variable (h : s.Tracked R)
include h

lemma Tracked.setLookup (tid : Nat) {l : Option Lookup}
    (hfound : ∀ ⦃token late r⦄, l = some ⟨token, late, some r⟩ →
      late = false ∧ ((∃ id, R.live r.nsName = some (token.bytes, id)) ∨ s.Gone R token.bytes))
    (hlate : ∀ ⦃token found⦄, l = some ⟨token, true, found⟩ → token.bytes ∈ s.retired) :
    Tracked { s with lookups := Function.update s.lookups tid l } R :=
  { h with
    found := by
      intro tid' token late r hl
      change Function.update s.lookups tid l tid' = _ at hl
      by_cases htid : tid' = tid
      · rw [htid, update_self] at hl
        exact hfound hl
      · rw [update_of_ne htid] at hl
        exact h.found hl
    late := by
      intro tid' token found hl
      change Function.update s.lookups tid l tid' = _ at hl
      by_cases htid : tid' = tid
      · rw [htid, update_self] at hl
        exact hlate hl
      · rw [update_of_ne htid] at hl
        exact h.late hl }

lemma Tracked.reply {late : Bool} {ref : Option MetaRef} (hreply : late = true → ref = none) :
    Tracked { s with replies := ⟨late, ref⟩ :: s.replies } R :=
  { h with
    replies := by
      intro reply hmem
      rcases mem_cons.mp hmem with rfl | hold
      · exact hreply
      · exact h.replies reply hold }

lemma Tracked.lookupCache (tid : Nat) (token : NamespaceToken) :
    (s.lookupCache tid token).Tracked R := by
  unfold Race.lookupCache
  split
  · exact h
  split
  · -- a hit: the token is cached, so it is not retired
    rename_i ref href
    apply h.reply
    intro hlate
    exact nomatch href.symm.trans (h.retired _ (of_decide_eq_true hlate)).2
  · apply h.setLookup tid
    · intro token' late r hl
      exact nomatch hl
    · intro token' found hl
      obtain ⟨rfl, hlate, -⟩ := Lookup.mk.injEq .. ▸ Option.some.inj hl
      exact of_decide_eq_true hlate

lemma Tracked.readStorage (requirepass : Bytes) (tid : Nat)
    (outcomes : List Bool) : (s.readStorage requirepass tid outcomes).Tracked R := by
  unfold Race.readStorage
  split
  · rename_i token late hl
    dsimp only
    split
    · have hdone := h.setLookup (l := none) tid nofun nofun
      exact hdone.reply fun _ => rfl
    · rename_i hname
      obtain ⟨x, hx, howner⟩ := byToken_found hname
      obtain ⟨ns, id, hlive, rfl⟩ := h.table.token hx
      rw [h.table.live_name hlive] at howner
      -- the token is registered, so the lookup did not begin late
      have hnotLate : late = false := by
        cases late with
        | false => rfl
        | true => exact absurd hlive ((h.retired _ (h.late hl)).1.2 ns id)
      apply h.setLookup tid
      · intro token' late' r hl'
        obtain ⟨rfl, rfl, hr⟩ := Lookup.mk.injEq .. ▸ Option.some.inj hl'
        cases hr
        exact ⟨hnotLate, .inl ⟨id, Option.some.inj howner ▸ hlive⟩⟩
      · intro token' found hl'
        obtain ⟨rfl, hlate, -⟩ := Lookup.mk.injEq .. ▸ Option.some.inj hl'
        exact Bool.noConfusion (hnotLate.symm.trans hlate)
  · exact h

variable {token : NamespaceToken}

/-- Published is what the records said when read; the guard covers a token that went since. -/
lemma Tracked.publish {r : ByTokenResult}
    (hguard : s.manager.cache.tokenMetadata token.bytes = none →
      (∃ id, R.live r.nsName = some (token.bytes, id)) ∧
        s.manager.cache.nsMetadata r.nsName = none) :
    Tracked { s with manager := (s.manager.publish token r).2 } R := by
  by_cases hhit : s.manager.cache.tokenMetadata token.bytes = none
  case neg =>
    obtain ⟨ref, href⟩ := ne_none_iff_exists'.mp hhit
    have hsame : (s.manager.publish token r).2 = s.manager := by
      unfold NamespaceManager.publish
      rw [href]
    rw [hsame]
    exact h
  obtain ⟨⟨id, hlive⟩, hfree⟩ := hguard hhit
  constructor
  · exact (s.manager.publish_table token r).symm ▸ h.table
  · exact h.drawn
  · intro raw ref href
    rcases NamespaceManager.of_mem_publish hhit href with
      ⟨rfl, hnew, hentry⟩ | ⟨-, hin, hold⟩
    · exact ⟨_, hnew, rfl, hentry, .inl ⟨id, hlive⟩⟩
    · obtain ⟨md, hmd, htok, hentry, hwhy⟩ := h.cached hin
      -- the name of the new object had no entry, so this is another name
      have hne : md.nsName ≠ r.nsName := by
        intro heq
        rw [heq, hfree] at hentry
        exact nomatch hentry
      obtain ⟨hmd', hsame⟩ := hold md hmd hne
      exact ⟨md, hmd', htok, hsame.trans hentry, hwhy⟩
  · exact h.pending
  · exact h.pending_once
  · intro raw hmem
    obtain ⟨hgone, hnone⟩ := h.retired raw hmem
    refine ⟨hgone, ?_⟩
    by_contra hne
    obtain ⟨ref, href⟩ := ne_none_iff_exists'.mp hne
    rcases NamespaceManager.of_mem_publish hhit href with ⟨rfl, -⟩ | ⟨-, hin, -⟩
    · exact hgone.2 _ _ hlive
    · exact nomatch hnone.symm.trans hin
  · exact h.found
  · exact h.late
  · exact h.replies

theorem Tracked.insertCache {tid : Nat}
    (hsafe : s.unraced (.insertCache tid) = true) : (s.insertCache tid).Tracked R := by
  unfold Race.insertCache
  split
  · rename_i token late r hl
    obtain ⟨hnotLate, hname⟩ := h.found hl
    have hpublished : Tracked { s with manager := (s.manager.publish token r).2 } R := by
      apply h.publish
      intro hmiss
      simp only [unraced, hl, hmiss, isSome_none, Bool.false_or, Bool.and_eq_true,
        isNone_iff_eq_none] at hsafe
      obtain ⟨x, hx⟩ := isSome_iff_exists.mp hsafe.1
      obtain ⟨ns, id, hlive, -⟩ := h.table.token hx
      exact ⟨hname.resolve_right fun hgone => hgone.2 ns id hlive, hsafe.2⟩
    have hdone := hpublished.setLookup (l := none) tid nofun
      nofun
    exact hdone.reply fun hlate => Bool.noConfusion (hnotLate.symm.trans hlate)
  · exact h

variable {t : MetaTable}

/-- `ns` gets the fresh token `raw`, or goes; its old token is on its way out with the change `c`.
-/
lemma Tracked.rewrite {R' : Registry Bytes Bytes}
    (ht : Represents t R') {ns : Bytes} {raw : Option Bytes}
    (hrw : Represents.Rewrites ns raw R R') (hfresh : ∀ r, raw = some r → r ∉ s.drawn)
    {changes : Nat → Option Change}
    (hkept : ∀ ⦃cid c⦄, s.changes cid = some c → changes cid = some c)
    (hnew : ∀ ⦃cid c⦄, changes cid = some c → s.changes cid = some c ∨
      c = ⟨ns, s.manager.table (RecordKey.name ns).bytes⟩)
    (hone : ∀ ⦃cid cid'⦄, s.changes cid = none → changes cid ≠ none →
      s.changes cid' = none → changes cid' ≠ none → cid = cid')
    (hold : ∀ ⦃old id⦄, R.live ns = some (old, id) → ∃ cid, changes cid = some ⟨ns, some old⟩) :
    Tracked { s with
      manager := { s.manager with table := t }
      changes := changes
      drawn := raw.toList ++ s.drawn } R' := by
  obtain ⟨newId, hlive⟩ := hrw.live
  have hname : ∀ old, s.manager.table (RecordKey.name ns).bytes = some old →
      ∃ id, R.live ns = some (old, id) := fun old => h.table.live_of_name
  -- who has a name afterwards had it before, or has the new token
  have hback : ∀ ⦃m r id⦄, R'.live m = some (r, id) →
      (m ≠ ns ∧ R.live m = some (r, id)) ∨ (m = ns ∧ raw = some r) := by
    intro m r id hl
    rw [hlive] at hl
    rcases Registry.live_update_cases hl with ⟨rfl, heq⟩ | ⟨hm, hl⟩
    · obtain ⟨r', hr, heq⟩ := map_eq_some_iff.mp heq
      cases heq
      exact .inr ⟨rfl, hr⟩
    · exact .inl ⟨hm, hl⟩
  have hgone : ∀ ⦃r⦄, s.Gone R r →
      r ∈ raw.toList ++ s.drawn ∧ ∀ m id, R'.live m ≠ some (r, id) := by
    intro r hr
    refine ⟨mem_append_right _ hr.1, fun m id hl => ?_⟩
    rcases hback hl with ⟨-, hl⟩ | ⟨-, hraw⟩
    · exact hr.2 m id hl
    · exact hfresh r hraw hr.1
  have hgoneOld : ∀ ⦃old id⦄, R.live ns = some (old, id) →
      old ∈ raw.toList ++ s.drawn ∧ ∀ m i, R'.live m ≠ some (old, i) := by
    intro old id hl
    refine ⟨mem_append_right _ (h.drawn hl), fun m i hl' => ?_⟩
    rcases hback hl' with ⟨hm, hl'⟩ | ⟨-, hraw⟩
    · exact hm (R.token_inj hl' hl)
    · exact hfresh old hraw (h.drawn hl)
  constructor
  · exact ht
  · intro m r id hl
    rcases hback hl with ⟨-, hl⟩ | ⟨-, rfl⟩
    · exact mem_append_right _ (h.drawn hl)
    · exact mem_append_left _ (by simp)
  · intro r ref href
    obtain ⟨md, hmd, htok, hentry, hwhy⟩ := h.cached href
    refine ⟨md, hmd, htok, hentry, ?_⟩
    rcases hwhy with ⟨id, hl⟩ | ⟨cid, hc⟩
    · by_cases hm : md.nsName = ns
      · rw [hm] at hl ⊢
        exact .inr (hold hl)
      · exact .inl ⟨id, (hrw.elsewhere hm hl).1⟩
    · exact .inr ⟨cid, hkept hc⟩
  · intro cid m r hc
    rcases hnew hc with hc | hc
    · exact hgone (h.pending hc)
    · obtain ⟨-, hr⟩ := Change.mk.injEq .. ▸ hc
      obtain ⟨id, hl⟩ := hname r hr.symm
      exact hgoneOld hl
  · intro cid cid' m m' r hc hc'
    -- a token on its way out with an earlier change has no name any more
    have hcross : ∀ ⦃c c' k k'⦄, s.changes c = some ⟨k, some r⟩ → changes c' = some ⟨k', some r⟩ →
        s.changes c' = some ⟨k', some r⟩ := by
      intro c c' k k' hcc hcc'
      rcases hnew hcc' with hcc' | hcc'
      · exact hcc'
      · obtain ⟨-, hr⟩ := Change.mk.injEq .. ▸ hcc'
        obtain ⟨id, hl⟩ := hname r hr.symm
        exact absurd hl ((h.pending hcc).2 ns id)
    cases hs : s.changes cid with
    | some c =>
      obtain rfl : c = ⟨m, some r⟩ := Option.some.inj ((hkept hs).symm.trans hc)
      exact h.pending_once hs (hcross hs hc')
    | none =>
      cases hs' : s.changes cid' with
      | some c' =>
        obtain rfl : c' = ⟨m', some r⟩ := Option.some.inj ((hkept hs').symm.trans hc')
        exact (h.pending_once hs' (hcross hs' hc)).symm
      | none =>
        exact hone hs (fun hn => nomatch hn.symm.trans hc) hs' fun hn => nomatch hn.symm.trans hc'
  · intro r hmem
    obtain ⟨hg, hnone⟩ := h.retired r hmem
    exact ⟨hgone hg, hnone⟩
  · intro tid token late r hl
    obtain ⟨hnotLate, hwhy⟩ := h.found hl
    refine ⟨hnotLate, ?_⟩
    rcases hwhy with ⟨id, hlive'⟩ | hg
    · by_cases hm : r.nsName = ns
      · rw [hm] at hlive' ⊢
        exact .inr (hgoneOld hlive')
      · exact .inl ⟨id, (hrw.elsewhere hm hlive').1⟩
    · exact .inr (hgone hg)
  · exact h.late
  · exact h.replies

lemma Tracked.unchanged (ht : Represents t R)
    {drawn : List Bytes} (hsub : ∀ raw ∈ s.drawn, raw ∈ drawn) :
    Tracked { s with manager := { s.manager with table := t }, drawn := drawn } R :=
  { h with
    table := ht
    drawn _ _ _ hl := hsub _ (h.drawn hl)
    pending _ _ _ hc := ⟨hsub _ (h.pending hc).1, (h.pending hc).2⟩
    retired raw hmem := ⟨⟨hsub _ (h.retired raw hmem).1.1, (h.retired raw hmem).1.2⟩,
      (h.retired raw hmem).2⟩
    found _ _ _ _ hl := ⟨(h.found hl).1, (h.found hl).2.imp_right fun hg => ⟨hsub _ hg.1, hg.2⟩⟩ }

omit h

lemma freshToken_iff :
    s.freshToken token = true ↔ token.bytes ∉ s.drawn ∧ nextIdOf s.manager.table + 1 < u64 := by
  simp [freshToken]

include h

lemma Tracked.add (requirepass ns : Bytes)
    (outcomes : List Bool) (hfresh : s.freshToken token = true) :
    ∃ R', (s.step requirepass (.add ns token outcomes)).Tracked R' := by
  rw [freshToken_iff] at hfresh
  obtain ⟨R', ht, rfl | ⟨hns, -, hrw⟩⟩ :=
    h.table.add (add_effect requirepass outcomes ns token _) (h.table.nextId ▸ hfresh.2)
  · exact ⟨R', h.unchanged ht fun _ hmem => mem_cons_of_mem _ hmem⟩
  · refine ⟨R', h.rewrite ht hrw ?_ (fun _ _ hc => hc) (fun _ _ hc => .inl hc) ?_ ?_⟩
    · rintro _ ⟨⟩
      exact hfresh.1
    · exact fun _ _ hn hs => absurd hn hs
    · exact fun _ _ hl => nomatch hns.symm.trans hl

lemma Tracked.committed {cid : Nat} (hcid : s.changes cid = none) {R' : Registry Bytes Bytes}
    (ht : Represents t R') {ns : Bytes} {raw : Option Bytes} (hrw : Represents.Rewrites ns raw R R')
    (hfresh : ∀ r, raw = some r → r ∉ s.drawn) :
    Tracked { s.committed cid ns (true, t) with drawn := raw.toList ++ s.drawn } R' := by
  apply h.rewrite ht hrw hfresh
  · intro cid' c hc
    show Function.update s.changes cid _ cid' = some c
    rw [update_of_ne, hc]
    rintro rfl
    exact nomatch hcid.symm.trans hc
  · intro cid' c hc
    change Function.update s.changes cid _ cid' = some c at hc
    by_cases heq : cid' = cid
    · rw [heq, update_self] at hc
      exact .inr (Option.some.inj hc).symm
    · rw [update_of_ne heq] at hc
      exact .inl hc
  · -- only `cid` is a new change
    have hcid' : ∀ ⦃c⦄, s.changes c = none → (s.committed cid ns (true, t)).changes c ≠ none →
        c = cid := by
      intro c hn hs
      by_contra hne
      change Function.update s.changes cid _ c ≠ none at hs
      rw [update_of_ne hne] at hs
      exact hs hn
    exact fun c c' hn hs hn' hs' => (hcid' hn hs).trans (hcid' hn' hs').symm
  · intro old id hl
    refine ⟨cid, ?_⟩
    show Function.update s.changes cid _ cid = _
    rw [update_self, h.table.name, hl]
    rfl

lemma Tracked.commitSet (requirepass : Bytes) (cid : Nat) (ns : Bytes)
    (outcomes : List Bool) (hfresh : s.freshToken token = true) :
    ∃ R', (s.commitSet requirepass cid ns token outcomes).Tracked R' := by
  rw [freshToken_iff] at hfresh
  unfold Race.commitSet
  split
  · exact ⟨R, h⟩
  rename_i hcid
  have heff := set_effect requirepass outcomes ns token s.manager.table
  generalize NamespaceStorage.set requirepass outcomes ns token s.manager.table = result at *
  obtain ⟨ok, t⟩ := result
  obtain ⟨R', ht, ⟨rfl, hsame⟩ | ⟨rfl, -, hrw⟩⟩ := h.table.set heff (h.table.nextId ▸ hfresh.2)
  · cases ok with
    | false => exact ⟨R', h.unchanged ht fun _ hmem => mem_cons_of_mem _ hmem⟩
    | true =>
      -- the name has the token already, which was drawn just now
      obtain ⟨id, hl⟩ := hsame rfl
      exact absurd (h.drawn hl) hfresh.1
  · refine ⟨R', h.committed hcid ht hrw ?_⟩
    rintro _ ⟨⟩
    exact hfresh.1

lemma Tracked.commitDel (cid : Nat) (ns : Bytes) (outcomes : List Bool) :
    ∃ R', (s.commitDel cid ns outcomes).Tracked R' := by
  unfold Race.commitDel
  split
  · exact ⟨R, h⟩
  rename_i hcid
  have heff := del_effect outcomes ns s.manager.table
  generalize NamespaceStorage.del outcomes ns s.manager.table = result at *
  obtain ⟨ok, t⟩ := result
  obtain ⟨R', ht, ⟨rfl, rfl⟩ | ⟨rfl, -, hrw⟩⟩ := h.table.del heff
  · exact ⟨R', h.unchanged ht fun _ hmem => hmem⟩
  · exact ⟨R', h.committed hcid ht hrw nofun⟩

/-- The change is finished with its entry, and those of other names keep their reasons. -/
theorem Tracked.removeCache (cid : Nat) : (s.removeCache cid).Tracked R := by
  unfold Race.removeCache
  split
  · exact h
  rename_i c hc
  obtain ⟨ns, old⟩ := c
  have hcoherent : s.manager.Coherent := by
    intro raw ref href
    obtain ⟨md, hmd, htok, hentry, -⟩ := h.cached href
    exact ⟨md, hmd, htok, hentry⟩
  have hchanges : ∀ ⦃cid' c'⦄, Function.update s.changes cid none cid' = some c' →
      cid' ≠ cid ∧ s.changes cid' = some c' := by
    intro cid' c' hc'
    have hne : cid' ≠ cid := by
      rintro rfl
      rw [update_self] at hc'
      exact nomatch hc'
    rw [update_of_ne hne] at hc'
    exact ⟨hne, hc'⟩
  constructor
  · exact (s.manager.removeMetadata_table ns).symm ▸ h.table
  · exact h.drawn
  · intro raw ref href
    obtain ⟨md, hin, hmd, htok, hne, hentry⟩ := hcoherent.of_mem_removeMetadata href
    refine ⟨md, (s.manager.removeMetadata_deref ns ref).trans hmd, htok, hentry, ?_⟩
    obtain ⟨md₀, hmd₀, -, -, hwhy⟩ := h.cached hin
    obtain rfl : md = md₀ := Option.some.inj (hmd.symm.trans hmd₀)
    refine hwhy.imp_right fun ⟨cid', hc'⟩ => ⟨cid', ?_⟩
    show Function.update s.changes cid none cid' = _
    rw [update_of_ne, hc']
    rintro rfl
    obtain ⟨hns, -⟩ := Change.mk.injEq .. ▸ Option.some.inj (hc'.symm.trans hc)
    exact hne hns
  · exact fun cid' m raw hc' => h.pending (hchanges hc').2
  · exact fun c c' m m' raw hc hc' => h.pending_once (hchanges hc).2 (hchanges hc').2
  · intro raw hmem
    rcases mem_append.mp hmem with hnew | hold
    · -- the token this change retires
      obtain rfl : old = some raw := by simpa using hnew
      refine ⟨h.pending hc, ?_⟩
      by_contra hne
      obtain ⟨ref, href⟩ := ne_none_iff_exists'.mp hne
      obtain ⟨md, hin, hmd, -, hother, -⟩ := hcoherent.of_mem_removeMetadata href
      obtain ⟨md₀, hmd₀, -, -, ⟨id, hl⟩ | ⟨cid', hc'⟩⟩ := h.cached hin
      · exact (h.pending hc).2 _ id hl
      · obtain rfl : md = md₀ := Option.some.inj (hmd.symm.trans hmd₀)
        obtain rfl := h.pending_once hc' hc
        obtain ⟨hns, -⟩ := Change.mk.injEq .. ▸ Option.some.inj (hc'.symm.trans hc)
        exact hother hns
    · obtain ⟨hgone, hnone⟩ := h.retired raw hold
      refine ⟨hgone, ?_⟩
      by_contra hne
      obtain ⟨ref, href⟩ := ne_none_iff_exists'.mp hne
      obtain ⟨md, hin, -⟩ := hcoherent.of_mem_removeMetadata href
      exact nomatch hnone.symm.trans hin
  · exact h.found
  · exact fun tid token found hl => mem_append_right _ (h.late hl)
  · exact h.replies

theorem Tracked.step (requirepass : Bytes) {i : Input}
    (hsafe : s.unraced i = true) : ∃ R', (s.step requirepass i).Tracked R' := by
  cases i with
  | lookupCache tid token => exact ⟨R, h.lookupCache tid token⟩
  | readStorage tid outcomes => exact ⟨R, h.readStorage requirepass tid outcomes⟩
  | insertCache tid => exact ⟨R, h.insertCache hsafe⟩
  | add ns token outcomes => exact h.add requirepass ns outcomes hsafe
  | commitSet cid ns token outcomes => exact h.commitSet requirepass cid ns outcomes hsafe
  | commitDel cid ns outcomes => exact h.commitDel cid ns outcomes
  | removeCache cid => exact ⟨R, h.removeCache cid⟩

end Race

/-- **A retired token is not found again**, in every interleaving in which no lookup publishes an
object for a token that is not registered any more, or over the entry of another object. -/
theorem retired_token_not_found (requirepass : Bytes) (h : List Race.Input) (s : Race)
    (hr : GuardedRun (Race.step requirepass) (fun _ s i => s.unraced i = true) Race.start h s) :
    ∀ reply ∈ s.replies, reply.late = true → reply.ref = none := by
  have hinv : ∃ R, s.Tracked R := by
    apply hr.invariant fun _ s => ∃ R, s.Tracked R
    · exact ⟨_, Race.tracked_start⟩
    · rintro _ s i ⟨R, hs⟩ hsafe
      exact hs.step requirepass hsafe
  obtain ⟨R, hs⟩ := hinv
  exact hs.replies

/-- A token is looked up and cached, its namespace is deleted, and it is looked up again. -/
def deletedLookup (token : NamespaceToken) : List Race.Input :=
  [.add (ascii "a") token [], .lookupCache 0 token, .readStorage 0 [], .insertCache 0,
    .commitDel 0 (ascii "a") [], .removeCache 0, .lookupCache 1 token, .readStorage 1 []]

theorem deleted_token_not_found :
    let token := NamespaceToken.generateRandomToken (List.replicate 16 7)
    let s := (deletedLookup token).foldl (Race.step (ascii "admin")) Race.start
    s.replies.map (fun reply => (reply.late, reply.ref)) = [(true, none), (false, some 0)] ∧
      ∀ reply ∈ s.replies, reply.late = true → reply.ref = none := by
  refine ⟨by decide +kernel, ?_⟩
  exact retired_token_not_found (ascii "admin") _ _ (.of_checked (by decide +kernel))

/-- The lookup reads the records before DEL commits and publishes after DEL has returned. -/
def overtakenLookup (token : NamespaceToken) : List Race.Input :=
  [.add (ascii "a") token [], .lookupCache 0 token, .readStorage 0 [],
    .commitDel 0 (ascii "a") [], .removeCache 0, .insertCache 0, .lookupCache 1 token]

/-- The old token stays in the cache when a lookup is overtaken. -/
theorem overtaken_lookup_revives_token :
    let token := NamespaceToken.generateRandomToken (List.replicate 16 7)
    ∃ reply ∈ ((overtakenLookup token).foldl (Race.step (ascii "admin")) Race.start).replies,
      reply.late = true ∧ reply.ref ≠ none := by
  decide +kernel

end EloqKV
