/-
  FLUSHDB of a namespace while other connections queue commands and execute transactions
  (`RedisServiceImpl::ExecuteFlushDBCommand`, `DispatchCommand`, `MultiTransactionHandler::Run`).

  FLUSHDB removes nothing: it reads the epoch of the metadata object its connection holds, runs a
  transaction on the records and stores the epoch it has read plus one, in the record of the
  namespace and in that object.  A new token takes the object out of the cache, and the next AUTH
  makes another one from the record.  A command is bound to the prefix of its connection's object
  when it is dispatched; inside MULTI that is when it is queued, and only a retry of EXEC binds it
  again.

  The state carries its own account of what a client may expect: `log n` lists all writes that
  commands of namespace `n` made since the last FLUSHDB of `n` completed, the newest first.  A
  command counts for the time it was dispatched, a transaction of MULTI for the time EXEC was.
-/
import EloqKV.Lib.KeyedPrograms
import EloqKV.Lib.Runs
import EloqKV.Namespace.KeyCodec

open EloqKV.Lib List Function

namespace EloqKV

/-! ## Connections and transactions -/

/-- A command bound to the prefix that all its keys get. -/
structure BoundCommand (V : Type) where
  nsId : Bytes
  prog : KeyProg Bytes V Unit

/-- A command of a transaction; `since` counts the FLUSHDBs completed at its dispatch. -/
structure TxItem (V : Type) extends BoundCommand V where
  ns : Nat
  since : Nat

inductive Phase (V : Type) where
  | idle
  /-- Between MULTI and EXEC. -/
  | multi (queue : List (BoundCommand V))
  /-- Between BEGIN and COMMIT. -/
  | interactive (items : List (TxItem V))
  /-- A single command, or COMMIT, whose transaction has not ended. -/
  | committing (items : List (TxItem V))
  /-- EXEC, dispatched under `nsId` after `since` FLUSHDBs, attempting the requests `reqs`. -/
  | exec (nsId : Bytes) (since : Nat) (reqs : List (BoundCommand V))
  /-- FLUSHDB has read the epoch `old`. -/
  | flushing (old : Nat)

/-- A metadata object, by the id of its namespace and the tokens the namespace had before. -/
structure MetaObject where
  ns : Nat
  gen : Nat

/-- A connection that has authenticated for a namespace, with `ctx->ns_meta`. -/
structure TenantConn (V : Type) where
  ref : MetaObject
  phase : Phase V

/-- Table, epochs and connections; `flushes` and `log` are the account of the history. -/
structure Tenants (V : Type) where
  records : Records Bytes V
  /-- The record `e:` of a namespace. -/
  stored : Nat → Nat
  /-- The tokens a namespace had before the one it has. -/
  gen : Nat → Nat
  /-- Whether the cache has the metadata object of the present token. -/
  cached : Nat → Bool
  deleted : Nat → Bool
  /-- The epochs in the metadata objects. -/
  epoch : Nat → Nat → Nat
  conns : Nat → Option (TenantConn V)
  flushes : Nat → Nat
  log : Nat → List (Bytes × Option V)

/-- What a connection does next, with the outcome of the transaction it waits for. -/
inductive TenantAct (V : Type) where
  | auth (ns : Nat)
  | multi
  | begin
  | command (prog : KeyProg Bytes V Unit)
  | exec
  | discard
  | commit
  | rollback
  | flushdb
  /-- The transaction of a command, of COMMIT or of FLUSHDB commits. -/
  | done
  /-- An attempt of EXEC commits, having run the requests in this order. -/
  | executed (order : List Nat)
  /-- An attempt of EXEC ends with a conflict and is retried. -/
  | conflict
  | failed
  /-- An administrator gives the namespace `n` a new token, or deletes it. -/
  | refresh (n : Nat)
  | del (n : Nat)

namespace Tenants

variable {V : Type}

def start : Tenants V where
  records := []
  stored _ := 1
  gen _ := 0
  cached _ := false
  deleted _ := false
  epoch _ _ := 1
  conns _ := none
  flushes _ := 0
  log _ := []

section
variable (s : Tenants V)

/-- `live_meta && live_meta == ctx->ns_meta`. -/
def live (r : MetaObject) : Bool :=
  s.cached r.ns && s.gen r.ns = r.gen

/-- The prefix `DispatchCommand` gives a connection; one whose metadata object is not in the cache
any more is moved to the default namespace. -/
def nsId (r : MetaObject) : Bytes :=
  if s.live r then makePrefix (b255e r.ns) (s.epoch r.ns r.gen) else []

def put (c : Nat) (conn : TenantConn V) : Tenants V :=
  { s with conns := update s.conns c (some conn) }

/-- Runs one command; its writes are entered unless the namespace was flushed since.  What is
bound to the default namespace goes to other tables. -/
def runItem (x : TxItem V) : Tenants V :=
  if x.nsId = [] then s
  else
    let phys := composeNamespaceKey x.nsId
    { s with
      records := (x.prog.run phys s.records).records
      log :=
        if s.flushes x.ns = x.since then
          update s.log x.ns (x.prog.written phys s.records ++ s.log x.ns)
        else s.log }

/-- The end of FLUSHDB: the epoch is stored in the record and in the connection's object. -/
def flushDone (r : MetaObject) (old : Nat) : Tenants V :=
  { s with
    stored := update s.stored r.ns ((old + 1) % u64)
    epoch := update s.epoch r.ns (update (s.epoch r.ns) r.gen ((old + 1) % u64))
    flushes := update s.flushes r.ns (s.flushes r.ns + 1)
    log := update s.log r.ns [] }

/-- `GetMetadataByToken` with the present token: the object in the cache, or a new one. -/
def load (n : Nat) : Tenants V :=
  if s.cached n then s
  else
    { s with
      cached := update s.cached n true
      epoch := update s.epoch n (update (s.epoch n) (s.gen n) (s.stored n)) }

/-- AUTH in a phase that it does not end. -/
def auth (c n : Nat) (p : Phase V) : Tenants V :=
  if n < u64 ∧ s.deleted n = false then (s.load n).put c ⟨⟨n, s.gen n⟩, p⟩ else s

/-- `NamespaceManager::Set` with a new token: `RemoveMetadata`. -/
def refresh (n : Nat) : Tenants V :=
  { s with gen := update s.gen n (s.gen n + 1), cached := update s.cached n false }

/-- `NamespaceManager::Del`; the id is not used again. -/
def del (n : Nat) : Tenants V :=
  { s.refresh n with deleted := update s.deleted n true }

/-- A command as `DispatchCommand` binds it now. -/
def bind (r : MetaObject) (prog : KeyProg Bytes V Unit) : BoundCommand V :=
  ⟨s.nsId r, prog⟩

def item (r : MetaObject) (prog : KeyProg Bytes V Unit) : TxItem V :=
  ⟨s.bind r prog, r.ns, s.flushes r.ns⟩

def actIdle (c : Nat) (r : MetaObject) : TenantAct V → Tenants V
  | .auth m => s.auth c m .idle
  | .multi => s.put c ⟨r, .multi []⟩
  | .begin => s.put c ⟨r, .interactive []⟩
  | .command prog => s.put c ⟨r, .committing [s.item r prog]⟩
  | .flushdb => if s.live r then s.put c ⟨r, .flushing (s.epoch r.ns r.gen)⟩ else s
  | _ => s

/-- `MultiTransactionHandler::Run`: commands are parsed, and so bound, when they are queued. -/
def actMulti (c : Nat) (r : MetaObject) (queue : List (BoundCommand V)) : TenantAct V → Tenants V
  | .command prog => s.put c ⟨r, .multi (queue ++ [s.bind r prog])⟩
  | .discard => s.put c ⟨r, .idle⟩
  | .exec => s.put c ⟨r, .exec (s.nsId r) (s.flushes r.ns) queue⟩
  | _ => s

/-- After BEGIN; FLUSHDB is refused here. -/
def actInteractive (c : Nat) (r : MetaObject) (items : List (TxItem V)) : TenantAct V → Tenants V
  | .auth m => s.auth c m (.interactive items)
  | .command prog => s.put c ⟨r, .interactive (items ++ [s.item r prog])⟩
  | .commit => s.put c ⟨r, .committing items⟩
  | .rollback => s.put c ⟨r, .idle⟩
  | _ => s

/-- Waiting for the transaction of a command or of COMMIT. -/
def actCommitting (c : Nat) (r : MetaObject) (items : List (TxItem V)) : TenantAct V → Tenants V
  | .done => (items.foldl runItem s).put c ⟨r, .idle⟩
  | .failed => s.put c ⟨r, .idle⟩
  | _ => s

/-- An attempt of EXEC: requests may be sorted, and are parsed again before a retry. -/
def actExec (c : Nat) (r : MetaObject) (nsId : Bytes) (since : Nat) (reqs : List (BoundCommand V)) :
    TenantAct V → Tenants V
  | .executed order =>
    if order.Perm (List.range reqs.length) then
      let items := (order.filterMap fun i => reqs[i]?).map fun b => ⟨b, r.ns, since⟩
      (items.foldl runItem s).put c ⟨r, .idle⟩
    else s
  | .conflict =>
    s.put c ⟨r, .exec nsId since (reqs.map fun b => { b with nsId := nsId })⟩
  | .failed => s.put c ⟨r, .idle⟩
  | _ => s

/-- Waiting for the transaction of FLUSHDB. -/
def actFlushing (c : Nat) (r : MetaObject) (old : Nat) : TenantAct V → Tenants V
  | .done => (s.flushDone r old).put c ⟨r, .idle⟩
  | .failed => s.put c ⟨r, .idle⟩
  | _ => s

def act (c : Nat) (r : MetaObject) (p : Phase V) (a : TenantAct V) : Tenants V :=
  match p with
  | .idle => s.actIdle c r a
  | .multi queue => s.actMulti c r queue a
  | .interactive items => s.actInteractive c r items a
  | .committing items => s.actCommitting c r items a
  | .exec nsId since reqs => s.actExec c r nsId since reqs a
  | .flushing old => s.actFlushing c r old a

end

def actConn (s : Tenants V) (c : Nat) (a : TenantAct V) : Tenants V :=
  match s.conns c, a with
  | some ⟨r, p⟩, a => s.act c r p a
  | none, .auth n => s.auth c n .idle
  | none, _ => s

/-- A step of the system: connection `i.1` acts, or an administrator. -/
def step (s : Tenants V) (i : Nat × TenantAct V) : Tenants V :=
  match i.2 with
  | .refresh n => s.refresh n
  | .del n => s.del n
  | a => s.actConn i.1 a

/-- The epoch of the metadata object that a client of the namespace gets now. -/
def epochNow (s : Tenants V) (n : Nat) : Nat :=
  if s.cached n then s.epoch n (s.gen n) else s.stored n

/-- What a command of namespace `n` that is dispatched now finds under a key. -/
def view (s : Tenants V) (n : Nat) (k : Bytes) : Option V :=
  s.records.lookup (composeNamespaceKey (makePrefix (b255e n) (s.epochNow n)) k)

/-- An EXEC commits with requests that are bound to the prefix its connection had when it was
dispatched.  A FLUSHDB completes only where the record has still the epoch it has read (and the
next one is below `2 ^ 64`), and no other metadata object than its connection's is in use. -/
def timely (s : Tenants V) (i : Nat × TenantAct V) : Bool :=
  match s.conns i.1, i.2 with
  | some ⟨_, .exec nsId _ reqs⟩, .executed _ => reqs.all fun b => b.nsId = nsId
  | some ⟨r, .flushing old⟩, .done =>
    s.stored r.ns = old && decide (old + 1 < u64) && (!s.cached r.ns || s.gen r.ns = r.gen)
  | _, _ => true

/-! ## The invariant -/

variable {s : Tenants V} {n : Nat} {k : Bytes}

/-- A prefix the namespace has or had, `since` flushes after its creation, or that of the default
namespace. -/
def PrefixSince (s : Tenants V) (n since : Nat) (nsId : Bytes) : Prop :=
  nsId = [] ∨ n < u64 ∧ since ≤ s.flushes n ∧ nsId = makePrefix (b255e n) (since + 1)

/-- Every command in the hands of a connection is bound to a prefix of its namespace: outside
EXEC to the one at its dispatch, and EXEC itself to the one at its own. -/
def PhaseOk (s : Tenants V) (n : Nat) : Phase V → Prop
  | .idle | .flushing _ => True
  | .multi queue => ∀ b ∈ queue, ∃ since, s.PrefixSince n since b.nsId
  | .interactive items | .committing items => ∀ x ∈ items, s.PrefixSince x.ns x.since x.nsId
  | .exec nsId since reqs =>
    s.PrefixSince n since nsId ∧ ∀ b ∈ reqs, ∃ since', s.PrefixSince n since' b.nsId

/-- The records of the namespaces and the object in use agree on the epoch, the stored records are
those of the account, and nothing is stored under later epochs. -/
structure Stored (s : Tenants V) : Prop where
  stored_eq : ∀ n, s.stored n = s.flushes n + 1
  stored_lt : ∀ n, s.stored n < u64
  cached_eq : ∀ n, s.cached n = true → s.epoch n (s.gen n) = s.stored n
  visible : ∀ {n k}, n < u64 →
    s.records.lookup (makePrefix (b255e n) (s.stored n) ++ k) = overlay (s.log n) (fun _ => none) k
  unused : ∀ {n e k}, n < u64 → s.stored n < e → e < u64 →
    s.records.lookup (makePrefix (b255e n) e ++ k) = none

structure Consistent (s : Tenants V) : Prop extends Stored s where
  conns_ok : ∀ {c conn}, s.conns c = some conn →
    conn.ref.ns < u64 ∧ s.PhaseOk conn.ref.ns conn.phase

variable {s' : Tenants V}

lemma PrefixSince.mono (hle : ∀ n, s.flushes n ≤ s'.flushes n) {since : Nat}
    {nsId : Bytes} (h : s.PrefixSince n since nsId) : s'.PrefixSince n since nsId :=
  h.imp_right fun h => ⟨h.1, Nat.le_trans h.2.1 (hle n), h.2.2⟩

/-! ## Transactions -/

/-- A queued write stores under its own prefix, so it is visible if that is still the current one.
-/
lemma Stored.runItem (h : Stored s) {x : TxItem V} (hx : s.PrefixSince x.ns x.since x.nsId) :
    Stored (s.runItem x) := by
  unfold Tenants.runItem
  split
  · exact h
  next hdefault =>
  obtain ⟨hn, hle, hid⟩ := hx.resolve_left hdefault
  have hlt : x.since + 1 < u64 := by
    have hstored := h.stored_lt x.ns
    rw [h.stored_eq] at hstored
    omega
  have hphys : composeNamespaceKey x.nsId = (makePrefix (b255e x.ns) (x.since + 1) ++ ·) := by
    funext key
    rw [hid, composeNamespaceKey_makePrefix]
  -- a physical key of another namespace or epoch is not touched
  have hother : ∀ {m e : Nat} {key : Bytes}, m < u64 → e < u64 → ¬ (x.ns = m ∧ x.since + 1 = e) →
      (x.prog.run (composeNamespaceKey x.nsId) s.records).records.lookup
          (makePrefix (b255e m) e ++ key) =
        s.records.lookup (makePrefix (b255e m) e ++ key) := by
    intro m e key hm he hne
    refine KeyProg.lookup_run_of_ne _ (fun key' heq => hne ?_) _ _
    rw [hphys] at heq
    obtain ⟨h₁, h₂, -⟩ := makePrefix_append_inj hn hlt hm he heq
    exact ⟨h₁, h₂⟩
  refine ⟨h.stored_eq, h.stored_lt, h.cached_eq, ?_, ?_⟩
  · intro m key hm
    have hstored := h.stored_eq m
    by_cases hcur : x.ns = m ∧ x.since + 1 = s.stored m
    · obtain ⟨rfl, hsince⟩ := hcur
      have hflush : s.flushes x.ns = x.since := by omega
      have hinj : Function.Injective (composeNamespaceKey x.nsId) := by
        rw [hphys]
        exact fun a b hab => append_cancel_left hab
      have hrun := congrFun (KeyProg.lookup_run _ hinj x.prog s.records) key
      have hbase : overlay (s.log x.ns) (fun _ => none) =
          fun k => s.records.lookup (composeNamespaceKey x.nsId k) := by
        funext k
        rw [← h.visible hm, ← hsince, hphys]
      simp only [if_pos hflush, update_self]
      rw [overlay_append, hbase, ← hrun, ← hsince, hphys]
    · have hlog : (if s.flushes x.ns = x.since then
            update s.log x.ns (x.prog.written (composeNamespaceKey x.nsId) s.records ++ s.log x.ns)
          else s.log) m = s.log m := by
        split
        · by_cases hm' : m = x.ns
          · subst hm'
            exact absurd ⟨rfl, by omega⟩ hcur
          · rw [update_of_ne hm']
        · rfl
      simp only [hlog]
      rw [← h.visible hm]
      exact hother hm (h.stored_lt m) hcur
  · intro m e key hm hlater he
    refine (hother hm he ?_).trans (h.unused hm hlater he)
    rintro ⟨rfl, rfl⟩
    have hstored := h.stored_eq x.ns
    change s.stored x.ns < _ at hlater
    omega

lemma runItem_frame (s : Tenants V) (x : TxItem V) :
    (s.runItem x).flushes = s.flushes ∧ (s.runItem x).conns = s.conns := by
  unfold runItem
  split <;> exact ⟨rfl, rfl⟩

lemma runItems_flushes (items : List (TxItem V)) (s : Tenants V) :
    (items.foldl runItem s).flushes = s.flushes ∧ (items.foldl runItem s).conns = s.conns := by
  induction items generalizing s with
  | nil => exact ⟨rfl, rfl⟩
  | cons x xs ih =>
    obtain ⟨hflushes, hconns⟩ := s.runItem_frame x
    rw [← hflushes, ← hconns]
    exact ih (s.runItem x)

lemma Stored.runItems (items : List (TxItem V)) :
    ∀ {s : Tenants V}, Stored s → (∀ x ∈ items, s.PrefixSince x.ns x.since x.nsId) →
      Stored (items.foldl Tenants.runItem s) := by
  induction items with
  | nil =>
    intro s h _
    exact h
  | cons x xs ih =>
    intro s h hx
    have hle : ∀ n, s.flushes n ≤ (s.runItem x).flushes n :=
      fun n => Nat.le_of_eq (by rw [(s.runItem_frame x).1])
    exact ih (h.runItem (hx x mem_cons_self)) fun y hy => (hx y (mem_cons_of_mem _ hy)).mono hle

/-- Nothing is stored under the next epoch, so the account starts from nothing there. -/
lemma Stored.flushDone (h : Stored s) {r : MetaObject} (hroom : s.stored r.ns + 1 < u64)
    (hlive : s.cached r.ns = true → s.gen r.ns = r.gen) :
    Stored (s.flushDone r (s.stored r.ns)) := by
  have hmod : (s.stored r.ns + 1) % u64 = s.stored r.ns + 1 := Nat.mod_eq_of_lt hroom
  have hstored : ∀ m, (s.flushDone r (s.stored r.ns)).stored m =
      if m = r.ns then s.stored r.ns + 1 else s.stored m := by
    intro m
    change update s.stored r.ns ((s.stored r.ns + 1) % u64) m = _
    rw [hmod, update_apply]
  refine ⟨?_, ?_, ?_, ?_, ?_⟩
  · intro m
    rw [hstored]
    change _ = update s.flushes r.ns (s.flushes r.ns + 1) m + 1
    rw [update_apply]
    split
    · rw [h.stored_eq r.ns]
    · exact h.stored_eq m
  · intro m
    rw [hstored]
    split
    · exact hroom
    · exact h.stored_lt m
  · intro m hm
    rw [hstored]
    change update s.epoch r.ns (update (s.epoch r.ns) r.gen ((s.stored r.ns + 1) % u64)) m
      (s.gen m) = _
    by_cases hmn : m = r.ns
    · subst hmn
      rw [if_pos rfl, update_self, hlive hm, update_self, hmod]
    · rw [if_neg hmn, update_of_ne hmn]
      exact h.cached_eq m hm
  · intro m key hm
    rw [hstored]
    change s.records.lookup _ = overlay (update s.log r.ns [] m) _ _
    by_cases hmn : m = r.ns
    · subst hmn
      rw [if_pos rfl, update_self]
      exact h.unused hm (Nat.lt_succ_self _) hroom
    · rw [if_neg hmn, update_of_ne hmn, ← h.visible hm]
  · intro m e key hm hlater he
    rw [hstored] at hlater
    refine h.unused hm (Nat.lt_of_le_of_lt ?_ hlater) he
    split
    · rename_i heq
      exact heq ▸ Nat.le_succ _
    · exact Nat.le_refl _

/-- A metadata object that is made of the record agrees with it. -/
lemma Stored.load (h : Stored s) (n : Nat) : Stored (s.load n) := by
  unfold Tenants.load
  split
  · exact h
  · refine ⟨h.stored_eq, h.stored_lt, fun m hm => ?_, h.visible, h.unused⟩
    change update s.epoch n (update (s.epoch n) (s.gen n) (s.stored n)) m (s.gen m) = s.stored m
    by_cases hmn : m = n
    · subst hmn
      rw [update_self, update_self]
    · rw [update_of_ne hmn]
      refine h.cached_eq m ?_
      have hcached : update s.cached n true m = true := hm
      rwa [update_of_ne hmn] at hcached

lemma load_frame (s : Tenants V) (n : Nat) :
    (s.load n).flushes = s.flushes ∧ (s.load n).conns = s.conns := by
  unfold load
  split <;> exact ⟨rfl, rfl⟩

/-- After a new token no object of the namespace is in use. -/
lemma Stored.refresh (h : Stored s) (n : Nat) : Stored (s.refresh n) := by
  refine ⟨h.stored_eq, h.stored_lt, fun m hm => ?_, h.visible, h.unused⟩
  have hcached : update s.cached n false m = true := hm
  have hmn : m ≠ n := by
    rintro rfl
    rw [update_self] at hcached
    cases hcached
  rw [update_of_ne hmn] at hcached
  change s.epoch m (update s.gen n (s.gen n + 1) m) = s.stored m
  rw [update_of_ne hmn]
  exact h.cached_eq m hcached

/-! ## Connections -/

lemma PhaseOk.mono (hle : ∀ n, s.flushes n ≤ s'.flushes n) {p : Phase V}
    (h : s.PhaseOk n p) : s'.PhaseOk n p := by
  cases p with
  | idle => trivial
  | flushing old => trivial
  | multi queue => exact fun b hb => (h b hb).imp fun _ => .mono hle
  | interactive items => exact fun x hx => (h x hx).mono hle
  | committing items => exact fun x hx => (h x hx).mono hle
  | exec nsId since reqs =>
    exact ⟨h.1.mono hle, fun b hb => (h.2 b hb).imp fun _ => .mono hle⟩

lemma Stored.prefixSince_nsId (h : Stored s) {r : MetaObject} (hn : r.ns < u64) :
    s.PrefixSince r.ns (s.flushes r.ns) (s.nsId r) := by
  unfold nsId
  split
  next hlive =>
    obtain ⟨hcached, hgen⟩ : s.cached r.ns = true ∧ s.gen r.ns = r.gen := by
      simpa [live] using hlive
    rw [← hgen, h.cached_eq r.ns hcached, h.stored_eq]
    exact .inr ⟨hn, Nat.le_refl _, rfl⟩
  · exact .inl rfl

variable (h : Consistent s)
include h

variable {conn : TenantConn V}

/-- The connections of a state whose flushes are not fewer. -/
lemma Consistent.of_stored (h' : Stored s') (hle : ∀ n, s.flushes n ≤ s'.flushes n)
    (hconns : s'.conns = s.conns) : Consistent s' where
  toStored := h'
  conns_ok := by
    intro c conn hc
    rw [hconns] at hc
    obtain ⟨hn, hok⟩ := h.conns_ok hc
    exact ⟨hn, hok.mono hle⟩

lemma Consistent.put {c : Nat} (hn : conn.ref.ns < u64)
    (hok : s.PhaseOk conn.ref.ns conn.phase) : Consistent (s.put c conn) where
  toStored := ⟨h.stored_eq, h.stored_lt, h.cached_eq, h.visible, h.unused⟩
  conns_ok := by
    intro c' conn' hc'
    change update s.conns c (some conn) c' = some conn' at hc'
    by_cases heq : c' = c
    · subst heq
      rw [update_self] at hc'
      cases hc'
      exact ⟨hn, hok⟩
    · rw [update_of_ne heq] at hc'
      exact h.conns_ok hc'

variable {items : List (TxItem V)}

lemma Consistent.committed {c : Nat} {r : MetaObject} (hn : r.ns < u64)
    (hitems : ∀ x ∈ items, s.PrefixSince x.ns x.since x.nsId) :
    Consistent ((items.foldl runItem s).put c ⟨r, .idle⟩) := by
  obtain ⟨hflushes, hconns⟩ := runItems_flushes items s
  have hrun := h.of_stored (h.runItems items hitems)
    (fun n => Nat.le_of_eq (by rw [hflushes])) hconns
  exact hrun.put hn trivial

section
variable {c : Nat} {r : MetaObject} {a : TenantAct V}

lemma Consistent.auth {m : Nat} {p : Phase V} (hok : s.PhaseOk m p) :
    Consistent (s.auth c m p) := by
  unfold Tenants.auth
  split
  next hm =>
    obtain ⟨hflushes, hconns⟩ := s.load_frame m
    have hle : ∀ n, s.flushes n ≤ (s.load m).flushes n := fun n => Nat.le_of_eq (by rw [hflushes])
    exact (h.of_stored (h.toStored.load m) hle hconns).put hm.1 (hok.mono hle)
  · exact h

lemma Consistent.actIdle (hn : r.ns < u64) : Consistent (s.actIdle c r a) := by
  unfold Tenants.actIdle
  split
  · exact h.auth trivial
  · exact h.put hn (fun _ hb => absurd hb not_mem_nil)
  · exact h.put hn (fun _ hx => absurd hx not_mem_nil)
  · refine h.put hn fun x hx => ?_
    obtain rfl := mem_singleton.mp hx
    exact h.prefixSince_nsId hn
  · split
    · exact h.put hn trivial
    · exact h
  · exact h

lemma Consistent.actMulti (hn : r.ns < u64) {queue : List (BoundCommand V)}
    (hok : s.PhaseOk r.ns (.multi queue)) : Consistent (s.actMulti c r queue a) := by
  have hnow := h.prefixSince_nsId hn
  unfold Tenants.actMulti
  split
  · refine h.put hn fun b hb => ?_
    rcases mem_append.mp hb with hb | hb
    · exact hok b hb
    · obtain rfl := mem_singleton.mp hb
      exact ⟨_, hnow⟩
  · exact h.put hn trivial
  · exact h.put hn ⟨hnow, hok⟩
  · exact h

lemma Consistent.actInteractive (hn : r.ns < u64)
    (hok : s.PhaseOk r.ns (.interactive items)) : Consistent (s.actInteractive c r items a) := by
  unfold Tenants.actInteractive
  split
  · exact h.auth hok
  · refine h.put hn fun x hx => ?_
    rcases mem_append.mp hx with hx | hx
    · exact hok x hx
    · obtain rfl := mem_singleton.mp hx
      exact h.prefixSince_nsId hn
  · exact h.put hn hok
  · exact h.put hn trivial
  · exact h

lemma Consistent.actCommitting (hn : r.ns < u64)
    (hok : s.PhaseOk r.ns (.committing items)) : Consistent (s.actCommitting c r items a) := by
  unfold Tenants.actCommitting
  split
  · exact h.committed hn hok
  · exact h.put hn trivial
  · exact h

lemma Consistent.actExec (hn : r.ns < u64) {nsId : Bytes} {since : Nat}
    {reqs : List (BoundCommand V)} (hok : s.PhaseOk r.ns (.exec nsId since reqs))
    (hbound : (∃ order, a = .executed order) → ∀ b ∈ reqs, b.nsId = nsId) :
    Consistent (s.actExec c r nsId since reqs a) := by
  obtain ⟨hexec, hreqs⟩ := hok
  unfold Tenants.actExec
  split
  · rename_i order
    split
    · refine h.committed hn fun x hx => ?_
      obtain ⟨b, hb, rfl⟩ := mem_map.mp hx
      obtain ⟨i, -, hi⟩ := mem_filterMap.mp hb
      have hmem := mem_of_getElem? hi
      rw [hbound ⟨order, rfl⟩ b hmem]
      exact hexec
    · exact h
  · refine h.put hn ⟨hexec, fun b hb => ?_⟩
    obtain ⟨b', -, rfl⟩ := mem_map.mp hb
    exact ⟨since, hexec⟩
  · exact h.put hn trivial
  · exact h

lemma Consistent.actFlushing (hn : r.ns < u64) {old : Nat}
    (hold : a = .done → s.stored r.ns = old ∧ old + 1 < u64
      ∧ (s.cached r.ns = true → s.gen r.ns = r.gen)) :
    Consistent (s.actFlushing c r old a) := by
  unfold Tenants.actFlushing
  split
  · obtain ⟨rfl, hroom, hlive⟩ := hold rfl
    have hle : ∀ m, s.flushes m ≤ (s.flushDone r (s.stored r.ns)).flushes m := by
      intro m
      change _ ≤ update s.flushes r.ns (s.flushes r.ns + 1) m
      rw [update_apply]
      split
      · rename_i heq
        exact heq ▸ Nat.le_succ _
      · exact Nat.le_refl _
    exact (h.of_stored (h.toStored.flushDone hroom hlive) hle rfl).put hn trivial
  · exact h.put hn trivial
  · exact h

lemma Consistent.refresh (n : Nat) : Consistent (s.refresh n) :=
  h.of_stored (h.toStored.refresh n) (fun _ => Nat.le_refl _) rfl

lemma Consistent.del (n : Nat) : Consistent (s.del n) :=
  have hnew := h.toStored.refresh n
  h.of_stored ⟨hnew.stored_eq, hnew.stored_lt, hnew.cached_eq, hnew.visible, hnew.unused⟩
    (fun _ => Nat.le_refl _) rfl

end

lemma Consistent.actConn {c : Nat} {a : TenantAct V} (hg : s.timely (c, a) = true) :
    Consistent (s.actConn c a) := by
  unfold Tenants.actConn
  split
  · rename_i r p hc
    obtain ⟨hn, hok⟩ := h.conns_ok hc
    cases p with
    | idle => exact h.actIdle hn
    | multi queue => exact h.actMulti hn hok
    | interactive items => exact h.actInteractive hn hok
    | committing items => exact h.actCommitting hn hok
    | exec nsId since reqs =>
      refine h.actExec hn hok ?_
      rintro ⟨order, rfl⟩
      simpa [timely, hc] using hg
    | flushing old =>
      refine h.actFlushing hn ?_
      rintro rfl
      simp only [timely, hc, Bool.and_eq_true, Bool.or_eq_true, Bool.not_eq_true',
        decide_eq_true_eq] at hg
      refine ⟨hg.1.1, hg.1.2, fun hcached => hg.2.resolve_left ?_⟩
      rw [hcached]
      decide
  · exact h.auth trivial
  · exact h

theorem Consistent.step {i : Nat × TenantAct V} (hg : s.timely i = true) :
    Consistent (s.step i) := by
  obtain ⟨c, a⟩ := i
  unfold Tenants.step
  split
  · exact h.refresh _
  · exact h.del _
  · exact h.actConn hg

end Tenants

open Tenants

end EloqKV
