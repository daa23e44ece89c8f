/-
  The scope of script commands (`lua_interpreter.cpp`, `GenericCommand`, `EvalLua`, and the
  `ExecuteCommand` overloads they reach).

  The bthread-local `current_namespace` prefixes every `EloqKey` that is built and picks the table;
  it is the same for a script and for the connection that called it.  The context passed to
  `ExecuteCommand` carries `ns`, `ns_id`, the socket and the cursor caches; a script runs with a
  private context, of which `SetConnectionContext` fills in the database number only.

  A connection finds its handler by name and gives every command a transaction that ends with it.
  A script goes through the switch of `GenericCommand`, which knows fewer names, and all its
  commands share one transaction.  Both call the same `Parse` functions, which are parameters here
  with the programs of keyed commands, the engine's glob filter and the paging of SCAN.
-/
import EloqKV.Lib.KeyedPrograms
import EloqKV.Namespace.ScanRange

open EloqKV.Lib

namespace EloqKV.ScriptScope

/-- One table for each database of the default namespace, and one that all tenants share. -/
inductive TableName where
  | data (db : Nat)
  | nsData
  deriving DecidableEq

def redisTableName (current : Bytes) (db : Nat) : TableName :=
  if current = kDefaultNamespace ∨ current = [] then .data db else .nsData

/-- The parts of `RedisConnectionContext` that are read; `κ` and `σ` are the two kinds of cursors.
-/
structure Context (κ σ : Type) where
  dbId : Nat
  ns : Bytes
  nsId : Bytes
  socket : Bool
  findScanCursor : Nat → Option κ
  findBucketScanCursor : Nat → Option σ

/-- A SCAN: pattern, COUNT and TYPE. -/
structure ScanCommand where
  pattern : Bytes
  count : Int
  objType : Option Nat
  deriving DecidableEq

/-- Replies: those of keyed commands, of SCAN's paging and of the parsers, and those decided by the
scope.  `silent` is the reply that is never written. -/
inductive Reply (R : Type) where
  | value (r : R)
  | keys (ks : List Bytes)
  | size (n : Nat)
  | invalidCursor
  | ok
  | selectForbidden
  | selectOutOfRange
  | txEnded
  | unknown (name : String)
  | unknownInScript
  | silent
  deriving DecidableEq

/-- The program of a command: its reply, and whether it went through (`IsPassed`; a failed one is
rolled back if its transaction ends with it). -/
abbrev Prog (V R : Type) := KeyProg Bytes V (R × Bool)

/-- Parsed commands by what they take from the context and the transaction.  `plain` commands
(ECHO, PING, CLUSTER, CONFIG, PUBLISH) answer from the server alone, INFO is told how many
transactions are active.  `sort` carries whether its BY pattern is one without a star and whether
it has a STORE destination; its program is told whether to force an alphabetical sort of a set. -/
inductive Command (V κ R : Type) where
  | plain (r : R)
  | info (report : Nat → R)
  | select (db : Int)
  | keyed (prog : Prog V R)
  | zscan (cursor : Nat) (prog : Option κ → Prog V R)
  | sort (fixedBy store : Bool) (prog : Bool → Prog V R)
  | keys (pattern : Bytes)
  | scan (cursor : Nat) (cmd : ScanCommand)
  | dbsize

abbrev Db (V : Type) := TableName → Records Bytes V

/-! ## Transactions -/

/-- A transaction: whether it still runs, the tables as it sees them, and the committed ones. -/
structure Tx (V : Type) where
  isOpen : Bool
  view : Db V
  committed : Db V

namespace Tx

variable {V : Type}

/-- `NewTxm`. -/
def new (db : Db V) : Tx V :=
  ⟨true, db, db⟩

/-- `CommitTx`; one that has ended stays as it is. -/
def commit (t : Tx V) : Tx V :=
  if t.isOpen then ⟨false, t.view, t.view⟩ else t

/-- `AbortTx`. -/
def abort (t : Tx V) : Tx V :=
  if t.isOpen then ⟨false, t.committed, t.committed⟩ else t

/-- The end of a command: with `auto_commit` its transaction ends with it. -/
def finish (autoCommit passed : Bool) (t : Tx V) : Tx V :=
  if autoCommit then (if passed then t.commit else t.abort) else t

/-- The end of SORT, which commits whatever `auto_commit` is. -/
def finishSort (autoCommit passed : Bool) (t : Tx V) : Tx V :=
  if passed then t.commit else t.finish autoCommit false

end Tx

/-! ## Execution -/

section
variable {V κ σ R : Type}

/-- A command's table, reply and footprint, and the database number and transaction it leaves. -/
structure Run (V R : Type) where
  table : TableName
  reply : Reply R
  reads : Bytes → Bool
  writes : Bytes → Bool
  dbId : Nat
  tx : Tx V

/-- A command that touches no key. -/
def quiet (current : Bytes) (ctx : Context κ σ) (t : Tx V) (reply : Reply R) : Run V R :=
  ⟨redisTableName current ctx.dbId, reply, fun _ => false, fun _ => false, ctx.dbId, t⟩

/-- A request to the transaction, which refuses it once it has ended. -/
def inTx (current : Bytes) (ctx : Context κ σ) (t : Tx V) (finish : Tx V → Tx V)
    (e : Effect Bytes V (Reply R)) : Run V R :=
  let table := redisTableName current ctx.dbId
  if t.isOpen then
    ⟨table, e.reply, e.reads, e.writes, ctx.dbId,
      finish { t with view := Function.update t.view table e.records }⟩
  else quiet current ctx t .txEnded

/-- A program under a namespace: every key it builds is an `EloqKey`. -/
def runProg (current : Bytes) (ctx : Context κ σ) (t : Tx V) (finish : Bool → Tx V → Tx V)
    (prog : Prog V R) : Run V R :=
  let e := prog.run (composeNamespaceKey current) (t.view (redisTableName current ctx.dbId))
  inTx current ctx t (finish e.reply.2) ⟨.value e.reply.1, e.records, e.reads, e.writes⟩

def scanned (reply : Reply R) (s : Records Bytes V) (r : KeyRange) : Effect Bytes V (Reply R) :=
  ⟨reply, s, r.contains, fun _ => false⟩

/-- The records of a range, under the keys the client sees. -/
def rangeRecords (ns : Bytes) (r : KeyRange) (s : Records Bytes V) : List (Bytes × V) :=
  (s.filter fun x => r.contains x.1).map fun x => (userKey ns x.1, x.2)

/-- KEYS: the engine filters the range by the namespaced pattern. -/
def runKeys (pushdown : Bytes → Bytes → Bool) (ns pattern : Bytes) (s : Records Bytes V) :
    Effect Bytes V (Reply R) :=
  let r := scanRange ns pattern
  let hits := s.filter fun x => r.contains x.1 && pushdown (composeNamespaceKey ns pattern) x.1
  scanned (.keys (hits.map fun x => userKey ns x.1)) s r

/-- SCAN: a cursor other than 0 has to be one of the context's. -/
def runScan (page : ScanCommand → Option σ → List (Bytes × V) → R) (ctx : Context κ σ)
    (cursor : Nat) (cmd : ScanCommand) (s : Records Bytes V) : Effect Bytes V (Reply R) :=
  let r := scanRange ctx.nsId cmd.pattern
  if cursor = 0 then scanned (.value (page cmd none (rangeRecords ctx.nsId r s))) s r
  else
    match ctx.findBucketScanCursor cursor with
    | none => ⟨.invalidCursor, s, fun _ => false, fun _ => false⟩
    | some c => scanned (.value (page cmd (some c) (rangeRecords ctx.nsId r s))) s r

/-- DBSIZE: a namespace counts its range, the default namespace its whole table. -/
def runDbsize (ctx : Context κ σ) (s : Records Bytes V) : Effect Bytes V (Reply R) :=
  if ctx.ns ≠ kDefaultNamespace ∧ ctx.ns ≠ [] then
    let r := dbsizeRange ctx.nsId
    scanned (.size (s.filter fun x => r.contains x.1).length) s r
  else scanned (.size s.length) s ⟨none, none⟩

/-- `SelectCommand::Execute`: refused to a tenant's context. -/
def runSelect (databases : Nat) (current : Bytes) (ctx : Context κ σ) (t : Tx V) (db : Int) :
    Run V R :=
  if ctx.ns ≠ kDefaultNamespace ∧ ctx.ns ≠ [] then quiet current ctx t .selectForbidden
  else if 0 ≤ db ∧ db < databases then { quiet current ctx t .ok with dbId := db.toNat }
  else quiet current ctx t .selectOutOfRange

/-- What the two paths share and the model leaves open: the number of databases, the glob filter,
the paging of SCAN, the parsers of the commands that scripts know (an error reply or a command),
and the handlers of the others. -/
structure Server (V κ σ R : Type) where
  databases : Nat
  pushdown : Bytes → Bytes → Bool
  page : ScanCommand → Option σ → List (Bytes × V) → R
  parse : String → List Bytes → Except R (Command V κ R)
  handler : String → List Bytes → Context κ σ → Db V → R × Db V

open Server

variable (srv : Server V κ σ R)

namespace Server

/-- `ExecuteCommand`, with the prefix in `current_namespace`, a context, the number of active
transactions and a transaction. -/
def execute (current : Bytes) (ctx : Context κ σ) (active : Nat) (t : Tx V) (autoCommit : Bool)
    (cmd : Command V κ R) : Run V R :=
  let table := redisTableName current ctx.dbId
  match cmd with
  | .plain r => quiet current ctx t (.value r)
  | .info report => quiet current ctx t (.value (report active))
  | .select db => runSelect srv.databases current ctx t db
  | .keyed prog => runProg current ctx t (Tx.finish autoCommit) prog
  | .zscan cursor prog =>
    runProg current ctx t (Tx.finish autoCommit)
      (prog (if cursor = 0 then none else ctx.findScanCursor cursor))
  | .sort fixedBy store prog =>
    runProg current ctx t (Tx.finishSort autoCommit) (prog (fixedBy && (store || !ctx.socket)))
  | .keys pattern =>
    inTx current ctx t (Tx.finish autoCommit true)
      (runKeys srv.pushdown ctx.nsId pattern (t.view table))
  | .scan cursor cmd =>
    inTx current ctx t (Tx.finish autoCommit true)
      (runScan srv.page ctx cursor cmd (t.view table))
  | .dbsize =>
    -- counted outside the transaction
    let e := runDbsize ctx (t.committed table)
    ⟨table, e.reply, e.reads, e.writes, ctx.dbId, t⟩

end Server

/-! ## The two ways to a command -/

/-- The names in `command_types` for whose type `GenericCommand` has a case that runs a command. -/
def scriptNames : List String :=
  ["echo", "info", "cluster", "dbsize", "select", "config", "ping", "get", "set", "getset",
    "strlen", "setnx", "psetex", "getrange", "incrbyfloat", "setrange", "append", "setex",
    "getbit", "setbit", "bitcount", "bitfield", "bitfield_ro", "bitpos", "bitop", "rpush",
    "lrange", "lpush", "lpop", "rpop", "hset", "hget", "incr", "decr", "incrby", "decrby", "type",
    "del", "unlink", "exists", "zadd", "zcount", "zcard", "zrange", "zrem", "zrangebyscore",
    "zrangebyrank", "zrangebylex", "zremrangebyscore", "zremrangebylex", "zremrangebyrank",
    "zlexcount", "zpopmin", "zpopmax", "zrandmember", "zrank", "zscore", "zrevrange",
    "zrevrangebylex", "zrevrangebyscore", "zrevrank", "zmscore", "zmpop", "zunion", "zunionstore",
    "zinter", "zinterstore", "zintercard", "zdiff", "zdiffstore", "zrangestore", "zincrby",
    "zscan", "mget", "mset", "hdel", "hlen", "hstrlen", "hexists", "hgetall", "hincrby",
    "hincrbyfloat", "hmset", "hmget", "hkeys", "hvals", "hsetnx", "hrandfield", "hscan", "llen",
    "ltrim", "lindex", "linsert", "lpos", "lset", "lmove", "rpoplpush", "lrem", "lpushx", "rpushx",
    "sadd", "smembers", "srem", "scard", "sdiff", "sdiffstore", "sinter", "sintercard",
    "sinterstore", "sismember", "smismember", "smove", "spop", "srandmember", "sscan", "sunion",
    "sunionstore", "sort", "sort_ro", "scan", "keys", "expire", "ttl", "persist", "pexpire",
    "pttl", "expiretime", "pexpiretime", "expireat", "pexpireat", "getex", "publish"]

/-- The two names whose case in `GenericCommand` writes no reply. -/
def ddlNames : List String :=
  ["flushdb", "flushall"]

/-- The names that have a handler and no case in `GenericCommand`, or a case and no entry in
`command_types` (GETDEL, MEMORY, READONLY, COMMAND, FAILOVER). -/
def handlerNames : List String :=
  ["auth", "namespace", "readonly", "keyspace", "compact", "command", "sentinel", "failover",
    "client", "getdel", "substr", "multi", "begin", "commit", "rollback", "discard", "watch",
    "unwatch", "eval", "script", "evalsha", "lmpop", "blmove", "blmpop", "blpop", "brpop",
    "brpoplpush", "msetnx", "eloqvec.create", "eloqvec.info", "eloqvec.drop", "eloqvec.add",
    "eloqvec.badd", "eloqvec.update", "eloqvec.delete", "eloqvec.search", "dump", "restore",
    "subscribe", "unsubscribe", "psubscribe", "punsubscribe", "fault_inject", "memory", "time",
    "slowlog"]

namespace Server

/-- A command of the connection (`DispatchCommand`): its reply and the tables it leaves. -/
def direct (conn : Context κ σ) (active : Nat) (name : String) (args : List Bytes) (db : Db V) :
    Reply R × Db V :=
  if name ∈ scriptNames then
    match srv.parse name args with
    | .error r => (.value r, db)
    | .ok cmd =>
      let r := srv.execute conn.nsId conn active (.new db) true cmd
      (r.reply, r.tx.committed)
  else if name ∈ handlerNames ++ ddlNames then
    let (r, db') := srv.handler name args conn db
    (.value r, db')
  else (.unknown name, db)

/-- `GenericCommand`: a command of a script of the connection, with the script's own context and
transaction.  That transaction counts as active until it has ended. -/
def genericCommand (conn lua : Context κ σ) (active : Nat) (t : Tx V) (name : String)
    (args : List Bytes) : Run V R :=
  if name ∈ ddlNames then quiet conn.nsId lua t .silent
  else if name ∈ scriptNames then
    match srv.parse name args with
    | .error r => quiet conn.nsId lua t (.value r)
    | .ok cmd =>
      srv.execute conn.nsId lua (if t.isOpen then active + 1 else active) t false cmd
  else quiet conn.nsId lua t .unknownInScript

end Server

def setConnectionContext (lua conn : Context κ σ) : Context κ σ :=
  { lua with dbId := conn.dbId }

/-! ## The property -/

/-- A connection bound to a namespace. -/
structure IsTenant (conn : Context κ σ) : Prop where
  ns_ne_default : conn.ns ≠ kDefaultNamespace
  ns_ne_nil : conn.ns ≠ []
  nsId_eq : ∃ id epoch, conn.nsId = makePrefix id epoch
  socket : conn.socket = true

/-- The interpreter's own context: nothing ever writes its namespace or its socket. -/
structure IsPrivate (lua : Context κ σ) : Prop where
  ns_eq : lua.ns = kDefaultNamespace
  nsId_eq : lua.nsId = []
  socket : lua.socket = false

def inNamespace (ns k : Bytes) : Bool :=
  ns.isPrefixOf k

/-- One command of a script keeps to its tenant: it reads and writes only keys of the shared table
with the tenant's prefix, answers as the connection would on the tables the transaction sees, and
its answer is decided by the tenant's own records. -/
structure Confined (conn lua : Context κ σ) (active : Nat) (t : Tx V) (name : String)
    (args : List Bytes) : Prop where
  reads : ∀ k, (srv.genericCommand conn lua active t name args).reads k = true →
    (srv.genericCommand conn lua active t name args).table = .nsData ∧
      inNamespace conn.nsId k = true
  writes : ∀ k, (srv.genericCommand conn lua active t name args).writes k = true →
    (srv.genericCommand conn lua active t name args).table = .nsData ∧
      inNamespace conn.nsId k = true
  reply : (srv.genericCommand conn lua active t name args).reply
    = (srv.direct conn active name args t.view).1
  noninterference : ∀ t' : Tx V, t'.isOpen = t.isOpen →
    (t.view .nsData).restrict (inNamespace conn.nsId)
      = (t'.view .nsData).restrict (inNamespace conn.nsId) →
    (srv.genericCommand conn lua active t' name args).reply
      = (srv.genericCommand conn lua active t name args).reply

/-- Two programs that no tenant and no contents tell apart. -/
def SameReplies (p q : Prog V R) : Prop :=
  ∀ (id : Bytes) (epoch : Nat) (s : Records Bytes V),
    (p.run (composeNamespaceKey (makePrefix id epoch)) s).reply.1
      = (q.run (composeNamespaceKey (makePrefix id epoch)) s).reply.1

/-- The commands that take nothing from the context, or nothing that matters to them, and do not
send a request to a transaction that has ended. -/
def Command.Safe (isOpen : Bool) : Command V κ R → Prop
  | .plain _ => True
  | .info report => isOpen = true → ∀ n, report (n + 1) = report n
  | .select _ => False
  | .keyed _ => isOpen = true
  | .zscan cursor prog => isOpen = true ∧ (cursor = 0 ∨ ∀ c c', SameReplies (prog c) (prog c'))
  | .sort fixedBy store prog => isOpen = true ∧
    (fixedBy = false ∨ store = true ∨ SameReplies (prog true) (prog false))
  | .keys _ => False
  | .scan _ _ => False
  | .dbsize => False

/-- The calls scripts can make safely: of a name they know, with arguments that do not parse or
parse to a safe command. -/
structure Server.ScriptSafe (isOpen : Bool) (name : String) (args : List Bytes) : Prop where
  known : name ∈ scriptNames
  safe : ∀ cmd, srv.parse name args = .ok cmd → cmd.Safe isOpen

/-! ## Safe calls are confined -/

lemma inNamespace_compose (id : Bytes) (epoch : Nat) (key : Bytes) :
    inNamespace (makePrefix id epoch) (composeNamespaceKey (makePrefix id epoch) key) = true := by
  rw [composeNamespaceKey_makePrefix]
  exact List.isPrefixOf_iff_prefix.mpr (List.prefix_append _ _)

variable {srv} {conn lua : Context κ σ} {active : Nat} {t : Tx V} {name : String}
  {args : List Bytes}

lemma IsTenant.table_eq (ht : IsTenant conn) (db : Nat) :
    redisTableName conn.nsId db = .nsData := by
  obtain ⟨id, epoch, hid⟩ := ht.nsId_eq
  simp [redisTableName, hid, makePrefix_ne_default]

/-- The names without a reply are no names of commands. -/
lemma not_ddl_of_known : ∀ name ∈ scriptNames, name ∉ ddlNames := by
  decide +kernel

lemma genericCommand_of_ok (conn lua : Context κ σ) (active : Nat) (hknown : name ∈ scriptNames)
    {cmd : Command V κ R} (hparse : srv.parse name args = .ok cmd) (t : Tx V) :
    srv.genericCommand conn lua active t name args = srv.execute conn.nsId lua
      (if t.isOpen then active + 1 else active) t false cmd := by
  unfold genericCommand
  rw [if_neg (not_ddl_of_known name hknown), if_pos hknown, hparse]

lemma direct_of_ok (conn : Context κ σ) (active : Nat) (hknown : name ∈ scriptNames)
    {cmd : Command V κ R} (hparse : srv.parse name args = .ok cmd) (db : Db V) :
    srv.direct conn active name args db =
      ((srv.execute conn.nsId conn active (.new db) true cmd).reply,
        (srv.execute conn.nsId conn active (.new db) true cmd).tx.committed) := by
  unfold direct
  rw [if_pos hknown, hparse]

/-- A call that touches no key and gives the connection's reply in every state is confined. -/
lemma confined_of_quiet (reply : Reply R)
    (hscript : ∀ t' : Tx V, t'.isOpen = t.isOpen →
      srv.genericCommand conn lua active t' name args = quiet conn.nsId lua t' reply)
    (hdirect : (srv.direct conn active name args t.view).1 = reply) :
    Confined srv conn lua active t name args := by
  constructor
  · intro k hk
    rw [hscript t rfl] at hk
    exact absurd hk Bool.false_ne_true
  · intro k hk
    rw [hscript t rfl] at hk
    exact absurd hk Bool.false_ne_true
  · rw [hscript t rfl, hdirect]
    rfl
  · intro t' hopen _
    rw [hscript t' hopen, hscript t rfl]
    rfl

/-- A call that runs a program on both paths is confined if the two programs give the same
replies: a program's keys carry the tenant's prefix, and it reads nothing else. -/
lemma confined_of_sameReplies (ht : IsTenant conn) (hopen : t.isOpen = true) {p q : Prog V R}
    (hpq : SameReplies p q) {finish : Bool → Tx V → Tx V}
    (hscript : ∀ t' : Tx V, t'.isOpen = true →
      srv.genericCommand conn lua active t' name args = runProg conn.nsId lua t' finish p)
    (hdirect : (srv.direct conn active name args t.view).1 = .value
      (q.run (composeNamespaceKey conn.nsId)
        (t.view (redisTableName conn.nsId conn.dbId))).reply.1) :
    Confined srv conn lua active t name args := by
  obtain ⟨id, epoch, hid⟩ := ht.nsId_eq
  have htable : ∀ db, redisTableName (makePrefix id epoch) db = .nsData :=
    fun db => hid ▸ ht.table_eq db
  have hphys := inNamespace_compose id epoch
  obtain ⟨hreads, hwrites⟩ := p.run_footprint _ hphys (t.view .nsData)
  have hrun : ∀ t' : Tx V, t'.isOpen = true →
      (runProg (makePrefix id epoch) lua t' finish p).reply
        = .value (p.run (composeNamespaceKey (makePrefix id epoch)) (t'.view .nsData)).reply.1 := by
    intro t' hopen'
    simp [runProg, inTx, hopen', htable]
  constructor
  · intro k hk
    rw [hscript t hopen, hid] at hk ⊢
    simp only [runProg, inTx, hopen, htable, if_true] at hk ⊢
    exact ⟨trivial, hreads k hk⟩
  · intro k hk
    rw [hscript t hopen, hid] at hk ⊢
    simp only [runProg, inTx, hopen, htable, if_true] at hk ⊢
    exact ⟨trivial, hwrites k hk⟩
  · rw [hscript t hopen, hdirect, hid, hrun t hopen, hpq id epoch, htable]
  · intro t' hopen' hagree
    rw [hopen] at hopen'
    rw [hscript t' hopen', hscript t hopen, hid, hrun t' hopen', hrun t hopen]
    rw [hid] at hagree
    rw [(p.run_local _ hphys hagree).1]

lemma SameReplies.refl (p : Prog V R) : SameReplies p p :=
  fun _ _ _ => rfl

/-- **Sufficiency.** A safe call is confined. -/
theorem confined_of_scriptSafe (ht : IsTenant conn) (hl : IsPrivate lua)
    (hsafe : srv.ScriptSafe t.isOpen name args) : Confined srv conn lua active t name args := by
  obtain ⟨hknown, hsafe⟩ := hsafe
  cases hparse : srv.parse name args with
  | error r =>
    refine confined_of_quiet (.value r) (fun t' _ => ?_) ?_
    · unfold genericCommand
      rw [if_neg (not_ddl_of_known name hknown), if_pos hknown, hparse]
    · unfold direct
      rw [if_pos hknown, hparse]
  | ok cmd =>
    have hs := hsafe cmd hparse
    have hg := genericCommand_of_ok conn lua active hknown hparse
    have hd := congrArg Prod.fst (direct_of_ok conn active hknown hparse t.view)
    cases cmd with
    | plain r => exact confined_of_quiet (.value r) (fun t' _ => hg t') hd
    | info report =>
      refine confined_of_quiet (.value (report active)) (fun t' hopen => ?_) hd
      rw [hg t', hopen]
      cases h : t.isOpen with
      | false => rfl
      | true => exact congrArg (fun r => quiet conn.nsId lua t' (.value r)) (hs h active)
    | keyed prog => exact confined_of_sameReplies ht hs (.refl prog) (fun t' _ => hg t') hd
    | zscan cursor prog =>
      obtain ⟨hopen, hs⟩ := hs
      refine confined_of_sameReplies ht hopen ?_ (fun t' _ => hg t') hd
      rcases hs with h0 | hsame
      · rw [if_pos h0, if_pos h0]
        exact .refl _
      · exact hsame _ _
    | sort fixedBy store prog =>
      obtain ⟨hopen, hs⟩ := hs
      refine confined_of_sameReplies ht hopen ?_ (fun t' _ => hg t') hd
      rw [hl.socket, ht.socket]
      rcases hs with rfl | rfl | hsame
      · exact .refl _
      · exact .refl _
      · cases fixedBy <;> cases store <;> first | exact .refl _ | exact hsame
    | _ => exact hs.elim

/-! ## Every other call escapes -/

def tenantContext (id : Bytes) (epoch : Nat) (c : Option κ) (b : Option σ) : Context κ σ where
  dbId := 0
  ns := [1]
  nsId := makePrefix id epoch
  socket := true
  findScanCursor := fun _ => c
  findBucketScanCursor := fun _ => b

lemma isTenant_tenantContext (id : Bytes) (epoch : Nat) (c : Option κ) (b : Option σ) :
    IsTenant (tenantContext id epoch c b) where
  ns_ne_default := by simp [tenantContext, kDefaultNamespace, ascii]
  ns_ne_nil := by simp [tenantContext]
  nsId_eq := ⟨id, epoch, rfl⟩
  socket := rfl

/-- An interpreter's context with cached cursors of earlier scripts. -/
def luaContext (c : Option κ) (b : Option σ) : Context κ σ where
  dbId := 0
  ns := kDefaultNamespace
  nsId := []
  socket := false
  findScanCursor := fun _ => c
  findBucketScanCursor := fun _ => b

lemma isPrivate_luaContext (c : Option κ) (b : Option σ) : IsPrivate (luaContext c b) where
  ns_eq := rfl
  nsId_eq := rfl
  socket := rfl

/-- A connection's reply is none of those that only a script can get. -/
lemma direct_reply_ne (srv : Server V κ σ R) (conn : Context κ σ) (active : Nat) (name : String)
    (args : List Bytes) (db : Db V) :
    (srv.direct conn active name args db).1 ≠ .txEnded ∧
      (srv.direct conn active name args db).1 ≠ .unknownInScript ∧
        (srv.direct conn active name args db).1 ≠ .silent := by
  unfold direct
  split
  · split
    · simp
    · rename_i cmd _
      cases cmd with
      | select db =>
        simp only [execute, runSelect]
        split
        · simp [quiet]
        · split <;> simp [quiet]
      | scan cursor cmd =>
        simp only [execute, inTx, Tx.new, if_true, runScan]
        split
        · simp [scanned]
        · split <;> simp [scanned]
      | dbsize =>
        simp only [execute, runDbsize]
        split <;> simp [scanned]
      | _ => simp [execute, quiet, runProg, inTx, Tx.new, runKeys, scanned]
  · split <;> simp

/-- Calls of other names, and those of FLUSHDB and FLUSHALL, get replies of scripts alone. -/
lemma known_of_confined (h : Confined srv conn lua active t name args) : name ∈ scriptNames := by
  by_contra hname
  have hreply := h.reply
  obtain ⟨-, hunknown, hsilent⟩ := direct_reply_ne srv conn active name args t.view
  unfold genericCommand at hreply
  rw [if_neg hname] at hreply
  split at hreply
  · exact hsilent hreply.symm
  · exact hunknown hreply.symm

lemma runSelect_tenant (ht : IsTenant conn) (databases : Nat) (current : Bytes) (t : Tx V)
    (db : Int) : (runSelect databases current conn t db : Run V R).reply = .selectForbidden := by
  unfold runSelect
  rw [if_pos ⟨ht.ns_ne_default, ht.ns_ne_nil⟩]
  rfl

lemma runSelect_private (hl : IsPrivate lua) (databases : Nat) (current : Bytes) (t : Tx V)
    (db : Int) : (runSelect databases current lua t db : Run V R).reply ≠ .selectForbidden := by
  unfold runSelect
  rw [if_neg (fun h => h.1 hl.ns_eq)]
  split <;> simp [quiet]

/-- A program's reply in an open transaction of the contexts above. -/
lemma runProg_reply {isOpen : Bool} (hopen : isOpen = true) (id : Bytes) (epoch : Nat)
    (ctx : Context κ σ) (s : Records Bytes V) (finish : Bool → Tx V → Tx V) (prog : Prog V R) :
    (runProg (makePrefix id epoch) ctx ⟨isOpen, fun _ => s, fun _ => s⟩ finish prog).reply
      = .value (prog.run (composeNamespaceKey (makePrefix id epoch)) s).reply.1 := by
  simp [runProg, inTx, hopen]

lemma inTx_ended {t : Tx V} (ht : t.isOpen = false) (current : Bytes) (ctx : Context κ σ)
    (finish : Tx V → Tx V) (e : Effect Bytes V (Reply R)) :
    (inTx current ctx t finish e).reply = .txEnded := by
  simp [inTx, ht, quiet]

section
variable {isOpen : Bool} {cmd : Command V κ R}
  (h : ∀ (conn lua : Context κ σ), IsTenant conn → IsPrivate lua → ∀ active (t : Tx V),
    t.isOpen = isOpen → Confined srv conn lua active t name args)
include h

/-- The contexts and states at which a call that is not safe shows itself. -/
lemma confined_at (id : Bytes) (epoch : Nat) (c c' : Option κ) (b : Option σ) (active : Nat)
    (s : Records Bytes V) : Confined srv (tenantContext id epoch c' none) (luaContext c b) active
      ⟨isOpen, fun _ => s, fun _ => s⟩ name args :=
  h _ _ (isTenant_tenantContext id epoch c' none) (isPrivate_luaContext c b) active _ rfl

lemma known_of_confined_at : name ∈ scriptNames :=
  known_of_confined (confined_at h [] 1 none none none 0 [])

variable (hparse : srv.parse name args = .ok cmd)
include hparse

lemma execute_reply_eq (id : Bytes) (epoch : Nat) (c c' : Option κ) (active : Nat)
    (s : Records Bytes V) :
    (srv.execute (makePrefix id epoch) (luaContext c none)
        (if isOpen then active + 1 else active) ⟨isOpen, fun _ => s, fun _ => s⟩ false cmd).reply
      = (srv.execute (makePrefix id epoch) (tenantContext id epoch c' none) active
        (.new fun _ => s) true cmd).reply := by
  have hc := (confined_at h id epoch c c' none active s).reply
  have hknown := known_of_confined_at h
  rw [genericCommand_of_ok _ _ _ hknown hparse, direct_of_ok _ _ hknown hparse] at hc
  exact hc

/-- A visited key outside the prefix is a contradiction. -/
lemma not_reads_outside (b : Option σ) (k id : Bytes) (hk : ¬ makePrefix id 1 <+: k) :
    ¬(srv.execute (makePrefix id 1) (luaContext none b) (if isOpen then 0 + 1 else 0)
      ⟨isOpen, fun _ => [], fun _ => []⟩ false cmd).reads k = true := by
  intro hread
  have hc := (confined_at h id 1 none none b 0 []).reads k
  rw [genericCommand_of_ok _ _ _ (known_of_confined_at h) hparse] at hc
  exact hk (List.isPrefixOf_iff_prefix.mp (hc hread).2)

/-- A request to a transaction that has ended gets a reply that no connection gets. -/
lemma isOpen_of_txEnded (hcmd : ∀ t : Tx V, t.isOpen = false → (srv.execute (makePrefix [] 1)
    (luaContext none none) 0 t false cmd).reply = .txEnded) : isOpen = true := by
  by_contra hclosed
  have hc := (confined_at h [] 1 none none none 0 []).reply
  rw [genericCommand_of_ok _ _ _ (known_of_confined_at h) hparse, if_neg hclosed] at hc
  exact (direct_reply_ne _ _ _ _ _ _).1
    (hc.symm.trans (hcmd _ (Bool.eq_false_of_not_eq_true hclosed)))

end

section
variable [Inhabited σ]

/-- **Necessity.** A call that is always confined is safe. -/
theorem scriptSafe_of_confined {isOpen : Bool}
    (h : ∀ (conn lua : Context κ σ), IsTenant conn → IsPrivate lua → ∀ active (t : Tx V),
      t.isOpen = isOpen → Confined srv conn lua active t name args) :
    srv.ScriptSafe isOpen name args := by
  refine ⟨known_of_confined_at h, fun cmd hparse => ?_⟩
  have hreply := execute_reply_eq h hparse
  have hescape := not_reads_outside h hparse
  have hopen := isOpen_of_txEnded h hparse
  cases cmd with
  | plain r => trivial
  | info report =>
    rintro rfl n
    exact Reply.value.inj (hreply [] 1 none none n [])
  | select db =>
    have hc := hreply [] 1 none none 0 []
    simp only [execute] at hc
    rw [runSelect_tenant (isTenant_tenantContext _ _ _ _)] at hc
    exact runSelect_private (isPrivate_luaContext _ _) _ _ _ _ hc
  | keyed prog => exact hopen fun t ht => inTx_ended ht _ _ _ _
  | zscan cursor prog =>
    have hrunning := hopen fun t ht => inTx_ended ht _ _ _ _
    refine ⟨hrunning, ?_⟩
    by_cases h0 : cursor = 0
    · exact .inl h0
    · refine .inr fun c c' id epoch s => ?_
      have hc := hreply id epoch c c' 0 s
      simp only [execute, if_neg h0] at hc
      rw [runProg_reply hrunning, Tx.new, runProg_reply rfl] at hc
      exact Reply.value.inj hc
  | sort fixedBy store prog =>
    have hrunning := hopen fun t ht => inTx_ended ht _ _ _ _
    refine ⟨hrunning, ?_⟩
    cases fixedBy with
    | false => exact .inl rfl
    | true =>
      cases store with
      | true => exact .inr (.inl rfl)
      | false =>
        refine .inr (.inr fun id epoch s => ?_)
        have hc := hreply id epoch none none 0 s
        simp only [execute] at hc
        rw [runProg_reply hrunning, Tx.new, runProg_reply rfl] at hc
        exact Reply.value.inj hc
  | keys pattern =>
    obtain rfl := hopen fun t ht => inTx_ended ht _ _ _ _
    obtain ⟨k, hk, id, hid⟩ := exists_scanRange_nil pattern
    exact hescape none k id hid hk
  | scan cursor cmd =>
    obtain rfl := hopen fun t ht => inTx_ended ht _ _ _ _
    obtain ⟨k, hk, id, hid⟩ := exists_scanRange_nil cmd.pattern
    refine hescape (some default) k id hid ?_
    show (runScan srv.page _ cursor cmd _).reads k = true
    unfold runScan
    by_cases h0 : cursor = 0
    · rw [if_pos h0]
      exact hk
    · rw [if_neg h0]
      exact hk
  | dbsize => exact hescape none [] [1] (by decide) rfl

/-- **Which calls of scripts keep to their tenant**: exactly those of a name the scripts know that
fail to parse or parse to a command that takes nothing from the context, a keyed command, a ZSCAN
that starts at cursor 0, a SORT that would not be forced into alphabetical order, as long as no
SORT of the script has ended its transaction. -/
theorem script_command_confined_iff (srv : Server V κ σ R) (isOpen : Bool) (name : String)
    (args : List Bytes) :
    (∀ (conn lua : Context κ σ), IsTenant conn → IsPrivate lua → ∀ active (t : Tx V),
      t.isOpen = isOpen → Confined srv conn lua active t name args) ↔
    srv.ScriptSafe isOpen name args := by
  refine ⟨scriptSafe_of_confined, fun hsafe conn lua ht hl active t hopen => ?_⟩
  rw [← hopen] at hsafe
  exact confined_of_scriptSafe ht hl hsafe

end

/-! ## Whole scripts -/

/-- A script: it makes a call, looks at the reply and goes on, or it ends, in an error or not. -/
inductive Script (R : Type) where
  | done (error : Bool)
  | call (name : String) (args : List Bytes) (next : Reply R → Script R)

/-- `CallFunction`: the replies in order, the transaction, and whether the script failed. -/
def Script.callFunction (srv : Server V κ σ R) (conn : Context κ σ) (active : Nat) :
    Script R → Context κ σ → Tx V → List (Reply R) × Tx V × Bool
  | .done error, _, t => ([], t, error)
  | .call name args next, lua, t =>
    let r := srv.genericCommand conn lua active t name args
    let (replies, out) :=
      (next r.reply).callFunction srv conn active { lua with dbId := r.dbId } r.tx
    (r.reply :: replies, out)

/-- `EvalLua`: one transaction for the whole script, aborted if the script fails. -/
def Server.evalLua (srv : Server V κ σ R) (conn lua : Context κ σ) (active : Nat) (sc : Script R)
    (db : Db V) : List (Reply R) × Db V :=
  let (replies, t, error) :=
    sc.callFunction srv conn active (setConnectionContext lua conn) (.new db)
  (replies, (if error then t.abort else t.commit).committed)

/-- The same commands sent by the connection: replies, tables, and how the script would end. -/
def Script.send (srv : Server V κ σ R) (conn : Context κ σ) (active : Nat) :
    Script R → Db V → List (Reply R) × Db V × Bool
  | .done error, db => ([], db, error)
  | .call name args next, db =>
    let (reply, db') := srv.direct conn active name args db
    let (replies, out) := (next reply).send srv conn active db'
    (reply :: replies, out)

/-- A program that leaves the records alone whenever it does not go through. -/
def Prog.Atomic (prog : Prog V R) : Prop :=
  ∀ (id : Bytes) (epoch : Nat) (s : Records Bytes V),
    (prog.run (composeNamespaceKey (makePrefix id epoch)) s).reply.2 = false →
      (prog.run (composeNamespaceKey (makePrefix id epoch)) s).records = s

/-- Commands that leave a script's transaction open and need no rollback of their own. -/
def Command.KeepsTx : Command V κ R → Prop
  | .keyed prog => prog.Atomic
  | .zscan cursor prog => cursor = 0 ∧ (prog none).Atomic
  | .sort _ _ _ => False
  | _ => True

/-- Every call the script can come to is safe and keeps the transaction. -/
def Script.Regular (srv : Server V κ σ R) : Script R → Prop
  | .done _ => True
  | .call name args next => srv.ScriptSafe true name args ∧
    (∀ cmd, srv.parse name args = .ok cmd → cmd.KeepsTx) ∧ ∀ r, (next r).Regular srv

/-- A transaction that began on `base`, still runs and sees `db`. -/
structure Tx.Shows (t : Tx V) (base db : Db V) : Prop where
  isOpen : t.isOpen = true
  committed : t.committed = base
  view : t.view = db

/-- A program in the script's transaction leaves in view what the connection would commit. -/
lemma shows_runProg (ht : IsTenant conn) {prog : Prog V R} (hatomic : prog.Atomic)
    {base db : Db V} (hshows : t.Shows base db) :
    (runProg conn.nsId lua t (Tx.finish false) prog).tx.Shows base
      (runProg conn.nsId conn (.new db) (Tx.finish true) prog).tx.committed := by
  obtain ⟨hopen, rfl, rfl⟩ := hshows
  have htable := ht.table_eq
  obtain ⟨id, epoch, hid⟩ := ht.nsId_eq
  have hundone := hatomic id epoch (t.view .nsData)
  rw [← hid] at hundone
  simp only [runProg, inTx, hopen, htable, Tx.new, Tx.finish, Tx.commit, Tx.abort, if_true]
  cases hpass : (prog.run (composeNamespaceKey conn.nsId) (t.view .nsData)).reply.2 with
  | true => exact ⟨rfl, rfl, rfl⟩
  | false =>
    refine ⟨rfl, rfl, ?_⟩
    rw [hundone hpass]
    exact Function.update_eq_self _ _

/-- **Step.** A regular call gets the connection's reply and keeps the two in step. -/
lemma shows_genericCommand (active : Nat) (ht : IsTenant conn) (hl : IsPrivate lua)
    (hsafe : srv.ScriptSafe true name args)
    (hkeeps : ∀ cmd, srv.parse name args = .ok cmd → cmd.KeepsTx) {base db : Db V}
    (hshows : t.Shows base db) :
    (srv.genericCommand conn lua active t name args).reply
        = (srv.direct conn active name args db).1 ∧
      (srv.genericCommand conn lua active t name args).tx.Shows base
        (srv.direct conn active name args db).2 := by
  have hconf : Confined srv conn lua active t name args :=
    confined_of_scriptSafe ht hl (hshows.isOpen ▸ hsafe)
  refine ⟨hshows.view ▸ hconf.reply, ?_⟩
  cases hparse : srv.parse name args with
  | error r =>
    unfold genericCommand direct
    rw [if_neg (not_ddl_of_known name hsafe.known), if_pos hsafe.known, if_pos hsafe.known, hparse]
    exact hshows
  | ok cmd =>
    rw [genericCommand_of_ok _ _ _ hsafe.known hparse, direct_of_ok _ _ hsafe.known hparse]
    have hs := hsafe.safe cmd hparse
    have hk := hkeeps cmd hparse
    cases cmd with
    | plain r => exact hshows
    | info report => exact hshows
    | keyed prog => exact shows_runProg ht hk hshows
    | zscan cursor prog =>
      obtain ⟨rfl, hatomic⟩ := hk
      exact shows_runProg ht hatomic hshows
    | sort fixedBy store prog => exact hk.elim
    | _ => exact hs.elim

/-- **Run.** While a regular script runs, its replies are those of the connection's commands and
its transaction sees the tables they leave. -/
lemma callFunction_eq_send (active : Nat) (ht : IsTenant conn) (sc : Script R)
    (hsc : sc.Regular srv) {base db : Db V} (hl : IsPrivate lua) (hshows : t.Shows base db) :
    (sc.callFunction srv conn active lua t).1 = (sc.send srv conn active db).1 ∧
      (sc.callFunction srv conn active lua t).2.1.Shows base (sc.send srv conn active db).2.1 ∧
      (sc.callFunction srv conn active lua t).2.2 = (sc.send srv conn active db).2.2 := by
  induction sc generalizing lua t db with
  | done error => exact ⟨rfl, hshows, rfl⟩
  | call name args next ih =>
    obtain ⟨hsafe, hkeeps, hnext⟩ := hsc
    obtain ⟨hreply, hshows'⟩ := shows_genericCommand active ht hl hsafe hkeeps hshows
    have hl' : IsPrivate { lua with
        dbId := (srv.genericCommand conn lua active t name args).dbId } :=
      ⟨hl.ns_eq, hl.nsId_eq, hl.socket⟩
    obtain ⟨hreplies, hview, hend⟩ :=
      ih (srv.direct conn active name args db).1 (hnext _) hl' hshows'
    simp only [Script.callFunction, Script.send, hreply]
    exact ⟨congrArg _ hreplies, hview, hend⟩

/-- **A regular script**, whatever it does with the replies it sees, gets those the connection
would get for the same commands.  It leaves their tables if it ends without an error, and the
tables it found otherwise. -/
theorem evalLua_eq_send (ht : IsTenant conn) (hl : IsPrivate lua) (active : Nat) (sc : Script R)
    (hsc : sc.Regular srv) (db : Db V) :
    srv.evalLua conn lua active sc db =
      ((sc.send srv conn active db).1,
        if (sc.send srv conn active db).2.2 then db else (sc.send srv conn active db).2.1) := by
  have hl' : IsPrivate (setConnectionContext lua conn) := ⟨hl.ns_eq, hl.nsId_eq, hl.socket⟩
  have hnew : (Tx.new db).Shows db db := ⟨rfl, rfl, rfl⟩
  obtain ⟨hreplies, hshows, hend⟩ := callFunction_eq_send active ht sc hsc hl' hnew
  simp only [evalLua, hreplies, hend, Tx.commit, Tx.abort, hshows.isOpen, if_true]
  cases (sc.send srv conn active db).2.2 with
  | true => exact congrArg _ hshows.committed
  | false => exact congrArg _ hshows.view

end

/-! ## Runs -/

/-- A glob filter that knows patterns of the form `text*`. -/
def starFilter (pattern key : Bytes) : Bool :=
  pattern.getLast? = some 42 && pattern.dropLast.isPrefixOf key

/-- A server with GET, SET and SORT of one key, SELECT, KEYS and DBSIZE, and GETDEL outside
scripts.  Replies tell whether the key was there. -/
def sampleServer : Server Unit Unit Unit Bool where
  databases := 16
  pushdown := starFilter
  page := fun _ _ _ => true
  parse
    | "set", [key] => .ok (.keyed (.put key (some ()) (.ret (true, true))))
    | "get", [key] => .ok (.keyed (.get key fun v => .ret (v.isSome, true)))
    | "sort", [key] => .ok (.sort false false fun _ => .get key fun v => .ret (v.isSome, true))
    | "select", [_] => .ok (.select 0)
    | "keys", [pattern] => .ok (.keys pattern)
    | "dbsize", [] => .ok .dbsize
    | _, _ => .error false
  handler
    | "getdel", [key], conn, db =>
      let k := composeNamespaceKey conn.nsId key
      (((db .nsData).lookup k).isSome,
        Function.update db .nsData ((db .nsData).assign k none))
    | _, _, _, db => (false, db)

/-- The shared table with a single key, `secret` of the tenant with id 2. -/
def foreignKey : Db Unit :=
  fun _ => [(makePrefix [2] 1 ++ ascii "secret", ())]

/-- Tenant 1's script writes a key and reads it back. -/
theorem put_get_runs_directly :
    let conn : Context Unit Unit := tenantContext [1] 1 none none
    let sc : Script Bool := .call "set" [[9]] fun _ => .call "get" [[9]] fun r =>
      .done (r ≠ .value true)
    sampleServer.evalLua conn (luaContext none none) 0 sc foreignKey =
      ((sc.send sampleServer conn 0 foreignKey).1,
        if (sc.send sampleServer conn 0 foreignKey).2.2 then foreignKey
        else (sc.send sampleServer conn 0 foreignKey).2.1) ∧
    (sc.send sampleServer conn 0 foreignKey).1 = [.value true, .value true] := by
  intro conn sc
  refine ⟨evalLua_eq_send (isTenant_tenantContext _ _ _ _) (isPrivate_luaContext _ _) 0 sc ?_ _,
    ?_⟩
  · refine ⟨⟨by decide +kernel, ?_⟩, ?_, fun _ => ⟨⟨by decide +kernel, ?_⟩, ?_, fun _ => trivial⟩⟩
    · rintro _ ⟨⟩
      rfl
    · rintro _ ⟨⟩ _ _ _ ⟨⟩
    · rintro _ ⟨⟩
      rfl
    · rintro _ ⟨⟩ _ _ _ ⟨⟩
  · decide +kernel

/-- Tenant 1's script counts tenant 2's key, where the connection finds nothing.  It does not know
GETDEL, may SELECT, and cannot use its transaction after a SORT. -/
theorem script_keys_reads_foreign_tenant :
    let conn : Context Unit Unit := tenantContext [1] 1 none none
    let lua : Context Unit Unit := luaContext none none
    let script := fun name args =>
      (sampleServer.genericCommand conn lua 0 (.new foreignKey) name args).reply
    let direct := fun name args => (sampleServer.direct conn 0 name args foreignKey).1
    script "keys" [ascii "*"] = .keys [makePrefix [2] 1 ++ ascii "secret"] ∧
      direct "keys" [ascii "*"] = .keys [] ∧
      script "dbsize" [] = .size 1 ∧ direct "dbsize" [] = .size 0 ∧
      script "getdel" [[9]] = .unknownInScript ∧ direct "getdel" [[9]] = .value false ∧
      script "select" [[48]] = .ok ∧ direct "select" [[48]] = .selectForbidden ∧
      (sampleServer.evalLua conn lua 0
        (.call "sort" [[9]] fun _ => .call "get" [[9]] fun _ => .done false) foreignKey).1
          = [.value false, .txEnded] := by
  decide +kernel

end EloqKV.ScriptScope
