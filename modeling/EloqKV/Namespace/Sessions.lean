/-
  Sessions: `RedisServiceImpl::DispatchCommand` and `AuthRequired`, over any number of
  connections.

  Before a command reaches its handler the dispatcher asks the manager for the object of the bound
  token and compares it with the one the connection holds.  Where they differ the connection falls
  back to the default namespace; `authenticated` is left as it is.

  A step is one command of one connection, and `Event` records what it did that needs a right.
  Commands queued in MULTI are handed on when they are queued, with the prefix of that moment, and
  once more at every retry of EXEC.
-/
import EloqKV.Lib.Runs
import EloqKV.Namespace.Commands

open EloqKV.Lib List Function

namespace EloqKV.Sessions

abbrev ConnId := Nat

/-- The server: the manager all connections share, and each connection's context. -/
structure Server where
  manager : NamespaceManager
  conns : ConnId → RedisConnectionContext

def Server.start (table : NamespaceStorage.MetaTable) : Server where
  manager := .start table
  conns := fun _ => {}

def Server.put (s : Server) (c : ConnId) (ctx : RedisConnectionContext)
    (m : NamespaceManager) : Server where
  manager := m
  conns := Function.update s.conns c ctx

/-- One command as it arrives, with what the environment answers while it runs; for EXEC its
attempts, each one the queue positions it executes, in its order, with their answers. -/
structure Request where
  args : List Bytes
  accepted : Bool := true
  shutdown : Bool := false
  refresh : List Bool := []
  answers : Answers := {}
  attempts : List (List (Nat × Answers)) := []

/-- The command's name.  The RPC layer hands it over in lower case. -/
def commandName (args : List Bytes) : Bytes :=
  lower (args.headD [])

/-- What a step did that needs a right. -/
inductive Event where
  | dispatched (c : ConnId) (nsId : Bytes) (args : List Bytes)
  | administered (c : ConnId) (cmd : NamespaceCommand)
  deriving DecidableEq

/-! ## The dispatcher -/

section
variable (cfg : Config)

/-- The head of `DispatchCommand`: the connection's binding is checked against the manager. -/
def refreshBinding (outcomes : List Bool) (m : NamespaceManager)
    (ctx : RedisConnectionContext) : RedisConnectionContext × NamespaceManager :=
  match ctx.nsMeta.bind fun r => (m.deref r).map fun md => (r, md) with
  | some (r, md) =>
    let (live, m) := m.getMetadataByToken cfg.requirepass outcomes md.token
    if live = some r then ({ ctx with nsId := makePrefix md.encodedId md.epoch }, m)
    else ({ ctx with ns := kDefaultNamespace, nsId := [], nsMeta := none }, m)
  | none =>
    if ctx.ns = kDefaultNamespace then ({ ctx with nsId := [] }, m) else (ctx, m)

def cmdsNoAuth : List Bytes :=
  [ascii "auth", ascii "hello", ascii "quit", ascii "reset"]

def authRequired (ctx : RedisConnectionContext) (args : List Bytes) : Bool :=
  match args with
  | [] => true
  | name :: rest =>
    if cfg.requirepass = [] then false
    else if ctx.authenticated then false
    else if lower name = ascii "namespace" ∧ rest.head?.map lower = some (ascii "current") then
      false
    else decide (lower name ∉ cmdsNoAuth)

/-- The commands FLUSHDB and FLUSHALL, which in a namespace advance its epoch. -/
def isFlush (name : Bytes) : Bool :=
  name = ascii "flushdb" || name = ascii "flushall"

/-- A NAMESPACE command with its event, when it passes the administrator check. -/
def runNamespace (c : ConnId) (ctx : RedisConnectionContext) (ans : Answers)
    (m : NamespaceManager) (args : List Bytes) : NamespaceManager × List Event × Reply :=
  match parseNamespaceCommand args with
  | .error err => (m, [], .error err)
  | .ok cmd =>
    let (reply, m) := namespaceExecute cfg ans m ctx cmd
    let passed := cmd.op ≠ .current ∧ adminRefused cfg ctx = none
    (m, if passed then [.administered c cmd] else [], reply)

variable (s : Server) (c : ConnId)

/-- A command outside MULTI, handed to its handler.  `hello`, `quit` and `reset` have none. -/
def runHandler (ctx : RedisConnectionContext) (q : Request) : Server × List Event × Reply :=
  let name := commandName q.args
  if name = ascii "auth" then
    match parseAuthCommand q.args with
    | .error err => (s, [], .error err)
    | .ok password =>
      let (code, ctx, m) := authExecute cfg q.answers s.manager ctx password
      (s.put c ctx m, [], if code = .ok then .status code.message else .error code.message)
  else if name = ascii "namespace" then
    let (m, events, reply) := runNamespace cfg c ctx q.answers s.manager q.args
    (s.put c ctx m, events, reply)
  else if name ∈ cmdsNoAuth then (s, [], .unknownCommand name)
  else if name = ascii "multi" then
    if q.accepted then
      (s.put c { ctx with multi := some {} } s.manager, [.dispatched c ctx.nsId q.args],
        .status "OK")
    else (s, [], .error "ERR MULTI called inside a transaction")
  else
    let m :=
      match ctx.nsMeta with
      | some r => if isFlush name then s.manager.flush q.answers.update r else s.manager
      | none => s.manager
    (s.put c ctx m, [.dispatched c ctx.nsId q.args], .handler)

/-- The commands `MultiTransactionHandler::Run` refuses without ending the MULTI, with its errors.
-/
def refusedInMulti (name : Bytes) : Option String :=
  if name = ascii "multi" then some "ERR MULTI calls can not be nested"
  else if name = ascii "begin" then some "ERR BEGIN called in multi transaction"
  else if name = ascii "commit" then some "ERR COMMIT called in multi transaction"
  else if name = ascii "rollback" then some "ERR ROLLBACK called in multi transaction"
  else if name = ascii "watch" then some "ERR WATCH in MULTI not supported"
  else none

/-- One position of the queue: only NAMESPACE reaches the manager, the others were bound before. -/
def execOne (ctx : RedisConnectionContext) (cmds : List (List Bytes))
    (m : NamespaceManager) (pos : Nat) (ans : Answers) : NamespaceManager × List Event :=
  match cmds[pos]? with
  | none => (m, [])
  | some args =>
    if commandName args = ascii "namespace" then
      let (m, events, _) := runNamespace cfg c ctx ans m args
      (m, events)
    else (m, [])

def execAttempt (c : ConnId) (ctx : RedisConnectionContext) (cmds : List (List Bytes)) :
    NamespaceManager → List (Nat × Answers) → NamespaceManager × List Event
  | m, [] => (m, [])
  | m, (pos, ans) :: rest =>
    let (m, events) := execOne cfg c ctx cmds m pos ans
    let (m, events') := execAttempt c ctx cmds m rest
    (m, events ++ events')

/-- The re-parsing before a retry: data commands are bound again, under the present prefix. -/
def reparse (ctx : RedisConnectionContext) (cmds : List (List Bytes)) : List Event :=
  (cmds.filter fun args => commandName args ≠ ascii "namespace").map
    fun args => .dispatched c ctx.nsId args

def execRetries (c : ConnId) (ctx : RedisConnectionContext) (cmds : List (List Bytes)) :
    NamespaceManager → List (List (Nat × Answers)) → NamespaceManager × List Event
  | m, [] => (m, [])
  | m, attempt :: rest =>
    let (m, events) := execAttempt cfg c ctx cmds m attempt
    let (m, events') := execRetries c ctx cmds m rest
    (m, reparse c ctx cmds ++ events ++ events')

/-- All attempts of EXEC: the first one runs the requests as they were queued. -/
def execAll (ctx : RedisConnectionContext) (cmds : List (List Bytes))
    (m : NamespaceManager) (attempts : List (List (Nat × Answers))) :
    NamespaceManager × List Event :=
  match attempts with
  | [] => (m, [])
  | first :: rest =>
    let (m, events) := execAttempt cfg c ctx cmds m first
    let (m, events') := execRetries cfg c ctx cmds m rest
    (m, events ++ events')

/-- Whether `ParseMultiCommand` accepts a command; AUTH and unknown commands have no case. -/
def acceptedInMulti (q : Request) : Bool :=
  let name := commandName q.args
  if name = ascii "namespace" then (parseNamespaceCommand q.args).isOk
  else q.accepted && decide (name ∉ cmdsNoAuth)

/-- `MultiTransactionHandler::Run` after MULTI. -/
def runMulti (ctx : RedisConnectionContext) (queue : MultiQueue)
    (q : Request) : Server × List Event × Reply :=
  let name := commandName q.args
  if let some err := refusedInMulti name then (s, [], .error err)
  else if name = ascii "unwatch" then (s, [], .status "OK")
  else if name = ascii "discard" then
    (s.put c { ctx with multi := none } s.manager, [], .status "OK")
  else if name = ascii "exec" then
    if queue.error then
      (s.put c { ctx with multi := none } s.manager, [],
        .error RdCode.execAbortForPrevError.message)
    else
      let (m, events) := execAll cfg c ctx queue.cmds s.manager q.attempts
      (s.put c { ctx with multi := none } m, events, .handler)
  else if acceptedInMulti q then
    let events := if name = ascii "namespace" then [] else [.dispatched c ctx.nsId q.args]
    (s.put c { ctx with multi := some { queue with cmds := queue.cmds ++ [q.args] } } s.manager,
      events, .status "QUEUED")
  else
    (s.put c { ctx with multi := some { queue with error := true } } s.manager, [], .handler)

def dispatchCommand (q : Request) : Server × List Event × Reply :=
  let (ctx, m) := refreshBinding cfg q.refresh s.manager (s.conns c)
  let s := s.put c ctx m
  if authRequired cfg ctx q.args then (s, [], .error "NOAUTH Authentication required.")
  else if q.shutdown then (s, [], .error RdCode.clusterIsShuttingDown.message)
  else
    match ctx.multi with
    | some queue => runMulti cfg s c ctx queue q
    | none => runHandler cfg s c ctx q

def step (i : ConnId × Request) : Server :=
  (dispatchCommand cfg s i.1 i.2).1

/-- What that step did that needs a right. -/
def events (i : ConnId × Request) : List Event :=
  (dispatchCommand cfg s i.1 i.2).2.1

end

/-! ## One step: the frame

A step of connection `c` changes no other connection, only adds to the manager, and all its
events are `c`'s. -/

def Event.conn : Event → ConnId
  | .dispatched c _ _ => c
  | .administered c _ => c

/-- What every step of connection `c` does to the server, whatever its command. -/
structure Frame (s : Server) (c : ConnId) (r : Server × List Event × Reply) : Prop where
  evolves : s.manager.Evolves r.1.manager
  others : ∀ c', c' ≠ c → r.1.conns c' = s.conns c'
  conn : ∀ e ∈ r.2.1, e.conn = c

variable {ctx : RedisConnectionContext} {m : NamespaceManager} {reply : Reply}

lemma Frame.put {s : Server} {c : ConnId} {evs : List Event} (hm : s.manager.Evolves m)
    (hconn : ∀ e ∈ evs, e.conn = c) : Frame s c (s.put c ctx m, evs, reply) where
  evolves := hm
  others := fun _ hne => update_of_ne hne _ _
  conn := hconn

lemma Frame.same {s : Server} {c : ConnId} : Frame s c (s, [], reply) where
  evolves := .refl _
  others := fun _ _ => rfl
  conn := by simp

lemma Frame.trans {s : Server} {c : ConnId} {s₁ : Server}
    {r : Server × List Event × Reply} (h : Frame s c (s₁, [], reply)) (h' : Frame s₁ c r) :
    Frame s c r where
  evolves := h.evolves.trans h'.evolves
  others := fun c' hne => (h'.others c' hne).trans (h.others c' hne)
  conn := h'.conn

section
variable (cfg : Config) (c : ConnId) (ctx : RedisConnectionContext)

lemma refreshBinding_evolves (outcomes : List Bool) (m : NamespaceManager) :
    m.Evolves (refreshBinding cfg outcomes m ctx).2 := by
  unfold refreshBinding
  split
  · rename_i r md _
    have hget := m.getMetadataByToken_evolves cfg.requirepass outcomes md.token
    dsimp only
    split <;> exact hget
  · split <;> exact .refl m

lemma runNamespace_evolves (ans : Answers) (m : NamespaceManager) (args : List Bytes) :
    m.Evolves (runNamespace cfg c ctx ans m args).1 := by
  unfold runNamespace
  split
  · exact .refl m
  · exact namespaceExecute_evolves cfg ans m ctx _

lemma runNamespace_conn (ans : Answers) (m : NamespaceManager) (args : List Bytes) :
    ∀ e ∈ (runNamespace cfg c ctx ans m args).2.1, e.conn = c := by
  unfold runNamespace
  split
  · simp
  · dsimp only
    split
    · simp [Event.conn]
    · simp

variable (cmds : List (List Bytes))

lemma execOne_spec (m : NamespaceManager) (pos : Nat) (ans : Answers) :
    m.Evolves (execOne cfg c ctx cmds m pos ans).1 ∧
      ∀ e ∈ (execOne cfg c ctx cmds m pos ans).2, e.conn = c := by
  unfold execOne
  split
  · exact ⟨.refl m, by simp⟩
  · split
    · exact ⟨runNamespace_evolves _ _ _ _ _ _, runNamespace_conn _ _ _ _ _ _⟩
    · exact ⟨.refl m, by simp⟩

lemma evolves_append {m m' m'' : NamespaceManager} {events events' : List Event}
    (h : m.Evolves m' ∧ ∀ e ∈ events, e.conn = c)
    (h' : m'.Evolves m'' ∧ ∀ e ∈ events', e.conn = c) :
    m.Evolves m'' ∧ ∀ e ∈ events ++ events', e.conn = c :=
  ⟨h.1.trans h'.1, forall_mem_append.mpr ⟨h.2, h'.2⟩⟩

lemma execAttempt_spec (attempt : List (Nat × Answers)) (m : NamespaceManager) :
    m.Evolves (execAttempt cfg c ctx cmds m attempt).1 ∧
      ∀ e ∈ (execAttempt cfg c ctx cmds m attempt).2, e.conn = c := by
  induction attempt generalizing m with
  | nil => exact ⟨.refl m, by simp [execAttempt]⟩
  | cons x rest ih =>
    exact evolves_append c (execOne_spec cfg c ctx cmds m x.1 x.2) (ih _)

lemma reparse_conn : ∀ e ∈ reparse c ctx cmds, e.conn = c := by
  intro e he
  obtain ⟨args, -, rfl⟩ := mem_map.mp he
  rfl

lemma execRetries_spec (attempts : List (List (Nat × Answers))) (m : NamespaceManager) :
    m.Evolves (execRetries cfg c ctx cmds m attempts).1 ∧
      ∀ e ∈ (execRetries cfg c ctx cmds m attempts).2, e.conn = c := by
  induction attempts generalizing m with
  | nil => exact ⟨.refl m, by simp [execRetries]⟩
  | cons attempt rest ih =>
    obtain ⟨hm, hc⟩ := execAttempt_spec cfg c ctx cmds attempt m
    have hevents := forall_mem_append.mpr ⟨reparse_conn c ctx cmds, hc⟩
    exact evolves_append c ⟨hm, hevents⟩ (ih _)

lemma execAll_spec (m : NamespaceManager) (attempts : List (List (Nat × Answers))) :
    m.Evolves (execAll cfg c ctx cmds m attempts).1 ∧
      ∀ e ∈ (execAll cfg c ctx cmds m attempts).2, e.conn = c := by
  unfold execAll
  split
  · exact ⟨.refl m, by simp⟩
  · rename_i first rest
    exact evolves_append c (execAttempt_spec cfg c ctx cmds first m)
      (execRetries_spec cfg c ctx cmds rest _)

lemma runMulti_frame (s : Server) (queue : MultiQueue) (q : Request) :
    Frame s c (runMulti cfg s c ctx queue q) := by
  unfold runMulti
  dsimp only
  split
  · exact .same
  split
  · exact .same
  split
  · exact .put (.refl _) (by simp)
  split
  · split
    · exact .put (.refl _) (by simp)
    · obtain ⟨hm, hc⟩ := execAll_spec cfg c ctx queue.cmds s.manager q.attempts
      exact .put hm hc
  split
  · refine .put (.refl _) ?_
    split <;> simp [Event.conn]
  · exact .put (.refl _) (by simp)

lemma runHandler_frame (s : Server) (q : Request) : Frame s c (runHandler cfg s c ctx q) := by
  unfold runHandler
  dsimp only
  split
  · split
    · exact .same
    · rename_i password _
      have hauth := (authExecute_cases cfg q.answers s.manager ctx password rfl).1
      exact .put hauth (by simp)
  split
  · exact .put (runNamespace_evolves _ _ _ _ _ _) (runNamespace_conn _ _ _ _ _ _)
  split
  · exact .same
  split
  · split
    · exact .put (.refl _) (by simp [Event.conn])
    · exact .same
  · refine .put ?_ (by simp [Event.conn])
    split
    · split
      · exact NamespaceManager.flush_evolves _ _ _
      · exact .refl _
    · exact .refl _

lemma dispatchCommand_frame (s : Server) (q : Request) :
    Frame s c (dispatchCommand cfg s c q) := by
  have hm := refreshBinding_evolves cfg (s.conns c) q.refresh s.manager
  unfold dispatchCommand
  dsimp only
  split
  · exact .put hm (by simp)
  split
  · exact .put hm (by simp)
  have hput : Frame s c (s.put c (refreshBinding cfg q.refresh s.manager (s.conns c)).1
      (refreshBinding cfg q.refresh s.manager (s.conns c)).2, [], .handler) :=
    .put hm (by simp)
  split
  · exact hput.trans (runMulti_frame cfg c _ _ _ q)
  · exact hput.trans (runHandler_frame cfg c _ _ q)

end

/-! ## Rights

A connection that has not presented `requirepass` is a `Tenant`: it is not authenticated, or it
is bound to a metadata object and carries that object's name.  Neither kind passes the
administrator check, and neither is served under the empty prefix. -/

/-- Not authenticated, or bound to a namespace under that namespace's name. -/
def Tenant (m : NamespaceManager) (ctx : RedisConnectionContext) : Prop :=
  (ctx.authenticated = false ∧ ctx.nsMeta = none) ∨
    ∃ r, ctx.nsMeta = some r ∧ (m.deref r).map (·.nsName) = some ctx.ns

lemma Tenant.mono {m m' : NamespaceManager}
    (he : m.Extends m') (h : Tenant m ctx) : Tenant m' ctx := by
  rcases h with h | ⟨r, hr, hname⟩
  · exact .inl h
  · exact .inr ⟨r, hr, he r _ hname⟩

lemma Tenant.multi
    (h : Tenant m ctx) (mq : Option MultiQueue) : Tenant m { ctx with multi := mq } :=
  h

lemma Tenant.adminRefused_ne
    (cfg : Config) (hm : m.Named) (h : Tenant m ctx) : adminRefused cfg ctx ≠ none := by
  have hright : (!ctx.authenticated) = true ∨ ctx.ns ≠ kDefaultNamespace := by
    rcases h with ⟨hauth, -⟩ | ⟨r, -, hname⟩
    · exact .inl (by simp [hauth])
    · obtain ⟨md, hmd, hns⟩ := Option.map_eq_some_iff.mp hname
      exact .inr (hns ▸ hm.heap md (mem_of_getElem? hmd))
  unfold adminRefused
  split
  · simp
  split
  · simp
  · simp

/-- The commands an unauthenticated connection may send. -/
def OpenToAll (args : List Bytes) : Prop :=
  commandName args ∈ cmdsNoAuth ∨ commandName args = ascii "namespace"

section
variable (cfg : Config) (c : ConnId) {ctx : RedisConnectionContext}

lemma openToAll_of_not_authRequired (hpass : cfg.requirepass ≠ [])
    (hauth : ctx.authenticated = false) {args : List Bytes}
    (h : authRequired cfg ctx args = false) : OpenToAll args := by
  unfold authRequired at h
  split at h
  · simp at h
  · rw [if_neg hpass, hauth] at h
    simp only [Bool.false_eq_true, if_false] at h
    split at h
    · rename_i hns
      exact .inr hns.1
    · exact .inl (by simpa [commandName] using h)

variable (hadm : adminRefused cfg ctx ≠ none)
include hadm

lemma runNamespace_silent (ans : Answers)
    (m : NamespaceManager) (args : List Bytes) : (runNamespace cfg c ctx ans m args).2.1 = [] := by
  unfold runNamespace
  split
  · rfl
  · exact if_neg fun h => hadm h.2

lemma execAttempt_silent (cmds : List (List Bytes)) (attempt : List (Nat × Answers))
    (m : NamespaceManager) : (execAttempt cfg c ctx cmds m attempt).2 = [] := by
  induction attempt generalizing m with
  | nil => rfl
  | cons x rest ih =>
    have hone : (execOne cfg c ctx cmds m x.1 x.2).2 = [] := by
      unfold execOne
      split
      · rfl
      · split
        · exact runNamespace_silent cfg c hadm _ _ _
        · rfl
    unfold execAttempt
    dsimp only
    rw [hone, ih]
    rfl

lemma execRetries_dispatched (cmds : List (List Bytes))
    (attempts : List (List (Nat × Answers))) (m : NamespaceManager) :
    ∀ e ∈ (execRetries cfg c ctx cmds m attempts).2, ∃ args, e = .dispatched c ctx.nsId args := by
  induction attempts generalizing m with
  | nil => simp [execRetries]
  | cons attempt rest ih =>
    intro e he
    unfold execRetries at he
    dsimp only at he
    rw [execAttempt_silent cfg c hadm, append_nil] at he
    rcases mem_append.mp he with h | h
    · obtain ⟨args, -, rfl⟩ := mem_map.mp h
      exact ⟨args, rfl⟩
    · exact ih _ e h

/-- In MULTI a connection that fails the administrator check only has commands handed on under
its own prefix, and none of them is one an unauthenticated connection may send. -/
lemma runMulti_dispatched (s : Server) (queue : MultiQueue) (q : Request) :
    ∀ e ∈ (runMulti cfg s c ctx queue q).2.1,
      (∃ args, e = .dispatched c ctx.nsId args) ∧ ¬ OpenToAll q.args := by
  intro e he
  unfold runMulti at he
  dsimp only at he
  split at he
  · simp at he
  split at he
  · simp at he
  split at he
  · simp at he
  split at he
  · rename_i hexec
    split at he
    · simp at he
    · have hopen : ¬ OpenToAll q.args := by
        unfold OpenToAll
        rw [hexec]
        decide
      refine ⟨?_, hopen⟩
      unfold execAll at he
      split at he
      · simp at he
      · dsimp only at he
        rw [execAttempt_silent cfg c hadm] at he
        exact execRetries_dispatched cfg c hadm _ _ _ e he
  split at he
  · rename_i hacc
    split at he
    · simp at he
    · rename_i hns
      refine ⟨⟨q.args, by simpa using he⟩, ?_⟩
      rintro (hno | hns')
      · unfold acceptedInMulti at hacc
        simp [hns, hno] at hacc
      · exact hns hns'
  · simp at he

lemma runHandler_dispatched (s : Server) (q : Request) :
    ∀ e ∈ (runHandler cfg s c ctx q).2.1,
      (∃ args, e = .dispatched c ctx.nsId args) ∧ ¬ OpenToAll q.args := by
  intro e he
  unfold runHandler at he
  dsimp only at he
  split at he
  · split at he <;> simp at he
  split at he
  · rw [runNamespace_silent cfg c hadm] at he
    simp at he
  rename_i hauth hns
  split at he
  · simp at he
  rename_i hno
  have hopen : ¬ OpenToAll q.args := fun h => h.elim hno hns
  split at he
  · split at he
    · exact ⟨⟨q.args, by simpa using he⟩, hopen⟩
    · simp at he
  · exact ⟨⟨q.args, by simpa using he⟩, hopen⟩

omit hadm

/-- A tenant whose binding is still the live one stays a tenant through the dispatcher's check,
and is served under its namespace's prefix unless it may only send open commands. -/
lemma refreshBinding_tenant {m : NamespaceManager} (outcomes : List Bool) (hm : m.Named)
    (h : Tenant m ctx)
    (hlive : ∀ r md, ctx.nsMeta = some r → m.deref r = some md →
      (m.getMetadataByToken cfg.requirepass outcomes md.token).1 = some r) :
    Tenant (refreshBinding cfg outcomes m ctx).2 (refreshBinding cfg outcomes m ctx).1 ∧
      ((refreshBinding cfg outcomes m ctx).1.authenticated = false ∨
        (refreshBinding cfg outcomes m ctx).1.nsId ≠ []) := by
  rcases h with ⟨hauth, hnone⟩ | ⟨r, hr, hname⟩
  · have hctx : (refreshBinding cfg outcomes m ctx).1.authenticated = false ∧
        (refreshBinding cfg outcomes m ctx).1.nsMeta = none := by
      unfold refreshBinding
      simp only [hnone, Option.bind_none]
      split
      · exact ⟨hauth, rfl⟩
      · exact ⟨hauth, hnone⟩
    exact ⟨.inl hctx, .inl hctx.1⟩
  · obtain ⟨md, hmd, hns⟩ := Option.map_eq_some_iff.mp hname
    have hev := m.getMetadataByToken_evolves cfg.requirepass outcomes md.token hm
    have heq : refreshBinding cfg outcomes m ctx
        = ({ ctx with nsId := makePrefix md.encodedId md.epoch },
          (m.getMetadataByToken cfg.requirepass outcomes md.token).2) := by
      unfold refreshBinding
      rw [hr]
      simp only [Option.bind_some, hmd, Option.map_some]
      rw [if_pos (hlive r md hr hmd)]
    rw [heq]
    exact ⟨.inr ⟨r, hr, hev.2 r _ hname⟩, .inr (makePrefix_ne_nil _ _)⟩

variable {s : Server}

lemma runMulti_tenant (hctx : s.conns c = ctx) (hm : s.manager.Named)
    (h : Tenant s.manager ctx) (queue : MultiQueue) (q : Request) :
    Tenant (runMulti cfg s c ctx queue q).1.manager ((runMulti cfg s c ctx queue q).1.conns c) := by
  have hext := ((runMulti_frame cfg c ctx s queue q).evolves hm).2
  suffices hmulti : ∃ mq, (runMulti cfg s c ctx queue q).1.conns c = { ctx with multi := mq } by
    obtain ⟨mq, hmq⟩ := hmulti
    rw [hmq]
    exact (h.mono hext).multi mq
  unfold runMulti
  dsimp only
  split
  · exact ⟨ctx.multi, hctx⟩
  split
  · exact ⟨ctx.multi, hctx⟩
  split
  · exact ⟨none, update_self ..⟩
  split
  · split
    · exact ⟨none, update_self ..⟩
    · exact ⟨none, update_self ..⟩
  split
  · exact ⟨_, update_self ..⟩
  · exact ⟨_, update_self ..⟩

/-- Whether a command presents the administrator's password. -/
def presents (args : List Bytes) : Bool :=
  commandName args = ascii "auth" && (parseAuthCommand args).toOption = some cfg.requirepass

lemma runHandler_cases (hctx : s.conns c = ctx) (q : Request) :
    (∃ mq, (runHandler cfg s c ctx q).1.conns c = { ctx with multi := mq }) ∨
      ∃ password, commandName q.args = ascii "auth" ∧ parseAuthCommand q.args = .ok password ∧
        (runHandler cfg s c ctx q).1 =
          s.put c (authExecute cfg q.answers s.manager ctx password).2.1
            (authExecute cfg q.answers s.manager ctx password).2.2 := by
  unfold runHandler
  dsimp only
  split
  · rename_i hauth
    split
    · exact .inl ⟨ctx.multi, hctx⟩
    · rename_i password hparse
      exact .inr ⟨password, hauth, hparse, rfl⟩
  split
  · exact .inl ⟨ctx.multi, update_self ..⟩
  split
  · exact .inl ⟨ctx.multi, hctx⟩
  split
  · split
    · exact .inl ⟨_, update_self ..⟩
    · exact .inl ⟨ctx.multi, hctx⟩
  · exact .inl ⟨ctx.multi, update_self ..⟩

lemma runHandler_tenant (hctx : s.conns c = ctx) (hm : s.manager.Named)
    (h : Tenant s.manager ctx) (q : Request) (hpres : presents cfg q.args = false) :
    Tenant (runHandler cfg s c ctx q).1.manager ((runHandler cfg s c ctx q).1.conns c) := by
  have hext := ((runHandler_frame cfg c ctx s q).evolves hm).2
  rcases runHandler_cases cfg c hctx q with ⟨mq, hmq⟩ | ⟨password, hname, hparse, hput⟩
  · rw [hmq]
    exact (h.mono hext).multi mq
  · have hne : password ≠ cfg.requirepass := by
      rintro rfl
      simp [presents, hname, hparse, Except.toOption] at hpres
    rw [hput]
    generalize hr : authExecute cfg q.answers s.manager ctx password = r
    obtain ⟨code, ctx', m'⟩ := r
    obtain ⟨hev, hcases⟩ := authExecute_cases cfg q.answers s.manager ctx password hr
    show Tenant m' (Function.update s.conns c ctx' c)
    rw [update_self]
    rcases hcases with ⟨r, md, hmd, hr, hns⟩ | hp | hsame
    · exact .inr ⟨r, hr, hns ▸ Option.map_eq_some_iff.mpr ⟨md, hmd, rfl⟩⟩
    · exact absurd hp hne
    · rw [hsame]
      exact h.mono (hev hm).2

/-- **One step of a tenant with a live binding.**  Without presenting `requirepass` it stays a
tenant, and everything it has handed on goes out under a prefix. -/
theorem dispatchCommand_tenant (hpass : cfg.requirepass ≠ []) (q : Request)
    (hm : s.manager.Named) (h : Tenant s.manager (s.conns c)) (hpres : presents cfg q.args = false)
    (hlive : ∀ r md, (s.conns c).nsMeta = some r → s.manager.deref r = some md →
      (s.manager.getMetadataByToken cfg.requirepass q.refresh md.token).1 = some r) :
    Tenant (dispatchCommand cfg s c q).1.manager ((dispatchCommand cfg s c q).1.conns c) ∧
      ∀ e ∈ (dispatchCommand cfg s c q).2.1,
        ∃ nsId args, e = .dispatched c nsId args ∧ nsId ≠ [] := by
  obtain ⟨hten, hid⟩ := refreshBinding_tenant cfg q.refresh hm h hlive
  have hm' := (refreshBinding_evolves cfg (s.conns c) q.refresh s.manager hm).1
  unfold dispatchCommand
  generalize refreshBinding cfg q.refresh s.manager (s.conns c) = b at hten hid hm' ⊢
  obtain ⟨ctx, m⟩ := b
  dsimp only at hten hid hm' ⊢
  have hadm := hten.adminRefused_ne cfg hm'
  have hctx : (s.put c ctx m).conns c = ctx := update_self ..
  -- what is handed on under an empty prefix would be a command open to all
  have hevents : ∀ (evs : List Event), authRequired cfg ctx q.args = false →
      (∀ e ∈ evs, (∃ args, e = Event.dispatched c ctx.nsId args) ∧ ¬ OpenToAll q.args) →
      ∀ e ∈ evs, ∃ nsId args, e = .dispatched c nsId args ∧ nsId ≠ [] := by
    intro evs hauth hevs e he
    obtain ⟨⟨args, rfl⟩, hopen⟩ := hevs e he
    refine ⟨_, args, rfl, ?_⟩
    rcases hid with hna | hne
    · exact absurd (openToAll_of_not_authRequired cfg hpass hna hauth) hopen
    · exact hne
  split
  · exact ⟨by rw [hctx]; exact hten, by simp⟩
  rename_i hauth
  have hauth : authRequired cfg ctx q.args = false := by simpa using hauth
  split
  · exact ⟨by rw [hctx]; exact hten, by simp⟩
  split
  · exact ⟨runMulti_tenant cfg c hctx hm' hten _ q,
      hevents _ hauth (runMulti_dispatched cfg c hadm _ _ q)⟩
  · exact ⟨runHandler_tenant cfg c hctx hm' hten q hpres,
      hevents _ hauth (runHandler_dispatched cfg c hadm _ q)⟩

end

/-! ## Runs -/

section
variable (cfg : Config)

/-- `c` has sent AUTH with the administrator's password at some time. -/
def HasPresented (c : ConnId) (h : List (ConnId × Request)) : Prop :=
  ∃ i ∈ h, i.1 = c ∧ presents cfg i.2.args = true

instance (c : ConnId) (h : List (ConnId × Request)) : Decidable (HasPresented cfg c h) :=
  inferInstanceAs (Decidable (∃ i ∈ h, i.1 = c ∧ presents cfg i.2.args = true))

/-- The events a history entitles its connections to: the default namespace, which has the
empty prefix, and its administration are for connections that presented `requirepass`. -/
def Event.Allowed (h : List (ConnId × Request)) : Event → Prop
  | .dispatched c nsId _ => nsId = [] → HasPresented cfg c h
  | .administered c _ => HasPresented cfg c h

/-- The metadata object a connection holds is the one the manager returns for its token: the
namespace has been neither deleted nor given another token since the connection bound to it. -/
def BindingLive (s : Server) (i : ConnId × Request) : Prop :=
  ∀ r ∈ (s.conns i.1).nsMeta, ∀ md ∈ s.manager.deref r,
    (s.manager.getMetadataByToken cfg.requirepass i.2.refresh md.token).1 = some r

instance (s : Server) (i : ConnId × Request) : Decidable (BindingLive cfg s i) :=
  inferInstanceAs (Decidable (∀ r ∈ (s.conns i.1).nsMeta, ∀ md ∈ s.manager.deref r, _ = _))

/-- No command is dispatched on a revoked binding before `requirepass` was presented. -/
def LiveOrPresented (h : List (ConnId × Request)) (s : Server) (i : ConnId × Request) : Prop :=
  HasPresented cfg i.1 (h ++ [i]) ∨ BindingLive cfg s i

instance (h : List (ConnId × Request)) (s : Server) (i : ConnId × Request) :
    Decidable (LiveOrPresented cfg h s i) :=
  inferInstanceAs (Decidable (_ ∨ _))

/-- The invariant of all runs: legal names, and tenants without the password. -/
structure TenantsBound (h : List (ConnId × Request)) (s : Server) : Prop where
  named : s.manager.Named
  tenant : ∀ c, ¬ HasPresented cfg c h → Tenant s.manager (s.conns c)

variable {cfg}

lemma not_hasPresented_snoc {c : ConnId} {h : List (ConnId × Request)} {i : ConnId × Request}
    (hn : ¬ HasPresented cfg c (h ++ [i])) :
    ¬ HasPresented cfg c h ∧ (i.1 = c → presents cfg i.2.args = false) := by
  refine ⟨fun ⟨j, hj, hp⟩ => hn ⟨j, mem_append_left _ hj, hp⟩, fun hc => ?_⟩
  by_contra hp
  exact hn ⟨i, by simp, hc, by simpa using hp⟩

lemma tenantsBound_step (hpass : cfg.requirepass ≠ []) {h : List (ConnId × Request)}
    {s : Server} {i : ConnId × Request} (hi : TenantsBound cfg h s)
    (hg : LiveOrPresented cfg h s i) : TenantsBound cfg (h ++ [i]) (step cfg s i) := by
  have hframe := dispatchCommand_frame cfg i.1 s i.2
  obtain ⟨hnamed, hext⟩ := hframe.evolves hi.named
  refine ⟨hnamed, fun c hc => ?_⟩
  obtain ⟨hold, hpres⟩ := not_hasPresented_snoc hc
  by_cases hci : c = i.1
  · subst hci
    have hlive := hg.resolve_left hc
    exact (dispatchCommand_tenant cfg i.1 hpass i.2 hi.named (hi.tenant _ hold) (hpres rfl)
      fun r md hr hmd => hlive r hr md hmd).1
  · show Tenant _ ((dispatchCommand cfg s i.1 i.2).1.conns c)
    rw [hframe.others c hci]
    exact (hi.tenant c hold).mono hext

/-- **The default namespace and its administration need the password.**  In every run in which
no connection without the password is served on a revoked binding, every step hands commands on
under the empty prefix, and lets NAMESPACE through, only for connections that have presented
`requirepass`. -/
theorem default_namespace_needs_requirepass (hpass : cfg.requirepass ≠ [])
    {table : NamespaceStorage.MetaTable} (ht : NamespaceStorage.NamesNotDefault table)
    {h : List (ConnId × Request)} {s : Server}
    (hrun : GuardedRun (step cfg) (LiveOrPresented cfg) (Server.start table) h s)
    (i : ConnId × Request) (hg : LiveOrPresented cfg h s i) :
    ∀ e ∈ events cfg s i, e.Allowed cfg (h ++ [i]) := by
  have hstart : TenantsBound cfg [] (Server.start table) :=
    ⟨⟨ht, by simp [Server.start, NamespaceManager.start]⟩, fun _ _ => .inl ⟨rfl, rfl⟩⟩
  have hinv := hrun.invariant (TenantsBound cfg) hstart
    fun _ _ _ => tenantsBound_step hpass
  intro e he
  have hconn : e.conn = i.1 := (dispatchCommand_frame cfg i.1 s i.2).conn e he
  by_cases hp : HasPresented cfg i.1 (h ++ [i])
  · rw [← hconn] at hp
    cases e with
    | dispatched c nsId args => exact fun _ => hp
    | administered c cmd => exact hp
  · obtain ⟨hold, hpres⟩ := not_hasPresented_snoc hp
    have hlive := hg.resolve_left hp
    obtain ⟨nsId, args, rfl, hne⟩ := (dispatchCommand_tenant cfg i.1 hpass i.2 hinv.named
      (hinv.tenant _ hold) (hpres rfl) fun r md hr hmd => hlive r hr md hmd).2 e he
    exact fun hnil => absurd hnil hne

end

/-! ## A revoked tenant becomes the administrator -/

/-- A server with the password `secret`. -/
def secretConfig : Config where
  requirepass := ascii "secret"
  clusterMode := false

/-- A namespace is added, a tenant authenticates with its token, and the namespace is deleted. -/
def revocation : List (ConnId × Request) :=
  [(0, { args := [ascii "auth", ascii "secret"] }),
    (0, { args := [ascii "namespace", ascii "add", ascii "shop"],
          answers := { draws := [List.replicate 16 0] } }),
    (1, { args := [ascii "auth", ascii "AAAAAAAAQACAAAAAAAAAAA"] }),
    (0, { args := [ascii "namespace", ascii "del", ascii "shop"] })]

/-- While the namespace is there, the tenant's commands go out under its prefix. -/
theorem live_tenant_is_confined :
    let s := (revocation.take 3).foldl (step secretConfig) (Server.start fun _ => none)
    let get : ConnId × Request := (1, { args := [ascii "get", ascii "k"] })
    events secretConfig s get ≠ [] ∧ ∀ e ∈ events secretConfig s get,
        e.Allowed secretConfig (revocation.take 3 ++ [get]) := by
  have hempty : NamespaceStorage.NamesNotDefault fun _ => none := fun _ => by simp
  have hrun : GuardedRun (step secretConfig) (LiveOrPresented secretConfig)
      (Server.start fun _ => none) (revocation.take 3)
      ((revocation.take 3).foldl (step secretConfig) (Server.start fun _ => none)) :=
    .step (.step (.step .init (by decide +kernel)) (by decide +kernel)) (by decide +kernel)
  exact ⟨by decide +kernel, default_namespace_needs_requirepass (by decide) hempty hrun _
    (by decide +kernel)⟩

/-- The tenant is then served in the default namespace and manages namespaces, without the password.
-/
theorem revoked_tenant_is_administrator :
    let s := revocation.foldl (step secretConfig) (Server.start fun _ => none)
    let get : ConnId × Request := (1, { args := [ascii "get", ascii "k"] })
    let list : ConnId × Request := (1, { args := [ascii "namespace", ascii "get", ascii "*"] })
    Event.dispatched 1 [] get.2.args ∈ events secretConfig s get ∧
      Event.administered 1 ⟨.get, ascii "*"⟩ ∈ events secretConfig s list ∧
      ¬ HasPresented secretConfig 1 (revocation ++ [get]) ∧
      ¬ HasPresented secretConfig 1 (revocation ++ [list]) := by
  decide +kernel

end EloqKV.Sessions
