/-
  AUTH and NAMESPACE (`redis_command.cpp`: `AuthCommand`, `NamespaceCommand` and their parsers).
-/
import EloqKV.Errors
import EloqKV.Namespace.Manager

open EloqKV.Lib

namespace EloqKV

open NamespaceManager NamespaceToken

structure Config where
  requirepass : Bytes
  clusterMode : Bool

/-- A reply, as far as the modelled code decides it: `unknownCommand` quotes the name of a command
without a handler, `handler` is whatever the command's own handler answers. -/
inductive Reply where
  | error (text : String)
  | unknownCommand (name : Bytes)
  | status (text : String)
  | bulk (b : Bytes)
  | array (items : List Bytes)
  | handler
  deriving DecidableEq, Repr

/-- The queue of an open MULTI: the accepted commands, and whether one was refused (`error_`). -/
structure MultiQueue where
  cmds : List (List Bytes) := []
  error : Bool := false

/-- `RedisConnectionContext`, the fields that decide rights and the MULTI queue. -/
structure RedisConnectionContext where
  authenticated : Bool := false
  ns : Bytes := kDefaultNamespace
  nsId : Bytes := []
  nsMeta : Option MetaRef := none
  multi : Option MultiQueue := none

/-- What the environment answers to one executed command: outcomes for reads and writes of the
metadata table, random bytes, and the listing a range scan of the name records returns. -/
structure Answers where
  lookup : List Bool := []
  update : List Bool := []
  draws : List Bytes := []
  listing : List (Bytes × Bytes) := []

/-! ## AUTH -/

/-- `ParseAuthCommand` with a password configured: one or two arguments, the password last. -/
def parseAuthCommand (args : List Bytes) : Except String Bytes :=
  match args with
  | [_, password] => .ok password
  | [_, _, password] => .ok password
  | [] => .error "ERR wrong number of arguments for 'auth' command"
  | [_] => .error "ERR wrong number of arguments for 'auth' command"
  | _ => .error "ERR syntax error"

variable (cfg : Config) (ans : Answers) (m : NamespaceManager) (ctx : RedisConnectionContext)

/-- `AuthCommand::Execute`: a namespace token first, then the administrator's password. -/
def authExecute (password : Bytes) : RdCode × RedisConnectionContext × NamespaceManager :=
  let token := NamespaceToken.fromBase64Url password
  let (ref, m) :=
    if token.valid then m.getMetadataByToken cfg.requirepass ans.lookup token else (none, m)
  match ref.bind fun r => (m.deref r).map fun md => (r, md) with
  | some (r, md) =>
    (.ok, { ctx with
      authenticated := true
      ns := md.nsName
      nsMeta := some r
      nsId := makePrefix md.encodedId md.epoch }, m)
  | none =>
    if password = cfg.requirepass then
      (.ok, { ctx with
        authenticated := true
        ns := kDefaultNamespace
        nsId := []
        nsMeta := none }, m)
    else (.wrongPass, ctx, m)

/-! ## NAMESPACE -/

inductive NamespaceOp where
  | current
  | get
  | del
  | add
  | refresh
  deriving DecidableEq, Repr

/-- `NamespaceCommand`: the subcommand and the namespace it names. -/
structure NamespaceCommand where
  op : NamespaceOp
  ns : Bytes
  deriving DecidableEq

def namespaceSyntaxError : String :=
  "ERR NAMESPACE subcommand must be one of GET, DEL, ADD, REFRESH and CURRENT"

/-- `ParseNamespaceCommand`; the subcommand is read in lower case. -/
def parseNamespaceCommand (args : List Bytes) : Except String NamespaceCommand :=
  match args with
  | [_, sub] =>
    if lower sub = ascii "current" then .ok ⟨.current, []⟩ else .error namespaceSyntaxError
  | [_, sub, ns] =>
    if lower sub = ascii "get" then .ok ⟨.get, ns⟩
    else if lower sub = ascii "del" then .ok ⟨.del, ns⟩
    else if lower sub = ascii "add" then .ok ⟨.add, ns⟩
    else if lower sub = ascii "refresh" then .ok ⟨.refresh, ns⟩
    else .error namespaceSyntaxError
  | _ => .error namespaceSyntaxError

/-- The refusals at the head of every subcommand but CURRENT; `none` passes as administrator. -/
def adminRefused : Option String :=
  if cfg.clusterMode then
    some "ERR forbidden to manage namespace when cluster mode was enabled"
  else if cfg.requirepass = [] then
    some "ERR forbidden to manage namespace when requirepass was empty"
  else if !ctx.authenticated ∨ ctx.ns ≠ kDefaultNamespace then
    some "ERR only requirepass user is allowed to manage namespaces"
  else none

def namespaceLengthError : String :=
  "ERR namespace length must be between 1 and 255 bytes"

/-- NAMESPACE ADD after the administrator check. -/
def namespaceAdd (ns : Bytes) : Reply × NamespaceManager :=
  if ns = kDefaultNamespace then (.error "ERR forbidden to add the default namespace", m)
  else if ns = [] ∨ 255 < ns.length then (.error namespaceLengthError, m)
  else
    match NamespaceToken.drawToken [cfg.requirepass] ans.draws with
    | none => (.handler, m)
    | some token =>
      let (ok, m) := m.add cfg.requirepass ans.update ns token
      (if ok then .bulk token.toText else .error "ERR the namespace already exists", m)

/-- NAMESPACE REFRESH after the administrator check. -/
def namespaceRefresh (ns : Bytes) : Reply × NamespaceManager :=
  if ns = kDefaultNamespace then (.error "ERR forbidden to refresh the default namespace", m)
  else if ns = [] ∨ 255 < ns.length then (.error namespaceLengthError, m)
  else
    let oldToken := m.get ans.lookup ns
    if oldToken = [] then (.error "ERR namespace not found", m)
    else
      match NamespaceToken.drawToken [cfg.requirepass, oldToken] ans.draws with
      | none => (.handler, m)
      | some token =>
        let (ok, m) := m.set cfg.requirepass ans.update ns token
        (if ok then .bulk token.toText else .error "ERR failed to refresh namespace token", m)

/-- NAMESPACE DEL after the administrator check. -/
def namespaceDel (ns : Bytes) : Reply × NamespaceManager :=
  if ns = kDefaultNamespace then (.error "ERR forbidden to delete the default namespace", m)
  else
    let (ok, m) := m.del ans.update ns
    (if ok then .status "OK" else .error "ERR namespace not found", m)

/-- NAMESPACE GET after the administrator check: all namespaces, or one token. -/
def namespaceGet (ns : Bytes) : Reply :=
  if ns = ascii "*" then .array (ans.listing.flatMap fun p => [p.2, p.1])
  else
    let token := m.get ans.lookup ns
    if token = [] then .error "ERR namespace not found" else .bulk token

/-- `NamespaceCommand::Execute` with its reply. -/
def namespaceExecute (cmd : NamespaceCommand) : Reply × NamespaceManager :=
  if cmd.op = .current then (.bulk ctx.ns, m)
  else
    match adminRefused cfg ctx with
    | some err => (.error err, m)
    | none =>
      match cmd.op with
      | .current => (.bulk ctx.ns, m)
      | .get => (namespaceGet ans m cmd.ns, m)
      | .add => namespaceAdd cfg ans m cmd.ns
      | .refresh => namespaceRefresh cfg ans m cmd.ns
      | .del => namespaceDel ans m cmd.ns

/-! ## What the commands do to the manager and to the connection -/

/-- **NAMESPACE never registers the default namespace's name**, whoever runs it. -/
theorem namespaceExecute_evolves (cmd : NamespaceCommand) :
    m.Evolves (namespaceExecute cfg ans m ctx cmd).2 := by
  have hadd : m.Evolves (namespaceAdd cfg ans m cmd.ns).2 := by
    unfold namespaceAdd
    split
    · exact .refl m
    · rename_i hns
      split
      · exact .refl m
      · split
        · exact .refl m
        · exact add_evolves _ _ m hns _
  have hrefresh : m.Evolves (namespaceRefresh cfg ans m cmd.ns).2 := by
    unfold namespaceRefresh
    split
    · exact .refl m
    · rename_i hns
      split
      · exact .refl m
      · dsimp only
        split
        · exact .refl m
        · split
          · exact .refl m
          · exact set_evolves _ _ m hns _
  have hdel : m.Evolves (namespaceDel ans m cmd.ns).2 := by
    unfold namespaceDel
    split
    · exact .refl m
    · exact del_evolves _ m _
  unfold namespaceExecute
  split
  · exact .refl m
  · split
    · exact .refl m
    · split
      · exact .refl m
      · exact .refl m
      · exact hadd
      · exact hrefresh
      · exact hdel

/-- What AUTH can do: bind the connection to an object of the manager under that object's
name, make it the administrator's when the password is `requirepass`, or nothing. -/
lemma authExecute_cases (password : Bytes) {code : RdCode} {ctx' : RedisConnectionContext}
    {m' : NamespaceManager} (h : authExecute cfg ans m ctx password = (code, ctx', m')) :
    m.Evolves m' ∧ ((∃ r md, m'.deref r = some md ∧ ctx'.nsMeta = some r ∧ ctx'.ns = md.nsName) ∨
        password = cfg.requirepass ∨ ctx' = ctx) := by
  unfold authExecute at h
  dsimp only at h
  generalize hr : (if (fromBase64Url password).valid = true then
      m.getMetadataByToken cfg.requirepass ans.lookup (fromBase64Url password)
    else (none, m)) = r at h
  obtain ⟨ref, m₁⟩ := r
  have hev : m.Evolves m₁ := by
    split at hr
    · have := getMetadataByToken_evolves cfg.requirepass ans.lookup m
        (fromBase64Url password)
      rw [hr] at this
      exact this
    · cases hr
      exact .refl m
  split at h
  · rename_i r md hfound
    obtain ⟨-, rfl, rfl⟩ : _ ∧ _ ∧ _ := by simpa only [Prod.mk.injEq] using h
    obtain ⟨r', -, hmap⟩ := Option.bind_eq_some_iff.mp hfound
    obtain ⟨md', hmd, hpair⟩ := Option.map_eq_some_iff.mp hmap
    cases hpair
    exact ⟨hev, .inl ⟨_, _, hmd, rfl, rfl⟩⟩
  · split at h
    · rename_i hpass
      obtain ⟨-, -, rfl⟩ : _ ∧ _ ∧ _ := by simpa only [Prod.mk.injEq] using h
      exact ⟨hev, .inr (.inl hpass)⟩
    · obtain ⟨-, rfl, rfl⟩ : _ ∧ _ ∧ _ := by simpa only [Prod.mk.injEq] using h
      exact ⟨hev, .inr (.inr rfl)⟩

end EloqKV
