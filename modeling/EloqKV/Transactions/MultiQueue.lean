/-
  The queue of MULTI and the attempts to execute it (`ParseMultiCommand` in
  `src/redis_command.cpp`, `MultiTransactionHandler::Run` in `src/redis_handler.cpp`).

  A command is bound to its table, its physical key and its deadline when it is parsed, which
  happens when it is queued and again before every retry.  SELECT takes effect at once while it is
  parsed and once more when the queue is executed, so every pass starts in the database the
  previous one left.  An attempt ends at a request that fails, or at the commit.
-/
import EloqKV.Namespace.Prefix

open List

namespace EloqKV.MultiQueue

/-- The prefix of a tenant's keys, as `MakePrefix` builds it. -/
structure TenantPrefix where
  bytes : Bytes
  ne_nil : bytes ≠ []
  ne_default : bytes ≠ kDefaultNamespace
  deriving DecidableEq

/-- `current_namespace`: the default namespace or a tenant's. -/
abbrev Binding := Option TenantPrefix

def Binding.nsId : Binding → Bytes
  | none => []
  | some p => p.bytes

/-- The tables of the numbered databases, and the one all tenants share. -/
inductive Table where
  | database (db : Int)
  | nsData
  deriving DecidableEq

def redisTableName (ns : Binding) (db : Int) : Table :=
  match ns with
  | none => .database db
  | some _ => .nsData

section Queue

variable {Op : Type}

/-- A queued command: SELECT, or a request to the tables, with the time to live it asks for. -/
inductive Command (Op : Type) where
  | select (db : Int)
  | keyed (key : Bytes) (op : Op) (ttl : Option Nat)
  deriving DecidableEq

/-- An operation as it is submitted. -/
structure Submitted (Op : Type) where
  table : Table
  key : Bytes
  op : Op
  deadline : Option Nat
  deriving DecidableEq

variable (databases : Nat) (ns : Binding)

/-- The databases of the server are `0 .. databases - 1`. -/
def effective (db : Int) : Bool :=
  ns.isNone && decide (0 ≤ db) && decide (db < databases)

/-- `SelectCommand::Execute`: the database selected afterwards. -/
def select (current db : Int) : Int :=
  if effective databases ns db then db else current

/-- The database after the SELECTs among some commands. -/
def selected (databases : Nat) (ns : Binding) : Int → List (Command Op) → Int
  | current, [] => current
  | current, .select db :: cs => selected databases ns (select databases ns current db) cs
  | current, .keyed .. :: cs => selected databases ns current cs

/-- `ParseMultiCommand` on the whole queue: the operations it binds.  `clock` is what the parsers
read of `ClockTsInMillseconds`, command by command. -/
def bind (databases : Nat) (ns : Binding) : (Nat → Nat) → Int → List (Command Op) →
    List (Submitted Op)
  | _, _, [] => []
  | clock, current, .select db :: cs =>
    bind databases ns (fun i => clock (i + 1)) (select databases ns current db) cs
  | clock, current, .keyed key op ttl :: cs =>
    ⟨redisTableName ns current, composeNamespaceKey ns.nsId key, op, ttl.map (clock 0 + ·)⟩ ::
      bind databases ns (fun i => clock (i + 1)) current cs

/-- An attempt of EXEC: how many commands have run when it stops, and the clock of its parse. -/
structure Attempt where
  ran : Nat
  clock : Nat → Nat

/-- The retries of EXEC after an attempt left `current` selected: each parses the queue again
and executes the first commands of it.  The result is what each of them submits, and the
database left at the end. -/
def retries (databases : Nat) (ns : Binding) (queue : List (Command Op)) :
    Int → List Attempt → List (List (Submitted Op)) × Int
  | current, [] => ([], current)
  | current, a :: rest =>
    let parsed := selected databases ns current queue
    let left := selected databases ns parsed (queue.take a.ran)
    let (later, final) := retries databases ns queue left rest
    (bind databases ns a.clock current queue :: later, final)

/-- What a MULTI with this queue submits in each attempt, and the database left by an EXEC that
is aborted in the end.  The first attempt uses the requests bound while queueing, under the
namespace `ns`; the retries bind under the namespace `nsExec` of the EXEC. -/
def attempts (ns nsExec : Binding) (db : Int) (queue : List (Command Op))
    (first : Attempt) (retried : List Attempt) : List (List (Submitted Op)) × Int :=
  let queued := selected databases ns db queue
  let left := selected databases nsExec queued (queue.take first.ran)
  let (later, final) := retries databases nsExec queue left retried
  (bind databases ns first.clock db queue :: later, final)

/-- `MultiExec` stops where a request to the tables fails, or at the commit; SELECT cannot fail. -/
def Stops (queue : List (Command Op)) (ran : Nat) : Prop :=
  ran = queue.length ∨ ∃ key op ttl, queue[ran]? = some (.keyed key op ttl)

/-- The last SELECT that takes effect. -/
def lastSelect (cs : List (Command Op)) : Option Int :=
  cs.reverse.findSome? fun
    | .select n => if effective databases ns n then some n else none
    | .keyed .. => none

/-- The last effective SELECT before each request to the tables, and the last one of the queue,
goes back to the database before MULTI. -/
def SelectsReturn (db : Int) (queue : List (Command Op)) : Prop :=
  ∀ ran, Stops queue ran → ∀ n, lastSelect databases ns (queue.take ran) = some n → n = db

lemma selected_eq_lastSelect (current : Int) (cs : List (Command Op)) :
    selected databases ns current cs = (lastSelect databases ns cs).getD current := by
  induction cs generalizing current with
  | nil => rfl
  | cons c cs ih =>
    have hcons : lastSelect databases ns (c :: cs)
        = (lastSelect databases ns cs).or (lastSelect databases ns [c]) := by
      simp only [lastSelect, reverse_cons, findSome?_append, reverse_nil, nil_append]
    rw [hcons, Option.getD_or]
    cases c with
    | select n =>
      rw [selected, ih]
      congr 1
      unfold select
      by_cases heff : effective databases ns n = true
      · simp [lastSelect, heff]
      · simp [lastSelect, heff]
    | keyed key op ttl => exact ih current

/-- A pass over the first commands, up to where an attempt may stop, comes back to `db`. -/
lemma SelectsReturn.selected_take {databases : Nat} {ns : Binding} {db : Int}
    {queue : List (Command Op)} (h : SelectsReturn databases ns db queue) {ran : Nat}
    (hstops : Stops queue ran) : selected databases ns db (queue.take ran) = db := by
  rw [selected_eq_lastSelect]
  cases hlast : lastSelect databases ns (queue.take ran) with
  | none => rfl
  | some n => exact h ran hstops n hlast

lemma SelectsReturn.selected {databases : Nat} {ns : Binding} {db : Int}
    {queue : List (Command Op)} (h : SelectsReturn databases ns db queue) :
    selected databases ns db queue = db := by
  have hall := h.selected_take (.inl rfl)
  rwa [take_length] at hall

/-! ## Every attempt -/

end Queue

end EloqKV.MultiQueue
