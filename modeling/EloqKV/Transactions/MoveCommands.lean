/-
  LMOVE, RPOPLPUSH and SMOVE (`LMoveCommand`, `SMoveCommand` in `src/redis_command.cpp`) under
  the step driver (`ExecuteMultiObjTxRequest` in `src/redis_service.cpp`).

  Such a command takes an element from one key and gives it to another, in two requests of one
  transaction.  Whether a refused second request takes the first one back depends on who ends
  the transaction: the driver, or the surrounding MULTI, BEGIN or script.
-/
import EloqKV.Errors
import EloqKV.Objects.ListObject
import EloqKV.Objects.SetObject

open List Function EloqKV.Lists EloqKV.Sets

namespace EloqKV.Moves

open RedisListObject

/-- An object as the move commands see it. -/
inductive Obj where
  | list (l : RedisListObject)
  | set (s : RedisHashSetObject)
  | other
  deriving DecidableEq

/-- The keys as the transaction sees them. -/
abbrev Db := Bytes → Option Obj

/-- The result of one step: error code, `ret_`, and the object left at the key. -/
structure StepResult where
  err : RdCode
  ret : Nat
  obj : Option Obj
  deriving DecidableEq

/-- The element that `Execute(LMovePopCommand &)` copies into its result. -/
def movedElement (isLeft : Bool) (l : RedisListObject) : Bytes :=
  if isLeft then l.listObject.headD [] else l.listObject.getLastD []

/-- `LMovePopCommand` with the element popped; on an absent key it does not proceed. -/
def lmovePop (isLeft : Bool) : Option Obj → StepResult × Bytes
  | none => (⟨.nil, 0, none⟩, [])
  | some (.list l) =>
    match (ListCommand.lmovePop isLeft).executeOn l with
    | .fail | .read => (⟨.nil, 0, some (.list l)⟩, [])
    | .write | .delete =>
      (⟨.ok, 1, ((ListCommand.lmovePop isLeft).commitOn l).map .list⟩, movedElement isLeft l)
  | some o => (⟨.wrongType, 0, some o⟩, [])

/-- `LMovePushCommand`, which proceeds on an absent key. -/
def lmovePush (isLeft : Bool) (e : Bytes) (o : Option Obj) : StepResult :=
  match o.getD (.list .empty) with
  | .list l =>
    match (ListCommand.lmovePush isLeft e).executeOn l with
    | .fail | .read => ⟨.objectTooBig, 0, o⟩
    | .write | .delete => ⟨.ok, 1, ((ListCommand.lmovePush isLeft e).commitOn l).map .list⟩
  | _ => ⟨.wrongType, 0, o⟩

/-- `SRemCommand` with one member. -/
def srem (m : Bytes) (o : Option Obj) : StepResult :=
  match o.getD (.set .empty) with
  | .set s =>
    match s.executeSRem [m] with
    | .noChange => ⟨.ok, 0, o⟩
    | .modified | .modifiedToEmpty =>
      ⟨.ok, 1, ((HashSetCommand.srem [m]).commitOn s).map .set⟩
  | _ => ⟨.wrongType, 0, o⟩

/-- `SAddCommand` with the members SMOVE hands on: the one removed, or none. -/
def sadd (paras : List Bytes) (o : Option Obj) : StepResult :=
  match o.getD (.set .empty) with
  | .set s =>
    let fresh := paras.filter (· ∉ s.hashSet)
    if maxObjectSize < s.serializedLength + itemsLength fresh then
      ⟨.objectTooBig, fresh.length, o⟩
    else
      match s.executeSAdd paras with
      | .noChange => ⟨.ok, 0, o⟩
      | .modified | .modifiedToEmpty =>
        ⟨.ok, fresh.length, ((HashSetCommand.sadd paras).commitOn s).map .set⟩
  | _ => ⟨.wrongType, 0, o⟩

/-! ## The two steps and their driver -/

/-- LMOVE (RPOPLPUSH is `lmove false true`) and SMOVE. -/
inductive Command where
  | lmove (isLeftForSrc isLeftForDst : Bool)
  | smove (member : Bytes)

open Command

/-- The first step: its result and the elements for the second. -/
def Command.first : Command → Option Obj → StepResult × List Bytes
  | .lmove isLeft _, o => ((lmovePop isLeft o).1, [(lmovePop isLeft o).2])
  | .smove m, o => (srem m o, if (srem m o).ret = 1 then [m] else [])

def Command.second : Command → List Bytes → Option Obj → StepResult
  | .lmove _ isLeft, paras, o => lmovePush isLeft (paras.headD []) o
  | .smove _, paras, o => sadd paras o

def Command.handleMiddleResult : Command → StepResult → Bool
  | .lmove _ _, r => r.err ≠ .wrongType && r.ret = 1
  | .smove _, r => r.err ≠ .wrongType

/-- What `ExecuteMultiObjTxRequest` leaves: the error replied, if any, the keys as the
transaction now sees them, `IsPassed`, and whether the last step was reached. -/
structure Outcome where
  error : Option RdCode
  db : Db
  isPassed : Bool
  lastStep : Bool

/-- `OutputResult` of a command that stopped at its first step. -/
def firstError : RdCode → Option RdCode
  | .nil => none
  | err => some err

/-- `OutputResult` of a command that made its last step. -/
def lastError : RdCode → Option RdCode
  | .ok => none
  | err => some err

variable (cmd : Command) (src dst : Bytes)

/-- The loop of `ExecuteMultiObjTxRequest` for a command of two steps. -/
def Command.run (db : Db) : Outcome :=
  let r₁ := (cmd.first (db src)).1
  let db₁ := update db src r₁.obj
  if cmd.handleMiddleResult r₁ then
    let r₂ := cmd.second (cmd.first (db src)).2 (db₁ dst)
    ⟨lastError r₂.err, update db₁ dst r₂.obj, r₁.err == .ok && r₂.err == .ok, true⟩
  else ⟨firstError r₁.err, db₁, false, false⟩

/-- Who ends the transaction the command runs in.  Of a script it counts what becomes of an error
reply: `redis.call` raises it, and the script ends in it unless Lua's own `pcall`, which `InitLua`
leaves in place, catches it; after `redis.pcall` the script goes on unless it raises an error
itself. -/
inductive Context where
  | autoCommit
  | multi
  | beginTx
  | script (endsInError : Bool)
  deriving DecidableEq

variable (engine : Bool → Bool)

/-- The keys the surrounding transaction commits as far as this command goes.  `engine` is the
transaction engine's decision on an auto-commit request whose last step has run.  `EvalLua`
aborts the transaction of a script that ends in an error. -/
def committed (ctx : Context) (db : Db) (out : Outcome) : Db :=
  match ctx with
  | .autoCommit =>
    if (if out.lastStep then engine out.isPassed else out.isPassed) then out.db else db
  | .script endsInError => if out.error.isSome && endsInError then db else out.db
  | .multi | .beginTx => out.db

def elements : Option Obj → List Bytes
  | some (.list l) => l.listObject
  | some (.set s) => s.hashSet
  | _ => []

def Command.Takes : Command → Option Obj → Prop
  | .lmove _ _, o => ∃ l, o = some (.list l) ∧ l.listObject ≠ []
  | .smove m, o => ∃ s, o = some (.set s) ∧ m ∈ s.hashSet

/-- The elements of the two keys together. -/
def combined (db : Db) : List Bytes :=
  if src = dst then elements (db src) else elements (db src) ++ elements (db dst)

/-- A successful command conserves the elements of two lists or moves one member; the rest stays. -/
def Command.Conserves (db db' : Db) : Prop :=
  (∀ k, k ≠ src → k ≠ dst → db' k = db k) ∧
    match cmd with
    | .lmove _ _ => (combined src dst db').Perm (combined src dst db)
    | .smove m =>
      (m ∈ elements (db src) → m ∈ elements (db' dst) ∧ (src ≠ dst → m ∉ elements (db' src))) ∧
        (m ∉ elements (db src) → db' = db) ∧
        ∀ x, x ≠ m → ∀ k, x ∈ elements (db' k) ↔ x ∈ elements (db k)

/-- An error reply leaves every key as it was, any other reply conserves. -/
def Atomic (ctx : Context) (cmd : Command) (src dst : Bytes) (db : Db) : Prop :=
  let out := cmd.run src dst db
  let db' := committed engine ctx db out
  (out.error.isSome → db' = db) ∧ (out.error = none → cmd.Conserves src dst db db')

/-! ## One lemma for each step

What `Execute` and `Commit` of the two objects do with one element. -/

variable {l : RedisListObject} {s : RedisHashSetObject} {m : Bytes}

variable (o : Option Obj)

end EloqKV.Moves
