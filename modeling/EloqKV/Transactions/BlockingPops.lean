/-
  BLPOP, BRPOP, BLMPOP, BLMOVE and BRPOPLPUSH (`BlockLPopCommand`, `BLMPopCommand` and
  `BLMoveCommand` in `src/redis_command.cpp`) under the step driver
  (`ExecuteMultiObjTxRequest` in `src/redis_service.cpp`).

  A blocking command first tries its keys one by one, then parks one sub-command on every key,
  then pops from one of them.  The same sub-command objects serve all three stages:
  `HandleMiddleResult` rewrites their operation between two steps, and `ForwardResult` replaces
  pointers to them by a pointer to the discard command.

  The engine is not part of the repository.  What it may do is the type `Event`: run a
  submitted sub-command on its key at any time, any number of times while it is parked and even
  after its pointer was replaced, call `ForwardResult` once, and let other clients write to keys the
  transaction has not locked.
-/
import EloqKV.Lib.Runs
import EloqKV.Namespace.PopReplies
import EloqKV.EloqString
import EloqKV.Objects.Items
import EloqKV.Objects.Outcome

namespace EloqKV.Blocking

open Function

open PopReplies (Output OutputEvent popEnd)

/-- An object as the blocking commands see it: the elements of a list, or another type. -/
inductive Obj where
  | list (items : List Bytes)
  | other
  deriving DecidableEq, Repr

abbrev Db := Bytes → Option Obj

/-- A list that became empty is deleted. -/
def listOrNone : List Bytes → Option Obj
  | [] => none
  | x :: xs => some (.list (x :: xs))

/-- The result of a push: error code, `ret_`, and the object left at the key. -/
structure PushResult where
  err : RdCode
  ret : Nat
  obj : Option Obj

/-- `LMovePushCommand` on a list, which has 5 bytes before its elements.  The size check counts the
element without its length field. -/
def lmovePush (isLeft : Bool) (e : Bytes) (o : Option Obj) : PushResult :=
  match o.getD (.list []) with
  | .list items =>
    if maxObjectSize < 5 + itemsLength items + e.length then ⟨.objectTooBig, 0, o⟩
    else ⟨.ok, 1, some (.list (if isLeft then e :: items else items ++ [e]))⟩
  | .other => ⟨.wrongType, 0, o⟩

/-! ## The sub-command -/

/-- `txservice::BlockOperation`; the discard command is a pointer of its own. -/
inductive BlockOperation where
  | noBlock
  | popBlock
  | popNoBlock
  | blockLock
  | popElement
  deriving DecidableEq, Repr

/-- `txservice::ExecResult`, with the two results that only blocking commands give. -/
inductive ExecResult where
  | fail
  | read
  | write
  | delete
  | block
  | unlock
  deriving DecidableEq, Repr

def ExecResult.modifies : ExecResult → Bool
  | .write | .delete => true
  | _ => false

def ExecResult.keepsLock : ExecResult → Bool
  | .block | .unlock => false
  | _ => true

/-- `RedisListResult`; `elements` is there if the variant holds strings. -/
structure ListResult where
  err : RdCode
  ret : Nat
  elements : Option (List Bytes)
  deriving DecidableEq, Repr

def ListResult.initial : ListResult := ⟨.nil, 0, none⟩

structure BlockLPopCommand where
  opType : BlockOperation
  isLeft : Bool
  count : Nat
  result : ListResult
  deriving DecidableEq, Repr

namespace BlockLPopCommand

variable (cmd : BlockLPopCommand)

def execute (items : List Bytes) : ListResult × CommandExecuteState :=
  if items = [] then (⟨.ok, 0, cmd.result.elements⟩, .noChange)
  else
    let cnt := min cmd.count items.length
    let elements := popEnd cmd.isLeft cnt items
    let result : ListResult := ⟨.ok, elements.length, some elements⟩
    if cnt = 0 then (result, .noChange)
    else if items.length ≤ cnt then (result, .modifiedToEmpty)
    else (result, .modified)

/-- The `switch` over `op_type_` at the end of `ExecuteOn`, for the operations that pop. -/
def answer : BlockOperation → CommandExecuteState → ExecResult
  | _, .modifiedToEmpty => .delete
  | _, .modified => .write
  | .noBlock, .noChange => .read
  | .popBlock, .noChange => .block
  | .popNoBlock, .noChange => .unlock
  -- the assertion that there are elements is not part of a release build
  | .popElement, .noChange => .write
  | .blockLock, .noChange => .block

/-- `ExecuteOn`.  It proceeds on an absent key as on an empty list. -/
def executeOn (object : Option Obj) : BlockLPopCommand × ExecResult :=
  match object.getD (.list []) with
  | .list items =>
    if cmd.opType = .blockLock then
      ({ cmd with result := ⟨.ok, items.length, cmd.result.elements⟩ },
        if 0 < items.length then .read else .block)
    else ({ cmd with result := (cmd.execute items).1 }, answer cmd.opType (cmd.execute items).2)
  | _ => ({ cmd with result := ⟨.wrongType, cmd.result.ret, cmd.result.elements⟩ }, .fail)

/-- The loop of `CommitBlockPop`; the size is narrowed to 32 bits. -/
def commitBlockPop (isLeft : Bool) (count : Nat) (items : List Bytes) : List Bytes :=
  let cnt := min (items.length % 2 ^ 32) count
  if isLeft then items.drop cnt else items.take (items.length - cnt)

/-- `CommitOn`; a list that was empty before stays. -/
def commitOn : Option Obj → Option Obj
  | some (.list (x :: xs)) => listOrNone (commitBlockPop cmd.isLeft cmd.count (x :: xs))
  | object => object

/-- The object after the engine has applied a result. -/
def applied (object : Option Obj) : ExecResult → Option Obj
  | .write => cmd.commitOn object
  | .delete => none
  | _ => object

/-- What `ForwardResult` looks for: an error or elements. -/
def Ready : Prop :=
  cmd.result.err = .wrongType ∨ cmd.result.err = .ok ∧ 0 < cmd.result.ret

instance (cmd : BlockLPopCommand) : Decidable cmd.Ready :=
  inferInstanceAs (Decidable (_ ∨ _))

end BlockLPopCommand

/-- Where a pointer in `vct_cmd_ptrs_` leads. -/
inductive Pointer where
  | sub (i : Nat)
  | push
  | discard
  deriving DecidableEq, Repr

/-! ## BLPOP, BRPOP and BLMPOP -/

/-- `BLMPopCommand`: a step for each key, then those with `blockPtrs` and `popPtrs`. -/
structure BLMPopCommand where
  vctKey : List Bytes
  vctCmd : List BlockLPopCommand
  tsExpired : Nat
  isMpop : Bool
  blockPtrs : List Pointer
  popPtrs : List Nat
  currStep : Nat
  posCmd : Option Nat
  hasForwarded : Bool
  deriving DecidableEq, Repr

namespace BLMPopCommand

/-- The constructor, called by the parser with equal sub-commands for all keys. -/
def new (keys : List Bytes) (cmd : BlockLPopCommand) (tsExpired : Nat) (isMpop : Bool) :
    BLMPopCommand where
  vctKey := keys
  vctCmd := keys.map fun _ => cmd
  tsExpired := tsExpired
  isMpop := isMpop
  blockPtrs := (List.range keys.length).map .sub
  popPtrs := []
  currStep := 0
  posCmd := none
  hasForwarded := false

variable (c : BLMPopCommand)

/-- The keys and commands of the current step, as they are when it is submitted. -/
def submitted : List (Bytes × Pointer) :=
  if c.currStep < c.vctKey.length then
    (c.vctKey[c.currStep]?.map fun key => (key, .sub c.currStep)).toList
  else if c.currStep = c.vctKey.length then c.vctKey.zipIdx.map fun p => (p.1, .sub p.2)
  else c.popPtrs.filterMap fun p => c.vctKey[p]?.map fun key => (key, .sub p)

/-- The loop of `ForwardResult`, from sub-command `i` on: `pos_cmd_` and the pointers. -/
def forwardLoop (pos : Option Nat) (i : Nat) :
    List BlockLPopCommand → Option Nat × List Pointer
  | [] => (pos, [])
  | cmd :: cmds =>
    if cmd.Ready ∧ pos = none then
      let rest := forwardLoop (some i) (i + 1) cmds
      (rest.1, .sub i :: rest.2)
    else
      let rest := forwardLoop pos (i + 1) cmds
      (rest.1, .discard :: rest.2)

def forwardResult : BLMPopCommand :=
  let forwarded := forwardLoop c.posCmd 0 c.vctCmd
  { c with posCmd := forwarded.1, blockPtrs := forwarded.2, hasForwarded := true }

/-- A sub-command on its way into the blocking step. -/
def toBlockLock (cmd : BlockLPopCommand) : BlockLPopCommand :=
  { cmd with opType := .blockLock, result := { cmd.result with err := .nil } }

/-- A sub-command on its way into the popping step. -/
def toPopElement (cmd : BlockLPopCommand) : BlockLPopCommand := { cmd with opType := .popElement }

/-- `HandleMiddleResult`: the command it leaves, and whether to go on; `none` out of range. -/
def handleMiddleResult : Option (BLMPopCommand × Bool) :=
  if c.currStep < c.vctKey.length then
    c.vctCmd[c.currStep]?.map fun cmd =>
      if cmd.result.err ≠ .ok ∨ 0 < cmd.result.ret then
        ({ c with posCmd := some c.currStep }, false)
      else if c.currStep = c.vctKey.length - 1 then
        if c.tsExpired = 0 then (c, false)
        else ({ c with vctCmd := c.vctCmd.map toBlockLock }, true)
      else (c, true)
  else if c.currStep = c.vctKey.length then
    match c.posCmd with
    | some pos =>
      some ({ c with
        vctCmd := c.vctCmd.modify pos toPopElement
        popPtrs := c.popPtrs ++ [pos] }, true)
    | none => some (c, false)
  else some (c, false)

def isPassed : Bool :=
  let popped (cmd : BlockLPopCommand) : Bool := cmd.result.err = .ok && 0 < cmd.result.ret
  if c.currStep < c.vctKey.length then
    c.vctCmd[c.currStep]?.any fun cmd => cmd.result.err = .ok
  else if c.currStep = c.vctKey.length then
    if c.vctKey.length = 1 then c.vctCmd[0]?.any popped else c.posCmd.isSome
  else if c.currStep = c.vctKey.length + 1 then
    c.posCmd.any fun pos => c.vctCmd[pos]?.any popped
  else false

/-- `OutputResult`; nothing if an index is out of range or the elements are not there. -/
def outputResult : Option Output :=
  match c.posCmd with
  | none => some [.nil]
  | some pos =>
    match c.vctCmd[pos]?, c.vctKey[pos]? with
    | some cmd, some key =>
      if cmd.result.err ≠ .ok then some [.error cmd.result.err.message]
      else if c.isMpop then
        cmd.result.elements.map fun vstr =>
          [.arrayStart 2, .string key, .arrayStart vstr.length] ++ vstr.map .string ++
            [.arrayEnd, .arrayEnd]
      else
        (cmd.result.elements.bind List.head?).map fun str =>
          [.arrayStart 2, .string key, .string str, .arrayEnd]
    | _, _ => none

end BLMPopCommand

/-! ## BLMOVE and BRPOPLPUSH -/

/-- `BLMoveCommand`: three steps with `sour_cmd_`, the second replaceable, one with `dest_cmd_`. -/
structure BLMoveCommand where
  sourKey : Bytes
  sourCmd : BlockLPopCommand
  destKey : Bytes
  destLeft : Bool
  destElement : Bytes
  destResult : ListResult
  tsExpired : Nat
  blockPtr : Pointer
  currStep : Nat
  hasForwarded : Bool
  deriving DecidableEq, Repr

namespace BLMoveCommand

def new (sourKey : Bytes) (sourCmd : BlockLPopCommand) (destKey : Bytes) (destLeft : Bool)
    (tsExpired : Nat) : BLMoveCommand where
  sourKey := sourKey
  sourCmd := sourCmd
  destKey := destKey
  destLeft := destLeft
  destElement := []
  destResult := .initial
  tsExpired := tsExpired
  blockPtr := .sub 0
  currStep := 0
  hasForwarded := false

variable (c : BLMoveCommand)

/-- The key and command of the current step, as they are when it is submitted. -/
def submitted : List (Bytes × Pointer) :=
  if c.currStep < 3 then [(c.sourKey, .sub 0)] else [(c.destKey, .push)]

def forwardResult : BLMoveCommand :=
  if c.sourCmd.result.err = .wrongType then { c with hasForwarded := true }
  else if c.sourCmd.result.err = .nil ∨ c.sourCmd.result.ret = 0 then
    { c with hasForwarded := true, blockPtr := .discard }
  else { c with hasForwarded := true }

/-- The element popped is handed to `dest_cmd_`. -/
def handOver : Option BLMoveCommand :=
  (c.sourCmd.result.elements.bind List.head?).map fun e => { c with destElement := e }

/-- `HandleMiddleResult`, as for the other commands. -/
def handleMiddleResult : Option (BLMoveCommand × Bool) :=
  if c.currStep = 0 then
    if c.sourCmd.result.err = .ok then
      if 0 < c.sourCmd.result.ret then
        c.handOver.map fun c => ({ c with currStep := 2 }, true)
      else if c.tsExpired = 0 then some (c, false)
      else some ({ c with sourCmd := BLMPopCommand.toBlockLock c.sourCmd }, true)
    else some (c, false)
  else if c.currStep = 1 then
    if c.hasForwarded = true ∧ c.blockPtr = .discard then some (c, false)
    else if c.sourCmd.result.err = .ok ∧ 0 < c.sourCmd.result.ret then
      some ({ c with
        sourCmd :=
          { c.sourCmd with
            opType := .popElement, result := { c.sourCmd.result with err := .nil } } },
        true)
    else some (c, false)
  else if c.currStep = 2 then
    if c.sourCmd.result.err = .ok ∧ 0 < c.sourCmd.result.ret then
      c.handOver.map fun c => (c, true)
    else some (c, false)
  else some (c, false)

def isPassed : Bool :=
  c.currStep = 3 && (c.destResult.err = .ok || c.destResult.err = .nil)

/-- `OutputResult`, as for the other commands. -/
def outputResult : Option Output :=
  if c.currStep = 1 ∧ c.hasForwarded = true ∧ c.blockPtr = .discard then some [.nil]
  else if c.currStep ≤ 2 ∧ c.sourCmd.result.err ≠ .ok ∧ c.sourCmd.result.err ≠ .nil then
    some [.error c.sourCmd.result.err.message]
  else if c.currStep = 3 ∧ c.destResult.err ≠ .ok then
    some [.error c.destResult.err.message]
  else if c.currStep = 3 ∧ c.destResult.ret ≠ 0 then
    (c.sourCmd.result.elements.bind List.head?).map fun e => [.string e]
  else some [.nil]

end BLMoveCommand

/-! ## What the driver and the engine see of a command -/

/-- A `RedisMultiObjectCommand` that blocks. -/
inductive BlockingCommand where
  | blmpop (c : BLMPopCommand)
  | blmove (c : BLMoveCommand)
  deriving DecidableEq, Repr

namespace BlockingCommand

def submitted : BlockingCommand → List (Bytes × Pointer)
  | blmpop c => c.submitted
  | blmove c => c.submitted

/-- The pointers of the blocking step, `vct_cmd_ptrs_[n]`. -/
def blockPtrs : BlockingCommand → List Pointer
  | blmpop c => c.blockPtrs
  | blmove c => [c.blockPtr]

def hasForwarded : BlockingCommand → Bool
  | blmpop c => c.hasForwarded
  | blmove c => c.hasForwarded

def isBlockingStep : BlockingCommand → Bool
  | blmpop c => c.currStep = c.vctKey.length
  | blmove c => c.currStep = 1

def isLastStep : BlockingCommand → Bool
  | blmpop c => c.currStep = c.vctKey.length + 1
  | blmove c => c.currStep = 3

def incrSteps : BlockingCommand → BlockingCommand
  | blmpop c => blmpop { c with currStep := c.currStep + 1 }
  | blmove c => blmove { c with currStep := c.currStep + 1 }

def forwardResult : BlockingCommand → BlockingCommand
  | blmpop c => blmpop c.forwardResult
  | blmove c => blmove c.forwardResult

def handleMiddleResult : BlockingCommand → Option (BlockingCommand × Bool)
  | blmpop c => c.handleMiddleResult.map (Prod.map blmpop id)
  | blmove c => c.handleMiddleResult.map (Prod.map blmove id)

def isPassed : BlockingCommand → Bool
  | blmpop c => c.isPassed
  | blmove c => c.isPassed

def outputResult : BlockingCommand → Option Output
  | blmpop c => c.outputResult
  | blmove c => c.outputResult

/-- Sub-command `i`. -/
def sub : BlockingCommand → Nat → Option BlockLPopCommand
  | blmpop c, i => c.vctCmd[i]?
  | blmove c, i => if i = 0 then some c.sourCmd else none

def setSub : BlockingCommand → Nat → BlockLPopCommand → BlockingCommand
  | blmpop c, i, cmd => blmpop { c with vctCmd := c.vctCmd.set i cmd }
  | blmove c, _, cmd => blmove { c with sourCmd := cmd }

/-- The elements a reply lists: BLMPopCommand puts the key in front of them. -/
def listed (cmd : BlockingCommand) (out : Output) : List Bytes :=
  let strings := out.filterMap fun
    | .string s => some s
    | _ => none
  match cmd with
  | blmpop _ => strings.drop 1
  | blmove _ => strings

end BlockingCommand

/-- The commands as clients send them. -/
inductive Request where
  | blpop (keys : List Bytes)
  | brpop (keys : List Bytes)
  | blmpop (keys : List Bytes) (isLeft : Bool) (count : Nat)
  /-- BRPOPLPUSH is `blmove` from the right to the left. -/
  | blmove (sour dest : Bytes) (sourLeft destLeft : Bool)
  deriving DecidableEq, Repr

namespace Request

/-- The end of the list the request takes elements from. -/
def isLeft : Request → Bool
  | blpop _ => true
  | brpop _ => false
  | blmpop _ isLeft _ => isLeft
  | blmove _ _ sourLeft _ => sourLeft

/-- The sub-command a parser makes; a count of BLMPOP is narrowed to 32 bits. -/
def subCommand (req : Request) (multi : Bool) : BlockLPopCommand where
  opType := if multi then .noBlock else .popNoBlock
  isLeft := req.isLeft
  count := match req with
    | blmpop _ _ count => count % 2 ^ 32
    | _ => 1
  result := .initial

/-- What the parsers make of a request.  In MULTI the deadline is zero. -/
def command (req : Request) (multi : Bool) (deadline : Nat) : BlockingCommand :=
  let tsExpired := if multi then 0 else deadline
  match req with
  | blpop keys => .blmpop (.new keys (req.subCommand multi) tsExpired false)
  | brpop keys => .blmpop (.new keys (req.subCommand multi) tsExpired false)
  | blmpop keys _ _ => .blmpop (.new keys (req.subCommand multi) tsExpired true)
  | blmove sour dest _ destLeft =>
    .blmove (.new sour (req.subCommand multi) dest destLeft tsExpired)

end Request

/-! ## Sessions -/

/-- One change of an object by the command. -/
structure Effect where
  ptr : Pointer
  key : Bytes
  before : Option Obj
  after : Option Obj
  deriving DecidableEq, Repr

/-- A command while it runs.  `db` is what its transaction sees; `world` is what would be there
without the command.  `found` says what sub-commands came upon in the current stage until
`ForwardResult` was called, `popping` which of them were run to pop, and `effects` what they
changed, oldest first.  `outcome` is there once the driver has left its loop; it holds no reply
if the process died on the way. -/
structure Session where
  cmd : BlockingCommand
  db : Db
  world : Db
  locked : List Bytes
  executed : Bool
  found : Nat → Option (Option Obj)
  popping : List Nat
  effects : List Effect
  outcome : Option (Option Output)

/-- What can happen next. -/
inductive Event where
  /-- Another client writes to a key. -/
  | others (key : Bytes) (object : Option Obj)
  /-- The engine runs command `j` of the submitted step. -/
  | execute (j : Nat)
  /-- The engine calls `ForwardResult`. -/
  | forward
  /-- The request of the step returns to the driver. -/
  | advance
  deriving DecidableEq, Repr

/-- The keys without the changes of the command. -/
def rollback (effects : List Effect) (db : Db) : Db :=
  effects.foldr (fun e db => update db e.key e.before) db

namespace Session

def start (req : Request) (multi : Bool) (deadline : Nat) (db : Db) : Session where
  cmd := req.command multi deadline
  db := db
  world := db
  locked := []
  executed := false
  found := fun _ => none
  popping := []
  effects := []
  outcome := none

variable (s : Session)

/-- Sub-command `i` runs on its key. -/
def runSub (key : Bytes) (i : Nat) (cmd : BlockLPopCommand) : Session :=
  let object := s.db key
  let result := (cmd.executeOn object).2
  let after := cmd.applied object result
  { s with
    cmd := s.cmd.setSub i (cmd.executeOn object).1
    db := if result.modifies then update s.db key after else s.db
    locked := if result.keepsLock then key :: s.locked else s.locked
    executed := true
    found := if s.cmd.hasForwarded then s.found else update s.found i (some object)
    popping := if cmd.opType = .popElement ∨ result.modifies then s.popping ++ [i] else s.popping
    effects := if result.modifies then s.effects ++ [⟨.sub i, key, object, after⟩] else s.effects }

/-- `dest_cmd_` runs on its key. -/
def runPush (c : BLMoveCommand) : Session :=
  let object := s.db c.destKey
  let pushed := lmovePush c.destLeft c.destElement object
  { s with
    cmd := .blmove { c with destResult := ⟨pushed.err, pushed.ret, none⟩ }
    db := update s.db c.destKey pushed.obj
    locked := c.destKey :: s.locked
    executed := true
    effects := s.effects ++ [⟨.push, c.destKey, object, pushed.obj⟩] }

/-- The engine runs command `j` of the step. -/
def execute (j : Nat) : Session :=
  match s.cmd.submitted[j]? with
  | some (key, .sub i) =>
    match s.cmd.sub i with
    | some cmd => s.runSub key i cmd
    | none => s
  | some (_, .push) =>
    match s.cmd with
    | .blmove c => s.runPush c
    | .blmpop _ => s
  | _ => s

/-- After the loop of the driver.  A transaction of its own is committed or aborted by
`IsPassed`: by the driver, or by the engine if the last step has run.  In any other transaction
the changes stay. -/
def finish (autoCommit : Bool) (s : Session) : Session :=
  let kept := !autoCommit || s.cmd.isPassed
  { s with
    db := if kept then s.db else rollback s.effects s.db
    effects := if kept then s.effects else []
    outcome := some s.cmd.outputResult }

/-- One round of the driver's loop, after the request has returned. -/
def advance (autoCommit : Bool) (s : Session) : Session :=
  if s.cmd.isLastStep then s.finish autoCommit
  else
    match s.cmd.handleMiddleResult with
    | some (cmd, true) =>
      let cmd := cmd.incrSteps
      { s with
        cmd := cmd
        executed := false
        found := if cmd.isBlockingStep then fun _ => none else s.found }
    | some (cmd, false) => { s with cmd := cmd }.finish autoCommit
    | none => { s with outcome := some none }

def step (autoCommit : Bool) (s : Session) : Event → Session
  | .others key object =>
    { s with db := update s.db key object, world := update s.world key object }
  | .execute j => s.execute j
  | .forward => { s with cmd := s.cmd.forwardResult }
  | .advance => s.advance autoCommit

/-- What the engine keeps to: locked keys are not written by others, a step that does not block
runs its command once, and `ForwardResult` is called once, in the blocking step. -/
def allowed : Event → Bool
  | .others key _ => key ∉ s.locked
  | .execute j =>
    s.outcome.isNone && decide (j < s.cmd.submitted.length) && (s.cmd.isBlockingStep || !s.executed)
  | .forward => s.outcome.isNone && s.cmd.isBlockingStep && !s.cmd.hasForwarded
  | .advance =>
    s.outcome.isNone && (if s.cmd.isBlockingStep then s.cmd.hasForwarded else s.executed)

/-! ## What a blocking command promises -/

/-- Sub-command `i` came upon a list with elements. -/
def FoundElements (i : Nat) : Prop :=
  ∃ x xs, s.found i = some (some (.list (x :: xs)))

/-- Sub-command `i` is the first that did, in the order of the arguments. -/
def FirstFound (i : Nat) : Prop :=
  s.FoundElements i ∧ ∀ j < i, ¬s.FoundElements j

/-- Sub-command `i` has no result: it did not run, or it came upon no element. -/
def Parked (i : Nat) : Prop :=
  ∀ object, s.found i = some object → object.getD (.list []) = .list []

end Session

/-- `es`, in the order they came off, were taken from one end of a list. -/
def TakenFrom (isLeft : Bool) (before after : Option Obj) (es : List Bytes) : Prop :=
  ∃ ys, after = listOrNone ys ∧
    before = some (.list (if isLeft then es ++ ys else ys ++ es.reverse))

def Effect.isPop (e : Effect) : Bool := e.ptr ≠ .push

/-- The changes made by sub-commands take exactly `es` away. -/
def Removed (isLeft : Bool) (effects : List Effect) (es : List Bytes) : Prop :=
  match effects.filter Effect.isPop with
  | [] => es = []
  | [e] => TakenFrom isLeft e.before e.after es
  | _ => False

/-- What a blocking command promises its client. -/
structure Serves (isLeft : Bool) (s : Session) : Prop where
  /-- At most one sub-command is run to pop, and once. -/
  once : s.popping.length ≤ 1
  /-- It is the first one found with elements. -/
  first : ∀ i ∈ s.popping, s.FirstFound i
  /-- After `ForwardResult` all pointers but the winner's lead to the discard command. -/
  discarded : s.cmd.hasForwarded = true → ∃ winner : Option Nat,
    (∀ i p, s.cmd.blockPtrs[i]? = some p → p ≠ .discard → winner = some i ∧ ¬s.Parked i) ∧
      ∀ i ∈ s.popping, winner = some i
  /-- The reply lists what was removed. -/
  listed : ∀ reply, s.outcome = some reply →
    ∃ out, reply = some out ∧ Removed isLeft s.effects (s.cmd.listed out)
  /-- A discarded sub-command removes nothing. -/
  untouched : s.cmd.hasForwarded = true → ∀ i, s.cmd.blockPtrs[i]? = some .discard →
    ∀ e ∈ s.effects, e.ptr ≠ .sub i
  /-- An expired command changes nothing. -/
  expired : s.cmd.hasForwarded = true → (∀ p ∈ s.cmd.blockPtrs, p = .discard) → s.effects = []

/-- **What a blocking command promises** at any moment of its run. -/
structure ServesOnce (isLeft : Bool) (s : Session) : Prop extends Serves isLeft s where
  /-- The recorded changes are all there are. -/
  restored : rollback s.effects s.db = s.world

/-- When a step keeps the promise.  `ForwardResult` of BLMPopCommand does not meet an object of
another type before the first list with elements; a list to pop from has fewer than `2 ^ 32`
elements; and a push outside an auto-commit transaction is not refused. -/
def favourable (autoCommit : Bool) (s : Session) : Event → Bool
  | .forward =>
    match s.cmd with
    | .blmpop c => (c.vctCmd.find? fun cmd => cmd.Ready).all fun cmd => cmd.result.err ≠ .wrongType
    | .blmove _ => true
  | .execute j =>
    match s.cmd.submitted[j]? with
    | some (key, .sub _) =>
      match s.db key with
      | some (.list items) => items.length < 2 ^ 32
      | _ => true
    | _ =>
      match s.cmd with
      | .blmove c =>
        autoCommit || (lmovePush c.destLeft c.destElement (s.db c.destKey)).err = .ok
      | .blmpop _ => true
  | _ => true

end EloqKV.Blocking
