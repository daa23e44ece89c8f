/-
  The replies of LMPOP, BLPOP, BRPOP, BLMPOP and ZMPOP, which report the key they have popped
  from (`LMPopCommand`, `BLMPopCommand`, `ZMPopCommand`, and their parsers).

  Every `EloqKey` made from an argument carries the namespace's prefix, and the reply functions
  print it as it is.  The two runs compared are one in a namespace and one in the default namespace
  on the same user data.
-/
import EloqKV.Errors
import EloqKV.Numbers
import EloqKV.Namespace.Keys

namespace EloqKV.PopReplies

open RdCode ScanNamespace

/-! ## Replies and contents -/

/-- What `OutputResult` writes to its `OutputHandler`. -/
inductive OutputEvent where
  | arrayStart (size : Nat)
  | arrayEnd
  | string (s : Bytes)
  | nil
  | error (message : String)
  deriving DecidableEq

abbrev Output := List OutputEvent

/-- An object as the commands see it; sorted sets ascend, with the texts of their scores. -/
inductive StoredObject where
  | list (items : List Bytes)
  | zset (members : List (Bytes × Bytes))
  | other
  deriving DecidableEq

/-- `err_code_` and the elements in the result of the command that pops. -/
inductive PopResult where
  | nil
  | wrongType
  | popped (items : List Bytes)
  deriving DecidableEq

/-- The elements popped from one end, in the order they come off. -/
def popEnd {α : Type} (left : Bool) (n : Nat) (items : List α) : List α :=
  (if left then items else items.reverse).take n

/-- The count of `LPopCommand` and `RPopCommand`, narrowed by LMPOP; `-1` is no count. -/
def lpopCount (count : Int) : Nat :=
  if toInt32 count = -1 then 1 else (toInt32 count % 2 ^ 64).toNat

/-- `LPopCommand` or `RPopCommand` on what is stored under a key. -/
def lpopResult (left : Bool) (count : Int) : Option StoredObject → PopResult
  | none => .nil
  | some (.list items) => .popped (popEnd left (lpopCount count) items)
  | some _ => .wrongType

/-- `BlockLPopCommand`, which proceeds on a missing object as on an empty list. -/
def blockPopResult (left : Bool) (count : Int) : Option StoredObject → PopResult
  | none => .popped []
  | some (.list items) => .popped (popEnd left (count % 2 ^ 32).toNat items)
  | some _ => .wrongType

/-- The count of `ZPopCommand`; one of `2 ^ 63` or more is a negative number for it. -/
def zpopCount (count : Nat) : Nat :=
  if count < 2 ^ 63 then count else 0

/-- `ZPopCommand`. -/
def zpopResult (max : Bool) (count : Nat) : Option StoredObject → PopResult
  | none => .nil
  | some (.zset members) =>
    .popped ((popEnd (!max) (zpopCount count) members).flatMap fun m => [m.1, m.2])
  | some _ => .wrongType

/-! ## Commands -/

/-- The commands, with the arguments that name their keys. -/
inductive PopCommand where
  | lmpop (keys : List Bytes) (left : Bool) (count : Int)
  | zmpop (keys : List Bytes) (max : Bool) (count : Nat)
  /-- BLPOP, BRPOP and BLMPOP; `isMpop` tells the last one. -/
  | blmpop (keys : List Bytes) (left : Bool) (count : Int) (isMpop : Bool)
  deriving DecidableEq

open PopCommand

/-- What a blocked command finds for a key when the wait is over. -/
inductive WaitResult where
  | nil
  | wrongType
  | ready (size : Nat)
  deriving DecidableEq

/-- The contents at first, what the blocked commands find, and what the pop finds. -/
structure PopEnv where
  contents : Bytes → Option StoredObject
  multi : Bool
  waited : List WaitResult
  later : Bytes → Option StoredObject

/-- The steps of `ExecuteMultiObjTxRequest` over the keys; `again` is `HandleMiddleResult`. -/
def runSteps (again : PopResult → Bool) (exec : Bytes → PopResult) :
    List Bytes → Option (Bytes × PopResult)
  | [] => none
  | [k] => some (k, exec k)
  | k :: ks => if again (exec k) then runSteps again exec ks else some (k, exec k)

/-- `BLMPopCommand::ForwardResult`: the command that `pos_cmd_` points to. -/
def forwardResult (waited : List WaitResult) : Option Nat :=
  waited.findIdx? fun
    | .nil => false
    | .wrongType => true
    | .ready size => 0 < size

/-- The steps of `BLMPopCommand`: key by key, then all blocked, then the pop where `pos_cmd_`
points. -/
def runBlocking (env : PopEnv) (left : Bool) (count : Int) (keys : List Bytes) :
    Option (Bytes × PopResult) :=
  let exec := fun k => blockPopResult left count (env.contents k)
  match keys.find? fun k => exec k ≠ .popped [] with
  | some k => some (k, exec k)
  | none =>
    if env.multi then none
    else
      match forwardResult env.waited with
      | none => none
      | some i => keys[i]?.map fun k => (k, blockPopResult left count (env.later k))

/-- The key of the last step and the result there; `phys` makes an `EloqKey` of an argument. -/
def PopCommand.run (phys : Bytes → Bytes) (env : PopEnv) :
    PopCommand → Option (Bytes × PopResult)
  | .lmpop keys left count =>
    runSteps (fun r => r = .nil || r = .popped [])
      (fun k => lpopResult left count (env.contents k)) (keys.map phys)
  | .zmpop keys max count =>
    runSteps (fun r => r = .nil) (fun k => zpopResult max count (env.contents k)) (keys.map phys)
  | .blmpop keys left count _ => runBlocking env left count (keys.map phys)

/-! ## `OutputResult` -/

def lmpopOutput : Option (Bytes × PopResult) → Output
  | none => [.nil]
  | some (_, .nil) => [.nil]
  | some (_, .wrongType) => [.error wrongType.message]
  | some (key, .popped items) =>
    if items = [] then [.nil]
    else [.arrayStart 2, .string key, .arrayStart items.length] ++ items.map .string ++
      [.arrayEnd, .arrayEnd]

/-- The pairs of `ZMPopCommand::OutputResult`. -/
def pairsOutput : List Bytes → Output
  | member :: score :: rest =>
    [.arrayStart 2, .string member, .string score, .arrayEnd] ++ pairsOutput rest
  | _ => []

/-- `ZMPopCommand::OutputResult`.  The key of the last step is the last key. -/
def zmpopOutput : Option (Bytes × PopResult) → Output
  | none => []
  | some (_, .nil) => [.nil]
  | some (_, .wrongType) => [.error wrongType.message]
  | some (key, .popped items) =>
    if items = [] then []
    else [.arrayStart 2, .string key, .arrayStart (items.length / 2)] ++ pairsOutput items ++
      [.arrayEnd, .arrayEnd]

def blmpopOutput (isMpop : Bool) : Option (Bytes × PopResult) → Output
  | none => [.nil]
  | some (_, .nil) => [.error nil.message]
  | some (_, .wrongType) => [.error wrongType.message]
  | some (key, .popped items) =>
    [.arrayStart 2, .string key] ++
      (if isMpop then [.arrayStart items.length] ++ items.map .string ++ [.arrayEnd]
        else [.string (items.headD [])]) ++ [.arrayEnd]

def PopCommand.output : PopCommand → Option (Bytes × PopResult) → Output
  | .lmpop .. => lmpopOutput
  | .zmpop .. => zmpopOutput
  | .blmpop _ _ _ isMpop => blmpopOutput isMpop

/-! ## Parsers -/

/-- What `string2double` and the checks behind it make of a timeout. -/
inductive Timeout where
  | notFloat
  | negative
  | tooLong
  | valid
  deriving DecidableEq

section
variable (timeout : Bytes → Timeout) (args : List Bytes)

/-- An argument; positions are computed with 64 bits. -/
def arg (i : Nat) : Bytes := args.getD (i % u64) []

def parseLMPop : Except String PopCommand :=
  if args.length < 4 then .error "ERR wrong number of arguments for 'lmpop' command"
  else
    match string2ull (arg args 1) with
    | none | some 0 => .error numberGreaterZero.message
    | some numkeys =>
      let keys := (args.drop 2).take numkeys
      if args.length < (numkeys + 3) % u64 then .error syntaxError.message
      else if lower (arg args (numkeys + 2)) ∉ [ascii "left", ascii "right"] then
        .error syntaxError.message
      else
        let left := lower (arg args (numkeys + 2)) = ascii "left"
        if args.length ≤ (numkeys + 3) % u64 then .ok (.lmpop keys left 1)
        else if args.length ≠ (numkeys + 5) % u64 ∨
            lower (arg args (numkeys + 3)) ≠ ascii "count" then
          .error syntaxError.message
        else
          match string2ll (arg args (numkeys + 4)) with
          | none => .error countGreaterZero.message
          | some count =>
            if count ≤ 0 then .error countGreaterZero.message
            else .ok (.lmpop keys left count)

def parseZMPop : Except String PopCommand :=
  if args.length < 4 then .error "ERR wrong number of arguments for 'zmpop' command"
  else
    match string2ull (arg args 1) with
    | none | some 0 => .error "ERR numkeys should be greater than 0"
    | some num =>
      let keys := (args.drop 2).take num
      if args.length ≤ (num + 2) % u64 then .error "ERR syntax error"
      else if lower (arg args (num + 2)) ∉ [ascii "min", ascii "max"] then
        .error "ERR syntax error"
      else
        let max := lower (arg args (num + 2)) = ascii "max"
        if args.length ≤ (num + 3) % u64 then .ok (.zmpop keys max 1)
        else if (num + 5) % u64 ≠ args.length ∨ lower (arg args (num + 3)) ≠ ascii "count" then
          .error "ERR syntax error"
        else
          match string2ull (arg args (num + 4)) with
          | none | some 0 => .error "ERR count should be greater than 0"
          | some count => .ok (.zmpop keys max count)

def checkTimeout (t : Bytes) : Except String Unit :=
  match timeout t with
  | .notFloat => .error "ERR timeout is not a float or out of range"
  | .negative => .error "ERR timeout is negative"
  | .tooLong | .valid => .ok ()

/-- `ParseBLMPopCommand`; another word in the place of COUNT is passed over with its number. -/
def parseBLMPop : Except String PopCommand := do
  if args.length < 5 then throw "wrong number of arguments for 'blmpop' command"
  checkTimeout timeout (arg args 1)
  match string2ll (arg args 2) with
  | none => throw "ERR numkeys should be greater than 0"
  | some num =>
    if num < 0 then throw "ERR numkeys should be greater than 0"
    let n := num.toNat
    let keys := (args.drop 3).take n
    if n + 4 ≠ args.length ∧ n + 6 ≠ args.length then throw "ERR syntax error"
    if lower (arg args (n + 3)) ∉ [ascii "left", ascii "right"] then throw "ERR syntax error"
    let left := lower (arg args (n + 3)) = ascii "left"
    if args.length = n + 6 ∧ lower (arg args (n + 4)) = ascii "count" then
      match string2ll (arg args (n + 5)) with
      | none => throw "ERR syntax error"
      | some count =>
        if count ≤ 0 then throw "ERR syntax error"
        return .blmpop keys left count true
    else return .blmpop keys left 1 true

/-- `ParseBLPopCommand`, which alone refuses a timeout that is too long. -/
def parseBLPop : Except String PopCommand := do
  if args.length < 3 then throw "wrong number of arguments for 'blpop' command"
  let t := arg args (args.length - 1)
  checkTimeout timeout t
  if timeout t = .tooLong then throw valueOutOfRange.message
  return .blmpop ((args.drop 1).dropLast) true 1 false

def parseBRPop : Except String PopCommand := do
  if args.length < 3 then throw "wrong number of arguments for 'brpop' command"
  checkTimeout timeout (arg args (args.length - 1))
  return .blmpop ((args.drop 1).dropLast) false 1 false

inductive PopName where
  | lmpop | blpop | brpop | blmpop | zmpop
  deriving DecidableEq

def parse : PopName → Except String PopCommand
  | .lmpop => parseLMPop args
  | .blpop => parseBLPop timeout args
  | .brpop => parseBRPop timeout args
  | .blmpop => parseBLMPop timeout args
  | .zmpop => parseZMPop args

def reply (ns : ScanNamespace) (env : PopEnv) (name : PopName) : Output :=
  match parse timeout args name with
  | .error message => [.error message]
  | .ok cmd => cmd.output (cmd.run ns.key env)

end

/-! ## Two runs -/

/-- The namespace holds under its prefix what the default namespace of `env₀` holds. -/
structure SameData (ns : ScanNamespace) (env env₀ : PopEnv) : Prop where
  contents : ∀ k, env.contents (ns.key k) = env₀.contents k
  multi : env.multi = env₀.multi
  waited : env.waited = env₀.waited
  later : ∀ k, env.later (ns.key k) = env₀.later k

/-- The results with which a command reports its key. -/
def PopCommand.names : PopCommand → PopResult → Bool
  | .lmpop .., .popped items => items ≠ []
  | .zmpop .., .popped items => items ≠ []
  | .blmpop .., .popped _ => true
  | _, _ => false

/-! ## Where a key is reported

In terms of the named keys, what they hold, the number of elements the command has kept from its
COUNT argument, and the outcome of the wait. -/

/-- The object ends the search for a list to pop `kept` elements from: it is of another type, or
it is a list with elements and some of them are popped. -/
def endsSearch (kept : Nat) : Option StoredObject → Bool
  | none => false
  | some (.list items) => 0 < kept && items ≠ []
  | some _ => true

def isList : Option StoredObject → Bool
  | some (.list _) => true
  | _ => false

/-- The object is a sorted set with members, and some of them are popped. -/
def popsMembers (kept : Nat) : Option StoredObject → Bool
  | some (.zset members) => 0 < kept && members ≠ []
  | _ => false

/-- The command comes to a key it reports: LMPOP if the search ends at a list; ZMPOP if the first
key that is there has members to pop; a blocking command if its search ends at a list, or else,
outside MULTI, if the wait ends with a key that is not of another type by then. -/
def PopCommand.finds (env : PopEnv) : PopCommand → Bool
  | .lmpop keys _ count =>
    (keys.find? fun k => endsSearch (lpopCount count) (env.contents k)).any
      fun k => isList (env.contents k)
  | .zmpop keys _ count =>
    (keys.find? fun k => (env.contents k).isSome).any
      fun k => popsMembers (zpopCount count) (env.contents k)
  | .blmpop keys _ count _ =>
    match keys.find? fun k => endsSearch (count % 2 ^ 32).toNat (env.contents k) with
    | some k => isList (env.contents k)
    | none => !env.multi && (forwardResult env.waited).any fun i =>
        keys[i]?.any fun k => (env.later k).isNone || isList (env.later k)

lemma popEnd_eq_nil {α : Type} (left : Bool) (n : Nat) (items : List α) :
    popEnd left n items = [] ↔ n = 0 ∨ items = [] := by
  cases left <;> simp [popEnd]

/-- The steps end at the first key that does not ask for another step, or else at the last. -/
lemma runSteps_eq (again : PopResult → Bool) (exec : Bytes → PopResult) (keys : List Bytes) :
    runSteps again exec keys =
      (match keys.find? fun k => !again (exec k) with
        | some k => some k
        | none => keys.getLast?).map fun k => (k, exec k) := by
  induction keys with
  | nil => rfl
  | cons k ks ih =>
    cases ks with
    | nil => cases h : again (exec k) <;> simp [runSteps, h]
    | cons k' ks =>
      rw [runSteps, ih]
      · cases h : again (exec k) <;> simp [h]
      · simp

/-- Of a search in steps, the result at the key where it ends decides; at a last key that asks for
another step nothing is reported. -/
lemma runSteps_any {again names : PopResult → Bool} (exec : Bytes → PopResult) (keys : List Bytes)
    (hnames : ∀ r, again r = true → names r = false) :
    ((runSteps again exec keys).any fun x => names x.2) =
      (keys.find? fun k => !again (exec k)).any fun k => names (exec k) := by
  rw [runSteps_eq]
  cases hfind : keys.find? fun k => !again (exec k) with
  | some k => rfl
  | none =>
    cases hlast : keys.getLast? with
    | none => rfl
    | some k =>
      have hagain := List.find?_eq_none.mp hfind k (List.mem_of_getLast? hlast)
      simp only [Bool.not_eq_true, Bool.not_eq_false'] at hagain
      exact hnames _ hagain

lemma lpopResult_again (left : Bool) (count : Int) (o : Option StoredObject) :
    (!(decide (lpopResult left count o = .nil) || decide (lpopResult left count o = .popped [])))
      = endsSearch (lpopCount count) o := by
  match o with
  | none => rfl
  | some (.list items) => simp [lpopResult, endsSearch, popEnd_eq_nil, Nat.pos_iff_ne_zero]
  | some (.zset _) => rfl
  | some .other => rfl

lemma names_lpopResult (keys : List Bytes) (left : Bool) {count : Int} {o : Option StoredObject}
    (hends : endsSearch (lpopCount count) o = true) :
    (lmpop keys left count).names (lpopResult left count o) = isList o := by
  match o with
  | none => rfl
  | some (.list items) =>
    have hne : popEnd left (lpopCount count) items ≠ [] := by
      rw [← lpopResult_again left] at hends
      simpa [lpopResult] using hends
    simp [names, lpopResult, isList, hne]
  | some (.zset _) => rfl
  | some .other => rfl

lemma zpopResult_again (max : Bool) (count : Nat) (o : Option StoredObject) :
    (!decide (zpopResult max count o = .nil)) = o.isSome := by
  match o with
  | none => rfl
  | some (.list _) => rfl
  | some (.zset _) => rfl
  | some .other => rfl

lemma names_zpopResult (keys : List Bytes) (max : Bool) (count : Nat) (o : Option StoredObject) :
    (zmpop keys max count).names (zpopResult max count o)
      = popsMembers (zpopCount count) o := by
  match o with
  | none => rfl
  | some (.list _) => rfl
  | some (.zset members) =>
    have hpairs : ∀ ms : List (Bytes × Bytes), (ms.flatMap fun m => [m.1, m.2]) = [] ↔ ms = [] := by
      intro ms
      cases ms <;> simp
    simp [names, zpopResult, popsMembers, hpairs, popEnd_eq_nil, Nat.pos_iff_ne_zero]
  | some .other => rfl

lemma blockPopResult_ends (left : Bool) (count : Int) (o : Option StoredObject) :
    decide (blockPopResult left count o ≠ .popped []) = endsSearch (count % 2 ^ 32).toNat o := by
  match o with
  | none => rfl
  | some (.list items) => simp [blockPopResult, endsSearch, popEnd_eq_nil]
  | some (.zset _) => rfl
  | some .other => rfl

lemma names_blockPopResult (keys : List Bytes) (left : Bool) (count : Int) (isMpop : Bool)
    (o : Option StoredObject) :
    (blmpop keys left count isMpop).names (blockPopResult left count o)
      = (o.isNone || isList o) := by
  match o with
  | none => rfl
  | some (.list _) => rfl
  | some (.zset _) => rfl
  | some .other => rfl

/-- **A key is reported exactly where the data says so.** -/
theorem PopCommand.run_names_eq_finds (env : PopEnv) (cmd : PopCommand) :
    ((cmd.run default.key env).any fun x => cmd.names x.2) = cmd.finds env := by
  have hid : ∀ keys : List Bytes, keys.map default.key = keys := List.map_id
  cases cmd with
  | lmpop keys left count =>
    simp only [run, hid, finds]
    rw [runSteps_any _ _ (by intro r hr; cases r <;> simp_all [names])]
    simp only [lpopResult_again]
    cases hfind : keys.find? _ with
    | none => rfl
    | some k =>
      have hends := List.find?_some hfind
      exact names_lpopResult keys left hends
  | zmpop keys max count =>
    simp only [run, hid, finds]
    rw [runSteps_any _ _ (by intro r hr; cases r <;> simp_all [names])]
    simp only [zpopResult_again, names_zpopResult]
  | blmpop keys left count isMpop =>
    simp only [run, hid, finds, runBlocking, blockPopResult_ends]
    cases hfind : keys.find? _ with
    | some k =>
      have hends := List.find?_some hfind
      simp only [Option.any_some, names_blockPopResult]
      cases ho : env.contents k with
      | none => simp [ho, endsSearch] at hends
      | some o => rfl
    | none =>
      cases env.multi with
      | true => rfl
      | false =>
        cases forwardResult env.waited with
        | none => rfl
        | some i =>
          cases hk : keys[i]? with
          | none => simp [hk]
          | some k => simp [hk, names_blockPopResult]

section
variable {ns : ScanNamespace} {env env₀ : PopEnv}

lemma runSteps_map (again : PopResult → Bool) (exec : Bytes → PopResult) (f : Bytes → Bytes)
    (keys : List Bytes) :
    runSteps again exec (keys.map f) =
      (runSteps again (fun k => exec (f k)) keys).map (Prod.map f id) := by
  induction keys with
  | nil => rfl
  | cons k ks ih =>
    cases ks with
    | nil => rfl
    | cons k' ks =>
      change (if again (exec (f k)) = true then runSteps again exec ((k' :: ks).map f)
          else some (f k, exec (f k))) =
        (if again (exec (f k)) = true then runSteps again (fun k => exec (f k)) (k' :: ks)
          else some (k, exec (f k))).map (Prod.map f id)
      rw [ih]
      split <;> rfl

lemma runBlocking_map (h : SameData ns env env₀) (left : Bool) (count : Int) (keys : List Bytes) :
    runBlocking env left count (keys.map ns.key) =
      (runBlocking env₀ left count keys).map (Prod.map ns.key id) := by
  unfold runBlocking
  dsimp only
  rw [List.find?_map, h.multi, h.waited]
  have hexec :
      (fun k => decide (blockPopResult left count (env.contents k) ≠ .popped [])) ∘ ns.key =
      fun k => decide (blockPopResult left count (env₀.contents k) ≠ .popped []) := by
    funext k
    simp [h.contents]
  rw [hexec]
  cases keys.find? _ with
  | some k => simp [h.contents]
  | none =>
    simp only [Option.map_none]
    split
    · rfl
    · cases forwardResult env₀.waited with
      | none => rfl
      | some i => simp [List.getElem?_map, Function.comp_def, h.later]

/-- **The same steps are run in both namespaces**, on keys that differ by the prefix. -/
theorem run_eq (h : SameData ns env env₀) (cmd : PopCommand) :
    cmd.run ns.key env = (cmd.run default.key env₀).map (Prod.map ns.key id) := by
  have hid : ∀ keys : List Bytes, keys.map default.key = keys := List.map_id
  cases cmd with
  | lmpop keys left count =>
    simp only [run, hid]
    rw [runSteps_map]
    simp [h.contents]
  | zmpop keys max count =>
    simp only [run, hid]
    rw [runSteps_map]
    simp [h.contents]
  | blmpop keys left count isMpop =>
    simp only [run, hid]
    exact runBlocking_map h left count keys

lemma output_map_iff (cmd : PopCommand) (f : Bytes → Bytes) (o : Option (Bytes × PopResult)) :
    cmd.output (o.map (Prod.map f id)) = cmd.output o ↔
      ∀ k r, o = some (k, r) → cmd.names r = true → f k = k := by
  match o with
  | none => cases cmd <;> simp [output]
  | some (k, r) =>
    cases cmd <;> cases r <;>
      simp [output, names, lmpopOutput, zmpopOutput, blmpopOutput]
    all_goals split <;> simp_all

lemma key_eq_self_iff (ns : ScanNamespace) (k : Bytes) : ns.key k = k ↔ ns = .default := by
  cases ns with
  | default => exact ⟨fun _ => rfl, fun _ => rfl⟩
  | tenant id epoch =>
    rw [key_eq]
    simp [nsId, makePrefix_ne_nil]

end

/-- **The reply in a namespace is that of the default namespace exactly where no key is
reported.**  For every one of the five commands, every argument list and all contents. -/
theorem pop_reply_same_iff (timeout : Bytes → Timeout) (args : List Bytes) (ns : ScanNamespace)
    (env env₀ : PopEnv) (name : PopName) (h : SameData ns env env₀) :
    reply timeout args ns env name = reply timeout args .default env₀ name ↔ ns = .default ∨
        ∀ cmd, parse timeout args name = .ok cmd → cmd.finds env₀ = false := by
  unfold reply
  cases parse timeout args name with
  | error message => simp
  | ok cmd =>
    simp only [run_eq h, output_map_iff, key_eq_self_iff, Except.ok.injEq, forall_eq',
      ← run_names_eq_finds]
    cases cmd.run default.key env₀ with
    | none => simp
    | some x =>
      obtain ⟨k, r⟩ := x
      cases hr : cmd.names r <;> simp [hr]

/-- A server whose tenant and whose default namespace hold one object under the key `k`. -/
def holding (ns : ScanNamespace) (object : Option StoredObject) : PopEnv where
  contents key := if key = ns.key (ascii "k") then object else none
  multi := true
  waited := []
  later _ := none

/-- LMPOP of a key that is not there replies nil in both. -/
theorem lmpop_missing_same :
    reply (fun _ => .valid) [ascii "lmpop", ascii "1", ascii "k", ascii "left"] (.tenant 7 1)
        (holding (.tenant 7 1) none) .lmpop =
      reply (fun _ => .valid) [ascii "lmpop", ascii "1", ascii "k", ascii "left"] .default
        (holding .default none) .lmpop := by
  refine (pop_reply_same_iff _ _ _ _ _ _ ?_).mpr (.inr ?_)
  · exact ⟨fun k => by simp [holding], rfl, rfl, fun _ => rfl⟩
  · intro cmd hcmd
    obtain rfl : lmpop [ascii "k"] true 1 = cmd :=
      Except.ok.inj ((show _ = _ by decide +kernel).trans hcmd)
    decide +kernel

/-- With something to pop, all five commands report the physical key. -/
theorem pop_reports_physical_key :
    let list := some (StoredObject.list [ascii "x"])
    let zset := some (StoredObject.zset [(ascii "m", ascii "1")])
    let run := fun name object args =>
      reply (fun _ => .valid) (args.map ascii) (.tenant 7 1) (holding (.tenant 7 1) object) name
    let key := OutputEvent.string (7 :: ascii ":" ++ 1 :: ascii ":k")
    (run .lmpop list ["lmpop", "1", "k", "left"])[1]? = some key ∧
      (run .blpop list ["blpop", "k", "0"])[1]? = some key ∧
      (run .brpop list ["brpop", "k", "0"])[1]? = some key ∧
      (run .blmpop list ["blmpop", "0", "1", "k", "left"])[1]? = some key ∧
      (run .zmpop zset ["zmpop", "1", "k", "min"])[1]? = some key := by
  decide +kernel

end EloqKV.PopReplies
