/-
  The range commands of sorted sets, from the request to the members they select
  (`ParseZrangeElement`, `ParseZRemRangeElement`, `Serialize` and `Deserialize` of
  `ZRangeCommand` and `ZRemRangeCommand` in `src/redis_command.cpp`, `ZRangeSpec` in
  `include/redis_command.h`, `GetZrangeResult` in `src/redis_zset_object.cpp`).

  The type of the range says which alternative of its ends an evaluation reads.  A lexicographical
  range whose minimum is `+` or whose maximum is `-` is empty: the parser sets `null_` and leaves
  the ends as they were constructed, as integers.  The copy constructor of `ZRangeSpec` does not
  copy `null_`, and `Serialize` does not write it.
-/
import EloqKV.Errors
import EloqKV.Objects.Images

namespace EloqKV.ZRange

open Lib.OrderedSet (partitionPoint)
open Lib.Reader (Read Outcome)
open Lib.Reader.Read
open Objects (ScoreBits boolBytes int32Bytes doubleBytes readBool readInt32 readDouble readString)
open Zset (RedisZsetObject ZNode LexSpec)

/-! ## Commands -/

inductive ZRangeType where
  | auto
  | rank
  | score
  | lex
  deriving DecidableEq, Repr

inductive ZRangeDirection where
  | auto
  | forward
  | reverse
  deriving DecidableEq, Repr

structure ZRangeConstraint where
  optWithscores : Bool := false
  optOffset : Int := 0
  optLimit : Int := -1
  rangetype : ZRangeType := .auto
  direction : ZRangeDirection := .auto
  deriving DecidableEq, Repr

/-- `std::variant<int, double, EloqString>`. -/
inductive RangeEnd (S : Type) where
  | int (n : Int)
  | double (d : S)
  | string (s : EloqString)
  deriving DecidableEq, Repr

structure ZRangeSpec (S : Type) where
  null : Bool := false
  minex : Bool := false
  maxex : Bool := false
  negative : Bool := false
  positive : Bool := false
  optStart : RangeEnd S := .int 0
  optEnd : RangeEnd S := .int 0
  deriving DecidableEq, Repr

structure ZRangeCommand (S : Type) where
  constraint : ZRangeConstraint
  spec : ZRangeSpec S
  multiTypeRange : Bool := false
  deriving DecidableEq, Repr

structure ZRemRangeCommand (S : Type) where
  rangeType : ZRangeType
  spec : ZRangeSpec S
  deriving DecidableEq, Repr

inductive RangeCommand (S : Type) where
  | zrange (cmd : ZRangeCommand S)
  | zremrange (cmd : ZRemRangeCommand S)
  deriving DecidableEq, Repr

section Copies

variable {S : Type}

/-- An end in the copy constructor of `ZRangeSpec`. -/
def RangeEnd.copy : RangeEnd S → RangeEnd S
  | .int n => .int n
  | .double d => .double d
  | .string s => .string s.clone

/-- The copy constructor of `ZRangeSpec`: `null_` keeps its default. -/
def ZRangeSpec.copy (rhs : ZRangeSpec S) : ZRangeSpec S where
  minex := rhs.minex
  maxex := rhs.maxex
  negative := rhs.negative
  positive := rhs.positive
  optStart := rhs.optStart.copy
  optEnd := rhs.optEnd.copy

namespace RangeCommand

def spec : RangeCommand S → ZRangeSpec S
  | zrange cmd => cmd.spec
  | zremrange cmd => cmd.spec

def rangeType : RangeCommand S → ZRangeType
  | zrange cmd => cmd.constraint.rangetype
  | zremrange cmd => cmd.rangeType

/-- A command with a copied range, as the copy constructor of ZREMRANGE leaves it.  ZRANGE cannot be
copied; this is what `Deserialize` makes of its image. -/
def copy : RangeCommand S → RangeCommand S
  | zrange cmd => .zrange { cmd with spec := cmd.spec.copy }
  | zremrange cmd => .zremrange { cmd with spec := cmd.spec.copy }

end RangeCommand

end Copies

/-! ## Parsers

The request parser ends every argument with a NUL, which is what `sv[0]` of an empty argument
reads. -/

section Parsers

/-- `sv[0]`. -/
def firstByte (sv : Bytes) : UInt8 := sv.headD 0

/-- `GetIntFromSv`: whether the end is excluded, and the number as an `int`. -/
def getIntFromSv (sv : Bytes) : Option (Bool × Int) :=
  if sv ∈ [ascii "inf", ascii "+inf", ascii "-inf"] then none
  else if firstByte sv = 40 then (string2ll (sv.drop 1)).map fun num => (true, toInt32 num)
  else (string2ll sv).map fun num => (false, toInt32 num)

/-- `GetEloqStringFromSv`: whether the end is excluded, its text, and whether it is a sign. -/
def getEloqStringFromSv (sv : Bytes) : Option (Bool × EloqString × Bool) :=
  if sv = ascii "-" ∨ sv = ascii "+" then some (true, .ofView [], true)
  else if firstByte sv = 40 then some (true, .ofView (sv.drop 1), false)
  else if firstByte sv = 91 then some (false, .ofView (sv.drop 1), false)
  else none

variable {S : Type} [ScoreTexts S]

def getDoubleFromSv (sv : Bytes) : Option (Bool × S) :=
  let excluded : Bool := firstByte sv = 40
  if sv = ascii "inf" ∨ sv = ascii "+inf" then some (excluded, ScoreTexts.infinity)
  else if sv = ascii "-inf" then some (excluded, ScoreTexts.negativeInfinity)
  else
    (ScoreTexts.string2double (if excluded then sv.drop 1 else sv)).map fun num =>
      (excluded, num)

/-- The `switch` that `ParseZrangeElement` and `ParseZRemRangeElement` end with. -/
def parseEnds (type : ZRangeType) (min max : Bytes) : Except RdCode (ZRangeSpec S) :=
  match type with
  | .auto | .rank =>
    match getIntFromSv min, getIntFromSv max with
    | some (minex, start), some (maxex, stop) =>
      .ok { minex := minex, maxex := maxex, optStart := .int start, optEnd := .int stop }
    | _, _ => .error .digitalInvalid
  | .score =>
    match getDoubleFromSv min, getDoubleFromSv max with
    | some (minex, start), some (maxex, stop) =>
      .ok { minex := minex, maxex := maxex, optStart := .double start, optEnd := .double stop }
    | _, _ => .error .minMaxNotFloat
  | .lex =>
    if min = ascii "+" ∨ max = ascii "-" then .ok { null := true }
    else
      match getEloqStringFromSv min, getEloqStringFromSv max with
      | some (minex, start, negative), some (maxex, stop, positive) =>
        .ok {
          minex := minex, maxex := maxex, negative := negative, positive := positive,
          optStart := .string start, optEnd := .string stop }
      | _, _ => .error .minMaxNotString

/-- `stringcomp(args[i].data(), option, 1)`, with the argument read as a C string. -/
def isOption (arg : Bytes) (option : String) : Bool :=
  lower (arg.takeWhile (· ≠ 0)) == ascii option

/-- The options of `ParseZrangeElement` that are one argument. -/
def parseFlag (name arg : Bytes) (constraint : ZRangeConstraint) : Except RdCode ZRangeConstraint :=
  if isOption arg "withscores" then
    if name = ascii "zrangestore" then .error .syntaxError
    else .ok { constraint with optWithscores := true }
  else if constraint.direction = .auto ∧ isOption arg "rev" then
    if name = ascii "zrangebyscore" then .error .syntaxError
    else .ok { constraint with direction := .reverse }
  else if constraint.rangetype = .auto ∧ isOption arg "bylex" then
    .ok { constraint with rangetype := .lex }
  else if constraint.rangetype = .auto ∧ isOption arg "byscore" then
    .ok { constraint with rangetype := .score }
  else .error .syntaxError

def parseLimit (offset limit : Bytes) (constraint : ZRangeConstraint) :
    Except RdCode ZRangeConstraint :=
  match getIntFromSv offset, getIntFromSv limit with
  | some (_, offset), some (_, limit) =>
    .ok { constraint with optOffset := offset, optLimit := limit }
  | _, _ => .error .digitalInvalid

/-- The loop of `ParseZrangeElement` over the options. -/
def parseOptions (name : Bytes) :
    List Bytes → ZRangeConstraint → Except RdCode ZRangeConstraint
  | [], constraint => .ok constraint
  | arg :: offset :: limit :: rest, constraint =>
    if isOption arg "limit" then do
      let constraint ← parseLimit offset limit constraint
      parseOptions name rest constraint
    else do
      let constraint ← parseFlag name arg constraint
      parseOptions name (offset :: limit :: rest) constraint
  | arg :: rest, constraint => do
    let constraint ← parseFlag name arg constraint
    parseOptions name rest constraint

variable (constraint : ZRangeConstraint)

/-- What the options leave open. -/
def ZRangeConstraint.withDefaults : ZRangeConstraint :=
  { constraint with
    direction := if constraint.direction = .auto then .forward else constraint.direction
    rangetype := if constraint.rangetype = .auto then .rank else constraint.rangetype }

def ZRangeConstraint.check : Except RdCode Unit :=
  if constraint.optLimit ≠ -1 ∧ constraint.rangetype = .rank then .error .limit
  else if constraint.optWithscores ∧ constraint.rangetype = .lex then .error .withscoreByLex
  else .ok ()

/-- Whether `minidx` and `maxidx` are swapped. -/
def ZRangeConstraint.swaps : Bool :=
  constraint.direction = .reverse ∧ (constraint.rangetype = .score ∨ constraint.rangetype = .lex)

variable (args : List Bytes)

/-- `args[minidx]`. -/
def ZRangeConstraint.minArg : Bytes :=
  args.getD (if constraint.swaps then 3 else 2) []

/-- `args[maxidx]`. -/
def ZRangeConstraint.maxArg : Bytes :=
  args.getD (if constraint.swaps then 2 else 3) []

def parseZrangeElement (constraint : ZRangeConstraint) :
    Except RdCode (ZRangeConstraint × ZRangeSpec S) := do
  let constraint ← parseOptions (args.getD 0 []) (args.drop 4) constraint
  let constraint := constraint.withDefaults
  constraint.check
  let spec ← parseEnds constraint.rangetype (constraint.minArg args) (constraint.maxArg args)
  pure (constraint, spec)

/-- The body the parsers of the ZRANGE family have in common. -/
def parseRangeOf (name : String) (rangetype : ZRangeType) (direction : ZRangeDirection)
    (args : List Bytes) : Except String (RangeCommand S) :=
  if args.length < 4 then
    .error ("ERR wrong number of arguments for '" ++ name ++ "' command")
  else
    match parseZrangeElement args { rangetype := rangetype, direction := direction } with
    | .error code => .error code.message
    | .ok (constraint, spec) => .ok (.zrange { constraint := constraint, spec := spec })

def parseZRange : List Bytes → Except String (RangeCommand S) :=
  parseRangeOf "zrange" .auto .auto

def parseZRangeByRank : List Bytes → Except String (RangeCommand S) :=
  parseRangeOf "zrangebyrank" .rank .auto

def parseZRangeByScore : List Bytes → Except String (RangeCommand S) :=
  parseRangeOf "zrangebyscore" .score .auto

def parseZRangeByLex : List Bytes → Except String (RangeCommand S) :=
  parseRangeOf "zrangebylex" .lex .auto

/-- `ParseZRevRangeCommand`, which takes one option at most. -/
def parseZRevRange : Except String (RangeCommand S) :=
  if 5 < args.length then .error "ERR wrong number of arguments for 'zrevrange' command"
  else parseRangeOf "zrevrange" .rank .reverse args

def parseZRevRangeByScore : List Bytes → Except String (RangeCommand S) :=
  parseRangeOf "zrevrangebyscore" .score .reverse

def parseZRevRangeByLex : List Bytes → Except String (RangeCommand S) :=
  parseRangeOf "zrevrangebylex" .lex .reverse

/-- `ParseZRemRangeCommand` for the range type of its name; more arguments are ignored. -/
def parseZRemRange (rangeType : ZRangeType) (args : List Bytes) : Except String (RangeCommand S) :=
  if args.length < 4 then
    .error "ERR wrong number of arguments for 'zremrangeby...' command"
  else
    match parseEnds rangeType (args.getD 2 []) (args.getD 3 []) with
    | .error code => .error code.message
    | .ok spec => .ok (.zremrange ⟨rangeType, spec⟩)

variable (S) in
/-- The names of the range commands and their parsers. -/
def rangeParsers : List (Bytes × (List Bytes → Except String (RangeCommand S))) :=
  [(ascii "zrange", parseZRange), (ascii "zrangebyrank", parseZRangeByRank),
   (ascii "zrangebyscore", parseZRangeByScore),
   (ascii "zrangebylex", parseZRangeByLex),
   (ascii "zrevrange", parseZRevRange),
   (ascii "zrevrangebyscore", parseZRevRangeByScore),
   (ascii "zrevrangebylex", parseZRevRangeByLex),
   (ascii "zremrangebyrank", parseZRemRange .rank),
   (ascii "zremrangebyscore", parseZRemRange .score),
   (ascii "zremrangebylex", parseZRemRange .lex)]

def parseRangeCommand (args : List Bytes) : Option (Except String (RangeCommand S)) :=
  ((rangeParsers S).lookup (args.getD 0 [])).map fun parser => parser args

end Parsers

/-! ## Evaluation -/

/-- Where an evaluation has no result: `std::get` throws, or an iterator leaves the set. -/
inductive Fault where
  | badVariantAccess
  | outOfSet
  deriving DecidableEq, Repr

section Evaluation

variable {S : Type}

namespace RangeEnd

def getInt : RangeEnd S → Except Fault Int
  | .int n => .ok n
  | _ => .error .badVariantAccess

def getDouble : RangeEnd S → Except Fault S
  | .double d => .ok d
  | _ => .error .badVariantAccess

/-- `std::get<EloqString>(..).StringView()`. -/
def getString : RangeEnd S → Except Fault Bytes
  | .string s => .ok s.stringView
  | _ => .error .badVariantAccess

end RangeEnd

/-- The texts a reply has, and the constraint, whose offset and limit are used up. -/
abbrev Found := List Bytes × ZRangeConstraint

/-- The ends and the flags of a lexicographical range. -/
def ZRangeSpec.lexSpec (spec : ZRangeSpec S) : Except Fault LexSpec := do
  let start ← spec.optStart.getString
  let stop ← spec.optEnd.getString
  pure {
    minex := spec.minex, maxex := spec.maxex, negative := spec.negative,
    positive := spec.positive, start := start, stop := stop }

variable [ScoreTexts S]

/-- What the loops of `EmplaceForwardElements` and `EmplaceRevElements` append for a node. -/
def nodeTexts (withscores : Bool) (n : ZNode S) : List Bytes :=
  if withscores then [n.field, ScoreTexts.d2string n.score] else [n.field]

/-- The loops themselves, over the nodes between the iterators, and the limit they leave. -/
def emplaceLoop (withscores : Bool) : List (ZNode S) → Int → List Bytes × Int
  | [], limit => ([], limit)
  | n :: rest, limit =>
    if limit = -1 ∨ 0 < limit then
      let (ans, left) := emplaceLoop withscores rest (if 0 < limit then limit - 1 else limit)
      (nodeTexts withscores n ++ ans, left)
    else ([], limit)

variable (posBegin posEnd : Nat)

/-- `EmplaceForwardElements`; iterators may cross, and a negative offset moves back. -/
def emplaceForwardElements (arg : ZRangeConstraint) (nodes : List (ZNode S)) : Except Fault Found :=
  if posEnd < posBegin then .error .outOfSet
  else
    let size : Int := posEnd - posBegin
    if size ≤ arg.optOffset then .ok ([], { arg with optOffset := arg.optOffset - size })
    else if posBegin + arg.optOffset < 0 then .error .outOfSet
    else
      let visited := (nodes.take posEnd).drop (posBegin + arg.optOffset).toNat
      let (ans, limit) := emplaceLoop arg.optWithscores visited arg.optLimit
      .ok (ans, { arg with optOffset := 0, optLimit := limit })

/-- `EmplaceRevElements`: from the second iterator down to the first. -/
def emplaceRevElements (arg : ZRangeConstraint) (nodes : List (ZNode S)) : Except Fault Found :=
  if posEnd < posBegin then .error .outOfSet
  else
    let size : Int := posEnd - posBegin
    if size ≤ arg.optOffset then .ok ([], { arg with optOffset := arg.optOffset - size })
    else if nodes.length < posEnd - arg.optOffset then .error .outOfSet
    else
      let visited := (nodes.take (posEnd - arg.optOffset).toNat).drop posBegin
      let (ans, limit) := emplaceLoop arg.optWithscores visited.reverse arg.optLimit
      .ok (ans, { arg with optOffset := 0, optLimit := limit })

/-- Both, by the direction of the command. -/
def emplaceElements (arg : ZRangeConstraint) (nodes : List (ZNode S)) : Except Fault Found :=
  if arg.direction = .reverse then emplaceRevElements posBegin posEnd arg nodes
  else emplaceForwardElements posBegin posEnd arg nodes

variable [LinearOrder S]

/-- What the reverse loop of `ZRangeByRank` appends for a node. -/
def revRankTexts (withscores : Bool) (n : ZNode S) : List Bytes :=
  if withscores then
    [n.field,
     if n.score = ScoreTexts.infinity then ascii "inf"
     else if n.score = ScoreTexts.negativeInfinity then ascii "-inf"
     else ScoreTexts.d2string n.score]
  else [n.field]

variable (arg : ZRangeConstraint) (spec : ZRangeSpec S) (nodes : List (ZNode S))

/-- `ZRangeByRank`.  Going backwards it looks at neither the offset nor the limit. -/
def zRangeByRank :
    Except Fault Found := do
  let posStart ← spec.optStart.getInt
  let posEnd ← spec.optEnd.getInt
  match Zset.rankBounds posStart posEnd nodes.length with
  | none => pure ([], arg)
  | some (first, last) =>
    if arg.direction = .reverse then
      pure (((nodes.reverse.take last).drop first).flatMap (revRankTexts arg.optWithscores), arg)
    else emplaceForwardElements first last arg nodes

def zRangeByScore :
    Except Fault Found := do
  let numStart ← spec.optStart.getDouble
  let numEnd ← spec.optEnd.getDouble
  if numEnd < numStart then pure ([], arg)
  else
    emplaceElements (partitionPoint (Zset.scoreBelowStart spec.minex numStart) nodes)
      (partitionPoint (Zset.scoreBelowStop spec.maxex numEnd) nodes) arg nodes

/-- `GetRangeByLexForCurrentScore`: the two iterators, where it succeeds. -/
def getRangeByLexForCurrentScore (spec : LexSpec) (score : S) (nodes : List (ZNode S)) :
    Option (Nat × Nat) :=
  let posStart := partitionPoint (Zset.lexBelowStart spec score) nodes
  match nodes[posStart]? with
  | none => none
  | some n =>
    if score < n.score ∨ (spec.stop < n.field ∧ spec.positive = false) then none
    else some (posStart, partitionPoint (Zset.lexBelowStop spec score) nodes)

/-- The body of the loops of `ZRangeByLex`: the members of one score. -/
def emplaceScore (spec : LexSpec) (nodes : List (ZNode S)) (score : S)
    (arg : ZRangeConstraint) : Except Fault Found :=
  match getRangeByLexForCurrentScore spec score nodes with
  | none => .ok ([], arg)
  | some (posBegin, posEnd) => emplaceElements posBegin posEnd arg nodes

/-- The loops of `ZRangeByLex`: on to the first node `beyond` the score just done, `last`. -/
def lexLoop (beyond : S → S → Bool) (body : S → ZRangeConstraint → Except Fault Found) :
    List (ZNode S) → Option S → ZRangeConstraint → Except Fault Found
  | [], _, arg => .ok ([], arg)
  | n :: rest, last, arg =>
    if last.any fun score => !beyond score n.score then lexLoop beyond body rest last arg
    else if arg.optLimit = 0 then .ok ([], arg)
    else do
      let (thisScoreAns, arg) ← body n.score arg
      let (ans, arg) ← lexLoop beyond body rest (some n.score) arg
      pure (thisScoreAns ++ ans, arg)

def zRangeByLex : Except Fault Found :=
  if spec.null then .ok ([], arg)
  else do
    let lexSpec ← spec.lexSpec
    if lexSpec.isEmpty then pure ([], arg)
    else if arg.direction = .reverse then
      lexLoop (fun score next => decide (next < score)) (emplaceScore lexSpec nodes)
        nodes.reverse none arg
    else
      lexLoop (fun score next => decide (score < next)) (emplaceScore lexSpec nodes) nodes none arg

def getZrangeResult : Except Fault Found :=
  match arg.rangetype with
  | .rank => zRangeByRank arg spec nodes
  | .score => zRangeByScore arg spec nodes
  | .lex => zRangeByLex arg spec nodes
  | .auto => .ok ([], arg)

namespace ZRemRangeCommand

omit [ScoreTexts S] [LinearOrder S]

/-- What `CommitZRemRange` reads of the specification. -/
def commitSpec (cmd : ZRemRangeCommand S) : Except Fault (Zset.ZRangeSpec S) :=
  match cmd.rangeType with
  | .score => do
    let start ← cmd.spec.optStart.getDouble
    let stop ← cmd.spec.optEnd.getDouble
    pure (.score cmd.spec.minex cmd.spec.maxex start stop)
  | .lex => do
    let lexSpec ← cmd.spec.lexSpec
    pure (.lex lexSpec)
  | .rank => do
    let start ← cmd.spec.optStart.getInt
    let stop ← cmd.spec.optEnd.getInt
    pure (.rank start stop)
  | .auto => .ok .lexNull

/-- What `Execute(ZRemRangeCommand &)` reads of it: `ZRemRangeByLex` alone asks for `null_`. -/
def executeSpec (cmd : ZRemRangeCommand S) : Except Fault (Zset.ZRangeSpec S) :=
  if cmd.rangeType = .lex ∧ cmd.spec.null then .ok .lexNull else cmd.commitSpec

end ZRemRangeCommand

/-- The texts of the reply, or the number of members removed and the object left. -/
inductive Reply (S : Type) where
  | found (result : Found)
  | removed (removeCnt : Nat) (object : Option (RedisZsetObject S))
  deriving DecidableEq, Repr

/-- `ExecuteOn` of ZREMRANGE, and `CommitOn` unless it fails. -/
def ZRemRangeCommand.evaluate (cmd : ZRemRangeCommand S) (z : RedisZsetObject S) :
    Except Fault (Reply S) := do
  let spec ← cmd.executeSpec
  match z.removeCnt spec with
  | none => .error .outOfSet
  | some cnt =>
    if CommandExecuteState.ofRemoved cnt z.zOrderedSet.length = .noChange then
      pure (.removed cnt (some z))
    else do
      let spec ← cmd.commitSpec
      match z.commitZRemRange spec with
      | none => .error .outOfSet
      | some (z, emptyAfterRemoval) =>
        pure (.removed cnt (if emptyAfterRemoval then none else some z))

def RangeCommand.evaluate (cmd : RangeCommand S) (z : RedisZsetObject S) : Except Fault (Reply S) :=
  match cmd with
  | .zrange cmd => (getZrangeResult cmd.constraint cmd.spec z.zOrderedSet).map .found
  | .zremrange cmd => cmd.evaluate z

end Evaluation

/-! ## Images -/

namespace ZRangeType

/-- `static_cast<uint8_t>`. -/
def toByte : ZRangeType → UInt8
  | auto => 0
  | rank => 1
  | score => 2
  | lex => 3

/-- `static_cast<ZRangeType>`. -/
def ofByte (b : UInt8) : Option ZRangeType :=
  match b.toNat with
  | 0 => some auto
  | 1 => some rank
  | 2 => some score
  | 3 => some lex
  | _ => none

lemma ofByte_toByte (type : ZRangeType) : ofByte type.toByte = some type := by
  cases type <;> rfl

end ZRangeType

namespace ZRangeDirection

/-- `static_cast<uint8_t>`. -/
def toByte : ZRangeDirection → UInt8
  | auto => 0
  | forward => 1
  | reverse => 2

/-- `static_cast<ZRangeDirection>`. -/
def ofByte (b : UInt8) : Option ZRangeDirection :=
  match b.toNat with
  | 0 => some auto
  | 1 => some forward
  | 2 => some reverse
  | _ => none

lemma ofByte_toByte (direction : ZRangeDirection) : ofByte direction.toByte = some direction := by
  cases direction <;> rfl

end ZRangeDirection

section Images

variable {S : Type} [ScoreBits S]

/-- An end behind its `ResultType`. -/
def RangeEnd.bytes : RangeEnd S → Bytes
  | .int n => [2] ++ int32Bytes n
  | .double d => [1] ++ doubleBytes d
  | .string s => [0] ++ Objects.sizedBytes s.stringView

/-- What both classes write of their `ZRangeSpec`. -/
def ZRangeSpec.bytes (spec : ZRangeSpec S) : Bytes :=
  boolBytes spec.minex ++ (boolBytes spec.maxex ++ (boolBytes spec.negative ++
    (boolBytes spec.positive ++ (spec.optStart.bytes ++ spec.optEnd.bytes))))

/-- The part of `ZRangeCommand::Serialize` in front of the specification. -/
def ZRangeConstraint.bytes (constraint : ZRangeConstraint) : Bytes :=
  boolBytes constraint.optWithscores ++ (int32Bytes constraint.optOffset ++
    (int32Bytes constraint.optLimit ++ ([constraint.rangetype.toByte] ++
      [constraint.direction.toByte])))

namespace RangeCommand

/-- `RedisCommandType`. -/
def commandType : RangeCommand S → UInt8
  | zrange _ => 79
  | zremrange _ => 86

/-- What `Serialize` writes behind the type. -/
def body : RangeCommand S → Bytes
  | zrange cmd => cmd.constraint.bytes ++ (cmd.spec.bytes ++ boolBytes cmd.multiTypeRange)
  | zremrange cmd => [cmd.rangeType.toByte] ++ cmd.spec.bytes

/-- `Serialize`. -/
def image (cmd : RangeCommand S) : Bytes := cmd.commandType :: cmd.body

end RangeCommand

/-- An end; one with another `ResultType` stays as it was constructed. -/
def readEnd : Read (RangeEnd S) := do
  let type ← byte
  match type.toNat with
  | 0 => do
    let s ← readString
    pure (.string s)
  | 1 => do
    let d ← readDouble S
    pure (.double d)
  | 2 => do
    let n ← readInt32
    pure (.int n)
  | _ => pure (.int 0)

/-- What both classes read of their `ZRangeSpec`, into a new one. -/
def readSpec : Read (ZRangeSpec S) := do
  let minex ← readBool
  let maxex ← readBool
  let negative ← readBool
  let positive ← readBool
  let optStart ← readEnd
  let optEnd ← readEnd
  pure {
    minex := minex, maxex := maxex, negative := negative, positive := positive,
    optStart := optStart, optEnd := optEnd }

/-- The part of `ZRangeCommand::Deserialize` in front of the specification. -/
def readConstraint : Read ZRangeConstraint := do
  let optWithscores ← readBool
  let optOffset ← readInt32
  let optLimit ← readInt32
  let rangetype ← byte >>= fun b => ofOption (ZRangeType.ofByte b)
  let direction ← byte >>= fun b => ofOption (ZRangeDirection.ofByte b)
  pure ⟨optWithscores, optOffset, optLimit, rangetype, direction⟩

namespace RangeCommand

/-- `Deserialize` of the class that `CreateTxCommand` makes for a type. -/
def readBody (type : UInt8) : Read (RangeCommand S) :=
  match type.toNat with
  | 79 => do
    let constraint ← readConstraint
    let spec ← readSpec
    let multiTypeRange ← readBool
    pure (zrange ⟨constraint, spec, multiTypeRange⟩)
  | 86 => do
    let rangeType ← byte >>= fun b => ofOption (ZRangeType.ofByte b)
    let spec ← readSpec
    pure (zremrange ⟨rangeType, spec⟩)
  | _ => fail

def createTxCommand (cmdImage : Bytes) : Outcome (RangeCommand S) :=
  ((byte >>= readBody) (.at cmdImage)).1

end RangeCommand

end Images

end EloqKV.ZRange
