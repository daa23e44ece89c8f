/-
  Union, intersection and difference of sets and sorted sets (`SInterCommand`, `SDiffCommand`,
  `SUnionCommand`, `ZInterCommand`, `ZUnionCommand`, `ZDiffCommand` and the CARD variants in
  `src/redis_command.cpp`).

  All of them read the members of every source first and put the answer together in `OutputResult`.
  The commands on sorted sets also take sets, whose members have the score 1.  A source that does
  not exist leaves the code of its child command at `RD_NIL`.
-/
import EloqKV.Lib.SetAlgebra
import EloqKV.Zset.RangeCommands

namespace EloqKV.SetQueries

open Lib.SetAlgebra
open Objects (HashOrder RedisObject)
open ZRange (Fault ZRangeConstraint ZRangeSpec getZrangeResult)

/-! ## The sources -/

inductive AggregateType where
  | sum
  | min
  | max
  deriving DecidableEq, Repr

/-- The arithmetic of scores: `CaculateNewScore` and what `GetUpdateFunction` chooses from. -/
structure Scoring (S W : Type) where
  one : S
  caculateNewScore : S → W → S
  updateFunction : AggregateType → S → S → S

structure MembersResult where
  errCode : RdCode
  ret : Nat
  stringList : List Bytes
  deriving DecidableEq, Repr

/-- `RedisSetScanResult` with scores. -/
structure ScanResult (S : Type) where
  errCode : RdCode
  result : List (Bytes × S)
  deriving DecidableEq, Repr

/-- `RedisZsetResult` of ZRANGE: the code, and the list if the variant holds one. -/
structure RangeResult where
  errCode : RdCode
  result : Option (List Bytes)
  deriving DecidableEq, Repr

section Sources

variable {S : Type}

def sMembers (order : HashOrder) : Option (RedisObject S) → MembersResult
  | none => ⟨.nil, 0, []⟩
  | some ⟨.set s, _⟩ => ⟨.ok, s.hashSet.length, order.walk s.hashSet⟩
  | some _ => ⟨.wrongType, 0, []⟩

/-- `SZScanCommand` with scores. -/
def szScan (order : HashOrder) (one : S) : Option (RedisObject S) → ScanResult S
  | none => ⟨.nil, []⟩
  | some ⟨.set s, _⟩ => ⟨.ok, (order.walk s.hashSet).map (·, one)⟩
  | some ⟨.zset z, _⟩ => ⟨.ok, z.zOrderedSet.map fun n => (n.field, n.score)⟩
  | some _ => ⟨.wrongType, []⟩

/-- `SZScanCommand` without scores lists the members only. -/
def ScanResult.names (res : ScanResult S) : List Bytes := res.result.map Prod.fst

/-- `ZRangeCommand`.  ZDIFF allows sets as well. -/
def zRange [ScoreTexts S] [LinearOrder S] (order : HashOrder) (multiTypeRange : Bool)
    (constraint : ZRangeConstraint) (spec : ZRangeSpec S) :
    Option (RedisObject S) → Except Fault RangeResult
  | none => .ok ⟨.nil, none⟩
  | some ⟨.zset z, _⟩ => do
    let found ← getZrangeResult constraint spec z.zOrderedSet
    pure ⟨.ok, some found.1⟩
  | some ⟨.set s, _⟩ =>
    if multiTypeRange then
      .ok ⟨.ok, some ((order.walk s.hashSet).flatMap fun element =>
        if constraint.optWithscores then [element, ascii "1"] else [element])⟩
    else .ok ⟨.wrongType, none⟩
  | some _ => .ok ⟨.wrongType, none⟩

end Sources

/-! ## The answers -/

inductive Reply where
  | error (code : RdCode)
  | array (texts : List Bytes)
  | int (n : Nat)
  deriving DecidableEq, Repr

/-- The first code that is neither `RD_OK` nor `RD_NIL`. -/
def firstError (codes : List RdCode) : Option RdCode :=
  codes.find? fun code => decide (code ≠ .ok ∧ code ≠ .nil)

/-- A reply unless a source had an error. -/
def unlessError (codes : List RdCode) (reply : Reply) : Reply :=
  match firstError codes with
  | some code => .error code
  | none => reply

/-- `FindSetResultInter`: the smallest list without what another one lacks, cut at the limit. -/
def findInter (lists : List (List Bytes)) (limit : Nat) : List Bytes :=
  let smallest := smallestIndex (lists.map List.length)
  (retain (lists.getD smallest []) (lists.eraseIdx smallest)).take limit

/-- `UINT64_MAX`, the default of the limit. -/
def noLimit : Nat := 2 ^ 64 - 1

/-- `limit_` of the CARD commands: 0 stands for none. -/
def cardLimit : Option Nat → Nat
  | none => 2 ^ 63 - 1
  | some 0 => 2 ^ 63 - 1
  | some n => n

/-- The members of the first list that none of the others has. -/
def diffMembers (lists : List (List Bytes)) : List Bytes :=
  (lists.headD []).filter fun str => str ∉ lists.tail.flatten

/-! ### Sets -/

variable (cmds : List MembersResult)

def sDiff : Reply :=
  unlessError (cmds.map MembersResult.errCode) (.array (diffMembers (cmds.map (·.stringList))))

def sInter : Reply :=
  unlessError (cmds.map MembersResult.errCode)
    (.array (findInter (cmds.map (·.stringList)) noLimit))

def sInterCard (limit : Option Nat) (cmds : List MembersResult) : Reply :=
  unlessError (cmds.map MembersResult.errCode)
    (.int (findInter (cmds.map (·.stringList)) (cardLimit limit)).length)

/-- The set `SUnionCommand::OutputResult` fills. -/
def unionSet : List Bytes :=
  (cmds.flatMap fun cmd => if cmd.ret = 0 then [] else cmd.stringList).dedup

def sUnion (order : HashOrder) (cmds : List MembersResult) : Reply :=
  if cmds.any (·.errCode = .wrongType) then .error .wrongType
  else .array (order.walk (unionSet cmds))

/-! ### Sorted sets -/

section Sorted

variable {S W : Type} (scoring : Scoring S W)

/-- The entries of a source with their new scores. -/
def weighted (cmd : ScanResult S × W) : List (Bytes × S) :=
  cmd.1.result.map fun val => (val.1, scoring.caculateNewScore val.2 cmd.2)

/-- `union_vals` of ZUNION. -/
def unionVals (agg : AggregateType) (cmds : List (ScanResult S × W)) : AList fun _ : Bytes => S :=
  cmds.foldl (fun vals cmd =>
    if cmd.1.errCode = .nil then vals
    else (weighted scoring cmd).foldl (collect (scoring.updateFunction agg)) vals) ∅

/-- The order the results are sorted by: by score, then by member. -/
def inOrder [LinearOrder S] (v₁ v₂ : Bytes × S) : Bool :=
  if v₁.2 ≠ v₂.2 then decide (v₁.2 < v₂.2) else decide (v₁.1 ≤ v₂.1)

def unionRows [LinearOrder S] (order : HashOrder) (agg : AggregateType)
    (cmds : List (ScanResult S × W)) : List (Bytes × S) :=
  ((order.walk (unionVals scoring agg cmds).entries).map fun e => (e.1, e.2)).mergeSort inOrder

variable (withscores : Bool)

def rowTexts [ScoreTexts S] (rows : List (Bytes × S)) : List Bytes :=
  rows.flatMap fun row => if withscores then [row.1, ScoreTexts.d2string row.2] else [row.1]

def zUnion [LinearOrder S] [ScoreTexts S] (order : HashOrder) (withscores : Bool)
    (agg : AggregateType) (cmds : List (ScanResult S × W)) : Reply :=
  if cmds.any (·.1.errCode = .wrongType) then .error .wrongType
  else .array (rowTexts withscores (unionRows scoring order agg cmds))

/-- The first loop of ZINTER: the index and the size of the smallest set. -/
def smallestSet (i : Nat) (best : Nat × Nat) : List (ScanResult S × W) → Except RdCode (Nat × Nat)
  | [] => .ok best
  | cmd :: cmds =>
    match cmd.1.errCode with
    | .ok =>
      smallestSet (i + 1)
        (if cmd.1.result.length < best.2 then (i, cmd.1.result.length) else best) cmds
    | .nil => smallestSet (i + 1) (i, 0) cmds
    | code => .error code

/-- The loops of ZINTER: a member is reported by the last other set, so by none if there is none. -/
def interResults (agg : AggregateType) (cmds : List (ScanResult S × W)) (smallest : Nat) :
    List (Bytes × S) :=
  match cmds[smallest]? with
  | none => []
  | some cmd =>
    ((Tally.start (weighted scoring cmd)).run (scoring.updateFunction agg) cmds.length 1
      ((cmds.eraseIdx smallest).map (weighted scoring))).results

def sizeMax : Nat := 2 ^ 64 - 1

def interRows [LinearOrder S] (agg : AggregateType) (cmds : List (ScanResult S × W)) :
    Except RdCode (List (Bytes × S)) := do
  let best ← smallestSet 0 (0, sizeMax) cmds
  if best.2 = 0 then pure [] else pure ((interResults scoring agg cmds best.1).mergeSort inOrder)

def zInter [LinearOrder S] [ScoreTexts S] (agg : AggregateType)
    (cmds : List (ScanResult S × W)) : Reply :=
  match interRows scoring agg cmds with
  | .error code => .error code
  | .ok rows => .array (rowTexts withscores rows)

/-- The first loop of ZINTERCARD: whether it met a set without members. -/
def hasEmptySet : List (ScanResult S) → Except RdCode Bool
  | [] => .ok false
  | cmd :: cmds =>
    match cmd.errCode with
    | .ok => if cmd.names.isEmpty then .ok true else hasEmptySet cmds
    | .nil => .ok true
    | code => .error code

def zInterCard (limit : Option Nat) (cmds : List (ScanResult S)) : Reply :=
  match hasEmptySet cmds with
  | .error code => .error code
  | .ok true => .int 0
  | .ok false => .int (findInter (cmds.map ScanResult.names) (cardLimit limit)).length

/-! ### ZDIFF -/

/-- The constraint of the child commands of ZDIFF. -/
def diffConstraint : ZRangeConstraint :=
  ⟨withscores, 0, -1, .rank, .forward⟩

def diffSpec : ZRangeSpec S := { optStart := .int 0, optEnd := .int (-1) }

/-- The last loop of `FindZDiff` with scores, which takes two texts at a time. -/
def diffPairs (others : List Bytes) : List Bytes → List Bytes
  | member :: score :: rest =>
    if member ∉ others then member :: score :: diffPairs others rest else diffPairs others rest
  | _ => []

/-- `FindZDiff`: only the first list has scores. -/
def findZDiff (cmds : List RangeResult) : List Bytes :=
  match (cmds.head?.bind RangeResult.result) with
  | none => []
  | some target =>
    let others := cmds.tail.flatMap fun cmd => cmd.result.getD []
    if withscores then diffPairs others target else target.filter (· ∉ others)

def zDiff (cmds : List RangeResult) : Reply :=
  unlessError (cmds.map RangeResult.errCode) (.array (findZDiff withscores cmds))

/-- The child commands of ZDIFF: only the first asks for scores. -/
def diffResults [ScoreTexts S] [LinearOrder S] (order : HashOrder) (withscores : Bool) :
    List (Option (RedisObject S)) → Except Fault (List RangeResult)
  | [] => .ok []
  | src :: rest => do
    let first ← zRange order true (diffConstraint withscores) diffSpec src
    let others ← rest.mapM (zRange order true (diffConstraint false) diffSpec)
    pure (first :: others)

end Sorted

end EloqKV.SetQueries
