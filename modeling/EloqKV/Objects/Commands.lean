/-
  Every command that changes an object, over objects of every type (`ExecuteOn` and `CommitOn`
  of the command classes in `src/redis_command.cpp`).

  The transaction layer calls `ExecuteOn` with the object under the key, or with a new one if
  there is none and the command proceeds on that.  If the answer is a write or a deletion it
  calls `CommitOn`, which returns the object to store, or null if the key is to go.  What
  `ExecuteOn` leaves in the command, `CommitOn` finds there.
-/
import EloqKV.Objects.HashObject
import EloqKV.Objects.ListObject
import EloqKV.Objects.SetObject
import EloqKV.Strings.WriteCommands
import EloqKV.Zset.Commands

namespace EloqKV.Objects

open EloqKV.Lists (RedisListObject ListCommand)
open Hashes (RedisHashObject HashCommand)
open Sets (RedisHashSetObject HashSetCommand SetHost)
open Zset (RedisZsetObject ZsetCommand ScoreArith Element)
open Strings (StringCommand SetCommand)

/-- The value of an object.  The string of an object that was just created is null. -/
inductive Payload (S : Type) where
  | string (value : Option Bytes)
  | list (l : RedisListObject)
  | hash (h : RedisHashObject)
  | set (s : RedisHashSetObject)
  | zset (z : RedisZsetObject S)

/-- An object and its deadline, if it is of the TTL variant of its type. -/
structure RedisObject (S : Type) where
  payload : Payload S
  ttl : Option Nat

/-- The commands that write.  A STORE command arrives as the command that replaces its
destination, EXPIRE, PERSIST and GETEX as the deadline they leave, RESTORE as the object in its
payload, if the payload is valid. -/
inductive Command (S F : Type) where
  | string (cmd : StringCommand F)
  | set (cmd : SetCommand)
  | list (cmd : ListCommand)
  | hash (cmd : HashCommand F)
  | hashSet (cmd : HashSetCommand)
  | zset (cmd : ZsetCommand S)
  | storeList (elements : List Bytes)
  | storeSet (paras : List Bytes)
  | storeZset (elements : Option (List (Element S)))
  | del
  | getdel
  | retime (ttl : Option Nat)
  | restore (payload : Option (Payload S)) (ttl : Option Nat)

/-- What the process contributes: scores, hash tables, heap and random numbers. -/
structure Process (S : Type) where
  arith : ScoreArith S
  host : Zset.Host
  setHost : SetHost

section Commands

variable {S F : Type} [LinearOrder S] [LongDouble F]

/-- The length the limit is about: the value of a string, the serialized length of a collection. -/
def Payload.size : Payload S → Nat
  | .string value => (value.getD []).length
  | .list l => l.serializedLength
  | .hash h => h.serializedLength
  | .set s => s.serializedLength
  | .zset z => z.serializedLength

def Payload.WellFormed : Payload S → Prop
  | .string _ => True
  | .list l => l.WellFormed
  | .hash h => h.WellFormed
  | .set s => s.WellFormed
  | .zset z => z.WellFormed

/-- A collection without elements; a string is not a collection. -/
def Payload.isEmpty : Payload S → Bool
  | .string _ => false
  | .list l => ListCommand.isEmptyList l
  | .hash h => Hashes.isEmptyHash h
  | .set s => Sets.isEmptySet s
  | .zset z => ZsetCommand.isEmptyZset z

namespace RedisObject

variable (obj : RedisObject S)

def size : Nat := obj.payload.size

def WellFormed : Prop := obj.payload.WellFormed

def isEmpty : Bool := obj.payload.isEmpty

def withPayload (payload : Payload S) : RedisObject S :=
  { obj with payload }

/-- The object as SET sees it: it looks into strings only. -/
def toSetView : Strings.ObjectView where
  payload := match obj.payload with
    | .string value => .string (value.map EloqString.ofPtr)
    | .list _ => .list
    | .hash _ => .hash
    | .set _ => .set
    | .zset _ => .zset
  ttl := obj.ttl

end RedisObject

def ofSetView (obj : Strings.ObjectView) : RedisObject S where
  payload := match obj.payload with
    | .string value => .string (value.map EloqString.stringView)
    | _ => .string none
  ttl := obj.ttl

namespace Command

/-- `CreateObject(nullptr)`: what a command runs on if the key is absent. -/
def createObject : Command S F → RedisObject S
  | list _ | storeList _ => ⟨.list .empty, none⟩
  | hash _ => ⟨.hash .empty, none⟩
  | hashSet _ | storeSet _ => ⟨.set .empty, none⟩
  | zset _ | storeZset _ => ⟨.zset .empty, none⟩
  | _ => ⟨.string none, none⟩

/-- `ExecuteOn`, if it has a result.  An object of the wrong type is refused. -/
def executeOn (env : Process S) (cmd : Command S F) (obj : RedisObject S) : Option ExecResult :=
  match cmd, obj.payload with
  | string cmd, .string value => some (cmd.executeOn obj.ttl.isSome (value.getD []))
  | list cmd, .list l => some (cmd.executeOn l)
  | hash cmd, .hash h => some (cmd.executeOn h)
  | hashSet cmd, .set s => some (cmd.executeOn env.setHost s)
  | zset cmd, .zset z => cmd.executeOn env.arith env.host z
  | set cmd, _ => some (cmd.executeOn obj.toSetView)
  | storeList elements, _ => some (if elements.isEmpty then .delete else .write)
  | storeSet paras, _ => some (Sets.executeForceAdd paras)
  | storeZset elements, _ => some (Zset.executeForceClear elements)
  | del, _ => some .write
  | getdel, .string _ => some .delete
  | retime _, _ => some .write
  | restore payload _, _ => some (if payload.isSome then .write else .fail)
  | _, _ => some .fail

/-- The command as `ExecuteOn` leaves it. -/
def executed (env : Process S) (cmd : Command S F) (obj : RedisObject S) : Command S F :=
  match cmd, obj.payload with
  | list cmd, .list l => list (cmd.executed l)
  | hashSet cmd, .set s => hashSet (cmd.executed env.setHost s)
  | zset cmd, .zset z => zset (cmd.executed env.arith env.host z)
  | cmd, _ => cmd

/-- `StoreListCommand::CommitOn`: an empty list is filled, anything else replaced. -/
def commitStoreList (elements : List Bytes) (obj : RedisObject S) : Option (RedisObject S) :=
  if elements.isEmpty then none
  else
    match obj.payload with
    | .list l =>
      if l.listObject.isEmpty then some (obj.withPayload (.list (l.commitRPush elements)))
      else some ⟨.list (RedisListObject.empty.commitRPush elements), none⟩
    | _ => some ⟨.list (RedisListObject.empty.commitRPush elements), none⟩

/-- `CommitOn`, if it has a result: the object left, or none if the key is to go. -/
def commitOn (env : Process S) (cmd : Command S F) (obj : RedisObject S) :
    Option (Option (RedisObject S)) :=
  match cmd, obj.payload with
  | string cmd, .string value =>
    some (some (obj.withPayload (.string (some (cmd.commit (value.getD []))))))
  | list cmd, .list l => some ((cmd.commitOn l).map fun l => obj.withPayload (.list l))
  | hash cmd, .hash h => some ((cmd.commitOn h).map fun h => obj.withPayload (.hash h))
  | hashSet cmd, .set s => some ((cmd.commitOn s).map fun s => obj.withPayload (.set s))
  | zset cmd, .zset z =>
    (cmd.commitOn env.arith env.host z).map (Option.map fun z => obj.withPayload (.zset z))
  | set cmd, _ => some (some (ofSetView (cmd.commitOn obj.toSetView)))
  | storeList elements, _ => some (commitStoreList elements obj)
  | storeSet paras, _ => some ((Sets.commitForceAdd paras).map fun s => ⟨.set s, none⟩)
  | storeZset elements, _ => some ((Zset.commitForceClear elements).map fun z => ⟨.zset z, none⟩)
  | del, _ => some none
  | getdel, .string _ => some none
  | retime ttl, payload => some (some ⟨payload, ttl⟩)
  | restore (some payload) ttl, _ => some (some ⟨payload, ttl⟩)
  -- a commit on an object of the wrong type is never called
  | _, _ => none

/-- What a command runs on: the object under the key, or a new one. -/
def target (cmd : Command S F) (prior : Option (RedisObject S)) : RedisObject S :=
  prior.getD cmd.createObject

def Admitted : Command S F → Prop
  | list cmd => cmd.Admitted
  | hash cmd => cmd.Admitted
  | _ => True

omit [LongDouble F] in
lemma wellFormed_createObject (cmd : Command S F) : cmd.createObject.WellFormed := by
  cases cmd <;> first | trivial | exact Zset.RedisZsetObject.wellFormed_empty

omit [LongDouble F] in
lemma wellFormed_target (cmd : Command S F) {prior : Option (RedisObject S)}
    (hprior : ∀ obj, prior = some obj → obj.WellFormed) : (cmd.target prior).WellFormed := by
  cases prior with
  | none => exact cmd.wellFormed_createObject
  | some obj => exact hprior obj rfl

end Command

end Commands

/-! ## A process to run commands on -/

/-- Scores are numbers, tables walk in order of insertion, and draws give zero. -/
def plainProcess : Process Nat where
  arith := ⟨(· + ·), fun _ => false, fun _ => false⟩
  host := Zset.plainHost
  setHost := ⟨id, fun _ => .refl _, List.length, fun _ => 0⟩

end EloqKV.Objects
