/-
  The sorted set object (`include/redis_zset_object.h`, `src/redis_zset_object.cpp`).

  A sorted set is kept twice: as an ordered set of nodes and as a hash map from members to
  scores.  The keys of the map are views of the strings in the nodes, so a node has an address, a
  map key is the address it points into, and a key whose node is gone denotes nothing.
-/
import EloqKV.Lib.OrderedSet
import EloqKV.Zset.AddFilter

namespace EloqKV.Zset

/-- A node of `z_ordered_set_`. -/
structure ZNode (S : Type) where
  addr : Nat
  field : Bytes
  score : S
  deriving DecidableEq, Repr

/-- An entry of `z_hash_map_`: the node its key points into, and the score. -/
structure MapEntry (S : Type) where
  addr : Nat
  score : S
  deriving DecidableEq, Repr

/-- `RedisZsetObject`, with the address the next node is allocated at. -/
structure RedisZsetObject (S : Type) where
  zOrderedSet : List (ZNode S)
  zHashMap : List (MapEntry S)
  serializedLength : Nat
  nextAddr : Nat
  deriving DecidableEq, Repr

section Object

variable {S : Type} [LinearOrder S]

/-- `Cmp`: by score, then by member. -/
def cmp (a b : ZNode S) : Bool :=
  if a.score ≠ b.score then decide (a.score < b.score) else decide (a.field < b.field)

/-- `std::set::insert`, and the address of the node the returned iterator points at. -/
def setInsert (node : ZNode S) (nodes : List (ZNode S)) : List (ZNode S) × Nat :=
  let (nodes, at_) := Lib.OrderedSet.insert cmp node nodes
  (nodes, at_.addr)

namespace RedisZsetObject

def empty : RedisZsetObject S := ⟨[], [], 1 + 4, 0⟩

variable (z : RedisZsetObject S)

def denotes (addr : Nat) : Option Bytes :=
  (z.zOrderedSet.find? fun n => n.addr == addr).map ZNode.field

def find (sv : Bytes) : Option (MapEntry S) :=
  z.zHashMap.find? fun m => z.denotes m.addr == some sv

/-- The score of a member, `z_hash_map_.find(sv)->second`. -/
def score (sv : Bytes) : Option S := (z.find sv).map MapEntry.score

/-- Removes the node and the map entry of a member, as `CommitZAdd` and `CommitZRem` do. -/
def eraseEntry (sv : Bytes) (m : MapEntry S) : RedisZsetObject S :=
  { z with
    zOrderedSet := z.zOrderedSet.eraseP fun n => n.score == m.score && n.field == sv
    zHashMap := z.zHashMap.erase m }

/-- `z_hash_map_.emplace`: an entry with an equal key stays. -/
def emplace (addr : Nat) (sv : Bytes) (num : S) : RedisZsetObject S :=
  match z.find sv with
  | some _ => z
  | none => { z with zHashMap := z.zHashMap ++ [⟨addr, num⟩] }

/-- Inserts an owned copy of the member and the view of it. -/
def insertNode (field : Bytes) (num : S) : RedisZsetObject S :=
  let (nodes, addr) := setInsert ⟨z.nextAddr, field, num⟩ z.zOrderedSet
  { z with zOrderedSet := nodes, nextAddr := z.nextAddr + 1 }.emplace addr field num

/-- `update_element` of `CommitZAdd` without INCR. -/
def updateElement (e : Element S) : RedisZsetObject S :=
  match z.find e.2.stringView with
  | none =>
    { z.insertNode e.2.stringView e.1 with
      serializedLength := z.serializedLength + (8 + 4 + e.2.stringView.length) }
  | some m => (z.eraseEntry e.2.stringView m).insertNode e.2.stringView e.1

end RedisZsetObject

end Object

end EloqKV.Zset
