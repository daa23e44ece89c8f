/-
  A sorted set over its whole life: any sequence of commits, copies, conversions between the
  TTL and the plain class, and passages through the serialized form.

  The converting constructor of `RedisZsetTTLObject` takes a `const RedisZsetObject &&`, to which
  the move constructor of the base class does not apply, so `AddTTL` copies; `RemoveTTL` moves, and
  the nodes of a moved `std::set` stay where they are.
-/
import EloqKV.Lib.Runs
import EloqKV.Zset.Ranges

namespace EloqKV.Zset

open RedisZsetObject

section Runs

variable {S : Type} [LinearOrder S]

/-- A sorted set object of either class. -/
structure ZsetRecord (S : Type) where
  zset : RedisZsetObject S
  ttl : Option Nat

/-- What can happen to a sorted set object. -/
inductive Op (S : Type) where
  | zadd (host : Host) (flags : ZAddFlags) (elements : Elements S)
  | zrem (elements : List Bytes)
  | zremrange (spec : ZRangeSpec S)
  | zpop (popMax : Bool) (count : Nat)
  | copy
  | addTTL (ttl : Nat)
  | removeTTL
  | reload

namespace ZsetRecord

/-- One operation; `none` is undefined behaviour.  `RemoveTTL` needs a deadline. -/
def apply (add : S → S → S) (r : ZsetRecord S) : Op S → Option (ZsetRecord S)
  | .zadd host flags elements =>
    some { r with zset := r.zset.commitZAddElements add host flags elements }
  | .zrem elements => some { r with zset := r.zset.commitZRem elements }
  | .zremrange spec => (r.zset.commitZRemRange spec).map fun (zset, _) => { r with zset }
  | .zpop popMax count => some { r with zset := (r.zset.commitZPop popMax count).1 }
  | .copy => some { r with zset := r.zset.copy }
  | .addTTL ttl => some ⟨r.zset.copy, some ttl⟩
  | .removeTTL => some { r with ttl := none }
  | .reload => some { r with zset := .deserialize r.zset.pairs }

/-- The operation as a total step, for operations that have a result. -/
def step (add : S → S → S) (r : ZsetRecord S) (op : Op S) : ZsetRecord S :=
  (r.apply add op).getD r

/-- The operations that have a result. -/
def Allowed (r : ZsetRecord S) : Op S → Prop
  | .zremrange spec => r.zset.Walkable spec
  | _ => True

instance decidableAllowed (r : ZsetRecord S) : ∀ op : Op S, Decidable (r.Allowed op)
  | .zremrange spec => inferInstanceAs (Decidable (r.zset.Walkable spec))
  | .zadd _ _ _ | .zrem _ | .zpop _ _ | .copy | .addTTL _ | .removeTTL | .reload =>
    inferInstanceAs (Decidable True)

/-- A new object, or one read from the serialized form of a sorted set. -/
inductive Initial : ZsetRecord S → Prop
  | empty : Initial ⟨.empty, none⟩
  | deserialized (pairs : List (Bytes × S)) (ttl : Option Nat)
      (hmembers : (pairs.map Prod.fst).Nodup) : Initial ⟨.deserialize pairs, ttl⟩

end ZsetRecord

/-- What the two containers owe each other. -/
structure RedisZsetObject.Agree (z : RedisZsetObject S) : Prop where
  /-- The map and the set hold the same pairs; a key counts as what it denotes. -/
  samePairs : (z.zHashMap.map fun m => (z.denotes m.addr, m.score)).Perm
    (z.zOrderedSet.map fun n => (some n.field, n.score))
  /-- Each member occurs once. -/
  once : (z.zOrderedSet.map ZNode.field).Nodup
  /-- The set is strictly increasing in score and member. -/
  increasing : z.zOrderedSet.Pairwise fun a b =>
    a.score < b.score ∨ (a.score = b.score ∧ a.field < b.field)
  /-- Every key points into a node of this object and denotes the member stored there. -/
  keys : ∀ m ∈ z.zHashMap, ∃ n ∈ z.zOrderedSet, n.addr = m.addr ∧ z.denotes m.addr = some n.field

lemma RedisZsetObject.Coherent.agree {z : RedisZsetObject S} (hz : z.Coherent) : z.Agree where
  samePairs := by
    refine (hz.entries.map fun m => (z.denotes m.addr, m.score)).trans ?_
    rw [List.map_map]
    refine List.Perm.of_eq (List.map_congr_left fun n hn => ?_)
    have hdenotes : z.denotes n.addr = some n.field := denotes_of_mem hz.addrs hn
    simp [ZNode.entry, hdenotes]
  once := hz.distinct
  increasing := hz.sorted.imp fun h => (cmp_iff _ _).mp h
  keys m hm := by
    obtain ⟨n, hn, rfl⟩ := List.mem_map.mp (hz.entries.mem_iff.mp hm)
    exact ⟨n, hn, rfl, denotes_of_mem hz.addrs hn⟩

namespace ZsetRecord

lemma Initial.wellFormed {r : ZsetRecord S} (hr : Initial r) : r.zset.WellFormed := by
  cases hr with
  | empty => exact wellFormed_empty
  | deserialized pairs ttl hmembers => exact (wellFormed_deserialize hmembers).1

lemma wellFormed_apply (add : S → S → S) {r r' : ZsetRecord S} {op : Op S}
    (hr : r.zset.WellFormed) (h : r.apply add op = some r') : r'.zset.WellFormed := by
  cases op with
  | zadd host flags elements =>
    cases h
    exact hr.commitZAddElements add host flags elements
  | zrem elements =>
    cases h
    exact (hr.commitZRem elements).1
  | zremrange spec =>
    obtain ⟨⟨z', isEmpty⟩, hcommit, rfl⟩ := Option.map_eq_some_iff.mp h
    by_cases hspec : r.zset.Walkable spec
    · obtain ⟨_, z'', _, _, hcommit', hwf, _, _⟩ := hr.commitZRemRange hspec
      obtain rfl : z' = z'' := congrArg Prod.fst (Option.some.inj (hcommit.symm.trans hcommit'))
      exact hwf
    · exact absurd (hcommit.symm.trans (hr.commitZRemRange_eq_none hspec)) (by simp)
  | zpop popMax count =>
    cases h
    exact (hr.commitZPop popMax count).1
  | copy =>
    cases h
    exact hr.copy.1
  | addTTL ttl =>
    cases h
    exact hr.copy.1
  | removeTTL =>
    cases h
    exact hr
  | reload =>
    cases h
    exact (wellFormed_deserialize
      (members_eq_pairs r.zset ▸ hr.distinct)).1

lemma apply_isSome_iff (add : S → S → S) {r : ZsetRecord S} (hr : r.zset.WellFormed)
    (op : Op S) : (r.apply add op).isSome = true ↔ r.Allowed op := by
  cases op with
  | zremrange spec =>
    simp only [apply, Option.isSome_map, Allowed]
    constructor
    · intro h
      by_contra hspec
      rw [hr.commitZRemRange_eq_none hspec] at h
      exact absurd h (by simp)
    · intro hspec
      obtain ⟨_, _, _, _, hcommit, _⟩ := hr.commitZRemRange hspec
      rw [hcommit]
      rfl
  | _ => simp [apply, Allowed]

/-- **The containers of a sorted set agree after every run of operations that have a
result**, and in every state reached an operation has one exactly if it is not a
`ZREMRANGEBYSCORE` whose ends are the same excluded score of some member (or a range whose
specification has `null_`, which is never committed). -/
theorem containers_agree (add : S → S → S) {start : ZsetRecord S} (hstart : Initial start)
    {ops : List (Op S)} {r : ZsetRecord S}
    (hrun : Lib.GuardedRun (step add) (fun _ r op => r.Allowed op) start ops r) :
    r.zset.Agree ∧ ∀ op, (r.apply add op).isSome = true ↔ r.Allowed op := by
  have hwf : r.zset.WellFormed := by
    refine hrun.invariant (fun _ r => r.zset.WellFormed) hstart.wellFormed ?_
    intro _ r op hr hop
    obtain ⟨r', hr'⟩ := Option.isSome_iff_exists.mp ((apply_isSome_iff add hr op).mpr hop)
    have hstep : step add r op = r' := by rw [step, hr', Option.getD_some]
    rw [hstep]
    exact wellFormed_apply add hr hr'
  exact ⟨hwf.toCoherent.agree, apply_isSome_iff add hwf⟩

end ZsetRecord

end Runs

/-! ## A run, and a range that leaves the set -/

namespace ZsetRecord

def plainFlags : ZAddFlags := ⟨⟨false, false, false, false, false⟩, false⟩

/-- `ZADD k 5 a 3 b 7 c`, on views of the request. -/
def addThree : Op Nat :=
  .zadd plainHost plainFlags (.vector (viewed [(5, ascii "a"), (3, ascii "b"), (7, ascii "c")]))

/-- `ZINCRBY k 4 b`. -/
def incrB : Op Nat :=
  .zadd plainHost { plainFlags with incr := true } (.pair (4, EloqString.ofView (ascii "b")))

/-- Members are added, one is moved, a range is removed, and a deadline is set. -/
theorem mixed_run_agrees :
    let ops := [addThree, incrB, .zremrange (.score true false 5 6), .addTTL 99, .zpop true 1]
    (ops.foldl (step (· + ·)) (⟨.empty, none⟩ : ZsetRecord Nat)).zset.Agree := by
  intro ops
  have hrun : Lib.GuardedRun (step (· + ·)) (fun _ r op => r.Allowed op)
      (⟨.empty, none⟩ : ZsetRecord Nat) ops (ops.foldl (step (· + ·)) ⟨.empty, none⟩) := by
    refine .step (.step (.step (.step (.step .init trivial) trivial) ?_) trivial) trivial
    decide +kernel
  exact (containers_agree (· + ·) .empty hrun).1

/-- `ZREMRANGEBYSCORE k (5 (5` on a set with a member of score 5: the walk starts behind that
member and is to end in front of it, both when it counts and when it erases. -/
theorem zremrangebyscore_leaves_the_set :
    let r := step (· + ·) (⟨.empty, none⟩ : ZsetRecord Nat) addThree
    let spec : ZRangeSpec Nat := .score true true 5 5
    r.zset.executeZRemRange spec = none ∧ (r.apply (· + ·) (.zremrange spec)).isNone = true := by
  decide +kernel

end ZsetRecord

end EloqKV.Zset
