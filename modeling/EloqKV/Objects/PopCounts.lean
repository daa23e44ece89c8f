/-
  The counts of the commands that pop.  Their parsers accept numbers of 64 bits; LMPOP keeps 32 of
  these with a sign, BLMPOP 32 without one, and what ZMPOP keeps may be negative.
-/
import EloqKV.Objects.ListObject
import EloqKV.Transactions.BlockingPops
import EloqKV.Zset.Invariant

open List

namespace EloqKV.PopReplies

open EloqKV.Lists Zset

/-- `ParseLPopCommand`, `ParseRPopCommand`, `ParseZPopMinCommand` and `ParseZPopMaxCommand`; no
count is a count of one for the loops. -/
def parsePop (name : String) (args : List Bytes) : Except String Int :=
  if args.length < 2 ∨ 3 < args.length then
    .error ("ERR wrong number of arguments for '" ++ name ++ "' command")
  else if args.length = 2 then .ok 1
  else
    match string2ll (arg args 2) with
    | none => .error "ERR value is out of range, must be positive"
    | some count =>
      if count < 0 then .error "ERR value is out of range, must be positive" else .ok count

/-- LPOP and RPOP, LMPOP, BLMPOP, ZPOPMIN and ZPOPMAX, ZMPOP. -/
inductive CountedPop where
  | pop | lmpop | blmpop | zpop | zmpop

/-- The reply is the first `count` of `items` from one end, and with `rest` it makes up `items`. -/
def Takes {α : Type} (front : Bool) (count : Nat) (items reply rest : List α) : Prop :=
  reply = popEnd front count items ∧
    (if front then reply ++ rest else rest ++ reply.reverse) = items

lemma takes_iff {α : Type} {front : Bool} {n m count : Nat} {items rest : List α}
    (hrest : rest = if front then items.drop m else items.take (items.length - m)) :
    Takes front count items (popEnd front n items) rest ↔
      min n items.length = min count items.length ∧ min m items.length = min n items.length := by
  have hreply : popEnd front n items = popEnd front count items ↔
      min n items.length = min count items.length := by
    cases front <;> simp [popEnd, take_eq_take_iff]
  have hall : (if front then popEnd front n items ++ rest
      else rest ++ (popEnd front n items).reverse) = items ↔
      min m items.length = min n items.length := by
    constructor
    · intro hparts
      have hlength := congrArg length hparts
      cases front <;> simp [hrest, popEnd] at hlength <;> omega
    · intro hmin
      have hsame : popEnd front n items = popEnd front m items := by
        cases front <;> simp [popEnd, take_eq_take_iff, hmin]
      rw [hrest, hsame]
      cases front <;> simp [popEnd, take_reverse]
  rw [Takes, hreply, hall]

/-- `count_ == -1 ? 1 : count_` as a `size_t`. -/
def listCount (stored : Int) : Nat :=
  if stored = -1 then 1 else (stored % 2 ^ 64).toNat

namespace CountedPop

variable (count : Int)

/-- A count that the parser lets through. -/
def Accepts : CountedPop → Prop
  | pop | zpop => ∃ name args, parsePop name args = .ok count
  | lmpop => ∃ args keys left, parseLMPop args = .ok (.lmpop keys left count)
  | blmpop => ∃ timeout args keys left,
      parseBLMPop timeout args = .ok (.blmpop keys left count true)
  | zmpop => ∃ args keys max n, parseZMPop args = .ok (.zmpop keys max n) ∧ count = n

/-- `count_` after the constructor: an `int64_t`, LMPOP has cast the count to `int32_t` before, and
BLMPOP keeps a `uint32_t`. -/
def stored : CountedPop → Int
  | pop | zpop => count
  | lmpop => toInt32 count
  | blmpop => count % 2 ^ 32
  | zmpop => if count < 2 ^ 63 then count else count - 2 ^ 64

/-- What `Execute` lists at most, from `count_`; no count of a list is `-1`. -/
def kept : CountedPop → Nat
  | pop => listCount (stored count pop)
  | lmpop => listCount (stored count lmpop)
  | blmpop => (stored count blmpop).toNat
  | zpop => (stored count zpop).toNat
  | zmpop => (stored count zmpop).toNat

/-- What `CommitOn` asks the object to remove, from `count_` again. -/
def removed : CountedPop → Nat
  | pop => listCount (stored count pop)
  | lmpop => listCount (stored count lmpop)
  | blmpop => (stored count blmpop).toNat
  | zpop => (stored count zpop).toNat
  | zmpop => (stored count zmpop).toNat

variable {S : Type} [LinearOrder S] (l : RedisListObject) (z : RedisZsetObject S)

def size : CountedPop → Nat
  | pop | lmpop | blmpop => l.listObject.length
  | zpop | zmpop => z.zOrderedSet.length

/-- `ExecuteOn` lists what was asked for, and `CommitOn` removes it. -/
def Right (front : Bool) (cmd : CountedPop) : Prop :=
  let listed := popEnd front (cmd.kept count) l.listObject
  let n := cmd.removed count
  match cmd with
  | pop | lmpop => Takes front count.toNat l.listObject listed (l.commitBlockPop front n).listObject
  | blmpop => Takes front count.toNat l.listObject listed
      (Blocking.BlockLPopCommand.commitBlockPop front n l.listObject)
  | zpop | zmpop =>
    Takes front count.toNat z.zOrderedSet (popEnd front (cmd.kept count) z.zOrderedSet)
      (z.commitZPop (!front) n).1.zOrderedSet

/-- `Execute` and `CommitOn` come to the same number, each on its own. -/
lemma removed_eq_kept (cmd : CountedPop) : cmd.removed count = cmd.kept count := by
  cases cmd <;> rfl

/-- **Counts**: a pop is right exactly if what is kept of its count asks for as many elements, and
BLMPOP can count the list with 32 bits up to there. -/
theorem pop_right_iff (cmd : CountedPop) (front : Bool) : cmd.Right count l z front ↔
    min (cmd.kept count) (cmd.size l z) = min count.toNat (cmd.size l z) ∧
      (cmd = blmpop → cmd.size l z < 2 ^ 32 ∨ cmd.kept count ≤ cmd.size l z % 2 ^ 32) := by
  have hlist : ∀ n, (l.commitBlockPop front n).listObject = if front then l.listObject.drop n
      else l.listObject.take (l.listObject.length - n) := fun n => by cases front <;> rfl
  have hzset : ∀ n, (z.commitZPop (!front) n).1.zOrderedSet = if front then z.zOrderedSet.drop n
      else z.zOrderedSet.take (z.zOrderedSet.length - n) := by
    intro n
    by_cases hn : z.zOrderedSet.length ≤ n
    · simp [RedisZsetObject.commitZPop, hn]
    · cases front <;> simp [RedisZsetObject.commitZPop, hn]
  cases cmd with
  | blmpop =>
    refine (takes_iff rfl).trans (and_congr_right fun _ => ?_)
    rw [removed_eq_kept]
    have hkept : kept count blmpop < 2 ^ 32 := by
      rw [kept, stored]
      omega
    simp only [size, forall_const]
    omega
  | zpop | zmpop =>
    exact (takes_iff (hzset _)).trans (and_congr_right fun _ => by simp [removed_eq_kept])
  | _ => exact (takes_iff (hlist _)).trans (and_congr_right fun _ => by simp [removed_eq_kept])

/-- Arguments of LMPOP on the key `k`. -/
def lmpopArgs (count : String) : List Bytes :=
  [ascii "lmpop", ascii "1", ascii "k", ascii "left", ascii "count", ascii count]

/-- LMPOP of `2 ^ 32` elements pops none. -/
theorem lmpop_count_lost : lmpop.Accepts (2 ^ 32) ∧
    ¬lmpop.Right (2 ^ 32) ⟨[ascii "a"], 10⟩ (.empty : RedisZsetObject Nat) true :=
  ⟨⟨lmpopArgs "4294967296", [ascii "k"], true, by decide +kernel⟩,
    fun h => absurd h.1 (by decide +kernel)⟩

end CountedPop

end EloqKV.PopReplies
