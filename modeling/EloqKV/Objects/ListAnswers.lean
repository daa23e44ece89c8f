/-
  What LRANGE, LINDEX, LSET, LINSERT, LPOS, LREM and LTRIM answer and leave
  (`src/redis_list_object.cpp`, the classes in `include/redis_command.h`).

  Arguments are narrowed in three places: the fields of `LRangeCommand` are `int32_t`, LPOS keeps
  MAXLEN in an `int`, and so does `CommitLRem` with its count.
-/
import EloqKV.Errors
import EloqKV.Objects.Images

open List

namespace EloqKV.Lists

open ListCommand RedisListObject

/-! ## The commands that read -/

namespace RedisListObject

variable (l : RedisListObject)

/-- `Execute(LRangeCommand &)`, from the arguments of the constructor on. -/
def lrange (start stop : Int) : List Bytes :=
  let left := l.convertListIndex (toInt32 start)
  let right := l.convertListIndex (toInt32 stop)
  let rightOutOfRange := decide (l.listObject.length + toInt32 stop < 0)
  if right < left ∨ l.listObject.length ≤ left ∨ rightOutOfRange = true then []
  else (l.listObject.drop left.toNat).take (right - left + 1).toNat

/-- `Execute(LIndexCommand &)`. -/
def lindex (index : Int) : Option Bytes :=
  if index < 0 then
    if l.listObject.length + index < 0 then none
    else l.listObject[(l.listObject.length + index).toNat]?
  else if l.listObject.length ≤ index then none
  else l.listObject[index.toNat]?

/-- A loop of `Execute(LPosCommand &)` over elements and their positions. -/
def lposLoop (element : Bytes) (rank count : Nat) : Nat → List Nat → List (Bytes × Nat) → List Nat
  | _, found, [] => found
  | matchCnt, found, (e, i) :: rest =>
    if e = element then
      if rank ≤ matchCnt + 1 then
        if (found ++ [i]).length = count then found ++ [i]
        else lposLoop element rank count (matchCnt + 1) (found ++ [i]) rest
      else lposLoop element rank count (matchCnt + 1) found rest
    else lposLoop element rank count matchCnt found rest

/-- The elements with their positions, in the order LPOS looks at them. -/
def scan (rank : Int) : List (Bytes × Nat) :=
  if rank < 0 then l.listObject.zipIdx.reverse else l.listObject.zipIdx

/-- `maxlen` before it is narrowed. -/
def maxlen (len : Nat) : Nat := if 0 < len then len else l.listObject.length

/-- `Execute(LPosCommand &)`; the count is compared as a `size_t`. -/
def lpos (element : Bytes) (rank count : Int) (len : Nat) : List Nat :=
  let count := if count = -1 then 1 else count
  lposLoop element rank.natAbs (count % 2 ^ 64).toNat 0 []
    ((l.scan rank).take (toInt32 (l.maxlen len)).toNat)

/-- `result_` of LINSERT after `Execute(LInsertCommand &)`: `ret_` and `err_code_`. -/
def linsertResult (pivot element : Bytes) : Int × RdCode :=
  if pivot ∈ l.listObject then
    if maxObjectSize < l.serializedLength + 4 + element.length then (-1, .objectTooBig)
    else (l.listObject.length + 1, .ok)
  else (-1, .nil)

/-- `result_` of LSET after `Execute(LSetCommand &)`. -/
def lsetResult (index : Int) (element : Bytes) : Int × RdCode :=
  let index := l.convertListIndex index
  if 0 ≤ index then
    match l.listObject[index.toNat]? with
    | none => (0, .indexOutOfRange)
    | some old =>
      if maxObjectSize < l.serializedLength - old.length + element.length then (0, .objectTooBig)
      else (1, .ok)
  else (0, .indexOutOfRange)

end RedisListObject

/-- What LINSERT and LSET send. -/
inductive WriteReply where
  | int (n : Int)
  | status (text : String)
  | error (text : String)
  deriving DecidableEq

/-- `LInsertCommand::OutputResult`. -/
def linsertReply : Int × RdCode → WriteReply
  | (ret, .ok) | (ret, .nil) => .int ret
  | (_, code) => .error code.message

/-- `LSetCommand::OutputResult`; `RD_NIL` is for a key that is not there. -/
def lsetReply : Int × RdCode → WriteReply
  | (_, .ok) => .status RdCode.ok.message
  | (_, .nil) => .error RdCode.noSuchKey.message
  | (_, code) => .error code.message

inductive LPosReply where
  | int (pos : Nat)
  | nil
  | array (positions : List Nat)
  deriving DecidableEq, Repr

/-- `LPosCommand::OutputResult`; without COUNT `count_` is -1. -/
def lposReply (count : Int) : List Nat → LPosReply
  | [] => if count = -1 then .nil else .array []
  | i :: is => if count = -1 then .int i else .array (i :: is)

/-! ## The reference -/

/-- The elements between two positions, both of them included. -/
def slice (es : List Bytes) (start stop : Int) : List Bytes :=
  let first := if start < 0 then max 0 (es.length + start) else start
  let last := if stop < 0 then es.length + stop else stop
  (es.drop first.toNat).take (last - first + 1).toNat

def position (es : List Bytes) (index : Int) : Option Nat :=
  let pos := if index < 0 then es.length + index else index
  if 0 ≤ pos ∧ pos < es.length then some pos.toNat else none

variable (l : RedisListObject)

/-- What a write leaves, if it is carried out. -/
def written (cmd : ListCommand) : Option (List Bytes) :=
  if cmd.executeOn l = .write then some ((cmd.executed l).commit l).listObject else none

/-- There is an element at the position, and the object may grow by what replaces it. -/
def replaceable (pos : Nat) (element : Bytes) : Bool :=
  l.listObject[pos]?.any fun old =>
    l.serializedLength - old.length + element.length ≤ maxObjectSize

/-- The matching positions behind the first `|rank| - 1`, in the order they are met. -/
def matchesOf (element : Bytes) (rank : Int) (len : Nat) : List Nat :=
  ((((l.scan rank).take (l.maxlen len)).filter (·.1 = element)).map (·.2)).drop (rank.natAbs - 1)

/-- LRANGE keeps its arguments and lists the elements between them. -/
def LRangeRight (start stop : Int) : Prop :=
  (toInt32 start = start ∧ toInt32 stop = stop) ∧
    l.lrange start stop = slice l.listObject start stop

/-- LSET replaces the element at the index, if there is one and the object may grow, and replies
OK, or which of the two it was. -/
def LSetRight (index : Int) (element : Bytes) : Prop :=
  let reply := lsetReply (l.lsetResult index element)
  match position l.listObject index with
  | none => written l (.lset index element) = none ∧ reply = .error "ERR index out of range"
  | some pos =>
    if replaceable l pos element then
      written l (.lset index element) = some (l.listObject.set pos element) ∧ reply = .status "OK"
    else written l (.lset index element) = none ∧
      reply = .error "ERR max object size limit of 256 MB exceeded"

/-- LINSERT inserts next to the first pivot, if there is one and the object may grow, and replies
with the new length, with -1, or with an error. -/
def LInsertRight (isBefore : Bool) (pivot element : Bytes) : Prop :=
  let reply := linsertReply (l.linsertResult pivot element)
  (∀ pre post, l.listObject = pre ++ pivot :: post → pivot ∉ pre →
    if maxObjectSize < l.serializedLength + itemLength element then
      written l (.linsert isBefore pivot element) = none ∧
        reply = .error "ERR max object size limit of 256 MB exceeded"
    else
      written l (.linsert isBefore pivot element) = some (if isBefore
        then pre ++ element :: pivot :: post else pre ++ pivot :: element :: post) ∧
      reply = .int (l.listObject.length + 1)) ∧
    (pivot ∉ l.listObject → written l (.linsert isBefore pivot element) = none ∧
      reply = .int (-1))

/-- LPOS keeps its arguments and lists the matches, all for COUNT 0; no COUNT is negative. -/
def LPosRight (element : Bytes) (rank : Int) (count : Option Int) (len : Nat) : Prop :=
  let reply := lposReply (count.getD (-1)) (l.lpos element rank (count.getD (-1)) len)
  let found := matchesOf l element rank len
  toInt32 (l.maxlen len) = l.maxlen len ∧
    match count with
    | none => reply = found.head?.elim .nil .int
    | some c => 0 ≤ c ∧ reply = .array (if c = 0 then found else found.take c.toNat)

/-! ## The answers -/

variable {l}

lemma toInt32_eq_iff {n : Int} : toInt32 n = n ↔ IsInt32 n := by
  unfold toInt32 IsInt32
  omega

lemma convertListIndex_eq (index : Int) : l.convertListIndex index
    = if index < 0 then max 0 (l.listObject.length + index) else index := by
  simp only [convertListIndex]
  split_ifs <;> omega

lemma lrangeRight_iff (start stop : Int) :
    LRangeRight l start stop ↔ IsInt32 start ∧ IsInt32 stop := by
  rw [LRangeRight, toInt32_eq_iff, toInt32_eq_iff, and_iff_left_iff_imp]
  rintro ⟨hstart, hstop⟩
  rw [lrange, slice, toInt32_eq_iff.mpr hstart, toInt32_eq_iff.mpr hstop]
  obtain ⟨first, hfirst⟩ : ∃ first, first = if start < 0 then max 0 (l.listObject.length + start)
    else start := ⟨_, rfl⟩
  obtain ⟨last, hlast⟩ : ∃ last, last = if stop < 0 then l.listObject.length + stop else stop :=
    ⟨_, rfl⟩
  have hleft : l.convertListIndex start = first := by rw [convertListIndex_eq, hfirst]
  have hright : l.convertListIndex stop = max 0 last := by
    rw [convertListIndex_eq]
    split_ifs <;> omega
  have hout : decide (l.listObject.length + stop < 0) = true ↔ last < 0 := by
    rw [hlast, decide_eq_true_eq]
    split_ifs <;> omega
  simp only [hleft, hright, hout, ← hfirst, ← hlast]
  split
  · -- the range begins behind its end or behind the list
    rw [eq_comm, take_eq_nil_iff, drop_eq_nil_iff]
    omega
  · rw [max_eq_right (show 0 ≤ last by omega)]

lemma lindex_eq (l : RedisListObject) (index : Int) :
    l.lindex index = (position l.listObject index).bind (l.listObject[·]?) := by
  simp only [lindex, position]
  split_ifs <;> first | rfl | omega

/-- LSET acts on the index as `ConvertListIndex` leaves it, and replies accordingly. -/
lemma lsetReply_eq (index : Int) (element : Bytes) :
    lsetReply (l.lsetResult index element) =
      let pos := (l.convertListIndex index).toNat
      if replaceable l pos element then .status "OK"
      else if pos < l.listObject.length then
        .error "ERR max object size limit of 256 MB exceeded"
      else .error "ERR index out of range" := by
  have hindex : 0 ≤ l.convertListIndex index := by
    rw [convertListIndex_eq]
    split_ifs <;> omega
  by_cases hin : (l.convertListIndex index).toNat < l.listObject.length
  · have hold := getElem?_eq_getElem hin
    simp only [lsetResult, if_pos hindex, hold, if_pos hin]
    split
    · next hbig =>
      rw [if_neg (by simpa [replaceable, hold] using hbig)]
      rfl
    · next hfits =>
      rw [if_pos (by simpa [replaceable, hold] using hfits)]
      rfl
  · have hnone := List.getElem?_eq_none (Nat.not_lt.mp hin)
    simp only [lsetResult, if_pos hindex, hnone, if_neg hin]
    rw [if_neg (by simp [replaceable, hnone])]
    rfl

lemma written_lset (index : Int) (element : Bytes) :
    written l (.lset index element) =
      let pos := (l.convertListIndex index).toNat
      if replaceable l pos element then some (l.listObject.set pos element) else none := by
  have hindex : 0 ≤ l.convertListIndex index := by
    rw [convertListIndex_eq]
    split_ifs <;> omega
  have hmodified : l.executeLSet index element = .modified ↔
      replaceable l (l.convertListIndex index).toNat element = true := by
    simp only [executeLSet, if_pos hindex, replaceable]
    cases l.listObject[(l.convertListIndex index).toNat]? with
    | none => simp
    | some old =>
      simp only [Option.any_some, decide_eq_true_eq]
      split
      · next hbig => exact iff_of_false (by simp) (Nat.not_le.mpr hbig)
      · next hfits => exact iff_of_true rfl (Nat.not_lt.mp hfits)
  simp only [written, commit_executed, executeOn,
    CommandExecuteState.toWriteResult_eq_write, hmodified]
  rfl

/-- The clamp of `ConvertListIndex` at 0 is noticed by a list that has an element there. -/
theorem lsetRight_iff (index : Int) (element : Bytes) : LSetRight l index element ↔
    (index < -l.listObject.length → l.listObject = []) := by
  unfold LSetRight
  rw [written_lset, lsetReply_eq]
  by_cases hfront : index < -l.listObject.length
  · have hpos : position l.listObject index = none := by
      simp only [position]
      split_ifs <;> first | rfl | omega
    have hconv : (l.convertListIndex index).toNat = 0 := by
      rw [convertListIndex_eq]
      split_ifs <;> omega
    simp only [hpos, hconv, hfront, true_implies]
    cases hlist : l.listObject with
    | nil => simp [replaceable, hlist]
    | cons e es =>
      cases replaceable l 0 element <;> simp
  · refine iff_of_true ?_ fun h => absurd h hfront
    have hconv : l.convertListIndex index
        = if index < 0 then l.listObject.length + index else index := by
      rw [convertListIndex_eq]
      split_ifs <;> omega
    rw [position, ← hconv]
    have hnonneg : 0 ≤ l.convertListIndex index := by rw [hconv]; split_ifs <;> omega
    by_cases hin : l.convertListIndex index < l.listObject.length
    · simp only [hnonneg, hin, and_self, if_true]
      have hlt : (l.convertListIndex index).toNat < l.listObject.length := by omega
      cases replaceable l (l.convertListIndex index).toNat element <;> simp [hlt]
    · have hge : ¬(l.convertListIndex index).toNat < l.listObject.length := by omega
      simp [hin, replaceable, hge]

lemma linsert_right (l : RedisListObject) (isBefore : Bool) (pivot element : Bytes) :
    LInsertRight l isBefore pivot element := by
  have hwritten : written l (.linsert isBefore pivot element) =
      if pivot ∈ l.listObject ∧ l.serializedLength + 4 + element.length ≤ maxObjectSize then
        some (l.commitLInsert isBefore pivot element).listObject else none := by
    simp only [written, commit_executed, executeOn,
      CommandExecuteState.toWriteResult_eq_write, executeLInsert_eq_modified]
    rfl
  unfold LInsertRight
  simp only [hwritten, commitLInsert, insertPosition,
    linsertResult]
  refine ⟨fun pre post hes hpre => ?_, fun hno => ⟨if_neg fun h => hno h.1, ?_⟩⟩
  · have hfound : l.listObject.idxOf pivot = pre.length := by
      rw [hes, idxOf_append_of_notMem hpre, idxOf_cons_self, Nat.add_zero]
    have hmem : pivot ∈ l.listObject := by simp [hes]
    rw [hfound, if_pos hmem]
    unfold itemLength
    by_cases hbig : maxObjectSize < l.serializedLength + 4 + element.length
    · rw [if_pos (by omega), if_neg (by omega), if_pos hbig]
      exact ⟨rfl, rfl⟩
    · rw [if_neg (by omega), if_pos ⟨hmem, by omega⟩, if_neg hbig, hes]
      refine ⟨?_, rfl⟩
      cases isBefore
      · simp [take_length_add_append]
      · simp
  · rw [if_neg hno]
    rfl

variable (element : Bytes)

/-- The loop skips the hits before `rank` and keeps the positions of the next `count`. -/
lemma lposLoop_eq (rank count matchCnt : Nat) (found : List Nat)
    (items : List (Bytes × Nat)) (hcount : count = 0 ∨ found.length < count) :
    lposLoop element rank count matchCnt found items =
      let hits := ((items.filter (·.1 = element)).map (·.2)).drop (rank - 1 - matchCnt)
      found ++ if count = 0 then hits else hits.take (count - found.length) := by
  induction items generalizing matchCnt found with
  | nil => simp [lposLoop]
  | cons item items ih =>
    obtain ⟨e, i⟩ := item
    rw [lposLoop]
    by_cases he : e = element
    · rw [if_pos he]
      simp only [he, decide_true, filter_cons_of_pos, map_cons]
      by_cases hrank : rank ≤ matchCnt + 1
      · -- from here on every hit is listed
        have hzero : rank - 1 - matchCnt = 0 := by omega
        have hnext : rank - 1 - (matchCnt + 1) = 0 := by omega
        rw [if_pos hrank, hzero, drop_zero]
        have hlength : (found ++ [i]).length = found.length + 1 := by simp
        by_cases hfull : (found ++ [i]).length = count
        · have hone : count - found.length = 1 := by omega
          rw [if_pos hfull, if_neg (by omega), hone, take_succ_cons, take_zero]
        · rw [if_neg hfull, ih _ _ (by omega), hnext, drop_zero, append_assoc]
          have hsub : count ≠ 0 → count - found.length = count - (found ++ [i]).length + 1 := by
            omega
          split
          · rfl
          · rename_i hne
            rw [hsub hne, take_succ_cons, singleton_append]
      · obtain ⟨k, hk⟩ : ∃ k, rank - 1 - matchCnt = k + 1 := ⟨rank - 1 - matchCnt - 1, by omega⟩
        have hk' : rank - 1 - (matchCnt + 1) = k := by omega
        rw [if_neg hrank, ih _ _ hcount, hk, hk', drop_succ_cons]
    · rw [if_neg he, ih _ _ hcount]
      simp [he]

theorem lposRight_iff (rank : Int) (count : Option Int) (len : Nat)
    (hcount : ∀ c ∈ count, IsInt64 c) : LPosRight l element rank count len ↔
      IsInt32 (l.maxlen len) ∧ ∀ c ∈ count, 0 ≤ c := by
  unfold LPosRight
  rw [toInt32_eq_iff]
  refine and_congr_right fun hlen => ?_
  have hpos : ∀ c : Int, l.lpos element rank c len =
      if (if c = -1 then 1 else c) % 2 ^ 64 = 0 then matchesOf l element rank len
      else (matchesOf l element rank len).take ((if c = -1 then 1 else c) % 2 ^ 64).toNat := by
    intro c
    rw [lpos, lposLoop_eq _ _ _ _ _ _ (by simp; omega),
      toInt32_eq_iff.mpr hlen]
    split_ifs <;> first | rfl | omega
  cases count with
  | none =>
    simp only [Option.getD_none, hpos]
    cases matchesOf l element rank len <;> simp [lposReply]
  | some c =>
    have hc := hcount c rfl
    unfold IsInt64 at hc
    simp only [Option.getD_some, Option.mem_some_iff, forall_eq', and_iff_left_iff_imp, hpos]
    intro hnonneg
    rw [if_neg (show ¬c = -1 by omega), Int.emod_eq_of_lt hnonneg (by omega)]
    cases (if c = 0 then matchesOf l element rank len
      else (matchesOf l element rank len).take c.toNat) <;> simp [lposReply] <;> omega

/-- **The answers of the list commands**, for every list and all arguments. -/
theorem list_commands_right_iff (l : RedisListObject) :
    (∀ start stop, LRangeRight l start stop ↔ IsInt32 start ∧ IsInt32 stop) ∧
    (∀ index, l.lindex index = (position l.listObject index).bind (l.listObject[·]?)) ∧
    (∀ index element, LSetRight l index element ↔
      (index < -l.listObject.length → l.listObject = [])) ∧
    (∀ isBefore pivot element, LInsertRight l isBefore pivot element) ∧
    ∀ element rank count len, (∀ c ∈ count, IsInt64 c) → (LPosRight l element rank count len ↔
        IsInt32 (l.maxlen len) ∧ ∀ c ∈ count, 0 ≤ c) :=
  ⟨lrangeRight_iff, lindex_eq l, lsetRight_iff, linsert_right l, lposRight_iff⟩

/-- `LPOS k b RANK -1` on `a b b`. -/
theorem lpos_from_the_end :
    let l : RedisListObject := ⟨[ascii "a", ascii "b", ascii "b"], 20⟩
    LPosRight l (ascii "b") (-1) none 0 := by
  intro l
  exact ((list_commands_right_iff l).2.2.2.2 (ascii "b") (-1) none 0 nofun).mpr
    ⟨⟨by decide, by decide⟩, nofun⟩

/-- LRANGE from `2 ^ 32` on lists everything, LSET at -3 replaces the first of two elements, and
LPOS with a MAXLEN of `2 ^ 32` finds nothing. -/
theorem list_arguments_lost :
    let l : RedisListObject := ⟨[ascii "a", ascii "b"], 15⟩
    l.lrange (2 ^ 32) (-1) = [ascii "a", ascii "b"] ∧ slice l.listObject (2 ^ 32) (-1) = [] ∧
      written l (.lset (-3) (ascii "x")) = some [ascii "x", ascii "b"] ∧
      l.lpos (ascii "a") 1 (-1) (2 ^ 32) = [] ∧ matchesOf l (ascii "a") 1 (2 ^ 32) = [0] := by
  decide +kernel

/-! ## LREM -/

open Objects (CollectionCommand RedisObject)

/-- The list without the first `times` occurrences of an element. -/
def eraseTimes (element : Bytes) (times : Nat) (es : List Bytes) : List Bytes :=
  (fun es => es.erase element)^[times] es

/-- How many occurrences LREM is to remove. -/
def lremTimes (es : List Bytes) (count : Int) (element : Bytes) : Nat :=
  if count = 0 then es.count element else min count.natAbs (es.count element)

def lremReference (es : List Bytes) (count : Int) (element : Bytes) : List Bytes :=
  if count < 0 then (eraseTimes element (lremTimes es count element) es.reverse).reverse
  else eraseTimes element (lremTimes es count element) es

/-- The reply is the number of occurrences to remove, the commit leaves the others, and so does
the commit of the command that is read from the image. -/
def LRemRight {S : Type} [LinearOrder S] (l : RedisListObject) (ttl : Option Nat) (count : Int)
    (element : EloqString) : Prop :=
  let cmd : CollectionCommand := .lrem count element
  let obj : RedisObject S := ⟨.list l, ttl⟩
  let removed := l.lremCount count element.stringView
  removed = lremTimes l.listObject count element.stringView ∧
    (l.commitLRem count element.stringView).listObject
      = lremReference l.listObject count element.stringView ∧
    (l.commitLRem count element.stringView).listObject.length + removed = l.listObject.length ∧
    ∃ read, CollectionCommand.createTxCommand cmd.image = .ok read ∧
      read.commitOn obj = cmd.commitOn obj

/-- No more occurrences than the count narrowed to an `int`, or nothing is lost by that. -/
def LRemSafe (es : List Bytes) (count : Int) (element : Bytes) : Prop :=
  count = 0 ∨ es.count element ≤ (toInt32 (abs64 count)).toNat ∨
    (toInt32 (abs64 count)).toNat = count.natAbs

lemma eraseTimes_succ (times : Nat) (es : List Bytes) :
    eraseTimes element (times + 1) es = eraseTimes element times (es.erase element) := rfl

lemma eraseTimes_cons_of_ne {element e : Bytes} (he : e ≠ element) (times : Nat)
    (es : List Bytes) : eraseTimes element times (e :: es) = e :: eraseTimes element times es := by
  induction times generalizing es with
  | zero => rfl
  | succ times ih =>
    rw [eraseTimes_succ, eraseTimes_succ, erase_cons_tail (by simpa using he), ih]

lemma length_eraseTimes (times : Nat) (es : List Bytes) :
    (eraseTimes element times es).length + min times (es.count element) = es.length := by
  induction times generalizing es with
  | zero => simp [eraseTimes]
  | succ times ih =>
    have hrest := ih (es.erase element)
    rw [eraseTimes_succ]
    by_cases hmem : element ∈ es
    · have hpos := count_pos_iff.mpr hmem
      have hlen := length_pos_of_mem hmem
      rw [count_erase_self, length_erase_of_mem hmem] at hrest
      omega
    · rw [erase_of_not_mem hmem] at hrest ⊢
      rw [count_eq_zero_of_not_mem hmem] at hrest ⊢
      rwa [Nat.min_zero] at hrest ⊢

lemma eraseTimes_min (times : Nat) (es : List Bytes) :
    eraseTimes element times es = eraseTimes element (min times (es.count element)) es := by
  induction times generalizing es with
  | zero => rw [Nat.zero_min]
  | succ times ih =>
    rw [eraseTimes_succ, ih]
    by_cases hmem : element ∈ es
    · obtain ⟨n, hn⟩ := Nat.exists_eq_succ_of_ne_zero (count_pos_iff.mpr hmem).ne'
      rw [count_erase_self, hn, Nat.succ_sub_one, Nat.succ_min_succ, eraseTimes_succ]
    · rw [erase_of_not_mem hmem, count_eq_zero_of_not_mem hmem, Nat.min_zero, Nat.min_zero]

lemma eraseTimes_eq_iff {element : Bytes} {m n : Nat} {es : List Bytes} :
    eraseTimes element m es = eraseTimes element n es ↔
      min m (es.count element) = min n (es.count element) := by
  constructor
  · intro h
    have hm := length_eraseTimes element m es
    have hn := length_eraseTimes element n es
    rw [h] at hm
    omega
  · intro h
    rw [eraseTimes_min, h, ← eraseTimes_min]

lemma lremLoop_eq (budget : Nat) (es : List Bytes) (length : Nat) :
    (lremLoop element budget es length).1 = eraseTimes element budget es := by
  induction es generalizing budget length with
  | nil =>
    cases budget with
    | zero => rfl
    | succ budget => rw [eraseTimes_min]; rfl
  | cons e es ih =>
    cases budget with
    | zero => rfl
    | succ budget =>
      rw [lremLoop]
      by_cases he : e = element
      · rw [if_pos he, ih, he, eraseTimes_succ, erase_cons_head]
      · rw [if_neg he, eraseTimes_cons_of_ne he]
        exact congrArg _ (ih (budget + 1) length)

lemma commitLRem_eq (l : RedisListObject) (count : Int) (element : Bytes) :
    (l.commitLRem count element).listObject =
      if count < 0 then (eraseTimes element (l.lremBudget count) l.listObject.reverse).reverse
      else eraseTimes element (l.lremBudget count) l.listObject := by
  simp only [commitLRem, lremBudget]
  rcases Int.lt_trichotomy count 0 with hneg | rfl | hpos
  · rw [if_neg (by omega), if_pos hneg, if_pos hneg, if_neg (by omega), lremLoop_eq]
  · exact lremLoop_eq element _ _ _
  · rw [if_pos hpos, if_neg (by omega), if_neg (by omega), lremLoop_eq]

/-- **LREM is right exactly if its count survives the `int` of the commit.** -/
theorem lrem_right_iff {S : Type} [LinearOrder S] (l : RedisListObject) (ttl : Option Nat)
    {count : Int} (hcount : IsInt64 count) {element : EloqString}
    (helement : element.stringView.length < 2 ^ 32) :
    LRemRight (S := S) l ttl count element ↔ LRemSafe l.listObject count element.stringView := by
  have hnarrow := toInt32_abs64_le count
  have habs : (abs64 count).toNat ≤ count.natAbs := by
    unfold abs64
    split <;> omega
  have hle : l.listObject.count element.stringView ≤ l.listObject.length := count_le_length
  have hlen : (l.commitLRem count element.stringView).listObject.length
      + min (l.lremBudget count) (l.listObject.count element.stringView) = l.listObject.length := by
    rw [commitLRem_eq]
    split
    · rw [length_reverse, ← count_reverse, length_eraseTimes, length_reverse]
    · exact length_eraseTimes _ _ _
  have hread : ∃ read, CollectionCommand.createTxCommand
        (CollectionCommand.lrem count element).image = .ok read ∧
      read.commitOn (⟨.list l, ttl⟩ : RedisObject S)
        = (CollectionCommand.lrem count element).commitOn ⟨.list l, ttl⟩ := by
    have hfits : (CollectionCommand.lrem count element).Fits :=
      ⟨fun s hs => mem_singleton.mp hs ▸ helement, by simp [CollectionCommand.counted],
        fun n hn => mem_singleton.mp hn ▸ hcount⟩
    refine ⟨_, CollectionCommand.createTxCommand_image hfits, ?_⟩
    simp [CollectionCommand.replayed, CollectionCommand.commitOn, EloqString.stringView_clone]
  -- what is left, reversed or not, is settled by how many occurrences were taken
  have hsame : (l.commitLRem count element.stringView).listObject
      = lremReference l.listObject count element.stringView ↔
        min (l.lremBudget count) (l.listObject.count element.stringView)
          = min (lremTimes l.listObject count element.stringView)
              (l.listObject.count element.stringView) := by
    rw [commitLRem_eq, lremReference]
    split
    · rw [reverse_inj, eraseTimes_eq_iff, count_reverse]
    · rw [eraseTimes_eq_iff]
  simp only [LRemRight, hsame, eq_true hread, and_true, lremCount_eq]
  simp only [LRemSafe, lremTimes, lremBudget] at hlen ⊢
  split_ifs at hlen ⊢ <;> omega

/-- `LREM k -1 a` on `a b a`. -/
theorem lrem_from_the_end :
    let l : RedisListObject := ⟨[ascii "a", ascii "b", ascii "a"], 20⟩
    LRemRight (S := Nat) l none (-1) (EloqString.ofView (ascii "a")) := by
  intro l
  exact (lrem_right_iff l none ⟨by decide, by decide⟩ (by decide)).mpr (.inr (.inr (by decide)))

/-- `LREM k 4294967296 a` replies that one occurrence was removed, and removes none. -/
theorem lrem_removes_nothing :
    let l : RedisListObject := ⟨[ascii "a", ascii "b"], 15⟩
    l.lremCount (2 ^ 32) (ascii "a") = 1 ∧
      (l.commitLRem (2 ^ 32) (ascii "a")).listObject = [ascii "a", ascii "b"] := by
  decide +kernel

/-! ## LTRIM -/

section Trim

variable {l : RedisListObject} {start stop : Int}

lemma slice_eq_of_normalizeLTrimRange {first last : Int} (hne : l.listObject ≠ [])
    (hrange : l.normalizeLTrimRange start stop = (first, last)) :
    slice l.listObject start stop
      = (l.listObject.drop first.toNat).take (last - first + 1).toNat := by
  have hpos := length_pos_iff.mpr hne
  simp only [normalizeLTrimRange] at hrange
  rw [slice]
  by_cases hlt : last < first
  · -- nothing is kept, wherever the range begins
    rw [show (last - first + 1).toNat = 0 by omega, take_zero, take_eq_nil_iff, drop_eq_nil_iff]
    split_ifs at hrange ⊢ <;> simp only [Prod.mk.injEq] at hrange <;> omega
  · have hfirst : (if start < 0 then max 0 (l.listObject.length + start) else start) = first := by
      split_ifs at hrange ⊢ <;> simp only [Prod.mk.injEq] at hrange <;> omega
    simp only [hfirst]
    rw [take_eq_take_iff, length_drop]
    split_ifs at hrange ⊢ <;> simp only [Prod.mk.injEq] at hrange <;> omega

/-- **LTRIM**: the elements between the two positions are kept, the key goes exactly if there are
none, nothing changes exactly if they are all, and the command is replayed the same from the image
it has before `ExecuteOn` and from the one it has afterwards. -/
theorem ltrim_right {S : Type} [LinearOrder S] (hne : l.listObject ≠ [])
    (hlen : l.listObject.length < 2 ^ 63) (hstart : IsInt64 start) (hstop : IsInt64 stop)
    (env : Objects.Process S) (ttl : Option Nat) :
    let cmd : CollectionCommand := .ltrim start stop
    let obj : RedisObject S := ⟨.list l, ttl⟩
    let left := slice l.listObject start stop
    (l.commitLTrim start stop).listObject = left ∧
      (l.executeLTrim start stop = .modifiedToEmpty ↔ left = []) ∧
      (l.executeLTrim start stop = .noChange ↔ left = l.listObject) ∧
      (cmd.commitOn obj = some none ↔ left = []) ∧
      ∀ logged, logged = cmd ∨ logged = cmd.executed env obj →
        ∃ replay, CollectionCommand.createTxCommand logged.image = .ok replay ∧
          replay.commitOn obj = cmd.commitOn obj := by
  intro cmd obj left
  obtain ⟨first, last, hrange⟩ : ∃ first last, l.normalizeLTrimRange start stop = (first, last) :=
    ⟨_, _, rfl⟩
  have hbounds := normalizeLTrimRange_bounds hne start stop
  have hslice : left = _ := slice_eq_of_normalizeLTrimRange hne hrange
  rw [hrange] at hbounds
  have hleft : left.length = (last - first + 1).toNat := by
    rw [hslice, length_take, length_drop]
    omega
  have hall : left = l.listObject ↔ left.length = l.listObject.length := by
    refine ⟨congrArg _, fun h => ?_⟩
    have hsub : left.Sublist l.listObject := hslice ▸ (take_sublist _ _).trans (drop_sublist _ _)
    exact hsub.eq_of_length h
  have hstate : l.executeLTrim start stop = if last - first + 1 ≤ 0 then .modifiedToEmpty
      else if l.listObject.length ≤ last - first + 1 then .noChange else .modified := by
    rw [executeLTrim, hrange]
  have hcommit : (l.commitLTrim start stop).listObject = left := by
    rw [hslice, commitLTrim, hrange]
    dsimp only
    split
    · rw [show (last - first + 1).toNat = 0 by omega, take_zero]
    · simp only [commitRPop, commitLPop, drop_take]
      congr 1
      omega
  refine ⟨hcommit, ?_, ?_, ?_, ?_⟩
  · rw [hstate, ← length_eq_zero_iff, hleft]
    split_ifs <;> simp only [false_iff, true_iff] <;> omega
  · rw [hstate, hall, hleft]
    split_ifs <;> simp only [false_iff, true_iff] <;> omega
  · rw [← hcommit, ← List.isEmpty_iff]
    show some (obj.leaveList (l.commitLTrim start stop)) = some none ↔ _
    rw [RedisObject.leaveList]
    split
    · next hempty => exact iff_of_true rfl hempty
    · next hempty => exact iff_of_false (by simp) hempty
  · rintro logged (rfl | rfl)
    · refine ⟨_, CollectionCommand.createTxCommand_image ⟨forall_mem_nil _,
        Nat.two_pow_pos 32, ?_⟩, rfl⟩
      exact forall_mem_cons.mpr ⟨hstart, forall_mem_singleton.mpr hstop⟩
    · have hcmd : cmd.executed env obj = .ltrim first last := by
        simp only [cmd, obj, CollectionCommand.executed, hrange]
      rw [hcmd]
      refine ⟨_, CollectionCommand.createTxCommand_image ⟨forall_mem_nil _,
        Nat.two_pow_pos 32, ?_⟩, ?_⟩
      · refine forall_mem_cons.mpr ⟨⟨?_, ?_⟩, forall_mem_singleton.mpr ⟨?_, ?_⟩⟩ <;> omega
      · have hlogged := CollectionCommand.commitOn_logged env cmd obj
        rw [hcmd] at hlogged
        exact hlogged.symm

/-- `LTRIM k -2 -1` on `a b c`. -/
theorem ltrim_last_two :
    let l : RedisListObject := ⟨[ascii "a", ascii "b", ascii "c"], 20⟩
    (l.commitLTrim (-2) (-1)).listObject = [ascii "b", ascii "c"] ∧
      l.executeLTrim (-2) (-1) ≠ .modifiedToEmpty := by
  intro l
  obtain ⟨hcommit, hempty, -⟩ := @ltrim_right l (-2) (-1) Nat _ nofun (by decide) (by decide)
    (by decide) Objects.plainProcess none
  exact ⟨hcommit, fun h => nomatch hempty.mp h⟩

end Trim

end EloqKV.Lists
