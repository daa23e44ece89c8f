/-
  A log is a queue of numbered items, whatever its name is and whatever other logs there are.

  Every function of a log is the operation of its queue and touches no record of another log; a
  transaction, any list of calls aborted at the first error, either leaves the table as it was or
  does all of them.  The one condition is that fewer than 2^64 items are appended to a log between
  its creation and its removal.
-/
import EloqKV.Lib.Runs
import EloqKV.Vector.LogObject

open EloqKV.Lib List Function Option
open EloqKV.Lib.Tx (TripleIf)

namespace EloqKV.Vector

/-! ## Queues of numbered items -/

/-- An item a caller can pass to `append_log`. -/
abbrev NewItem := { item : LogItem // item.Fits }

/-- The items numbered from `n` on. -/
def numberFrom (n : Nat) : List NewItem → List LogItem
  | [] => []
  | item :: rest => { item.val with sequenceId := n } :: numberFrom (n + 1) rest

@[simp] lemma length_numberFrom (n : Nat) (items : List NewItem) :
    (numberFrom n items).length = items.length := by
  induction items generalizing n with
  | nil => rfl
  | cons item rest ih => rw [numberFrom, length_cons, length_cons, ih]

lemma map_sequenceId_numberFrom (n : Nat) (items : List NewItem) :
    (numberFrom n items).map (·.sequenceId) = range' n items.length := by
  induction items generalizing n with
  | nil => rfl
  | cons item rest ih => rw [numberFrom, map_cons, ih, length_cons, range'_succ]

variable {items : List NewItem}

lemma fits_of_mem_numberFrom {n : Nat} : ∀ item ∈ numberFrom n items, item.Fits := by
  induction items generalizing n with
  | nil => exact nofun
  | cons new rest ih =>
    intro item hitem
    rcases mem_cons.mp hitem with rfl | hitem
    · exact ⟨new.property.text, new.property.timestamp⟩
    · exact ih item hitem

lemma assignSequenceIds_eq {n : Nat} (h : n + items.length ≤ u64) :
    assignSequenceIds n (items.map (·.val)) = numberFrom n items := by
  induction items generalizing n with
  | nil => rfl
  | cons item rest ih =>
    rw [map_cons, assignSequenceIds]
    congr 1
    rw [length_cons] at h
    cases rest with
    | nil => rfl
    | cons item' rest =>
      rw [length_cons] at h ih
      rw [Nat.mod_eq_of_lt (by omega)]
      exact ih (by omega)

/-- A queue of log items: the number the next item gets, and the items, oldest first. -/
structure LogQueue where
  next : Nat
  pending : List LogItem
  length_le : pending.length ≤ next
  consecutive : pending.map (·.sequenceId) = range' (next - pending.length) pending.length
  fits : ∀ item ∈ pending, item.Fits

namespace LogQueue

variable (q : LogQueue)

/-- The number of the oldest item, or of the next one where there is none. -/
def head : Nat :=
  q.next - q.pending.length

/-- The number of the newest item, once there was one. -/
def tail : Nat :=
  q.next - 1

/-- The item with a number, if it is still there. -/
def item (id : Nat) : Option LogItem :=
  if q.head ≤ id then q.pending[id - q.head]? else none

def empty : LogQueue :=
  ⟨0, [], le_rfl, rfl, nofun⟩

lemma sequenceId_getElem {i : Nat} (hi : i < q.pending.length) :
    q.pending[i].sequenceId = q.head + i := by
  have h := congrArg (·[i]?) q.consecutive
  simp only [getElem?_map, getElem?_eq_getElem hi, map_some] at h
  rw [getElem?_range' hi, Option.some.injEq] at h
  rw [h, head, Nat.one_mul]

def enqueue (items : List NewItem) : LogQueue where
  next := q.next + items.length
  pending := q.pending ++ numberFrom q.next items
  length_le := by
    rw [length_append, length_numberFrom]
    exact Nat.add_le_add_right q.length_le _
  consecutive := by
    have hnext : q.next = q.next - q.pending.length + q.pending.length :=
      (Nat.sub_add_cancel q.length_le).symm
    rw [map_append, q.consecutive, map_sequenceId_numberFrom, length_append,
      length_numberFrom, Nat.add_sub_add_right]
    conv_lhs => rw [hnext, Nat.add_sub_cancel]
    exact range'_append_1
  fits := by
    intro item hitem
    rcases mem_append.mp hitem with hitem | hitem
    · exact q.fits item hitem
    · exact fits_of_mem_numberFrom item hitem

def dequeue (toId : Nat) : LogQueue where
  next := q.next
  pending := q.pending.drop (toId + 1 - q.head)
  length_le := by
    have := q.length_le
    rw [length_drop]
    omega
  consecutive := by
    have := q.length_le
    rw [map_drop, q.consecutive, drop_range', length_drop, head]
    by_cases hk : toId + 1 - (q.next - q.pending.length) ≤ q.pending.length
    · congr 1
      omega
    · have hzero : q.pending.length - (toId + 1 - (q.next - q.pending.length)) = 0 := by omega
      rw [hzero]
      rfl
  fits := fun item hitem => q.fits item (mem_of_mem_drop hitem)

/-- The counters that the log keeps. -/
def metadata : LogMetadata :=
  ⟨q.pending.length, q.head, q.tail, q.next⟩

lemma head_add_length : q.head + q.pending.length = q.next :=
  Nat.sub_add_cancel q.length_le

lemma head_enqueue (items : List NewItem) : (q.enqueue items).head = q.head := by
  show q.next + items.length - (q.pending ++ numberFrom q.next items).length = _
  rw [length_append, length_numberFrom, Nat.add_sub_add_right]
  rfl

lemma length_dequeue (toId : Nat) :
    (q.dequeue toId).pending.length = q.pending.length - (toId + 1 - q.head) :=
  length_drop

lemma head_dequeue {toId : Nat} (hle : q.head ≤ toId) (hlt : toId < q.next) :
    (q.dequeue toId).head = toId + 1 := by
  have hsum := q.head_add_length
  show q.next - (q.dequeue toId).pending.length = _
  rw [length_dequeue]
  omega

lemma metadata_fits {q : LogQueue} (hq : q.next < u64) : q.metadata.Fits := by
  have hsum := q.head_add_length
  have htail : q.tail = q.next - 1 := rfl
  constructor
  · show q.pending.length < u64
    omega
  · show q.head < u64
    omega
  · show q.tail < u64
    omega
  · exact hq

lemma isSome_item_iff (id : Nat) : (q.item id).isSome ↔ q.head ≤ id ∧ id < q.next := by
  have hsum := q.head_add_length
  unfold item
  by_cases hid : q.head ≤ id
  · rw [if_pos hid, ← ne_none_iff_isSome, ne_eq, getElem?_eq_none_iff]
    omega
  · rw [if_neg hid]
    exact ⟨nofun, fun h => absurd h.1 hid⟩

lemma item_eq_none {id : Nat} (h : ¬ (q.head ≤ id ∧ id < q.next)) : q.item id = none := by
  rw [← not_isSome_iff_eq_none, isSome_item_iff]
  exact h

lemma item_enqueue (items : List NewItem) (id : Nat) :
    (q.enqueue items).item id
      = if q.next ≤ id then (numberFrom q.next items)[id - q.next]? else q.item id := by
  have hsum := q.head_add_length
  unfold item
  rw [head_enqueue]
  show (if q.head ≤ id then (q.pending ++ numberFrom q.next items)[id - q.head]? else none) = _
  by_cases hnext : q.next ≤ id
  · rw [if_pos (by omega), if_pos hnext, getElem?_append_right (by omega)]
    congr 1
    omega
  · rw [if_neg hnext]
    by_cases hid : q.head ≤ id
    · rw [if_pos hid, if_pos hid, getElem?_append_left (by omega)]
    · rw [if_neg hid, if_neg hid]

lemma item_dequeue {toId : Nat} (hle : q.head ≤ toId) (hlt : toId < q.next)
    (id : Nat) : (q.dequeue toId).item id = if id ≤ toId then none else q.item id := by
  unfold item
  rw [head_dequeue q hle hlt]
  show (if toId + 1 ≤ id then (q.pending.drop (toId + 1 - q.head))[id - (toId + 1)]? else none) = _
  by_cases hid : id ≤ toId
  · rw [if_neg (by omega), if_pos hid]
  · rw [if_pos (by omega), if_neg hid, if_pos (by omega), getElem?_drop]
    congr 1
    omega

lemma map_item_range' {n : Nat} (hn : n ≤ q.pending.length) :
    (range' q.head n).map q.item = (q.pending.take n).map some := by
  apply ext_getElem?
  intro i
  rw [getElem?_map, getElem?_map, getElem?_take]
  by_cases hi : i < n
  · rw [getElem?_range' hi, if_pos hi, getElem?_eq_getElem (by omega), Nat.one_mul,
      map_some, map_some, item, if_pos (by omega), Nat.add_sub_cancel_left,
      getElem?_eq_getElem (by omega)]
  · rw [if_neg hi, getElem?_eq_none (by rw [length_range']; omega)]
    rfl

end LogQueue

/-! ## The queues of a table -/

/-- The queues of all logs, by name. -/
abbrev Logs := Bytes → Option LogQueue

/-- The table holds the records of these queues, and no item or metadata record besides. -/
structure Represents (t : LogTable) (logs : Logs) : Prop where
  metadata : ∀ name, t (getMetadataKey name) = (logs name).map fun q => serializeMetadata q.metadata
  items : ∀ name id, t (getLogItemKey name id)
    = ((logs name).bind fun q => q.item id).map serializeLogItem
  bounded : ∀ name q, logs name = some q → q.next < u64

/-- The keys of a log. -/
def BelongsTo (name key : Bytes) : Prop :=
  key = getMetadataKey name ∨ ∃ id, key = getLogItemKey name id

lemma not_belongsTo_metadata {name name' : Bytes} (h : name' ≠ name) :
    ¬ BelongsTo name (getMetadataKey name') := by
  rintro (hkey | ⟨id, hkey⟩)
  · exact h (append_cancel_left hkey)
  · exact getLogItemKey_ne_getMetadataKey name name' id hkey.symm

lemma not_belongsTo_item {name name' : Bytes} (h : name' ≠ name) (id : Nat) :
    ¬ BelongsTo name (getLogItemKey name' id) := by
  rintro (hkey | ⟨id', hkey⟩)
  · exact getLogItemKey_ne_getMetadataKey name' name id hkey
  · exact h (getLogItemKey_inj.mp hkey).1

lemma Represents.change {t t' : LogTable} {logs : Logs} {name : Bytes} {q' : Option LogQueue}
    (h : Represents t logs) (hframe : ∀ key, ¬ BelongsTo name key → t' key = t key)
    (hmeta : t' (getMetadataKey name) = q'.map fun q => serializeMetadata q.metadata)
    (hitems : ∀ id, t' (getLogItemKey name id) = (q'.bind fun q => q.item id).map serializeLogItem)
    (hbound : ∀ q, q' = some q → q.next < u64) : Represents t' (update logs name q') := by
  constructor
  · intro name'
    by_cases hname : name' = name
    · rw [hname, update_self, hmeta]
    · rw [update_of_ne hname, hframe _ (not_belongsTo_metadata hname), h.metadata]
  · intro name' id
    by_cases hname : name' = name
    · rw [hname, update_self, hitems]
    · rw [update_of_ne hname, hframe _ (not_belongsTo_item hname id), h.items]
  · intro name' q hq
    by_cases hname : name' = name
    · rw [hname, update_self] at hq
      exact hbound q hq
    · rw [update_of_ne hname] at hq
      exact h.bounded name' q hq

lemma represents_nothing : Represents (fun _ => none) fun _ => none :=
  ⟨fun _ => rfl, fun _ _ => rfl, nofun⟩

/-! ## Operations on queues -/

/-- A call of one of the functions of a log. -/
inductive LogOp where
  | create (name : Bytes)
  | append (name : Bytes) (items : List NewItem)
  | truncate (name : Bytes) (toId : Nat)
  | remove (name : Bytes)
  | scan (name : Bytes) (toId : Nat)

open LogOp

/-- What a call hands back through its output parameters. -/
inductive LogReply where
  | done
  | appended (lastAndCount : Option (Nat × Nat))
  | truncated (toId count : Nat)
  | scanned (items : List LogItem)
  deriving DecidableEq

def LogReturn.map {α β : Type} (f : α → β) : LogReturn α → LogReturn β
  | ok a => ok (f a)
  | error e => error e
  | endless => endless

namespace LogOp

def name : LogOp → Bytes
  | create name => name
  | append name _ => name
  | truncate name _ => name
  | remove name => name
  | scan name _ => name

/-- The call, as the code makes it. -/
def script (uninit : LogItem) : LogOp → LogScript (LogReturn LogReply)
  | create name => LogReturn.map (fun _ => .done) <$> createLog name
  | append name items => LogReturn.map .appended <$> appendLog name (items.map (·.val))
  | truncate name toId => LogReturn.map (fun r => .truncated r.1 r.2) <$> truncateLog name toId
  | remove name => LogReturn.map (fun _ => .done) <$> removeLog name
  | scan name toId => LogReturn.map .scanned <$> scanLog uninit name toId

/-- What the call means for the queues: reply and queues, or an error without change. -/
def onQueues (logs : Logs) : LogOp → Except LogError (LogReply × Logs)
  | create name =>
    match logs name with
    | some _ => .error .logAlreadyExists
    | none => .ok (.done, update logs name (some .empty))
  | append name items =>
    if items = [] then .ok (.appended none, logs)
    else match logs name with
      | none => .error .logNotFound
      | some q => .ok (.appended (some ((q.enqueue items).tail, (q.enqueue items).pending.length)),
          update logs name (some (q.enqueue items)))
  | truncate name toId =>
    match logs name with
    | none => .error .logNotFound
    | some q =>
      if q.pending = [] then .ok (.truncated (min toId q.tail) 0, logs)
      else if toId < q.head then .error .invalidParameter
      else .ok (.truncated (min toId q.tail) (q.dequeue (min toId q.tail)).pending.length,
        update logs name (some (q.dequeue (min toId q.tail))))
  | remove name =>
    match logs name with
    | none => .error .logNotFound
    | some _ => .ok (.done, update logs name none)
  | scan name toId =>
    match logs name with
    | none => .error .logNotFound
    | some q =>
      if q.pending = [] then .ok (.scanned [], logs)
      else if toId < q.head then .error .invalidParameter
      else .ok (.scanned (q.pending.take (toId + 1 - q.head)), logs)

/-- Fewer than 2^64 items were appended since the log was created, those of the call included. -/
def InRange (logs : Logs) : LogOp → Prop
  | append name items => ∀ q, logs name = some q → q.next + items.length < u64
  | _ => True

end LogOp

/-! ## One call

The engine may refuse a request (`may`), and then the call reports it.  Otherwise the call does
to the table what `onQueues` does to the queues. -/

/-- What a call may return and leave behind, started at a table that represents `logs`. -/
def Does (may : Prop) (t : LogTable) (logs : Logs) (op : LogOp) (ret : LogReturn LogReply)
    (t' : LogTable) : Prop :=
  (may ∧ ret = .error .storageError) ∨
    match op.onQueues logs with
    | .error e => ret = .error e ∧ t' = t
    | .ok (reply, logs') => ret = .ok reply ∧ Represents t' logs'
        ∧ ∀ key, ¬ BelongsTo op.name key → t' key = t key

section Calls

variable {may : Prop} {t : LogTable} {logs : Logs} {name : Bytes}

lemma does_refused {op : LogOp} {t' : LogTable} (hmay : may) :
    Does may t logs op (.error .storageError) t' :=
  .inl ⟨hmay, rfl⟩

lemma does_error {op : LogOp} {e : LogError} (h : op.onQueues logs = .error e) :
    Does may t logs op (.error e) t := by
  right
  rw [h]
  exact ⟨rfl, rfl⟩

lemma does_ok {op : LogOp} {reply : LogReply} {logs' : Logs} {t' : LogTable}
    (h : op.onQueues logs = .ok (reply, logs')) (hrep : Represents t' logs')
    (hframe : ∀ key, ¬ BelongsTo op.name key → t' key = t key) :
    Does may t logs op (.ok reply) t' := by
  right
  rw [h]
  exact ⟨rfl, hrep, hframe⟩

lemma withMetadata_stored {α : Type} {body : LogMetadata → LogScript (LogReturn α)}
    {Q : LogReturn α → LogTable → Prop} {m : LogMetadata} (hm : m.Fits)
    (hstored : t (getMetadataKey name) = some (serializeMetadata m))
    (hrefused : may → Q (.error .storageError) t) (hbody : TripleIf may (· = t) (body m) Q) :
    TripleIf may (· = t) (withMetadata name body) Q := by
  refine TripleIf.of_read (fun hmay => .of_pure (hrefused hmay)) ?_
  rw [hstored]
  show TripleIf may (· = t) (body (deserializeMetadata (serializeMetadata m))) Q
  rw [deserialize_serializeMetadata hm]
  exact hbody

lemma withMetadata_triple (hrep : Represents t logs) {α : Type}
    {body : LogMetadata → LogScript (LogReturn α)} {Q : LogReturn α → LogTable → Prop}
    (hrefused : may → Q (.error .storageError) t)
    (hmissing : logs name = none → Q (.error .logNotFound) t)
    (hbody : ∀ q, logs name = some q → TripleIf may (· = t) (body q.metadata) Q) :
    TripleIf may (· = t) (withMetadata name body) Q := by
  have hstored := hrep.metadata name
  cases hq : logs name with
  | some q =>
    rw [hq] at hstored
    exact withMetadata_stored (LogQueue.metadata_fits (hrep.bounded name q hq)) hstored hrefused
      (hbody q hq)
  | none =>
    rw [hq] at hstored
    refine TripleIf.of_read (fun hmay => .of_pure (hrefused hmay)) ?_
    rw [hstored]
    exact .of_pure (hmissing hq)

variable {q : LogQueue}

lemma sequenceIds_eq (hq : q.next < u64) {last : Nat} (hlast : last ≤ q.tail) :
    sequenceIds q.head last = some (range' q.head (last + 1 - q.head)) := by
  have htail : q.tail = q.next - 1 := rfl
  have hu : 1 < u64 := by decide
  rw [sequenceIds, if_neg (by omega)]

lemma update_metadata_of_not_belongsTo (v : Option Bytes) {key : Bytes}
    (hkey : ¬ BelongsTo name key) : update t (getMetadataKey name) v key = t key :=
  update_of_ne (fun h => hkey (.inl h)) ..

lemma update_metadata_item (v : Option Bytes) (id : Nat) :
    update t (getMetadataKey name) v (getLogItemKey name id) = t (getLogItemKey name id) :=
  update_of_ne (getLogItemKey_ne_getMetadataKey name name id) ..

/-- A call that ends with the log's metadata, having touched only the log's items before. -/
lemma does_change {op : LogOp} {reply : LogReply} {t' : LogTable} {q' : Option LogQueue}
    (hspec : op.onQueues logs = .ok (reply, update logs op.name q')) (hrep : Represents t logs)
    (hframe : ∀ key, ¬ BelongsTo op.name key → t' key = t key)
    (hitems : ∀ id, t' (getLogItemKey op.name id)
      = (q'.bind fun q => q.item id).map serializeLogItem)
    (hbound : ∀ q, q' = some q → q.next < u64) :
    Does may t logs op (.ok reply) (update t' (getMetadataKey op.name)
      (q'.map fun q => serializeMetadata q.metadata)) := by
  have hframe' : ∀ key, ¬ BelongsTo op.name key → update t' (getMetadataKey op.name)
      (q'.map fun q => serializeMetadata q.metadata) key = t key :=
    fun key hkey => (update_metadata_of_not_belongsTo _ hkey).trans (hframe key hkey)
  refine does_ok hspec (hrep.change hframe' (update_self ..) (fun id => ?_) hbound) hframe'
  rw [update_metadata_item, hitems]

variable (uninit : LogItem)

lemma create_does (hrep : Represents t logs) :
    TripleIf may (· = t) ((create name).script uninit) (Does may t logs (.create name)) := by
  apply TripleIf.map
  refine TripleIf.of_read (fun hmay => .of_pure (does_refused hmay)) ?_
  rw [hrep.metadata]
  cases hq : logs name with
  | some q =>
    apply TripleIf.of_pure
    apply does_error
    rw [onQueues, hq]
  | none =>
    refine TripleIf.of_write (fun hmay => .of_pure (does_refused hmay)) ?_
    apply TripleIf.of_pure
    have hspec : (create name).onQueues logs
        = .ok (.done, Function.update logs name (some .empty)) := by
      rw [onQueues, hq]
    refine does_change hspec hrep (fun _ _ => rfl) (fun id => ?_) ?_
    · rw [LogOp.name, hrep.items, hq]
      exact (congrArg (Option.map serializeLogItem)
        (LogQueue.item_eq_none .empty (fun h => absurd h.2 (Nat.not_lt_zero id)))).symm
    · decide

lemma putAll_items (t : LogTable) (name : Bytes) (n : Nat) (items : List NewItem) (id : Nat) :
    Tx.putAll t ((numberFrom n items).map fun item =>
        (getLogItemKey name item.sequenceId, serializeLogItem item)) (getLogItemKey name id)
      = if n ≤ id ∧ id < n + items.length
        then ((numberFrom n items)[id - n]?).map serializeLogItem
        else t (getLogItemKey name id) := by
  induction items generalizing n t with
  | nil =>
    rw [if_neg (by rw [length_nil]; omega)]
    rfl
  | cons item rest ih =>
    rw [numberFrom, map_cons, Tx.putAll, foldl_cons, ← Tx.putAll, ih, length_cons]
    by_cases hn : id = n
    · -- the record written first is not written again
      rw [hn, if_neg (by omega), if_pos (by omega), update_self, Nat.sub_self]
      rfl
    · have hkey : getLogItemKey name id ≠ getLogItemKey name n :=
        fun h => hn (getLogItemKey_inj.mp h).2
      by_cases hin : n + 1 ≤ id ∧ id < n + 1 + rest.length
      · have hidx : id - n = id - (n + 1) + 1 := by omega
        rw [if_pos hin, if_pos (by omega), hidx, getElem?_cons_succ]
      · rw [if_neg hin, if_neg (by omega), update_of_ne hkey]

lemma metadata_enqueue (hnil : items ≠ []) (hlt : q.next + items.length < u64) :
    { q.metadata with
      totalItems := (q.metadata.totalItems + (items.map (·.val)).length) % u64
      tailItemSequenceId := ((numberFrom q.next items).getLast?.map (·.sequenceId)).getD
        q.metadata.tailItemSequenceId
      nextId := (q.metadata.nextId + (items.map (·.val)).length) % u64 }
      = (q.enqueue items).metadata := by
  have hsum := q.head_add_length
  have hpos : 0 < items.length := length_pos_iff.mpr hnil
  have hlast : (numberFrom q.next items).getLast?.map (·.sequenceId)
      = some (q.next + items.length - 1) := by
    rw [← getLast?_map, map_sequenceId_numberFrom, getLast?_range', if_neg (by omega)]
  have htotal : (q.pending.length + items.length) % u64 = (q.enqueue items).pending.length := by
    show _ = (q.pending ++ numberFrom q.next items).length
    rw [length_append, length_numberFrom, Nat.mod_eq_of_lt (by omega)]
  have hnext : (q.next + items.length) % u64 = q.next + items.length := Nat.mod_eq_of_lt hlt
  rw [hlast, length_map]
  show LogMetadata.mk ((q.pending.length + items.length) % u64) q.head (q.next + items.length - 1)
    ((q.next + items.length) % u64) = _
  rw [htotal, hnext, ← q.head_enqueue items]
  rfl

/-- The new numbers are free, so the records written are those of the longer queue. -/
lemma append_does (items : List NewItem) (hrep : Represents t logs)
    (hrange : (append name items).InRange logs) :
    TripleIf may (· = t) ((append name items).script uninit)
      (Does may t logs (.append name items)) := by
  apply TripleIf.map
  unfold appendLog
  by_cases hnil : items = []
  · subst hnil
    apply TripleIf.of_pure
    exact does_ok rfl hrep (fun _ _ => rfl)
  rw [if_neg (by rw [map_eq_nil_iff]; exact hnil)]
  refine withMetadata_triple hrep (fun hmay => does_refused hmay)
    (fun hq => does_error (by rw [onQueues, if_neg hnil, hq])) fun q hq => ?_
  have hlt : q.next + items.length < u64 := hrange q hq
  have hnum : assignSequenceIds q.metadata.nextId (items.map (·.val)) = numberFrom q.next items :=
    assignSequenceIds_eq (Nat.le_of_lt hlt)
  rw [hnum]
  refine TripleIf.of_writeAll (fun hmay _ => .of_pure (does_refused hmay)) ?_
  rw [metadata_enqueue hnil hlt]
  refine TripleIf.of_write (fun hmay => .of_pure (does_refused hmay)) ?_
  apply TripleIf.of_pure
  have hreply : LogReturn.map LogReply.appended
      (.ok (some (((q.enqueue items).metadata.nextId + u64 - 1) % u64,
        (q.enqueue items).metadata.totalItems)))
      = .ok (.appended (some ((q.enqueue items).tail, (q.enqueue items).pending.length))) := by
    have hpos : 0 < items.length := length_pos_iff.mpr hnil
    have hmod : (q.next + items.length + u64 - 1) % u64 = q.next + items.length - 1 := by
      rw [show q.next + items.length + u64 - 1 = q.next + items.length - 1 + u64 by omega,
        Nat.add_mod_right, Nat.mod_eq_of_lt (by omega)]
    show LogReturn.ok (LogReply.appended (some ((q.next + items.length + u64 - 1) % u64, _))) = _
    rw [hmod]
    rfl
  rw [hreply]
  have hspec : (append name items).onQueues logs
      = .ok (.appended (some ((q.enqueue items).tail, (q.enqueue items).pending.length)),
          Function.update logs name (some (q.enqueue items))) := by
    rw [onQueues, if_neg hnil, hq]
  refine does_change hspec hrep (fun key hkey => ?_) (fun id => ?_) ?_
  · apply Tx.putAll_of_notMem
    rw [List.map_map]
    intro hmem
    obtain ⟨item, -, hitem⟩ := mem_map.mp hmem
    exact hkey (.inr ⟨item.sequenceId, hitem.symm⟩)
  · have hrecord := putAll_items t name q.next items id
    rw [LogOp.name, hrecord, hrep.items, hq, bind_some, bind_some, q.item_enqueue]
    by_cases hnext : q.next ≤ id
    · by_cases hid : id < q.next + items.length
      · rw [if_pos ⟨hnext, hid⟩, if_pos hnext]
      · rw [if_neg (fun h => hid h.2), if_pos hnext, q.item_eq_none (fun h => by omega),
          List.getElem?_eq_none (by rw [length_numberFrom]; omega)]
    · rw [if_neg (fun h => hnext h.1), if_neg hnext]
  · rintro q' ⟨⟩
    exact hlt

lemma dropAll_item (t : LogTable) (name : Bytes) (ids : List Nat) (id : Nat) :
    Tx.dropAll t (ids.map (getLogItemKey name)) (getLogItemKey name id)
      = if id ∈ ids then none else t (getLogItemKey name id) := by
  by_cases hid : id ∈ ids
  · rw [if_pos hid]
    exact Tx.dropAll_of_mem t (mem_map_of_mem hid)
  · rw [if_neg hid]
    apply Tx.dropAll_of_notMem
    intro hmem
    obtain ⟨id', hid', hkey⟩ := mem_map.mp hmem
    rw [(getLogItemKey_inj.mp hkey).2] at hid'
    exact hid hid'

lemma dropAll_of_not_belongsTo (t : LogTable) (ids : List Nat) {key : Bytes}
    (hkey : ¬ BelongsTo name key) : Tx.dropAll t (ids.map (getLogItemKey name)) key = t key := by
  apply Tx.dropAll_of_notMem
  intro hmem
  obtain ⟨id, -, hid⟩ := mem_map.mp hmem
  exact hkey (.inr ⟨id, hid.symm⟩)

lemma remove_does (hrep : Represents t logs) :
    TripleIf may (· = t) ((remove name).script uninit) (Does may t logs (.remove name)) := by
  apply TripleIf.map
  refine withMetadata_triple hrep (fun hmay => does_refused hmay)
    (fun hq => does_error (by rw [onQueues, hq])) fun q hq => ?_
  have hids : sequenceIds q.metadata.headItemSequenceId q.metadata.tailItemSequenceId
      = some (List.range' q.head (q.tail + 1 - q.head)) :=
    sequenceIds_eq (hrep.bounded name q hq) le_rfl
  rw [hids]
  refine TripleIf.of_deleteAll (fun hmay _ => .of_pure (does_refused hmay)) ?_
  refine TripleIf.of_delete (fun hmay => .of_pure (does_refused hmay)) ?_
  apply TripleIf.of_pure
  have hspec : (remove name).onQueues logs = .ok (.done, Function.update logs name none) := by
    rw [onQueues, hq]
  refine does_change hspec hrep (fun key => dropAll_of_not_belongsTo t _) (fun id => ?_) nofun
  rw [LogOp.name, dropAll_item, hrep.items, hq, bind_some]
  have htail : q.tail = q.next - 1 := rfl
  by_cases hid : id ∈ List.range' q.head (q.tail + 1 - q.head)
  · rw [if_pos hid]
    rfl
  · -- the loop passes every number of the queue, and one more when nothing was ever appended
    rw [mem_range'_1] at hid
    rw [if_neg (by rw [mem_range'_1]; exact hid), q.item_eq_none (by omega)]
    rfl

lemma metadata_dequeue (hlt : q.next < u64) {last : Nat} (hle : q.head ≤ last)
    (hlast : last < q.next) :
    { q.metadata with
      totalItems := (q.metadata.totalItems + u64 - (last - q.metadata.headItemSequenceId + 1)) % u64
      headItemSequenceId := (last + 1) % u64 }
      = (q.dequeue last).metadata := by
  have hsum := q.head_add_length
  have htotal : (q.pending.length + u64 - (last - q.head + 1)) % u64
      = (q.dequeue last).pending.length := by
    have hsplit : q.pending.length + u64 - (last - q.head + 1)
        = q.pending.length - (last + 1 - q.head) + u64 := by omega
    rw [hsplit, Nat.add_mod_right, Nat.mod_eq_of_lt (by omega), q.length_dequeue]
  show LogMetadata.mk ((q.pending.length + u64 - (last - q.head + 1)) % u64) ((last + 1) % u64)
    q.tail q.next = _
  rw [htotal, Nat.mod_eq_of_lt (by omega), ← q.head_dequeue hle hlast]
  rfl

lemma clamp_eq (q : LogQueue) (toId : Nat) :
    (if q.metadata.tailItemSequenceId < toId then q.metadata.tailItemSequenceId else toId)
      = min toId q.tail := by
  show (if q.tail < toId then q.tail else toId) = _
  by_cases h : q.tail < toId
  · rw [if_pos h]
    omega
  · rw [if_neg h]
    omega

/-- With the bound clamped to the newest item the loop deletes the records of a prefix of the queue.
-/
lemma truncate_does (toId : Nat) (hrep : Represents t logs) :
    TripleIf may (· = t) ((truncate name toId).script uninit)
      (Does may t logs (.truncate name toId)) := by
  apply TripleIf.map
  refine withMetadata_triple hrep (fun hmay => does_refused hmay)
    (fun hq => does_error (by rw [onQueues, hq])) fun q hq => ?_
  have hlt := hrep.bounded name q hq
  have hsum := q.head_add_length
  have htail : q.tail = q.next - 1 := rfl
  have hspec := onQueues.eq_3 logs name toId
  rw [hq] at hspec
  rw [clamp_eq]
  dsimp only at hspec ⊢
  by_cases hnil : q.pending = []
  · rw [if_pos (show q.metadata.totalItems = 0 by rw [LogQueue.metadata, hnil]; rfl)]
    apply TripleIf.of_pure
    exact does_ok (hspec.trans (if_pos hnil)) hrep (fun _ _ => rfl)
  rw [if_neg hnil] at hspec
  have hpos : 0 < q.pending.length := length_pos_iff.mpr hnil
  rw [if_neg (show ¬ q.metadata.totalItems = 0 from Nat.ne_of_gt hpos)]
  by_cases hhead : toId < q.head
  · rw [if_pos (show min toId q.tail < q.metadata.headItemSequenceId by
      show min toId q.tail < q.head
      omega)]
    apply TripleIf.of_pure
    exact does_error (hspec.trans (if_pos hhead))
  rw [if_neg hhead] at hspec
  -- from here on only the clamped bound matters, and it is the number of an item
  obtain ⟨last, hlast⟩ : ∃ last, last = min toId q.tail := ⟨_, rfl⟩
  have hle : q.head ≤ last := by omega
  have hlastlt : last < q.next := by omega
  rw [← hlast] at hspec ⊢
  rw [if_neg (show ¬ last < q.metadata.headItemSequenceId from Nat.not_lt.mpr hle)]
  have hids : sequenceIds q.metadata.headItemSequenceId last
      = some (List.range' q.head (last + 1 - q.head)) :=
    sequenceIds_eq hlt (by omega)
  rw [hids]
  refine TripleIf.of_deleteAll (fun hmay _ => .of_pure (does_refused hmay)) ?_
  have hmeta := metadata_dequeue hlt hle hlastlt
  rw [hmeta, if_neg (show ¬ last = u64 - 1 by omega)]
  refine TripleIf.of_write (fun hmay => .of_pure (does_refused hmay)) ?_
  apply TripleIf.of_pure
  rw [show (q.metadata.totalItems + u64 - (last - q.metadata.headItemSequenceId + 1)) % u64
    = (q.dequeue last).pending.length from congrArg LogMetadata.totalItems hmeta]
  refine does_change hspec hrep (fun key => dropAll_of_not_belongsTo t _) (fun id => ?_) ?_
  · rw [LogOp.name, dropAll_item, hrep.items, hq, bind_some, bind_some,
      q.item_dequeue hle hlastlt]
    by_cases hid : id ≤ last
    · by_cases hhid : q.head ≤ id
      · rw [if_pos (by rw [mem_range'_1]; omega), if_pos hid]
        rfl
      · rw [if_neg (by rw [mem_range'_1]; omega), if_pos hid, q.item_eq_none (fun h => hhid h.1)]
    · rw [if_neg (by rw [mem_range'_1]; omega), if_neg hid]
  · rintro q' ⟨⟩
    exact hlt

lemma map_deserialize_serialize {items : List LogItem}
    (hitems : ∀ item ∈ items, item.Fits ∧ item.sequenceId < u64) :
    (items.map fun item => some (serializeLogItem item)).map
      (fun record => deserializeLogItem uninit (record.getD [])) = items := by
  induction items with
  | nil => rfl
  | cons item rest ih =>
    obtain ⟨hfits, hseq⟩ := hitems item mem_cons_self
    rw [map_cons, map_cons, getD_some, deserialize_serializeLogItem uninit hfits hseq,
      ih fun other hother => hitems other (mem_cons_of_mem item hother)]

lemma scanned_items (hrep : Represents t logs) (hq : logs name = some q)
    {n : Nat} (hn : n ≤ q.pending.length) :
    (((range' q.head n).map (getLogItemKey name)).map t).map
        (fun record => deserializeLogItem uninit (record.getD []))
      = q.pending.take n := by
  have hlt := hrep.bounded name q hq
  have hsum := q.head_add_length
  have hrecords : ((range' q.head n).map (getLogItemKey name)).map t
      = (q.pending.take n).map fun item => some (serializeLogItem item) := by
    have hread : ((range' q.head n).map (getLogItemKey name)).map t
        = ((range' q.head n).map q.item).map (Option.map serializeLogItem) := by
      rw [List.map_map, List.map_map]
      apply map_congr_left
      intro id _
      show t (getLogItemKey name id) = (q.item id).map serializeLogItem
      rw [hrep.items, hq, bind_some]
    rw [hread, q.map_item_range' hn, List.map_map]
    rfl
  rw [hrecords]
  apply map_deserialize_serialize uninit
  intro item hitem
  have hmem : item ∈ q.pending := mem_of_mem_take hitem
  refine ⟨q.fits item hmem, ?_⟩
  obtain ⟨i, hi, hget⟩ := mem_iff_getElem.mp hmem
  rw [← hget, q.sequenceId_getElem hi]
  omega

/-- Every number between head and bound has a record, which reads back as its item. -/
lemma scan_does (toId : Nat) (hrep : Represents t logs) :
    TripleIf may (· = t) ((scan name toId).script uninit)
      (Does may t logs (.scan name toId)) := by
  apply TripleIf.map
  refine withMetadata_triple hrep (fun hmay => does_refused hmay)
    (fun hq => does_error (by rw [onQueues, hq])) fun q hq => ?_
  have hlt := hrep.bounded name q hq
  have hsum := q.head_add_length
  have htail : q.tail = q.next - 1 := rfl
  have hspec := onQueues.eq_5 logs name toId
  rw [hq] at hspec
  rw [clamp_eq]
  dsimp only at hspec ⊢
  by_cases hnil : q.pending = []
  · rw [if_pos (show q.metadata.totalItems = 0 by rw [LogQueue.metadata, hnil]; rfl)]
    apply TripleIf.of_pure
    exact does_ok (hspec.trans (if_pos hnil)) hrep (fun _ _ => rfl)
  rw [if_neg hnil] at hspec
  have hpos : 0 < q.pending.length := length_pos_iff.mpr hnil
  rw [if_neg (show ¬ q.metadata.totalItems = 0 from Nat.ne_of_gt hpos)]
  by_cases hhead : toId < q.head
  · rw [if_pos (show toId < q.metadata.headItemSequenceId from hhead)]
    apply TripleIf.of_pure
    exact does_error (hspec.trans (if_pos hhead))
  rw [if_neg (show ¬ toId < q.metadata.headItemSequenceId from hhead)]
  rw [if_neg hhead] at hspec
  have hids : sequenceIds q.metadata.headItemSequenceId (min toId q.tail)
      = some (List.range' q.head (min toId q.tail + 1 - q.head)) :=
    sequenceIds_eq hlt (by omega)
  rw [hids]
  refine TripleIf.of_readAll (fun hmay => .of_pure (does_refused hmay)) ?_
  apply TripleIf.of_pure
  -- clamping the bound to the newest item loses nothing
  have htake : q.pending.take (min toId q.tail + 1 - q.head)
      = q.pending.take (toId + 1 - q.head) := by
    by_cases h : toId ≤ q.tail
    · rw [Nat.min_eq_left h]
    · rw [take_of_length_le (by omega), take_of_length_le (by omega)]
  rw [scanned_items uninit hrep hq (by omega), htake]
  exact does_ok hspec hrep (fun _ _ => rfl)

/-- **One call**: from a table that represents queues, whichever requests the engine refuses. -/
theorem LogOp.script_does (op : LogOp) (hrep : Represents t logs) (hrange : op.InRange logs) :
    TripleIf may (· = t) (op.script uninit) (Does may t logs op) := by
  cases op with
  | create name => exact create_does uninit hrep
  | append name items => exact append_does uninit items hrep hrange
  | truncate name toId => exact truncate_does uninit toId hrep
  | remove name => exact remove_does uninit hrep
  | scan name toId => exact scan_does uninit toId hrep

end Calls

/-! ## Transactions

A caller opens a transaction, makes its calls, aborts at the first that fails and commits
otherwise. -/

namespace LogOp

/-- Calls one after another, up to the first error. -/
def scriptAll (uninit : LogItem) : List LogOp → LogScript (LogReturn (List LogReply))
  | [] => pure (.ok [])
  | op :: rest => do
    match ← op.script uninit with
    | .ok reply => return (← scriptAll uninit rest).map (reply :: ·)
    | .error e => return .error e
    | .endless => return .endless

/-- The calls of a transaction, and how it then ends. -/
def transaction (uninit : LogItem) (ops : List LogOp) :
    LogScript (TxEnd (LogReturn (List LogReply))) := do
  match ← scriptAll uninit ops with
  | .ok replies => return .commit (.ok replies) (.error .storageError)
  | .error e => return .abort (.error e)
  | .endless => return .abort .endless

/-- What the calls of a transaction mean for the queues. -/
def onQueuesAll (logs : Logs) : List LogOp → Except LogError (List LogReply × Logs)
  | [] => .ok ([], logs)
  | op :: rest =>
    match op.onQueues logs with
    | .error e => .error e
    | .ok (reply, logs') =>
      match onQueuesAll logs' rest with
      | .error e => .error e
      | .ok (replies, logs'') => .ok (reply :: replies, logs'')

/-- Each call of a transaction meets `InRange` when it is made. -/
def InRangeAll (logs : Logs) : List LogOp → Prop
  | [] => True
  | op :: rest => op.InRange logs
      ∧ ∀ reply logs', op.onQueues logs = .ok (reply, logs') → InRangeAll logs' rest

end LogOp

/-- What a transaction may return and leave behind: an error that leaves the table as it was, or
the replies of all its calls, each carried out on the queues, and every record that belongs to no
log of the calls left alone. -/
def TxDoes (may : Prop) (t : LogTable) (logs : Logs) (ops : List LogOp)
    (ret : LogReturn (List LogReply)) (t' : LogTable) : Prop :=
  (may ∧ ret = .error .storageError ∧ t' = t) ∨
    match onQueuesAll logs ops with
    | .error e => ret = .error e ∧ t' = t
    | .ok (replies, logs') => ret = .ok replies ∧ Represents t' logs'
        ∧ ∀ key, (∀ op ∈ ops, ¬ BelongsTo op.name key) → t' key = t key

/-- The same before the transaction ends; what an error leaves behind is aborted then. -/
def AllDone (may : Prop) (t : LogTable) (logs : Logs) (ops : List LogOp)
    (ret : LogReturn (List LogReply)) (t' : LogTable) : Prop :=
  (may ∧ ret = .error .storageError) ∨
    match onQueuesAll logs ops with
    | .error e => ret = .error e
    | .ok (replies, logs') => ret = .ok replies ∧ Represents t' logs'
        ∧ ∀ key, (∀ op ∈ ops, ¬ BelongsTo op.name key) → t' key = t key

section Transactions

variable {may : Prop} (uninit : LogItem)

lemma LogOp.scriptAll_done (ops : List LogOp) : ∀ {t : LogTable} {logs : Logs},
    Represents t logs → LogOp.InRangeAll logs ops →
      TripleIf may (· = t) (scriptAll uninit ops) (AllDone may t logs ops) := by
  induction ops with
  | nil =>
    intro t logs hrep _
    exact .of_pure (.inr ⟨rfl, hrep, fun _ _ => rfl⟩)
  | cons op rest ih =>
    intro t logs hrep hrange
    apply TripleIf.bind (op.script_does uninit hrep hrange.1)
    rintro ret t' (⟨hmay, rfl⟩ | hdoes)
    · exact .of_pure (.inl ⟨hmay, rfl⟩)
    cases hspec : op.onQueues logs with
    | error e =>
      rw [hspec] at hdoes
      obtain ⟨rfl, -⟩ := hdoes
      apply TripleIf.of_pure
      right
      rw [onQueuesAll, hspec]
    | ok r =>
      obtain ⟨reply, logs'⟩ := r
      rw [hspec] at hdoes
      obtain ⟨rfl, hrep', hframe⟩ := hdoes
      apply TripleIf.bind (ih hrep' (hrange.2 reply logs' hspec))
      rintro ret t'' (⟨hmay, rfl⟩ | hdone)
      · exact .of_pure (.inl ⟨hmay, rfl⟩)
      apply TripleIf.of_pure
      right
      rw [onQueuesAll, hspec]
      dsimp only
      cases hrest : onQueuesAll logs' rest with
      | error e =>
        rw [hrest] at hdone
        rw [hdone]
        rfl
      | ok r =>
        rw [hrest] at hdone
        obtain ⟨rfl, hrep'', hframe'⟩ := hdone
        refine ⟨rfl, hrep'', fun key hkey => ?_⟩
        rw [hframe' key fun o ho => hkey o (mem_cons_of_mem op ho),
          hframe key (hkey op mem_cons_self)]

/-- **One transaction** on queues, whichever requests are refused; with none, only the queues'
errors. -/
theorem runTx_does {t : LogTable} {logs : Logs} {ops : List LogOp} (hrep : Represents t logs)
    (hrange : LogOp.InRangeAll logs ops) {outcomes : List Bool} (hgrants : Tx.Grants may outcomes) :
    TxDoes may t logs ops
      (Tx.runTx (.error .storageError) (transaction uninit ops) t outcomes).1
      (Tx.runTx (.error .storageError) (transaction uninit ops) t outcomes).2 := by
  refine Tx.runTx_settlesIf (R := TxDoes may t logs ops) ?_
    (fun hmay => .inl ⟨hmay, rfl, rfl⟩) hgrants
  apply TripleIf.bind (scriptAll_done uninit ops hrep hrange)
  rintro ret t' (⟨hmay, rfl⟩ | hdone)
  · exact .of_pure (.inl ⟨hmay, rfl, rfl⟩)
  cases hspec : onQueuesAll logs ops with
  | error e =>
    rw [hspec] at hdone
    subst hdone
    apply TripleIf.of_pure
    right
    rw [hspec]
    exact ⟨rfl, rfl⟩
  | ok r =>
    rw [hspec] at hdone
    obtain ⟨rfl, hrep', hframe⟩ := hdone
    apply TripleIf.of_pure
    constructor
    · right
      rw [hspec]
      exact ⟨rfl, hrep', hframe⟩
    · intro hmay
      exact .inl ⟨hmay, rfl, rfl⟩

end Transactions

end EloqKV.Vector
