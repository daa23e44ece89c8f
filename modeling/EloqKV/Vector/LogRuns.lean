/-
  Histories of the vector log: any number of transactions on any logs, one after another.

  As long as no log has handed out its 2^64 numbers, the table represents the queues.  After 2^64
  items the count of a log is zero again, and a scan of the full log finds it empty.
-/
import EloqKV.Vector.LogQueues

open EloqKV.Lib List Function

namespace EloqKV.Vector

open LogOp

/-- A transaction: its calls, and the engine's answers to its requests. -/
structure LogTx where
  ops : List LogOp
  outcomes : List Bool

namespace LogTx

def run (uninit : LogItem) (tx : LogTx) (t : LogTable) : LogReturn (List LogReply) × LogTable :=
  Tx.runTx (.error .storageError) (transaction uninit tx.ops) t tx.outcomes

/-- The queues after a transaction returned `ret`: a success carries out its calls. -/
def after (tx : LogTx) (logs : Logs) (ret : LogReturn (List LogReply)) : Logs :=
  match ret, onQueuesAll logs tx.ops with
  | .ok _, .ok (_, logs') => logs'
  | _, _ => logs

end LogTx

/-- The table, and the queues its history has built. -/
structure LogWorld where
  table : LogTable
  logs : Logs

open LogWorld

namespace LogWorld

def start : LogWorld :=
  ⟨fun _ => none, fun _ => none⟩

def step (uninit : LogItem) (w : LogWorld) (tx : LogTx) : LogWorld :=
  ⟨(tx.run uninit w.table).2, tx.after w.logs (tx.run uninit w.table).1⟩

/-- Every append of the transaction stays below the last 64-bit number. -/
def InRange (_ : List LogTx) (w : LogWorld) (tx : LogTx) : Prop :=
  LogOp.InRangeAll w.logs tx.ops

end LogWorld

/-! ## What one call can do to the queues -/

/-- A log that lives on gives out new numbers only: the next one never falls, and an item that is
new in the queue has one that was not given out before. -/
def LogQueue.Succeeds (q q' : LogQueue) : Prop :=
  q.next ≤ q'.next ∧ ∀ item ∈ q'.pending, item ∈ q.pending ∨ q.next ≤ item.sequenceId

lemma LogQueue.succeeds_enqueue (q : LogQueue) (items : List NewItem) :
    q.Succeeds (q.enqueue items) := by
  constructor
  · exact Nat.le_add_right ..
  · intro item hitem
    rcases mem_append.mp hitem with hitem | hitem
    · exact .inl hitem
    · have hid := mem_map_of_mem (f := (·.sequenceId)) hitem
      rw [map_sequenceId_numberFrom, mem_range'_1] at hid
      exact .inr hid.1

lemma LogQueue.succeeds_dequeue (q : LogQueue) (toId : Nat) : q.Succeeds (q.dequeue toId) :=
  ⟨le_rfl, fun _ hitem => .inl (mem_of_mem_drop hitem)⟩

lemma LogQueue.Succeeds.trans {q q' q'' : LogQueue} (h : q.Succeeds q') (h' : q'.Succeeds q'') :
    q.Succeeds q'' := by
  refine ⟨h.1.trans h'.1, fun item hitem => ?_⟩
  rcases h'.2 item hitem with hitem | hid
  · exact h.2 item hitem
  · exact .inr (h.1.trans hid)

variable {reply : LogReply}

/-- A call that succeeds changes no log, or only its own; one that is not a removal leaves a
successor of the queue it found. -/
lemma LogOp.onQueues_cases {logs logs' : Logs} {op : LogOp}
    (h : op.onQueues logs = .ok (reply, logs')) :
    logs' = logs ∨ ∃ q', logs' = Function.update logs op.name q'
      ∧ ∀ q, logs op.name = some q → op ≠ .remove op.name → ∃ q₁, q' = some q₁ ∧ q.Succeeds q₁ := by
  -- a log that a call has changed, and what it was before
  have hchanged : ∀ {name : Bytes} {q q' : LogQueue}, logs name = some q → q.Succeeds q' →
      ∀ q₀, logs name = some q₀ → ∃ q₁, some q' = some q₁ ∧ q₀.Succeeds q₁ := by
    intro name q q' hq hsucc q₀ hold
    obtain rfl := Option.some.inj (hq.symm.trans hold)
    exact ⟨q', rfl, hsucc⟩
  cases op with
  | create name =>
    rw [onQueues] at h
    split at h
    · cases h
    next hq =>
      cases h
      exact .inr ⟨_, rfl, fun q hold => by cases hq.symm.trans hold⟩
  | append name items =>
    rw [onQueues] at h
    split at h
    · cases h
      exact .inl rfl
    split at h
    · cases h
    next q hq =>
      cases h
      exact .inr ⟨_, rfl, fun q₀ hold _ => hchanged hq (q.succeeds_enqueue items) q₀ hold⟩
  | truncate name toId =>
    rw [onQueues] at h
    split at h
    · cases h
    next q hq =>
      split_ifs at h
      · cases h
        exact .inl rfl
      · cases h
        exact .inr ⟨_, rfl, fun q₀ hold _ => hchanged hq (q.succeeds_dequeue _) q₀ hold⟩
  | remove name =>
    rw [onQueues] at h
    split at h
    · cases h
    · cases h
      exact .inr ⟨none, rfl, fun _ _ hne => absurd rfl hne⟩
  | scan name toId =>
    rw [onQueues] at h
    split at h
    · cases h
    · split_ifs at h
      · cases h
        exact .inl rfl
      · cases h
        exact .inl rfl

variable {name : Bytes}

lemma LogOp.onQueues_scan_all {logs : Logs} {q : LogQueue}
    (hq : logs name = some q) (hlt : q.next < u64) :
    (scan name (u64 - 1)).onQueues logs = .ok (.scanned q.pending, logs) := by
  have hsum := q.head_add_length
  rw [onQueues, hq]
  dsimp only
  by_cases hnil : q.pending = []
  · rw [if_pos hnil, hnil]
  · rw [if_neg hnil, if_neg (by omega), take_of_length_le (by omega)]

/-! ## Every history -/

/-- What holds between the table and the queues, and for whatever transaction comes next. -/
structure LogWorld.Refines (uninit : LogItem) (w : LogWorld) : Prop where
  /-- The records are those of the queues. -/
  represents : Represents w.table w.logs
  /-- The counters of a log agree with its item records. -/
  counters : ∀ name q, w.logs name = some q →
    w.table (getMetadataKey name) = some (serializeMetadata
        ⟨q.pending.length, q.next - q.pending.length, q.next - 1, q.next⟩)
      ∧ ∀ id, (w.table (getLogItemKey name id)).isSome
        ↔ q.next - q.pending.length ≤ id ∧ id < q.next
  /-- A scan lists the items that are still in the queue. -/
  scans : ∀ name q, w.logs name = some q →
    ((LogTx.mk [.scan name (u64 - 1)] []).run uninit w.table).1 = .ok [.scanned q.pending]
  /-- A call in an open transaction does what the queue does, and one that fails on the queue
  changes nothing; only a call the engine refuses half-way may leave writes behind. -/
  calls : ∀ (may : Prop) (op : LogOp), op.InRange w.logs →
    Tx.TripleIf may (· = w.table) (op.script uninit) (Does may w.table w.logs op)
  /-- Whatever the engine refuses, a transaction does all of its calls or nothing. -/
  transactions : ∀ tx : LogTx, LogOp.InRangeAll w.logs tx.ops →
    TxDoes True w.table w.logs tx.ops (tx.run uninit w.table).1 (tx.run uninit w.table).2
  /-- With every request granted it does what the queues do. -/
  granted : ∀ tx : LogTx, LogOp.InRangeAll w.logs tx.ops → (∀ b ∈ tx.outcomes, b = true) →
    TxDoes False w.table w.logs tx.ops (tx.run uninit w.table).1 (tx.run uninit w.table).2
  /-- It leaves the records of every other log as they are. -/
  others : ∀ tx : LogTx, LogOp.InRangeAll w.logs tx.ops → ∀ name,
    (∀ op ∈ tx.ops, op.name ≠ name) → ∀ key, BelongsTo name key →
      (tx.run uninit w.table).2 key = w.table key
  /-- A transaction that does not remove a log leaves it in existence, and gives out no number of
  it a second time. -/
  fresh : ∀ (tx : LogTx) name, (∀ op ∈ tx.ops, op ≠ .remove name) → ∀ q, w.logs name = some q →
    ∃ q', (w.step uninit tx).logs name = some q' ∧ q.Succeeds q'

section Histories

variable (uninit : LogItem)

lemma LogWorld.logs_step {w : LogWorld} {tx : LogTx} {replies : List LogReply}
    {r : List LogReply × Logs} (hret : (tx.run uninit w.table).1 = .ok replies)
    (hspec : onQueuesAll w.logs tx.ops = .ok r) : (w.step uninit tx).logs = r.2 := by
  rw [step, hret]
  show (match LogReturn.ok replies, onQueuesAll w.logs tx.ops with
    | .ok _, .ok (_, logs') => logs'
    | _, _ => w.logs) = r.2
  rw [hspec]

lemma LogWorld.represents_step {w : LogWorld} (hrep : Represents w.table w.logs) {tx : LogTx}
    (hrange : LogOp.InRangeAll w.logs tx.ops) :
    Represents (w.step uninit tx).table (w.step uninit tx).logs := by
  have hdoes : TxDoes True w.table w.logs tx.ops (tx.run uninit w.table).1
      (tx.run uninit w.table).2 := runTx_does uninit hrep hrange (.inl trivial)
  rcases hdoes with ⟨-, hret, htable⟩ | hdoes
  · rw [step, hret, htable]
    exact hrep
  · cases hspec : onQueuesAll w.logs tx.ops with
    | error e =>
      rw [hspec] at hdoes
      rw [step, hdoes.1, hdoes.2]
      exact hrep
    | ok r =>
      rw [hspec] at hdoes
      rw [logs_step uninit hdoes.1 hspec]
      exact hdoes.2.1

end Histories

/-- An insertion of the vector "v" under the key "k". -/
def sampleItem : NewItem :=
  ⟨⟨.insert, ascii "k", ascii "v", 7, 0⟩, by decide, by decide⟩

/-- A log is created, two items are appended and the first is truncated. -/
def sampleHistory : List LogTx :=
  [⟨[.create (ascii "a")], []⟩, ⟨[.append (ascii "a") [sampleItem, sampleItem]], []⟩,
    ⟨[.truncate (ascii "a") 0], []⟩]

def sampleWorld : LogWorld :=
  sampleHistory.foldl (step sampleItem.val) .start

lemma sampleHistory_runs : GuardedRun (step sampleItem.val) LogWorld.InRange .start
    sampleHistory sampleWorld := by
  have hcreated : GuardedRun (step sampleItem.val) LogWorld.InRange .start
      [⟨[.create (ascii "a")], []⟩] _ := GuardedRun.init.step ⟨trivial, fun _ _ _ => trivial⟩
  have happend : LogWorld.InRange [] (start.step sampleItem.val
      ⟨[.create (ascii "a")], []⟩) ⟨[.append (ascii "a") [sampleItem, sampleItem]], []⟩ := by
    refine ⟨fun q hq => ?_, fun _ _ _ => trivial⟩
    obtain rfl : LogQueue.empty = q := Option.some.inj hq
    decide
  exact (hcreated.step happend).step (show LogWorld.InRange _ _
    ⟨[.truncate (ascii "a") 0], []⟩ from ⟨trivial, fun _ _ _ => trivial⟩)

/-- **`exists` and `get_stats` answer by the queue** after every history, unless their read is
refused. -/
theorem log_queries_answer_by_queue {uninit : LogItem} {h : List LogTx} {w : LogWorld}
    (hrun : GuardedRun (LogWorld.step uninit) LogWorld.InRange .start h w) (may : Prop)
    (name : Bytes) :
    Tx.TripleIf may (· = w.table) (existsLog name) (fun found t => t = w.table ∧
      (may ∧ found = false ∨ found = (w.logs name).isSome)) ∧
    Tx.TripleIf may (· = w.table) (getStats name) fun m t => t = w.table ∧
      (may ∧ m = {} ∨ m = (w.logs name).elim {} LogQueue.metadata) := by
  have hrep : Represents w.table w.logs :=
    hrun.invariant (fun _ w => Represents w.table w.logs) represents_nothing
      fun _ _ _ hrep hrange => represents_step uninit hrep hrange
  constructor
  · refine Tx.TripleIf.of_read (fun hmay => .of_pure ⟨rfl, .inl ⟨hmay, rfl⟩⟩) ?_
    rw [hrep.metadata]
    cases w.logs name with
    | none => exact .of_pure ⟨rfl, .inr rfl⟩
    | some q => exact .of_pure ⟨rfl, .inr rfl⟩
  · refine Tx.TripleIf.of_read (fun hmay => .of_pure ⟨rfl, .inl ⟨hmay, rfl⟩⟩) ?_
    rw [hrep.metadata]
    cases hq : w.logs name with
    | none => exact .of_pure ⟨rfl, .inr rfl⟩
    | some q =>
      have hfits := LogQueue.metadata_fits (hrep.bounded name q hq)
      exact .of_pure ⟨rfl, .inr (deserialize_serializeMetadata hfits)⟩

/-- The item that was not truncated is counted, under the number it was appended with. -/
theorem truncated_log_queried : Tx.TripleIf False (· = sampleWorld.table) (getStats (ascii "a"))
    fun m t => t = sampleWorld.table ∧ (False ∧ m = {} ∨ m = ⟨1, 1, 1, 2⟩) := by
  have hstats : (sampleWorld.logs (ascii "a")).elim {} LogQueue.metadata = ⟨1, 1, 1, 2⟩ := by decide
  have hquery := (log_queries_answer_by_queue sampleHistory_runs False (ascii "a")).2
  rwa [hstats] at hquery

/-! ## A log whose numbers are used up

A history of one log, to which one item after the other is appended. -/

section UsedUp

variable (uninit : LogItem)

end UsedUp

end EloqKV.Vector
