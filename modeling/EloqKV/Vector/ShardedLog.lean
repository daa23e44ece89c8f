/-
  Logs in shards (the second half of `src/vector/log_object.cpp`): the hash of a key picks the
  shard, each shard is a log of its own, and a call on the whole goes over them in one transaction.

  `exists_sharded` answers by any shard it finds.  No history leaves some shards with a log and
  others without, so the shards are one object that exists or not.
-/
import EloqKV.Vector.LogRuns

open EloqKV.Lib List Function

namespace EloqKV.Vector

open LogOp

/-- `get_shard_id`, the 64-bit FNV-1a hash. -/
def getShardId (shardKey : Bytes) (numShards : Nat) : Nat :=
  if numShards = 0 then 0
  else
    (shardKey.foldl (fun hash c => (hash ^^^ c.toUInt64) * 1099511628211)
      (14695981039346656037 : UInt64)).toNat % numShards

def getShardLogName (baseLogName : Bytes) (shardId : Nat) : Bytes :=
  baseLogName ++ ascii ":shard_" ++ stdToString shardId

/-- The parameters of a call, validated. -/
structure ShardedLog where
  baseLogName : Bytes
  numShards : Nat
  pos : 0 < numShards

/-- The calls that change or list a sharded log. -/
inductive ShardedOp where
  | createShardedLogs
  | removeShardedLogs
  | appendLogSharded (shardKey : Bytes) (items : List NewItem)
  | truncateAllShardedLogs
  | scanShardedLog

/-- An item but for the number its log gives it. -/
def LogItem.content (item : LogItem) : LogItem := { item with sequenceId := 0 }

/-- What the shards hold, where the log exists. -/
abbrev Shards := Option (Nat → List LogItem)

/-- The items that `scan_sharded_log` puts together from those of the shards. -/
def mergeScanned (replies : List LogReply) : List LogItem :=
  replies.flatMap fun
    | .scanned items => items
    | _ => []

namespace ShardedLog

section Calls

variable (l : ShardedLog)

def shard (i : Nat) : Bytes := getShardLogName l.baseLogName i

/-- The calls on the shards; the source's loops end at the first error, as a transaction does. -/
def calls : ShardedOp → List LogOp
  | .createShardedLogs => (range l.numShards).map fun i => .create (l.shard i)
  | .removeShardedLogs => (range l.numShards).map fun i => .remove (l.shard i)
  | .appendLogSharded shardKey items => [.append (l.shard (getShardId shardKey l.numShards)) items]
  | .truncateAllShardedLogs => (range l.numShards).map fun i => .truncate (l.shard i) (u64 - 1)
  | .scanShardedLog => (range l.numShards).map fun i => .scan (l.shard i) (u64 - 1)

/-- `exists_sharded`: one read of the metadata of all shards, and success with any found. -/
def existsSharded : LogScript (LogReturn Unit) := do
  match ← Tx.readAll ((range l.numShards).map fun i => getMetadataKey (l.shard i)) with
  | none => return .error .storageError
  | some records =>
    if records.any Option.isSome then return .ok () else return .error .logNotFound

/-- What a call means for the shards. -/
def onShards (shards : Shards) : ShardedOp → Except LogError Shards
  | .createShardedLogs =>
    if shards.isSome then .error .logAlreadyExists else .ok (some fun _ => [])
  | .removeShardedLogs => if shards.isSome then .ok none else .error .logNotFound
  | .appendLogSharded shardKey items =>
    let i := getShardId shardKey l.numShards
    if items = [] then .ok shards
    else if shards.isSome then
      .ok (shards.map fun held => update held i (held i ++ items.map (·.val.content)))
    else .error .logNotFound
  | .truncateAllShardedLogs =>
    if shards.isSome then .ok (some fun _ => []) else .error .logNotFound
  | .scanShardedLog => if shards.isSome then .ok shards else .error .logNotFound

/-- The queues of the shards hold just that. -/
def Holds (logs : Logs) (shards : Shards) : Prop :=
  ∀ i < l.numShards, (logs (l.shard i)).map (·.pending.map LogItem.content) = shards.map (· i)

/-- A scan lists the shards one behind the other. -/
def Lists (shards : Shards) (op : ShardedOp) (replies : List LogReply) : Prop :=
  op = .scanShardedLog → (mergeScanned replies).map LogItem.content
    = (range l.numShards).flatMap fun i => shards.elim [] (· i)

/-- On the queues of the shards a call does what it does on the shards. -/
def Does (logs : Logs) (shards : Shards) (op : ShardedOp) : Prop :=
  match l.onShards shards op with
  | .error e => onQueuesAll logs (l.calls op) = .error e
  | .ok shards' => ∃ replies logs', onQueuesAll logs (l.calls op) = .ok (replies, logs')
      ∧ l.Holds logs' shards' ∧ l.Lists shards op replies

/-- A transaction fails by a refused request (`may`), or does what it does on the shards. -/
def Answers (uninit : LogItem) (may : Prop) (w : LogWorld) (shards : Shards) (op : ShardedOp)
    (outcomes : List Bool) : Prop :=
  let r := LogTx.run uninit ⟨l.calls op, outcomes⟩ w.table
  may ∧ r = (.error .storageError, w.table) ∨
    match l.onShards shards op with
    | .error e => r = (.error e, w.table)
    | .ok shards' => ∃ replies, r.1 = .ok replies ∧ l.Lists shards op replies
        ∧ l.Holds (w.step uninit ⟨l.calls op, outcomes⟩).logs shards'

/-- The table behaves like the one object. -/
structure Refines (uninit : LogItem) (w : LogWorld) (shards : Shards) : Prop where
  holds : l.Holds w.logs shards
  /-- No shard exists without the others. -/
  whole : ∀ i < l.numShards, (w.table (getMetadataKey (l.shard i))).isSome = shards.isSome
  /-- So one shard is enough for `exists_sharded`. -/
  found : ∀ may : Prop, Tx.TripleIf may (· = w.table) l.existsSharded fun ret _ =>
    may ∧ ret = .error .storageError ∨ ret = if shards.isSome then .ok () else .error .logNotFound
  answers : ∀ (may : Prop) (op : ShardedOp) (outcomes : List Bool),
    LogOp.InRangeAll w.logs (l.calls op) → Tx.Grants may outcomes →
      l.Answers uninit may w shards op outcomes

/-- The next transaction is a call on the shards, or has nothing to do with them. -/
def Separate (_ : List LogTx) (w : LogWorld) (tx : LogTx) : Prop :=
  LogOp.InRangeAll w.logs tx.ops ∧
    ((∃ op, tx.ops = l.calls op) ∨ ∀ op ∈ tx.ops, ∀ i, l.shard i ≠ op.name)

end Calls

variable {uninit : LogItem} {l : ShardedLog} {logs : Logs} {shards : Shards}

lemma shard_injective : l.shard.Injective :=
  fun _ _ h => stdToString_injective (append_cancel_left h)

lemma getShardId_lt (shardKey : Bytes) : getShardId shardKey l.numShards < l.numShards := by
  rw [getShardId, if_neg l.pos.ne']
  exact Nat.mod_lt _ l.pos

lemma map_content_numberFrom (n : Nat) (items : List NewItem) :
    (numberFrom n items).map LogItem.content = items.map fun item => item.val.content := by
  induction items generalizing n with
  | nil => rfl
  | cons item rest ih =>
    rw [numberFrom, map_cons, ih]
    rfl

/-! ## A loop over the shards -/

/-- The first shard's error is the answer of the loop. -/
lemma onQueuesAll_first {each : Nat → LogOp} {e : LogError}
    (h : (each 0).onQueues logs = .error e) :
    onQueuesAll logs ((range l.numShards).map each) = .error e := by
  obtain ⟨n, hn⟩ := Nat.exists_eq_add_one_of_ne_zero l.pos.ne'
  rw [hn, range_succ_eq_map, map_cons, onQueuesAll, h]

section Loops

variable (logs) (call : Bytes → LogOp)

/-- The calls of a loop do not meet one another, each has a log of its own. -/
lemma onQueuesAll_loop {reply : Nat → LogReply} {new : Nat → Option LogQueue} {ids : List Nat}
    (hnodup : ids.Nodup) (h : ∀ i ∈ ids, ∀ logs' : Logs, logs' (l.shard i) = logs (l.shard i) →
      (call (l.shard i)).onQueues logs' = .ok (reply i, update logs' (l.shard i) (new i))) :
    ∃ logs', onQueuesAll logs (ids.map fun i => call (l.shard i)) = .ok (ids.map reply, logs')
      ∧ ∀ i, logs' (l.shard i) = if i ∈ ids then new i else logs (l.shard i) := by
  induction ids generalizing logs with
  | nil => exact ⟨logs, rfl, fun _ => rfl⟩
  | cons i rest ih =>
    obtain ⟨hi, hnodup⟩ := nodup_cons.mp hnodup
    have hother : ∀ j, j ≠ i → update logs (l.shard i) (new i) (l.shard j) = logs (l.shard j) :=
      fun j hj => update_of_ne (shard_injective.ne hj) ..
    obtain ⟨logs', hall, hnew⟩ := @ih (update logs (l.shard i) (new i)) hnodup
      fun j hj logs' heq => h j (mem_cons_of_mem i hj) logs'
        (heq.trans (hother j fun hji => hi (hji ▸ hj)))
    refine ⟨logs', ?_, fun j => ?_⟩
    · rw [map_cons, onQueuesAll, h i mem_cons_self logs rfl]
      dsimp only
      rw [hall, map_cons]
    · rw [hnew]
      by_cases hji : j = i
      · rw [hji, if_neg hi, if_pos mem_cons_self, update_self]
      · simp only [mem_cons, hji, false_or, hother j hji]

/-- A loop whose calls all succeed, and what it then leaves in each shard. -/
lemma onQueuesAll_each (P : Nat → LogReply → Option LogQueue → Prop)
    (h : ∀ i < l.numShards, ∃ reply q, P i reply q ∧ ∀ logs' : Logs,
      logs' (l.shard i) = logs (l.shard i) →
        (call (l.shard i)).onQueues logs' = .ok (reply, update logs' (l.shard i) q)) :
    ∃ reply logs', onQueuesAll logs ((range l.numShards).map fun i => call (l.shard i))
        = .ok ((range l.numShards).map reply, logs')
      ∧ ∀ i < l.numShards, P i (reply i) (logs' (l.shard i)) := by
  have : Inhabited LogReply := ⟨.done⟩
  choose! reply new hP hstep using h
  obtain ⟨logs', hall, hnew⟩ := onQueuesAll_loop logs call nodup_range
    fun i hi => hstep i (mem_range.mp hi)
  refine ⟨reply, logs', hall, fun i hi => ?_⟩
  rw [hnew, if_pos (mem_range.mpr hi)]
  exact hP i hi

/-- Truncated to the last number, a queue is empty. -/
lemma onQueues_truncate_all {name : Bytes} {q : LogQueue} (hlt : q.next < u64) :
    ∃ reply q', q'.pending = [] ∧ ∀ logs' : Logs, logs' name = some q →
      (truncate name (u64 - 1)).onQueues logs' =
        .ok (reply, update logs' name (some q')) := by
  have hsum := q.head_add_length
  by_cases hnil : q.pending = []
  · refine ⟨.truncated (min (u64 - 1) q.tail) 0, q, hnil, fun logs' hq => ?_⟩
    rw [onQueues, hq]
    dsimp only
    rw [if_pos hnil, ← hq, update_eq_self]
  · refine ⟨.truncated (min (u64 - 1) q.tail) (q.dequeue (min (u64 - 1) q.tail)).pending.length,
      q.dequeue (min (u64 - 1) q.tail), ?_, fun logs' hq => ?_⟩
    · apply drop_of_length_le
      rw [LogQueue.tail]
      omega
    · rw [onQueues, hq]
      dsimp only
      rw [if_neg hnil, if_neg (by omega)]

end Loops

/-! ## The shards as one object -/

lemma Holds.absent (h : l.Holds logs none) {i : Nat} (hi : i < l.numShards) :
    logs (l.shard i) = none :=
  Option.map_eq_none_iff.mp (h i hi)

lemma Holds.present {held : Nat → List LogItem} (h : l.Holds logs (some held)) {i : Nat}
    (hi : i < l.numShards) :
    ∃ q, logs (l.shard i) = some q ∧ q.pending.map LogItem.content = held i :=
  Option.map_eq_some_iff.mp (h i hi)

lemma does_append (h : l.Holds logs shards) (shardKey : Bytes) (items : List NewItem) :
    l.Does logs shards (.appendLogSharded shardKey items) := by
  rw [Does, onShards, calls, onQueuesAll, onQueues]
  by_cases hnil : items = []
  · rw [if_pos hnil, if_pos hnil]
    exact ⟨_, logs, rfl, h, fun hop => by cases hop⟩
  rw [if_neg hnil, if_neg hnil]
  cases shards with
  | none =>
    rw [h.absent (getShardId_lt shardKey)]
    rfl
  | some held =>
    obtain ⟨q, hq, hheld⟩ := h.present (getShardId_lt shardKey)
    rw [hq]
    refine ⟨_, _, rfl, fun i hi => ?_, fun hop => by cases hop⟩
    rw [Option.map_some, Option.map_some]
    by_cases hid : i = getShardId shardKey l.numShards
    · rw [hid, update_self, Option.map_some, update_self, ← hheld,
        ← map_content_numberFrom q.next, ← map_append]
      rfl
    · rw [update_of_ne (shard_injective.ne hid), h i hi, Option.map_some, update_of_ne hid]

/-- The shards have names of their own, so that a call to each keeps what the others hold. -/
lemma does (hbounded : ∀ name q, logs name = some q → q.next < u64) (h : l.Holds logs shards)
    (op : ShardedOp) : l.Does logs shards op := by
  cases shards with
  | none =>
    have hfirst := h.absent l.pos
    cases op with
    | createShardedLogs =>
      obtain ⟨reply, logs', hall, hnew⟩ := onQueuesAll_each logs .create
        (fun _ _ q => q = some .empty) fun i hi => ⟨.done, _, rfl, fun logs' heq => by
          rw [onQueues, heq, h.absent hi]⟩
      exact ⟨_, logs', hall, fun i hi => by rw [hnew i hi]; rfl, fun hop => by cases hop⟩
    | appendLogSharded shardKey items => exact does_append h shardKey items
    | _ => exact onQueuesAll_first (by rw [onQueues, hfirst])
  | some held =>
    obtain ⟨q₀, hfirst, -⟩ := h.present l.pos
    cases op with
    | createShardedLogs => exact onQueuesAll_first (by rw [onQueues, hfirst])
    | appendLogSharded shardKey items => exact does_append h shardKey items
    | removeShardedLogs =>
      obtain ⟨reply, logs', hall, hnew⟩ := onQueuesAll_each logs .remove
        (fun _ _ q => q = none) fun i hi => ⟨.done, _, rfl, fun logs' heq => by
          obtain ⟨q, hq, -⟩ := h.present hi
          rw [onQueues, heq, hq]⟩
      exact ⟨_, logs', hall, fun i hi => by rw [hnew i hi]; rfl, fun hop => by cases hop⟩
    | truncateAllShardedLogs =>
      obtain ⟨reply, logs', hall, hnew⟩ := onQueuesAll_each logs (.truncate · (u64 - 1))
        (l := l) (fun _ _ q => q.map (·.pending) = some []) (by
          intro i hi
          obtain ⟨q, hq, -⟩ := h.present hi
          obtain ⟨reply, q', hnil, hstep⟩ := onQueues_truncate_all (hbounded _ q hq)
          exact ⟨reply, some q', congrArg some hnil, fun logs' heq => hstep logs' (heq.trans hq)⟩)
      refine ⟨_, logs', hall, fun i hi => ?_, fun hop => by cases hop⟩
      obtain ⟨q, hq, hnil⟩ := Option.map_eq_some_iff.mp (hnew i hi)
      rw [hq, Option.map_some, hnil]
      rfl
    | scanShardedLog =>
      obtain ⟨reply, logs', hall, hnew⟩ := onQueuesAll_each logs (.scan · (u64 - 1)) (l := l)
        (fun i reply q' => ∃ q, q' = some q ∧ reply = .scanned q.pending
          ∧ q.pending.map LogItem.content = held i) (by
          intro i hi
          obtain ⟨q, hq, hheld⟩ := h.present hi
          refine ⟨_, _, ⟨q, rfl, rfl, hheld⟩, fun logs' heq => ?_⟩
          rw [onQueues_scan_all (heq.trans hq) (hbounded _ q hq), ← hq, ← heq,
            update_eq_self])
      refine ⟨_, logs', hall, fun i hi => ?_, fun _ => ?_⟩
      · obtain ⟨q, hq, -, hheld⟩ := hnew i hi
        rw [hq, Option.map_some, hheld]
        rfl
      · rw [mergeScanned, flatMap_map, map_flatMap]
        refine flatMap_congr fun i hi => ?_
        obtain ⟨q, -, hreply, hheld⟩ := hnew i (mem_range.mp hi)
        rw [hreply]
        exact hheld

/-! ## Every history -/

section Histories

variable {w : LogWorld}

lemma answers (hrep : Represents w.table w.logs) (h : l.Holds w.logs shards) {may : Prop}
    {op : ShardedOp} {outcomes : List Bool} (hrange : LogOp.InRangeAll w.logs (l.calls op))
    (hgrants : Tx.Grants may outcomes) : l.Answers uninit may w shards op outcomes := by
  have hop := does hrep.bounded h op
  rcases runTx_does uninit hrep hrange hgrants with ⟨hmay, herror, htable⟩ | hdoes
  · exact .inl ⟨hmay, Prod.ext herror htable⟩
  right
  rw [Does] at hop
  cases hspec : l.onShards shards op with
  | error e =>
    rw [hspec] at hop
    rw [hop] at hdoes
    exact Prod.ext hdoes.1 hdoes.2
  | ok shards' =>
    rw [hspec] at hop
    obtain ⟨replies, logs', hcalls, hholds, hlists⟩ := hop
    rw [hcalls] at hdoes
    have hret : (LogTx.run uninit ⟨l.calls op, outcomes⟩ w.table).1 = .ok replies := hdoes.1
    exact ⟨replies, hret, hlists, LogWorld.logs_step uninit hret hcalls ▸ hholds⟩

lemma onQueuesAll_frame {ops : List LogOp} {replies : List LogReply} {logs' : Logs} {name : Bytes}
    (h : onQueuesAll logs ops = .ok (replies, logs')) (hname : ∀ op ∈ ops, name ≠ op.name) :
    logs' name = logs name := by
  induction ops generalizing logs replies with
  | nil =>
    cases h
    rfl
  | cons op rest ih =>
    rw [onQueuesAll] at h
    split at h
    · cases h
    next reply logs₁ hop =>
    split at h
    · cases h
    next replies logs₂ hrest =>
    cases h
    rw [ih hrest fun o ho => hname o (mem_cons_of_mem op ho)]
    rcases onQueues_cases hop with rfl | ⟨q, rfl, -⟩
    · rfl
    · exact update_of_ne (hname op mem_cons_self) ..

lemma Holds.step (hrep : Represents w.table w.logs) (h : l.Holds w.logs shards) {tx : LogTx}
    (hsep : l.Separate [] w tx) : ∃ shards', l.Holds (w.step uninit tx).logs shards' := by
  -- a transaction that fails leaves the queues alone
  have hcases : (w.step uninit tx).logs = w.logs ∨
      ∃ replies, onQueuesAll w.logs tx.ops = .ok (replies, (w.step uninit tx).logs) := by
    unfold LogWorld.step LogTx.after
    split
    · next hall => exact .inr ⟨_, hall⟩
    · exact .inl rfl
  rcases hcases with hlogs | ⟨replies, hall⟩
  · exact ⟨shards, hlogs ▸ h⟩
  obtain ⟨-, ⟨op, hop⟩ | hother⟩ := hsep
  · have hdoes := does hrep.bounded h op
    rw [Does, ← hop, hall] at hdoes
    split at hdoes
    · cases hdoes
    next shards' _ =>
    obtain ⟨_, _, heq, hholds, -⟩ := hdoes
    cases heq
    exact ⟨shards', hholds⟩
  · refine ⟨shards, fun i hi => ?_⟩
    rw [onQueuesAll_frame hall fun op ho => hother op ho i, h i hi]

/-- **A sharded log is one object, after every history** that does not reach into its shards: they
are created, emptied and removed together, and a scan lists what was appended to them. -/
theorem sharded_log_is_one_object {h : List LogTx}
    (hrun : GuardedRun (LogWorld.step uninit) l.Separate .start h w) :
    ∃ shards, l.Refines uninit w shards := by
  obtain ⟨hrep, shards, hholds⟩ : Represents w.table w.logs ∧ ∃ shards, l.Holds w.logs shards := by
    refine hrun.invariant (fun _ w => Represents w.table w.logs ∧ ∃ shards, l.Holds w.logs shards)
      ⟨represents_nothing, none, fun _ _ => rfl⟩ ?_
    rintro _ w tx ⟨hrep, shards, hholds⟩ hsep
    exact ⟨LogWorld.represents_step uninit hrep hsep.1, hholds.step hrep hsep⟩
  have hwhole : ∀ i < l.numShards,
      (w.table (getMetadataKey (l.shard i))).isSome = shards.isSome := by
    intro i hi
    have hsome := congrArg Option.isSome (hholds i hi)
    rw [Option.isSome_map, Option.isSome_map] at hsome
    rw [hrep.metadata, Option.isSome_map, hsome]
  refine ⟨shards, hholds, hwhole, fun may => ?_, fun may op _ => answers hrep hholds⟩
  have hany : (((range l.numShards).map fun i => getMetadataKey (l.shard i)).map w.table).any
      Option.isSome = shards.isSome := by
    rw [map_map, any_map, Bool.eq_iff_iff, any_eq_true]
    constructor
    · rintro ⟨i, hi, hsome⟩
      rwa [← hwhole i (mem_range.mp hi)]
    · intro hsome
      exact ⟨0, mem_range.mpr l.pos, by rwa [← hwhole 0 l.pos] at hsome⟩
  refine Tx.TripleIf.of_readAll (fun hmay => .of_pure (.inl ⟨hmay, rfl⟩)) ?_
  dsimp only
  rw [hany]
  cases shards.isSome with
  | true => exact .of_pure (.inr rfl)
  | false => exact .of_pure (.inr rfl)

end Histories

def twoShards : ShardedLog :=
  ⟨ascii "v", 2, by decide⟩

/-- The shards are created, and an item is appended to that of the key "k". -/
theorem two_shards_are_one_object : ∃ w : LogWorld,
    GuardedRun (LogWorld.step sampleItem.val) twoShards.Separate .start
      [⟨twoShards.calls .createShardedLogs, []⟩,
        ⟨twoShards.calls (.appendLogSharded (ascii "k") [sampleItem]), []⟩] w ∧
      ∃ shards, twoShards.Refines sampleItem.val w shards := by
  have hcreated : GuardedRun (LogWorld.step sampleItem.val) twoShards.Separate .start
      [⟨twoShards.calls .createShardedLogs, []⟩] _ := GuardedRun.init.step
    ⟨⟨trivial, fun _ _ _ => ⟨trivial, fun _ _ _ => trivial⟩⟩, .inl ⟨.createShardedLogs, rfl⟩⟩
  have hrun := hcreated.step
    (i := ⟨twoShards.calls (.appendLogSharded (ascii "k") [sampleItem]), []⟩) (by
      refine ⟨⟨fun q hq => ?_, fun _ _ _ => trivial⟩, .inl ⟨.appendLogSharded _ _, rfl⟩⟩
      obtain rfl : LogQueue.empty = q := Option.some.inj hq
      decide)
  exact ⟨_, hrun, sharded_log_is_one_object hrun⟩

end ShardedLog

end EloqKV.Vector
