/-
  Who creates and who ends a transaction (`src/redis_handler.cpp`, `src/redis_service.cpp`).

  A transaction comes from `NewTxm` and is ended by `CommitTx`, `AbortTx` or the engine's
  auto-commit.  The pointer to it lives in the connection context (BEGIN), in the MULTI handler
  (WATCH, EXEC), in the loop of a script, or in the one command that runs by itself.  The request
  functions follow every answer of the engine, and a ledger of the open transactions marks the
  first use or second end of one that is not open.
-/
import EloqKV.Lib.Runs

open List

namespace EloqKV.Lifecycle

/-- A transaction, by the order of its creation. -/
abbrev Tx := Nat

/-! ## The ledger -/

/-- The transactions open now; `ok` until one that is not open is used or ended. -/
structure Ledger where
  next : Tx
  alive : List Tx
  ok : Bool

namespace Ledger

/-- `NewTxm`; the transaction is the old `next`. -/
def new (l : Ledger) : Ledger := ⟨l.next + 1, l.next :: l.alive, l.ok⟩

def use (l : Ledger) (t : Tx) : Ledger := { l with ok := l.ok && decide (t ∈ l.alive) }

/-- `CommitTx`, `AbortTx` or an auto-commit request. -/
def finish (l : Ledger) (t : Tx) : Ledger :=
  ⟨l.next, l.alive.erase t, l.ok && decide (t ∈ l.alive)⟩

end Ledger

/-! ## The request functions -/

/-- The engine's answer to a request: done, an initialization that failed, the two errors that
redirect a client, or any other error. -/
inductive Answer where
  | ok
  | initFail
  | readOnly
  | moved
  | error
  deriving DecidableEq

/-- The errors that reach the log line at the end of `SendTxRequestAndWaitResult`, which reads the
number of the transaction. -/
def Answer.logged : Answer → Bool
  | .initFail | .error => true
  | _ => false

/-- `SendTxRequestAndWaitResult`.  The engine ends the transaction of an auto-commit request that
it has processed; if the transaction failed to initialize, the function aborts it. -/
def sendTxRequestAndWaitResult (l : Ledger) (t : Tx) (autoCommit : Bool) (a : Answer) : Ledger :=
  let l := l.use t
  let l := if autoCommit then l.finish t else l
  if a.logged then l.use t else l

/-- Requests without auto-commit, one after another. -/
def sendAll (l : Ledger) (t : Tx) (answers : List Answer) : Ledger :=
  answers.foldl (fun l a => sendTxRequestAndWaitResult l t false a) l

/-- `if (auto_commit) AbortTx(txm)` or `CommitTx(txm)`. -/
def finishIf (l : Ledger) (t : Tx) (autoCommit : Bool) : Ledger :=
  if autoCommit then l.finish t else l

/-- `ExecuteCommand` for a command on one key, with the check of the key's length. -/
def executeCommand (tooBig : Bool) (a : Answer) (l : Ledger) (t : Tx) (autoCommit : Bool) :
    Ledger :=
  if tooBig then finishIf l t autoCommit else sendTxRequestAndWaitResult l t autoCommit a

/-- `ExecuteMultiObjTxRequest`: auto-commit is off for the steps before the last.  Without a last
step, because one of these fails or `HandleMiddleResult` stops, the function ends the transaction.
-/
def executeMultiObjTxRequest (middle : List Answer) (last : Option Answer) (l : Ledger) (t : Tx)
    (autoCommit : Bool) : Ledger :=
  let l := sendAll l t middle
  match last with
  | none => finishIf l t autoCommit
  | some a => sendTxRequestAndWaitResult l t autoCommit a

/-- `ExecuteCommand` of SCAN and KEYS and `ExecuteFlushDBCommand`: every way out ends a transaction
of their own. -/
def executeScan (answers : List Answer) (l : Ledger) (t : Tx) (autoCommit : Bool) : Ledger :=
  finishIf (sendAll l t answers) t autoCommit

/-- `ExecuteCommand` of SORT, which commits at its end whoever owns the transaction. -/
def executeSort (answers : List Answer) (success : Bool) (l : Ledger) (t : Tx)
    (autoCommit : Bool) : Ledger :=
  let l := sendAll l t answers
  if success then l.finish t else finishIf l t autoCommit

/-! ## Commands -/

inductive Kind where
  | plain | object | multiObject | scan | own | sort
  deriving DecidableEq

/-- A command as it runs, with the engine's answers to the requests it sends. -/
inductive Work where
  /-- Direct commands, and errors found before a transaction exists. -/
  | plain
  | object (tooBig : Bool) (a : Answer)
  | multiObject (middle : List Answer) (last : Option Answer)
  /-- SCAN, KEYS and FLUSHDB. -/
  | scan (answers : List Answer)
  /-- DBSIZE, PUBLISH and the namespace commands: always a transaction of their own. -/
  | own (answers : List Answer)
  /-- SORT, and whether it reaches its end. -/
  | sort (answers : List Answer) (success : Bool)

def Work.kind : Work → Kind
  | .plain => .plain
  | .object .. => .object
  | .multiObject .. => .multiObject
  | .scan _ => .scan
  | .own _ => .own
  | .sort .. => .sort

variable (l : Ledger)

/-- `in_tx ? ctx->txm : NewTxm(...)`, and auto-commit accordingly. -/
def inTx (txm : Option Tx) (execute : Ledger → Tx → Bool → Ledger) : Ledger :=
  match txm with
  | some t => execute l t false
  | none => execute l.new l.next true

/-- The handler, with a transaction that is not its own or without. -/
def Work.run (txm : Option Tx) : Work → Ledger
  | .plain => l
  | .object tooBig a => inTx l txm (executeCommand tooBig a)
  | .multiObject middle last => inTx l txm (executeMultiObjTxRequest middle last)
  | .scan answers => inTx l txm (executeScan answers)
  | .own answers => (sendAll l.new l.next answers).finish l.next
  | .sort answers success => inTx l txm (executeSort answers success)

/-- How FLUSHALL of the default namespace ends, after `before` tables were truncated. -/
inductive FlushEnd where
  | done
  | truncateFailed
  | catalogError
  deriving DecidableEq

/-- `n` transactions created and used, the pool of FLUSHALL. -/
def openMany (l : Ledger) : Nat → Ledger
  | 0 => l
  | n + 1 => openMany (l.new.use l.next) n

/-- The end of every transaction from `first` on, `n` of them. -/
def finishMany (l : Ledger) (first : Tx) : Nat → Ledger
  | 0 => l
  | n + 1 => finishMany (l.finish first) (first + 1) n

/-- `ExecuteFlushALLCommand`.  On a catalog error it ends the transaction at hand and returns. -/
def flushAll (before : Nat) : FlushEnd → Ledger
  | .done => finishMany (openMany l before) l.next before
  | .truncateFailed => finishMany (openMany l (before + 1)) l.next (before + 1)
  | .catalogError => (openMany l (before + 1)).finish (l.next + before)

/-- Commands run with a transaction that its owner ends. -/
def runAll (t : Tx) (works : List Work) : Ledger :=
  works.foldl (fun l w => w.run l (some t)) l

/-- The commands of a queue that run before an attempt ends: each as the work in its place says. -/
def runQueue (l : Ledger) (t : Tx) : List Kind → List Work → Ledger
  | k :: ks, w :: ws => if w.kind = k then runQueue (w.run l (some t)) t ks ws else l
  | _, _ => l

/-- One round of `EvalLua`: the commands run; every way out ends the transaction. -/
def evalAttempt (works : List Work) : Ledger :=
  (runAll l.new l.next works).finish l.next

/-! ## The connection -/

/-- `MultiTransactionHandler`: its transaction, flags and queue. -/
structure Handler where
  txm : Option Tx
  begun : Bool
  failed : Bool
  retrieable : Bool
  queue : List Kind

/-- A connection: `ctx->txm`, `ctx->multi_transaction_handler`, and the ledger. -/
structure Conn where
  ledger : Ledger
  txm : Option Tx
  handler : Option Handler
  closed : Bool

open Conn

def Conn.start : Conn := ⟨⟨0, [], true⟩, none, none, false⟩

/-- What a client sends, with what the engine answers to it. -/
inductive Input where
  | begin
  | commit
  | rollback
  /-- WATCH: whether its arguments parse, and whether the engine accepts the keys. -/
  | watch (parses success : Bool)
  | unwatch
  | multi
  /-- EXEC: the commands of the queue that ran in each attempt. -/
  | exec (first : List Work) (retries : List (List Work))
  | discard
  /-- EVAL or EVALSHA: the commands run in each attempt. -/
  | eval (attempts : List (List Work))
  | flushAll (before : Nat) (how : FlushEnd)
  /-- Any other command, and whether `ParseMultiCommand` accepts it. -/
  | command (w : Work) (parses : Bool)
  | disconnect

/-- `MultiExec` with the transaction of WATCH or a new one; an empty queue only ends the former. -/
def multiExec (txm : Option Tx) (queue : List Kind) (works : List Work) : Ledger :=
  match txm, queue with
  | none, [] => l
  | some t, [] => l.finish t
  | none, queue => (runQueue l.new l.next queue works).finish l.next
  | some t, queue => (runQueue l t queue works).finish t

/-- The end of the transaction a pointer holds, if it holds one. -/
def finishOpt : Option Tx → Ledger
  | none => l
  | some t => l.finish t

variable (c : Conn)

/-- `MultiTransactionHandler::Run` inside MULTI. -/
def runInMulti (h : Handler) : Input → Conn
  | .exec first retries =>
    let l := if h.failed then finishOpt c.ledger h.txm
      else
        let l₁ := multiExec c.ledger h.txm h.queue first
        if h.retrieable then
          retries.foldl (fun l works => multiExec l none h.queue works) l₁
        else l₁
    { c with ledger := l, handler := none }
  | .discard => { c with ledger := finishOpt c.ledger h.txm, handler := none }
  -- SORT is the one command on keys that `ParseMultiCommand` does not know
  | .command w parses =>
    if parses = true ∧ w.kind ≠ .sort then
      { c with handler := some { h with queue := h.queue ++ [w.kind] } }
    else { c with handler := some { h with failed := true } }
  | .eval _ | .flushAll _ _ => { c with handler := some { h with failed := true } }
  | _ => c

/-- WATCH outside MULTI, on the handler that is there or a new one. -/
def runWatch (h : Handler) (parses success : Bool) : Conn :=
  if !parses then { c with handler := some h }
  else
    let l := match h.txm with
      | none => c.ledger.new
      | some _ => c.ledger
    let t := h.txm.getD c.ledger.next
    if success then
      { c with ledger := l.use t, handler := some { h with txm := some t, retrieable := false } }
    else
      { c with
        ledger := (l.use t).finish t
        handler := some { h with txm := none, failed := true } }

/-- A handler as `new MultiTransactionHandler` leaves it. -/
def Handler.fresh : Handler := ⟨none, false, false, true, []⟩

/-- Commands outside MULTI, by the handlers of the command table and by `DispatchCommand`. -/
def runOutside : Input → Conn
  | .begin =>
    if c.txm.isSome || c.handler.isSome then c
    else { c with ledger := c.ledger.new, txm := some c.ledger.next }
  | .commit | .rollback => { c with ledger := finishOpt c.ledger c.txm, txm := none }
  | .watch parses success =>
    if c.txm.isSome then c else runWatch c (c.handler.getD .fresh) parses success
  | .unwatch =>
    if c.txm.isSome then c
    else { c with ledger := finishOpt c.ledger (c.handler.bind Handler.txm), handler := none }
  | .multi =>
    if c.txm.isSome then c
    else { c with handler := some { c.handler.getD .fresh with begun := true } }
  | .eval attempts =>
    if c.txm.isSome || c.handler.isSome then c
    else { c with ledger := attempts.foldl evalAttempt c.ledger }
  | .flushAll before how =>
    if c.txm.isSome then c else { c with ledger := flushAll c.ledger before how }
  | .command w _ => { c with ledger := w.run c.ledger c.txm }
  | .exec _ _ | .discard => c
  | .disconnect => c

/-- `~RedisConnectionContext` and `~MultiTransactionHandler`. -/
def disconnect : Conn :=
  ⟨finishOpt (finishOpt c.ledger c.txm) (c.handler.bind Handler.txm), none, none, true⟩

/-- One input.  `in_multi_transaction` is `begun` of the handler. -/
def step (i : Input) : Conn :=
  if c.closed then c
  else
    match i, c.handler with
    | .disconnect, _ => disconnect c
    | i, some h => if h.begun then runInMulti c h i else runOutside c i
    | i, none => runOutside c i

/-! ## Sound ledgers

A ledger is sound for a list of transactions if these are the open ones and no request ever
went to another. -/

/-- Nothing wrong has happened, and exactly the transactions in `held` are open. -/
structure Sound (l : Ledger) (held : List Tx) : Prop where
  ok : l.ok = true
  alive : l.alive.Perm held
  nodup : held.Nodup
  older : ∀ t ∈ held, t < l.next

section Ledgers

variable {l : Ledger} {t : Tx} {held : List Tx}

lemma Sound.congr {held held' : List Tx} (h : Sound l held)
    (hperm : held.Perm held') : Sound l held' :=
  ⟨h.ok, h.alive.trans hperm, hperm.nodup_iff.mp h.nodup,
    fun t ht => h.older t (hperm.mem_iff.mpr ht)⟩

lemma Sound.new (h : Sound l held) : Sound l.new (l.next :: held) := by
  have hfresh : l.next ∉ held := fun hin => Nat.lt_irrefl _ (h.older _ hin)
  refine ⟨h.ok, h.alive.cons _, nodup_cons.mpr ⟨hfresh, h.nodup⟩, ?_⟩
  intro t ht
  rcases mem_cons.mp ht with rfl | ht
  · exact Nat.lt_succ_self _
  · exact Nat.lt_succ_of_lt (h.older t ht)

lemma Sound.mem (h : Sound l held) (ht : t ∈ held) : t ∈ l.alive :=
  h.alive.mem_iff.mpr ht

lemma Sound.use (h : Sound l held) (ht : t ∈ held) : Sound (l.use t) held :=
  ⟨by simp [Ledger.use, h.ok, h.mem ht], h.alive, h.nodup, h.older⟩

lemma Sound.finish (h : Sound l held) (ht : t ∈ held) : Sound (l.finish t) (held.erase t) :=
  ⟨by simp [Ledger.finish, h.ok, h.mem ht], h.alive.erase t, h.nodup.erase t,
    fun s hs => h.older s (mem_of_mem_erase hs)⟩

lemma Sound.finish_head (h : Sound l (t :: held)) : Sound (l.finish t) held := by
  have hfinish := h.finish mem_cons_self
  rwa [erase_cons_head] at hfinish

lemma Sound.finishOpt {txm : Option Tx}
    (h : Sound l (txm.toList ++ held)) : Sound (finishOpt l txm) held := by
  cases txm with
  | none => exact h
  | some t => exact h.finish_head

/-! ## Requests keep the ledger sound

In a transaction that stays open everything may be sent.  One that is ended by its last request
must not be logged after it. -/

lemma Sound.send (h : Sound l held) (ht : t ∈ held) (a : Answer) :
    Sound (sendTxRequestAndWaitResult l t false a) held := by
  unfold sendTxRequestAndWaitResult
  simp only [Bool.false_eq_true, if_false]
  split
  · exact (h.use ht).use ht
  · exact h.use ht

lemma Sound.sendAll (h : Sound l held) (ht : t ∈ held) (answers : List Answer) :
    Sound (sendAll l t answers) held := by
  induction answers generalizing l with
  | nil => exact h
  | cons a answers ih => exact ih (h.send ht a)

/-- The last request of an auto-commit transaction ends it; a logged error uses it once more. -/
lemma Sound.sendLast (h : Sound l (t :: held)) {a : Answer} (ha : a.logged = false) :
    Sound (sendTxRequestAndWaitResult l t true a) held := by
  simp only [sendTxRequestAndWaitResult, ha, if_true]
  exact (h.use mem_cons_self).finish_head

/-! ## Commands keep the ledger sound -/

/-- A command that leaves its caller's transaction open: all but a SORT that succeeds. -/
def Work.leavesOpen : Work → Bool
  | .sort _ success => !success
  | _ => true

/-- The command's auto-commit request is answered with an error that is logged afterwards. -/
def Work.logsEnded : Work → Bool
  | .object tooBig a => !tooBig && a.logged
  | .multiObject _ last => last.any Answer.logged
  | _ => false

lemma Work.run_alone_sound (w : Work) (h : Sound l held) (hw : w.logsEnded = false) :
    Sound (w.run l none) held := by
  -- the transaction of the command's own
  have hown : ∀ answers, Sound (Lifecycle.sendAll l.new l.next answers) (l.next :: held) :=
    fun answers => h.new.sendAll mem_cons_self answers
  cases w with
  | plain => exact h
  | object tooBig a =>
    cases tooBig with
    | true => exact h.new.finish_head
    | false => exact h.new.sendLast hw
  | multiObject middle last =>
    cases last with
    | none => exact (hown middle).finish_head
    | some a => exact (hown middle).sendLast hw
  | scan answers => exact (hown answers).finish_head
  | own answers => exact (hown answers).finish_head
  | sort answers success => cases success <;> exact (hown answers).finish_head

lemma Work.run_sound (w : Work) (h : Sound l held)
    (ht : t ∈ held) (hw : w.leavesOpen = true) : Sound (w.run l (some t)) held := by
  cases w with
  | plain => exact h
  | object tooBig a =>
    cases tooBig with
    | true => exact h
    | false => exact h.send ht a
  | multiObject middle last =>
    cases last with
    | none => exact h.sendAll ht middle
    | some a => exact (h.sendAll ht middle).send ht a
  | scan answers => exact h.sendAll ht answers
  | own answers => exact (h.new.sendAll mem_cons_self answers).finish_head
  | sort answers success =>
    cases success with
    | true => cases hw
    | false => exact h.sendAll ht answers

lemma runAll_sound (works : List Work) (h : Sound l held) (ht : t ∈ held)
    (hw : ∀ w ∈ works, w.leavesOpen = true) : Sound (runAll l t works) held := by
  induction works generalizing l with
  | nil => exact h
  | cons w works ih =>
    exact ih (w.run_sound h ht (hw w mem_cons_self)) fun v hv => hw v (mem_cons_of_mem _ hv)

lemma foldl_evalAttempt_sound (attempts : List (List Work)) (h : Sound l held)
    (hw : ∀ works ∈ attempts, ∀ w ∈ works, w.leavesOpen = true) :
    Sound (attempts.foldl evalAttempt l) held := by
  induction attempts generalizing l with
  | nil => exact h
  | cons works attempts ih =>
    exact ih (runAll_sound works h.new mem_cons_self (hw works mem_cons_self)).finish_head
      fun ws hws => hw ws (mem_cons_of_mem _ hws)

lemma Work.leavesOpen_of_kind {w : Work} (hw : w.kind ≠ .sort) : w.leavesOpen = true := by
  cases w with
  | sort answers success => exact absurd rfl hw
  | _ => rfl

lemma runQueue_sound {queue : List Kind} (hq : ∀ k ∈ queue, k ≠ .sort) (works : List Work)
    (h : Sound l held) (ht : t ∈ held) : Sound (runQueue l t queue works) held := by
  induction queue generalizing l works with
  | nil => exact h
  | cons k ks ih =>
    cases works with
    | nil => exact h
    | cons w ws =>
      rw [runQueue]
      split
      next hkind =>
        have hw : w.leavesOpen = true :=
          Work.leavesOpen_of_kind (hkind ▸ hq k mem_cons_self)
        exact ih (fun k' hk' => hq k' (mem_cons_of_mem k hk')) ws (w.run_sound h ht hw)
      · exact h

lemma multiExec_sound (txm : Option Tx) (queue : List Kind) (works : List Work)
    (h : Sound l (txm.toList ++ held))
    (hq : ∀ k ∈ queue, k ≠ .sort) : Sound (multiExec l txm queue works) held := by
  cases txm with
  | none =>
    cases queue with
    | nil => exact h
    | cons k ks => exact (runQueue_sound hq works h.new mem_cons_self).finish_head
  | some t =>
    cases queue with
    | nil => exact h.finish_head
    | cons k ks => exact (runQueue_sound hq works h mem_cons_self).finish_head

/-! ## FLUSHALL -/

lemma openMany_sound (n : Nat) (h : Sound l held) :
    Sound (openMany l n) (List.range' l.next n ++ held) := by
  induction n generalizing l held with
  | zero => exact h
  | succ n ih =>
    have hstep := ih (h.new.use mem_cons_self)
    refine hstep.congr ?_
    exact perm_middle

lemma finishMany_sound (n : Nat) {first : Tx}
    (h : Sound l (List.range' first n ++ held)) : Sound (finishMany l first n) held := by
  induction n generalizing l first with
  | zero => exact h
  | succ n ih =>
    exact ih h.finish_head

/-- The transactions FLUSHALL forgets: those of the tables before a catalog error. -/
def forgotten (l : Ledger) (before : Nat) : FlushEnd → List Tx
  | .catalogError => List.range' l.next before
  | _ => []

lemma flushAll_sound (before : Nat) (how : FlushEnd) (h : Sound l held) :
    Sound (flushAll l before how) (forgotten l before how ++ held) := by
  cases how with
  | done => exact finishMany_sound before (openMany_sound before h)
  | truncateFailed => exact finishMany_sound (before + 1) (openMany_sound (before + 1) h)
  | catalogError =>
    have hopen := openMany_sound (before + 1) h
    rw [List.range'_concat, Nat.one_mul] at hopen
    have hlast : (List.range' l.next before ++ [l.next + before] ++ held).Perm
        ((l.next + before) :: (List.range' l.next before ++ held)) := by
      rw [append_assoc]
      exact perm_middle
    exact (hopen.congr hlast).finish_head

end Ledgers

/-! ## The invariant of a connection -/

def Conn.held : List Tx := c.txm.toList ++ (c.handler.bind Handler.txm).toList

/-- The open transactions are those the connection holds; BEGIN and WATCH never hold one at
the same time; the queue has no SORT; a closed connection holds none. -/
structure Inv (c : Conn) : Prop where
  sound : Sound c.ledger c.held
  apart : c.txm.isSome → c.handler = none
  queue : ∀ h, c.handler = some h → ∀ k ∈ h.queue, k ≠ .sort
  closed : c.closed = true → c.txm = none ∧ c.handler = none

lemma inv_start : Inv start :=
  ⟨⟨rfl, List.Perm.refl _, nodup_nil, nofun⟩, nofun, nofun, nofun⟩

/-- The condition on an input: no SORT may succeed in a transaction that BEGIN or a script
owns, no auto-commit request may fail with an error that is logged, and no FLUSHALL may meet a
catalog error after its first table. -/
def Allowed : Input → Prop
  | .command w _ => if c.txm.isSome then w.leavesOpen = true else w.logsEnded = false
  | .eval attempts => ∀ works ∈ attempts, ∀ w ∈ works, w.leavesOpen = true
  | .flushAll before how => forgotten c.ledger before how = []
  | _ => True

instance (c : Conn) (i : Input) : Decidable (Allowed c i) := by
  cases i <;> unfold Allowed <;> infer_instance

lemma foldl_multiExec_sound (retries : List (List Work)) (queue : List Kind)
    {l : Ledger} {held : List Tx} (h : Sound l held) (hq : ∀ k ∈ queue, k ≠ .sort) :
    Sound (retries.foldl (fun l works => multiExec l none queue works) l) held := by
  induction retries generalizing l with
  | nil => exact h
  | cons works retries ih => exact ih (multiExec_sound none queue works h hq)

lemma disconnect_inv (h : Inv c) : Inv (disconnect c) := by
  refine ⟨?_, nofun, nofun, fun _ => ⟨rfl, rfl⟩⟩
  have hsound := h.sound
  rw [held, ← append_nil (Option.toList (c.handler.bind Handler.txm))] at hsound
  exact hsound.finishOpt.finishOpt

/-- Behind WATCH or MULTI the transaction of the handler is kept or given back, never dropped. -/
lemma runInMulti_inv (h : Inv c) (hd : Handler) (hc : c.handler = some hd)
    (i : Input) : Inv (runInMulti c hd i) := by
  have htxm : c.txm = none := by
    cases htxm : c.txm with
    | none => rfl
    | some t =>
      have hnone := h.apart (by rw [htxm]; rfl)
      rw [hc] at hnone
      cases hnone
  have hq := h.queue hd hc
  have hsound : Sound c.ledger (hd.txm.toList ++ []) := by
    simpa [held, htxm, hc] using h.sound
  have hended : ∀ l, Sound l [] → Inv { c with ledger := l, handler := none } := by
    intro l hl
    exact ⟨by simpa [held, htxm] using hl, fun _ => rfl, nofun, fun _ => ⟨htxm, rfl⟩⟩
  have hkept : ∀ hd' : Handler, hd'.txm = hd.txm → (∀ k ∈ hd'.queue, k ≠ .sort) →
      Inv { c with handler := some hd' } := by
    intro hd' htx hqueue
    refine ⟨by simpa [held, htxm, htx] using hsound, ?_, ?_, ?_⟩
    · intro hsome
      simp [htxm] at hsome
    · intro h' heq
      cases heq
      exact hqueue
    · intro hclosed
      have hnone := (h.closed hclosed).2
      rw [hc] at hnone
      cases hnone
  cases i with
  | exec first retries =>
    refine hended _ ?_
    split
    · exact hsound.finishOpt
    · have hfirst := multiExec_sound hd.txm hd.queue first hsound hq
      split
      · exact foldl_multiExec_sound retries hd.queue hfirst hq
      · exact hfirst
  | discard => exact hended _ hsound.finishOpt
  | command w parses =>
    simp only [runInMulti]
    split
    · rename_i hacc
      refine hkept _ rfl ?_
      intro k hk
      rcases mem_append.mp hk with hk | hk
      · exact hq k hk
      · rw [mem_singleton.mp hk]
        exact hacc.2
    · exact hkept _ rfl hq
  | eval _ => exact hkept _ rfl hq
  | flushAll _ _ => exact hkept _ rfl hq
  | _ => exact h

lemma fresh_queue (h : Inv c) : ∀ k ∈ (c.handler.getD .fresh).queue, k ≠ .sort := by
  cases hc : c.handler with
  | none => exact nofun
  | some hd => exact h.queue hd hc

lemma getD_fresh_txm : (c.handler.getD .fresh).txm = c.handler.bind Handler.txm := by
  cases c.handler <;> rfl

lemma runWatch_inv (h : Inv c) (hopen : c.closed = false) (htxm : c.txm = none)
    (parses success : Bool) : Inv (runWatch c (c.handler.getD .fresh) parses success) := by
  have hq := fresh_queue c h
  have hsound : Sound c.ledger (c.handler.getD .fresh).txm.toList := by
    have hs := h.sound
    rwa [held, htxm, ← getD_fresh_txm] at hs
  generalize c.handler.getD .fresh = hd at hq hsound ⊢
  -- the transaction watched is open whether it was there or is new
  have hwatched : Sound (match hd.txm with | none => c.ledger.new | some _ => c.ledger)
      [hd.txm.getD c.ledger.next] := by
    cases ht : hd.txm with
    | none =>
      rw [ht] at hsound
      exact hsound.new
    | some t =>
      rw [ht] at hsound
      exact hsound
  have hused := hwatched.use mem_cons_self
  have hinv : ∀ l (hd' : Handler), hd'.queue = hd.queue → Sound l hd'.txm.toList →
      Inv { c with ledger := l, handler := some hd' } := by
    intro l hd' hqueue hs
    exact ⟨by simpa [held, htxm] using hs, by simp [htxm],
      fun _ heq => by cases heq; exact hqueue ▸ hq, by simp [hopen]⟩
  unfold runWatch
  split
  · exact hinv _ _ rfl hsound
  · cases success with
    | false => exact hinv _ _ rfl hused.finish_head
    | true => exact hinv _ _ rfl hused

/-- Outside MULTI a request leaves open what BEGIN or WATCH opened, and nothing else. -/
lemma runOutside_inv (h : Inv c) (hopen : c.closed = false) (i : Input)
    (hi : Allowed c i) : Inv (runOutside c i) := by
  have hledger : ∀ l, Sound l c.held → Inv { c with ledger := l } :=
    fun l hl => ⟨hl, h.apart, h.queue, h.closed⟩
  cases i with
  | begin =>
    simp only [runOutside]
    split
    · exact h
    · rename_i hfree
      obtain ⟨htxm, hhd⟩ : c.txm = none ∧ c.handler = none := by simpa using hfree
      have hs : Sound c.ledger [] := by simpa [held, htxm, hhd] using h.sound
      exact ⟨by simpa [held, hhd] using hs.new, fun _ => hhd, h.queue, by simp [hopen]⟩
  | commit =>
    exact ⟨h.sound.finishOpt, nofun, h.queue, fun hclosed => ⟨rfl, (h.closed hclosed).2⟩⟩
  | rollback =>
    exact ⟨h.sound.finishOpt, nofun, h.queue, fun hclosed => ⟨rfl, (h.closed hclosed).2⟩⟩
  | watch parses success =>
    simp only [runOutside]
    split
    · exact h
    · rename_i htxm
      exact runWatch_inv c h hopen (by simpa using htxm) parses success
  | unwatch =>
    simp only [runOutside]
    split
    · exact h
    · rename_i htxm
      have hnone : c.txm = none := by simpa using htxm
      have hs : Sound c.ledger ((c.handler.bind Handler.txm).toList ++ []) := by
        simpa [held, hnone] using h.sound
      exact ⟨by simpa [held, hnone] using hs.finishOpt, fun _ => rfl, nofun, by simp [hopen]⟩
  | multi =>
    simp only [runOutside]
    split
    · exact h
    · rename_i htxm
      have hnone : c.txm = none := by simpa using htxm
      refine ⟨?_, by simp [hnone], ?_, by simp [hopen]⟩
      · have hs := h.sound
        rw [held, ← getD_fresh_txm] at hs
        exact hs
      · intro hd heq
        cases heq
        exact fresh_queue c h
  | eval attempts =>
    simp only [runOutside]
    split
    · exact h
    · exact hledger _ (foldl_evalAttempt_sound attempts h.sound hi)
  | flushAll before how =>
    simp only [runOutside]
    split
    · exact h
    · have hs := flushAll_sound before how h.sound
      rw [show forgotten c.ledger before how = [] from hi] at hs
      exact hledger _ hs
  | command w parses =>
    refine hledger _ ?_
    unfold Allowed at hi
    cases htxm : c.txm with
    | none =>
      rw [htxm] at hi
      exact w.run_alone_sound h.sound hi
    | some t =>
      rw [htxm] at hi
      exact w.run_sound h.sound (by simp [held, htxm]) hi
  | _ => exact h

theorem step_inv (h : Inv c) (i : Input) (hi : Allowed c i) : Inv (step c i) := by
  unfold step
  split
  · exact h
  · rename_i hclosed
    have hopen : c.closed = false := by simpa using hclosed
    split
    · exact disconnect_inv c h
    · rename_i hd hne hc
      split
      · exact runInMulti_inv c h hd hc _
      · exact runOutside_inv c h hopen _ hi
    · exact runOutside_inv c h hopen _ hi

/-- **In every run whose inputs are all allowed, no transaction is used or ended unless it is
open, the open transactions are exactly those the connection holds, and none is left after the
disconnect.** -/
theorem transactions_end_exactly_once (h : List Input) (c : Conn)
    (hrun : Lib.GuardedRun step (fun _ c i => Allowed c i) Conn.start h c) :
    c.ledger.ok = true ∧ c.ledger.alive.Perm c.held ∧ (c.closed = true → c.ledger.alive = []) := by
  have hinv : Inv c := hrun.invariant (fun _ c => Inv c) inv_start
    fun _ s i hs hi => step_inv s hs i hi
  refine ⟨hinv.sound.ok, hinv.sound.alive, fun hclosed => ?_⟩
  obtain ⟨htxm, hhd⟩ := hinv.closed hclosed
  have halive := hinv.sound.alive
  rw [held, htxm, hhd] at halive
  exact halive.eq_nil

/-- BEGIN, a command that conflicts, COMMIT, a watched MULTI with EXEC, a script, a command that is
redirected, and the disconnect. -/
def ordinaryRun : List Input :=
  [.begin, .command (.object false .error) true, .commit, .watch true true, .multi,
    .command (.multiObject [.ok] none) true, .exec [.multiObject [.ok] (some .error)] [],
    .eval [[.object false .ok, .sort [.ok] false]], .command (.object false .moved) true,
    .disconnect]

theorem ordinaryRun_ends_all :
    (ordinaryRun.foldl step Conn.start).ledger.ok = true ∧
      (ordinaryRun.foldl step Conn.start).ledger.next = 4 ∧
      (ordinaryRun.foldl step Conn.start).ledger.alive = [] := by
  have hrun : Lib.GuardedRun step (fun _ c i => Allowed c i) start ordinaryRun
      (ordinaryRun.foldl step start) := by
    refine .step (h := ordinaryRun.take 9) (.step (h := ordinaryRun.take 8)
      (.step (h := ordinaryRun.take 7)
      (.step (h := ordinaryRun.take 6) (.step (h := ordinaryRun.take 5)
      (.step (h := ordinaryRun.take 4) (.step (h := ordinaryRun.take 3)
      (.step (h := ordinaryRun.take 2) (.step (h := ordinaryRun.take 1)
      (.step .init trivial) ?_) trivial) trivial) trivial) ?_) trivial) ?_) ?_) trivial
    · decide
    · decide
    · decide
    · decide
  have hends := transactions_end_exactly_once ordinaryRun _ hrun
  exact ⟨hends.1, by decide, hends.2.2 (by decide)⟩

/-- A SORT between BEGIN and COMMIT ends the transaction the connection still holds, so that
COMMIT ends it a second time; a FLUSHALL whose second table meets a catalog error leaves
the transaction of the first one open for good; and a SET whose transaction fails to initialize is
aborted and then logged. -/
theorem sort_in_begin_ends_twice :
    ([Input.begin, .command (.sort [.ok] true) true].foldl step Conn.start).txm = some 0 ∧
      ([Input.begin, .command (.sort [.ok] true) true].foldl step Conn.start).ledger.alive = [] ∧
      ([Input.begin, .command (.sort [.ok] true) true, .commit].foldl step
        Conn.start).ledger.ok = false ∧
      ([Input.flushAll 1 .catalogError, .disconnect].foldl step Conn.start).ledger.alive = [0] ∧
      ([Input.command (.object false .initFail) true].foldl step Conn.start).ledger.ok = false := by
  decide

end EloqKV.Lifecycle
