/-
  Short transactions over one table.

  A script opens a transaction, sends point reads and writes one after another, looks at the
  answers and ends the transaction itself.  The engine may refuse any request, so its outcomes are
  an input, consumed one per request (an exhausted list answers "success").  An abort, or a commit
  the engine refuses, leaves the table as it was.
-/
import Mathlib

open List

namespace EloqKV.Lib

open Function

abbrev Table (K V : Type) := K → Option V

/-- What a running script sees: its view of the table and the engine's answers to come. -/
structure TxState (K V : Type) where
  table : Table K V
  outcomes : List Bool

/-- A script: requests sent one after another on one open transaction. -/
abbrev Tx (K V : Type) := StateM (TxState K V)

/-- How a script ends its transaction, with the value it then returns. -/
inductive TxEnd (α : Type) where
  | abort (ret : α)
  | commit (onOk onError : α)

namespace Tx

variable {K V α β : Type}

/-- The engine's answer to the next request. -/
def outcome : Tx K V Bool := fun s =>
  match s.outcomes with
  | [] => (true, s)
  | b :: bs => (b, { s with outcomes := bs })

/-- A point read; the outer `none` is a request the engine refused. -/
def read (k : K) : Tx K V (Option (Option V)) := do
  if ← outcome then
    return some ((← get).table k)
  else
    return none

def readAll (ks : List K) : Tx K V (Option (List (Option V))) := do
  if ← outcome then
    return some (ks.map (← get).table)
  else
    return none

section Writes

variable [DecidableEq K]

/-- A point write; `false` is a request the engine refused. -/
def write (k : K) (v : V) : Tx K V Bool := do
  if ← outcome then
    modify fun s => { s with table := update s.table k (some v) }
    return true
  else
    return false

/-- A point delete; `false` is a request the engine refused. -/
def delete (k : K) : Tx K V Bool := do
  if ← outcome then
    modify fun s => { s with table := update s.table k none }
    return true
  else
    return false

/-- Point writes one after another, up to the first that the engine refuses. -/
def writeAll : List (K × V) → Tx K V Bool
  | [] => pure true
  | e :: rest => do
    if ← write e.1 e.2 then writeAll rest else return false

/-- Point deletes one after another, up to the first that the engine refuses. -/
def deleteAll : List K → Tx K V Bool
  | [] => pure true
  | k :: rest => do
    if ← delete k then deleteAll rest else return false

def putAll (t : Table K V) (entries : List (K × V)) : Table K V :=
  entries.foldl (fun t e => update t e.1 (some e.2)) t

def dropAll (t : Table K V) (ks : List K) : Table K V :=
  ks.foldl (fun t k => update t k none) t

variable {k : K}

lemma putAll_of_notMem (t : Table K V) {entries : List (K × V)}
    (hk : k ∉ entries.map Prod.fst) : putAll t entries k = t k := by
  induction entries generalizing t with
  | nil => rfl
  | cons e rest ih =>
    rw [map_cons, mem_cons, not_or] at hk
    rw [putAll, foldl_cons, ← putAll, ih _ hk.2, update_of_ne hk.1]

lemma dropAll_of_notMem (t : Table K V) {ks : List K} (hk : k ∉ ks) : dropAll t ks k = t k := by
  induction ks generalizing t with
  | nil => rfl
  | cons k' rest ih =>
    rw [mem_cons, not_or] at hk
    rw [dropAll, foldl_cons, ← dropAll, ih _ hk.2, update_of_ne hk.1]

lemma dropAll_of_mem (t : Table K V) {ks : List K} (hk : k ∈ ks) : dropAll t ks k = none := by
  induction ks generalizing t with
  | nil => exact absurd hk not_mem_nil
  | cons k' rest ih =>
    rw [dropAll, foldl_cons, ← dropAll]
    by_cases hrest : k ∈ rest
    · exact ih _ hrest
    · rw [dropAll_of_notMem _ hrest]
      obtain rfl := (mem_cons.mp hk).resolve_right hrest
      exact update_self ..

end Writes

lemma outcome_table (s : TxState K V) : (outcome s).2.table = s.table := by
  unfold outcome
  split <;> rfl

/-! ## Triples

What a script does when the engine refuses one of its requests, and that it does nothing of the
kind when the engine grants them all, are one proof: `may` says whether a refusal can happen, and
the part of a proof that follows a refusal may assume it. -/

/-- The engine grants every request, unless it may refuse some. -/
def Grants (may : Prop) (outcomes : List Bool) : Prop :=
  may ∨ ∀ b ∈ outcomes, b = true

/-- A triple for engines that refuse requests only if they may. -/
def TripleIf (may : Prop) (P : Table K V → Prop) (p : Tx K V α) (Q : α → Table K V → Prop) : Prop :=
  ∀ s : TxState K V, Grants may s.outcomes → P s.table →
    Q (p s).1 (p s).2.table ∧ Grants may (p s).2.outcomes

/-- From a table meeting `P`, the script ends with a value and a table meeting `Q`. -/
def Triple (P : Table K V → Prop) (p : Tx K V α) (Q : α → Table K V → Prop) : Prop :=
  ∀ s : TxState K V, P s.table → Q (p s).1 (p s).2.table

variable {may : Prop} {t : Table K V} {P : Table K V → Prop} {R : α → Table K V → Prop}
  {Q : β → Table K V → Prop}

lemma outcome_grants {s : TxState K V} (hs : Grants may s.outcomes) :
    Grants may (outcome s).2.outcomes ∧ ((outcome s).1 = false → may) := by
  obtain ⟨table, _ | ⟨b, rest⟩⟩ := s
  · exact ⟨hs, nofun⟩
  · refine ⟨hs.imp_right fun hall c hc => hall c (mem_cons_of_mem b hc), fun hb => ?_⟩
    refine hs.resolve_right fun hall => ?_
    exact absurd (hall b mem_cons_self) (by rw [show b = false from hb]; decide)

/-! With the table known, a script is executed symbolically, request by request. -/

lemma TripleIf.of_pure {b : β} (h : Q b t) : TripleIf may (· = t) (Pure.pure b) Q := by
  rintro s hs rfl
  exact ⟨h, hs⟩

lemma TripleIf.bind {p : Tx K V α} {f : α → Tx K V β} (hp : TripleIf may P p R)
    (hf : ∀ a t', R a t' → TripleIf may (· = t') (f a) Q) : TripleIf may P (p >>= f) Q := by
  intro s hs hP
  obtain ⟨hR, hs'⟩ := hp s hs hP
  exact hf _ _ hR _ hs' rfl

lemma TripleIf.map {p : Tx K V α} (g : α → β) (hp : TripleIf may P p fun a => Q (g a)) :
    TripleIf may P (g <$> p) Q :=
  hp

lemma TripleIf.of_request {granted : Tx K V α} {a refused : α} {f : α → Tx K V β}
    {t' : Table K V} (hrun : ∀ s, s.table = t → granted s = (a, { s with table := t' }))
    (hrefused : may → TripleIf may (· = t) (f refused) Q)
    (hgranted : TripleIf may (· = t') (f a) Q) :
    TripleIf may (· = t) ((do if ← outcome then granted else return refused) >>= f) Q := by
  intro s hs ht
  obtain ⟨hs', hmay⟩ := outcome_grants hs
  have htable := (outcome_table s).trans ht
  rw [show ((do if ← outcome then granted else return refused) >>= f) s
    = ((if (outcome s).1 then granted else pure refused) >>= f) (outcome s).2 from rfl]
  cases hb : (outcome s).1 with
  | true =>
    have hstep : ((if true then granted else pure refused) >>= f) (outcome s).2
        = f a { (outcome s).2 with table := t' } := by
      show f (granted _).1 (granted _).2 = _
      rw [hrun _ htable]
    rw [hstep]
    exact hgranted _ hs' rfl
  | false => exact hrefused (hmay hb) _ hs' htable

lemma TripleIf.of_read {k : K} {f : Option (Option V) → Tx K V β}
    (hrefused : may → TripleIf may (· = t) (f none) Q)
    (hread : TripleIf may (· = t) (f (some (t k))) Q) : TripleIf may (· = t) (read k >>= f) Q := by
  refine TripleIf.of_request ?_ hrefused hread
  rintro s rfl
  rfl

lemma TripleIf.of_readAll {ks : List K} {f : Option (List (Option V)) → Tx K V β}
    (hrefused : may → TripleIf may (· = t) (f none) Q)
    (hread : TripleIf may (· = t) (f (some (ks.map t))) Q) :
    TripleIf may (· = t) (readAll ks >>= f) Q := by
  refine TripleIf.of_request ?_ hrefused hread
  rintro s rfl
  rfl

/-! The rules for an engine that may refuse anything. -/

lemma triple_iff {p : Tx K V α} : Triple P p R ↔ TripleIf True P p R :=
  ⟨fun h s _ hP => ⟨h s hP, .inl trivial⟩, fun h s hP => (h s (.inl trivial) hP).1⟩

lemma Triple.of_pure {b : β} (h : Q b t) : Triple (· = t) (Pure.pure b) Q :=
  triple_iff.mpr (TripleIf.of_pure h)

lemma Triple.of_read {k : K} {f : Option (Option V) → Tx K V β}
    (hrefused : Triple (· = t) (f none) Q) (hread : Triple (· = t) (f (some (t k))) Q) :
    Triple (· = t) (read k >>= f) Q :=
  triple_iff.mpr (.of_read (fun _ => triple_iff.mp hrefused) (triple_iff.mp hread))

section Writes

variable [DecidableEq K] {k : K} {f : Bool → Tx K V β}

lemma TripleIf.of_write {v : V} (hrefused : may → TripleIf may (· = t) (f false) Q)
    (hwritten : TripleIf may (· = update t k (some v)) (f true) Q) :
    TripleIf may (· = t) (write k v >>= f) Q := by
  refine TripleIf.of_request ?_ hrefused hwritten
  rintro s rfl
  rfl

lemma TripleIf.of_delete (hrefused : may → TripleIf may (· = t) (f false) Q)
    (hdeleted : TripleIf may (· = update t k none) (f true) Q) :
    TripleIf may (· = t) (delete k >>= f) Q := by
  refine TripleIf.of_request ?_ hrefused hdeleted
  rintro s rfl
  rfl

/-- A refused write leaves some entries written: what follows must hold from any table. -/
lemma TripleIf.of_writeAll {entries : List (K × V)}
    (hrefused : may → ∀ t', TripleIf may (· = t') (f false) Q)
    (hwritten : TripleIf may (· = putAll t entries) (f true) Q) :
    TripleIf may (· = t) (writeAll entries >>= f) Q := by
  induction entries generalizing t with
  | nil => exact hwritten
  | cons e rest ih =>
    rw [writeAll, bind_assoc]
    exact TripleIf.of_write (fun hmay => hrefused hmay t) (ih hwritten)

lemma TripleIf.of_deleteAll {ks : List K}
    (hrefused : may → ∀ t', TripleIf may (· = t') (f false) Q)
    (hdeleted : TripleIf may (· = dropAll t ks) (f true) Q) :
    TripleIf may (· = t) (deleteAll ks >>= f) Q := by
  induction ks generalizing t with
  | nil => exact hdeleted
  | cons k rest ih =>
    rw [deleteAll, bind_assoc]
    exact TripleIf.of_delete (fun hmay => hrefused hmay t) (ih hdeleted)

lemma Triple.of_write {v : V} (hrefused : Triple (· = t) (f false) Q)
    (hwritten : Triple (· = update t k (some v)) (f true) Q) :
    Triple (· = t) (write k v >>= f) Q :=
  triple_iff.mpr (.of_write (fun _ => triple_iff.mp hrefused) (triple_iff.mp hwritten))

lemma Triple.of_delete (hrefused : Triple (· = t) (f false) Q)
    (hdeleted : Triple (· = update t k none) (f true) Q) :
    Triple (· = t) (delete k >>= f) Q :=
  triple_iff.mpr (.of_delete (fun _ => triple_iff.mp hrefused) (triple_iff.mp hdeleted))

end Writes

/-! ## Running a script -/

/-- Opens a transaction, runs the script and ends it the way the script says.  `refused` is what
the caller returns when no transaction could be opened. -/
def runTx (refused : α) (p : Tx K V (TxEnd α)) (t : Table K V) (outcomes : List Bool) :
    α × Table K V :=
  let (opened, s) := outcome { table := t, outcomes := outcomes }
  if opened then
    match p s with
    | (.abort ret, _) => (ret, t)
    | (.commit onOk onError, s') => if (outcome s').1 then (onOk, s'.table) else (onError, t)
  else (refused, t)

/-- The two ways a script started at `t` may end, against what its caller then sees: an aborted
transaction, or one whose commit is refused, leaves `t`. -/
def Settles (t : Table K V) (R : α → Table K V → Prop) : TxEnd α → Table K V → Prop
  | .abort ret, _ => R ret t
  | .commit onOk onError, t' => R onOk t' ∧ R onError t

/-- `Settles` for an engine that refuses requests only if it may. -/
def SettlesIf (may : Prop) (t : Table K V) (R : α → Table K V → Prop) :
    TxEnd α → Table K V → Prop
  | .abort ret, _ => R ret t
  | .commit onOk onError, t' => R onOk t' ∧ (may → R onError t)

variable {p : Tx K V (TxEnd α)} {refused : α} {outcomes : List Bool}

/-- A transaction ends in a table the script reached or in the one it started from, and returns
a value the script named for that end. -/
lemma runTx_settlesIf (hp : TripleIf may (· = t) p (SettlesIf may t R))
    (hrefused : may → R refused t) (hgrants : Grants may outcomes) :
    R (runTx refused p t outcomes).1 (runTx refused p t outcomes).2 := by
  unfold runTx
  have hopen := outcome_grants (K := K) (V := V) (s := ⟨t, outcomes⟩) hgrants
  have htable := outcome_table (K := K) (V := V) ⟨t, outcomes⟩
  generalize outcome (K := K) (V := V) ⟨t, outcomes⟩ = r at hopen htable ⊢
  obtain ⟨opened, s⟩ := r
  cases opened with
  | false => exact hrefused (hopen.2 rfl)
  | true =>
    simp only [if_true]
    obtain ⟨hq, hs'⟩ := hp s hopen.1 htable
    generalize p s = e at hq hs'
    obtain ⟨ret | ⟨onOk, onError⟩, s'⟩ := e
    · exact hq
    · dsimp only
      cases hb : (outcome s').1 with
      | true => exact hq.1
      | false => exact hq.2 ((outcome_grants hs').2 hb)

lemma runTx_settles (hp : Triple (· = t) p (Settles t R)) (hrefused : R refused t)
    (outcomes : List Bool) : R (runTx refused p t outcomes).1 (runTx refused p t outcomes).2 := by
  have hsettles : Settles t R = SettlesIf True t R := by
    funext e t'
    cases e <;> simp only [Settles, SettlesIf, true_implies]
  rw [hsettles] at hp
  exact runTx_settlesIf (triple_iff.mp hp) (fun _ => hrefused) (.inl trivial)

/-! When the engine answers every request, a script of reads is evaluated from the table. -/

lemma runTx_read_answered (refused : α) (k : K) (f : Option (Option V) → Tx K V (TxEnd α))
    (t : Table K V) : runTx refused (read k >>= f) t [] = runTx refused (f (some (t k))) t [] :=
  rfl

lemma runTx_commit_answered (refused onOk onError : α) (t : Table K V) :
    runTx refused (Pure.pure (TxEnd.commit onOk onError)) t [] = (onOk, t) :=
  rfl

end Tx

end EloqKV.Lib
