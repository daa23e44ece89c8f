/-
  Programs that reach a keyed store only through point reads and point writes.

  A store is the list of its records in the order of a scan.  A `KeyProg` is any computation whose
  next access may depend on what it has read so far.  It names keys of its own kind; `run` sends
  them through `phys` to the physical keys of the store and records those it touched.
-/
import Mathlib

namespace EloqKV.Lib

variable {P V : Type} [DecidableEq P]

/-- The records of a store in scan order. -/
abbrev Records (P V : Type) := List (P × V)

namespace Records

def lookup (s : Records P V) (p : P) : Option V :=
  (s.find? fun x => x.1 = p).map (·.2)

/-- Stores a value under a key, in place where the key is there, at the end otherwise. -/
def insert (p : P) (v : V) : Records P V → Records P V
  | [] => [(p, v)]
  | x :: xs => if x.1 = p then (p, v) :: xs else x :: insert p v xs

/-- Stores a value under a key; `none` deletes. -/
def assign (s : Records P V) (p : P) : Option V → Records P V
  | none => s.filter fun x => x.1 ≠ p
  | some v => insert p v s

/-- The records whose key is in `S`. -/
def restrict (S : P → Bool) (s : Records P V) : Records P V :=
  s.filter fun x => S x.1

lemma lookup_restrict {S : P → Bool} {p : P} (hp : S p = true) (s : Records P V) :
    (s.restrict S).lookup p = s.lookup p := by
  induction s with
  | nil => rfl
  | cons x xs ih =>
    unfold lookup restrict at ih ⊢
    by_cases hx : x.1 = p
    · simp [hx, hp]
    · by_cases hs : S x.1 = true
      · simpa [List.filter_cons, hs, List.find?_cons, hx] using ih
      · simpa [List.filter_cons, hs, List.find?_cons, hx] using ih

lemma restrict_assign {S : P → Bool} {p : P} (hp : S p = true) (s : Records P V)
    (o : Option V) : (s.assign p o).restrict S = (s.restrict S).assign p o := by
  cases o with
  | none => simp only [assign, restrict, List.filter_filter, Bool.and_comm]
  | some v =>
    induction s with
    | nil => simp [assign, insert, restrict, hp]
    | cons x xs ih =>
      simp only [assign, insert, restrict] at ih ⊢
      by_cases hx : x.1 = p
      · simp [hx, hp, insert]
      · by_cases hs : S x.1 = true
        · simp [hx, hs, insert, ih]
        · simp [hx, hs, ih]

lemma lookup_insert (p q : P) (v : V) (s : Records P V) :
    (insert p v s).lookup q = if p = q then some v else s.lookup q := by
  induction s with
  | nil => by_cases hq : p = q <;> simp [insert, lookup, hq]
  | cons x xs ih =>
    unfold insert
    split
    · rename_i hx
      by_cases hq : p = q <;> simp [lookup, hx, hq]
    · rename_i hx
      by_cases hxq : x.1 = q
      · have hq : p ≠ q := fun h => hx (hxq.trans h.symm)
        simp [lookup, hxq, hq]
      · simpa [lookup, List.find?_cons, hxq] using ih

lemma lookup_assign (p q : P) (o : Option V) (s : Records P V) :
    (s.assign p o).lookup q = if p = q then o else s.lookup q := by
  cases o with
  | some v => exact lookup_insert p q v s
  | none =>
    induction s with
    | nil => simp [assign, lookup]
    | cons x xs ih =>
      by_cases hxp : x.1 = p
      · rw [show assign (x :: xs) p none = assign xs p none by simp [assign, hxp], ih]
        by_cases hq : p = q <;> simp [lookup, hxp, hq]
      · rw [show assign (x :: xs) p none = x :: assign xs p none by simp [assign, hxp]]
        by_cases hxq : x.1 = q
        · have hq : p ≠ q := fun h => hxp (hxq.trans h.symm)
          simp [lookup, hxq, hq]
        · simpa [lookup, List.find?_cons, hxq] using ih

end Records

/-! ## Lists of writes -/

section Writes
variable {K : Type} [DecidableEq K]

/-- What the newest write to a key left there, if there was one. -/
def lastWrite (log : List (K × Option V)) (k : K) : Option (Option V) :=
  (log.find? fun w => w.1 = k).map (·.2)

/-- The contents `base` with some writes laid over them, the newest first. -/
def overlay (log : List (K × Option V)) (base : K → Option V) (k : K) : Option V :=
  (lastWrite log k).getD (base k)

lemma overlay_append (log log' : List (K × Option V)) (base : K → Option V) :
    overlay (log ++ log') base = overlay log (overlay log' base) := by
  funext k
  unfold overlay lastWrite
  rw [List.find?_append]
  cases log.find? fun w => w.1 = k <;> rfl

lemma overlay_singleton (k k' : K) (o : Option V) (base : K → Option V) :
    overlay [(k, o)] base k' = if k = k' then o else base k' := by
  unfold overlay lastWrite
  by_cases hk : k = k' <;> simp [hk]

end Writes

/-! ## Programs -/

/-- A computation on single keys; what it does next may depend on what it read. -/
inductive KeyProg (K V R : Type) where
  | ret (r : R)
  | get (key : K) (next : Option V → KeyProg K V R)
  | put (key : K) (value : Option V) (next : KeyProg K V R)

/-- What a run leaves behind: its reply, the store, and the physical keys it read and wrote. -/
structure Effect (P V R : Type) where
  reply : R
  records : Records P V
  reads : P → Bool
  writes : P → Bool

namespace KeyProg

variable {K R : Type} (phys : K → P)

/-- Runs a program; `phys` gives the physical key of a key. -/
def run : KeyProg K V R → Records P V → Effect P V R
  | .ret r, s => ⟨r, s, fun _ => false, fun _ => false⟩
  | .get key next, s =>
    let e := (next (s.lookup (phys key))).run s
    { e with reads := fun p => p = phys key || e.reads p }
  | .put key value next, s =>
    let e := next.run (s.assign (phys key) value)
    { e with writes := fun p => p = phys key || e.writes p }

lemma run_footprint {S : P → Bool} (hS : ∀ k, S (phys k) = true) (prog : KeyProg K V R)
    (s : Records P V) :
    (∀ p, (prog.run phys s).reads p = true → S p = true) ∧
      ∀ p, (prog.run phys s).writes p = true → S p = true := by
  induction prog generalizing s with
  | ret r => simp [run]
  | get key next ih =>
    obtain ⟨hr, hw⟩ := ih (s.lookup (phys key)) s
    refine ⟨fun p hp => ?_, hw⟩
    rcases Bool.or_eq_true _ _ ▸ hp with h | h
    · rw [of_decide_eq_true h]
      exact hS key
    · exact hr p h
  | put key value next ih =>
    obtain ⟨hr, hw⟩ := ih (s.assign (phys key) value)
    refine ⟨hr, fun p hp => ?_⟩
    rcases Bool.or_eq_true _ _ ▸ hp with h | h
    · rw [of_decide_eq_true h]
      exact hS key
    · exact hw p h

/-- **Locality.** Stores that agree in `S` give the same reply and agree in `S` at the end. -/
theorem run_local {S : P → Bool} (hS : ∀ k, S (phys k) = true) (prog : KeyProg K V R)
    {s s' : Records P V} (hs : s.restrict S = s'.restrict S) :
    (prog.run phys s).reply = (prog.run phys s').reply ∧
      (prog.run phys s).records.restrict S = (prog.run phys s').records.restrict S := by
  induction prog generalizing s s' with
  | ret r => exact ⟨rfl, hs⟩
  | get key next ih =>
    have hl : s.lookup (phys key) = s'.lookup (phys key) := by
      rw [← Records.lookup_restrict (hS key) s, hs, Records.lookup_restrict (hS key) s']
    obtain ⟨h₁, h₂⟩ := ih (s.lookup (phys key)) hs
    simp only [run]
    rw [← hl]
    exact ⟨h₁, h₂⟩
  | put key value next ih =>
    refine ih ?_
    rw [Records.restrict_assign (hS key), Records.restrict_assign (hS key), hs]

/-- The writes of a run, the newest first. -/
def written : KeyProg K V R → Records P V → List (K × Option V)
  | .ret _, _ => []
  | .get key next, s => (next (s.lookup (phys key))).written s
  | .put key value next, s => next.written (s.assign (phys key) value) ++ [(key, value)]

theorem lookup_run [DecidableEq K] (hphys : Function.Injective phys) (prog : KeyProg K V R)
    (s : Records P V) :
    (fun k => (prog.run phys s).records.lookup (phys k)) =
      overlay (prog.written phys s) fun k => s.lookup (phys k) := by
  induction prog generalizing s with
  | ret r => rfl
  | get key next ih => exact ih _ s
  | put key value next ih =>
    unfold written
    rw [overlay_append]
    refine (ih _).trans (congrArg _ (funext fun k => ?_))
    rw [overlay_singleton, Records.lookup_assign]
    exact if_congr hphys.eq_iff rfl rfl

lemma lookup_run_of_ne {p : P} (hp : ∀ k, phys k ≠ p) (prog : KeyProg K V R)
    (s : Records P V) : (prog.run phys s).records.lookup p = s.lookup p := by
  induction prog generalizing s with
  | ret r => rfl
  | get key next ih => exact ih _ s
  | put key value next ih =>
    refine (ih _).trans ?_
    rw [Records.lookup_assign, if_neg (hp key)]

end KeyProg

end EloqKV.Lib
