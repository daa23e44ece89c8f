/-
  Runs of a deterministic transition function, with a guard on every step.

  An input carries everything the step does not decide itself, so "every interleaving" is "every
  list of inputs".  `GuardedRun step guard s₀ h s` says that the inputs `h`, oldest first, lead
  from `s₀` to `s` and that each of them met `guard`, which also sees the inputs before it.
-/
import Mathlib

namespace EloqKV.Lib

variable {σ ι : Type*}

/-- The inputs `h`, oldest first, lead from `s₀` to the second index, each of them under `guard`. -/
inductive GuardedRun (step : σ → ι → σ) (guard : List ι → σ → ι → Prop) (s₀ : σ) :
    List ι → σ → Prop
  | init : GuardedRun step guard s₀ [] s₀
  | step {h : List ι} {s : σ} {i : ι} :
      GuardedRun step guard s₀ h s → guard h s i → GuardedRun step guard s₀ (h ++ [i]) (step s i)

namespace GuardedRun

variable {step : σ → ι → σ} {guard : List ι → σ → ι → Prop} {s₀ s : σ} {h : List ι}

/-- **The invariant rule.** What holds at the start and is kept by guarded steps holds in every run.
-/
theorem invariant (inv : List ι → σ → Prop) (hinit : inv [] s₀)
    (hstep : ∀ h s i, inv h s → guard h s i → inv (h ++ [i]) (step s i))
    (hr : GuardedRun step guard s₀ h s) : inv h s := by
  induction hr with
  | init => exact hinit
  | step _ hg ih => exact hstep _ _ _ ih hg

/-- Whether each of the inputs meets a test of the state it is taken in. -/
def checked (step : σ → ι → σ) (test : σ → ι → Bool) : σ → List ι → Bool
  | _, [] => true
  | s, i :: is => test s i && checked step test (step s i) is

lemma append_of_checked {test : σ → ι → Bool} (is : List ι) :
    ∀ {h : List ι} {s : σ}, GuardedRun step (fun _ s i => test s i = true) s₀ h s →
      checked step test s is = true →
      GuardedRun step (fun _ s i => test s i = true) s₀ (h ++ is) (is.foldl step s) := by
  induction is with
  | nil =>
    intro h s hr _
    rwa [List.append_nil]
  | cons i is ih =>
    intro h s hr hcheck
    rw [checked, Bool.and_eq_true] at hcheck
    have hnext := ih (hr.step hcheck.1) hcheck.2
    rwa [List.append_assoc] at hnext

lemma of_checked {test : σ → ι → Bool} {is : List ι} (hcheck : checked step test s₀ is = true) :
    GuardedRun step (fun _ s i => test s i = true) s₀ is (is.foldl step s₀) :=
  append_of_checked is .init hcheck

end GuardedRun

end EloqKV.Lib
