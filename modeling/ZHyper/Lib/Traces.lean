import Mathlib.Logic.Basic

/-!
# Traces of deterministic machines

A machine answers each request and goes on to its next state.  `trace` lists the answers with the
states after them, and `Along` says something of every request with the state that it meets.
Machines that agree on the states have one trace just when they agree on every answer along the run
(`trace_eq_iff`).
-/

namespace LowLevel

variable {ο σ ρ : Type*} {step step' : ο → σ → ρ × σ} {P Q : ο → σ → Prop}

def trace (step : ο → σ → ρ × σ) : List ο → σ → List (ρ × σ)
  | [], _ => []
  | op :: ops, s => step op s :: trace step ops (step op s).2

def Along (step : ο → σ → ρ × σ) (P : ο → σ → Prop) : List ο → σ → Prop
  | [], _ => True
  | op :: ops, s => P op s ∧ Along step P ops (step op s).2

theorem along_congr (h : ∀ op s, P op s ↔ Q op s) (ops : List ο) (s : σ) :
    Along step P ops s ↔ Along step Q ops s := by
  induction ops generalizing s with
  | nil => exact Iff.rfl
  | cons op ops ih => exact and_congr (h op s) (ih _)

/-- The states after the requests. -/
theorem trace_states (hnext : ∀ op s, (step op s).2 = (step' op s).2) (ops : List ο) (s : σ) :
    (trace step ops s).map Prod.snd = (trace step' ops s).map Prod.snd := by
  induction ops generalizing s with
  | nil => rfl
  | cons op ops ih =>
    rw [trace, trace, List.map_cons, List.map_cons, ih, hnext]

theorem trace_eq_iff (hnext : ∀ op s, (step op s).2 = (step' op s).2) (ops : List ο) (s : σ) :
    trace step ops s = trace step' ops s ↔
      Along step' (fun op s => (step op s).1 = (step' op s).1) ops s := by
  induction ops generalizing s with
  | nil => exact iff_of_true rfl trivial
  | cons op ops ih =>
    rw [trace, trace, Along, List.cons.injEq, Prod.ext_iff, hnext, ih]
    simp

end LowLevel
