import Mathlib.Data.List.Basic

/-!
# Runs of a labelled step relation

`Runs step s es t`: from `s`, the events `es` lead to `t` one step at a time.
`Runs.invariant` is the induction every safety theorem goes through.
-/

namespace LowLevel

variable {σ ε : Type*} {step : σ → ε → σ → Prop}

inductive Runs (step : σ → ε → σ → Prop) : σ → List ε → σ → Prop where
  | nil (s : σ) : Runs step s [] s
  | cons {s t u : σ} {e : ε} {es : List ε} :
      step s e t → Runs step t es u → Runs step s (e :: es) u

theorem Runs.invariant {I : σ → Prop} (hstep : ∀ s e t, I s → step s e t → I t) {s t : σ}
    {es : List ε} (h : Runs step s es t) (hs : I s) : I t := by
  induction h with
  | nil s => exact hs
  | cons h1 _ ih => exact ih (hstep _ _ _ hs h1)

theorem Runs.single {s t : σ} {e : ε} (h : step s e t) : Runs step s [e] t := .cons h (.nil t)

theorem Runs.append {s t u : σ} {es es' : List ε} (h : Runs step s es t) (h' : Runs step t es' u) :
    Runs step s (es ++ es') u := by
  induction h with
  | nil s => exact h'
  | cons h1 _ ih => exact .cons h1 (ih h')

theorem Runs.mono {step' : σ → ε → σ → Prop} (hstep : ∀ s e t, step s e t → step' s e t) {s t : σ}
    {es : List ε} (h : Runs step s es t) : Runs step' s es t := by
  induction h with
  | nil s => exact .nil s
  | cons h1 _ ih => exact .cons (hstep _ _ _ h1) ih

theorem Runs.restrict {P : ε → Prop} {s t : σ} {es : List ε} (h : Runs step s es t)
    (hP : ∀ e ∈ es, P e) :
    Runs (fun s e t => step s e t ∧ P e) s es t := by
  induction h with
  | nil s => exact .nil s
  | cons h1 _ ih =>
    exact .cons ⟨h1, hP _ List.mem_cons_self⟩ (ih fun e he => hP e (List.mem_cons_of_mem _ he))

/-- A run splits where its events do. -/
theorem Runs.split {s u : σ} {es es' : List ε} (h : Runs step s (es ++ es') u) :
    ∃ t, Runs step s es t ∧ Runs step t es' u := by
  induction es generalizing s with
  | nil => exact ⟨s, .nil s, h⟩
  | cons e es ih =>
    cases h with
    | cons h1 h2 =>
      obtain ⟨t, h2, h3⟩ := ih h2
      exact ⟨t, .cons h1 h2, h3⟩

/-- **Simulation.**  If each step is matched by a run with the same visible events, so is each
run. -/
theorem Runs.simulate {τ δ ω : Type*} {step' : τ → δ → τ → Prop} {Rel : σ → τ → Prop}
    {vis : ε → Option ω} {vis' : δ → Option ω}
    (hstep : ∀ s a e s', Rel s a → step s e s' →
      ∃ fs a', Runs step' a fs a' ∧ fs.filterMap vis' = (vis e).toList ∧ Rel s' a')
    {s s' : σ} {a : τ} {es : List ε} (h : Runs step s es s') (hs : Rel s a) :
    ∃ fs a', Runs step' a fs a' ∧ fs.filterMap vis' = es.filterMap vis ∧ Rel s' a' := by
  induction h generalizing a with
  | nil s => exact ⟨[], a, .nil a, rfl, hs⟩
  | @cons s t u e es h1 _ ih =>
    obtain ⟨fs, b, hb, hvis, hrel⟩ := hstep _ _ _ _ hs h1
    obtain ⟨gs, a', ha', hvis', hrel'⟩ := ih hrel
    refine ⟨fs ++ gs, a', hb.append ha', ?_, hrel'⟩
    rw [List.filterMap_append, hvis, hvis', ← List.singleton_append, List.filterMap_append]
    cases he : vis e <;> simp [he]

/-- **Variant.**  Where each of the counted events brings `m` down, there are no more of them than
`m`. -/
theorem Runs.count_le {I : σ → Prop} {m : σ → Nat} {p : ε → Bool} {s t : σ} {es : List ε}
    (h : Runs step s es t)
    (hstep : ∀ s e t, e ∈ es → I s → step s e t → I t ∧ m t + (if p e then 1 else 0) ≤ m s)
    (hs : I s) :
    I t ∧ m t + es.countP p ≤ m s := by
  induction h with
  | nil s => exact ⟨hs, Nat.le_refl _⟩
  | @cons s t u e es h1 _ ih =>
    obtain ⟨ht, hm⟩ := hstep _ _ _ List.mem_cons_self hs h1
    obtain ⟨hu, hm'⟩ := ih (fun s e t he => hstep s e t (List.mem_cons_of_mem _ he)) ht
    refine ⟨hu, ?_⟩
    rw [List.countP_cons]
    omega

/-- A step, with what is seen of it written down. -/
structure Recorded {ω : Type*} (step : σ → ε → σ → Prop) (obs : σ → ε → List ω) (s : σ × List ω)
    (e : ε)
    (t : σ × List ω) : Prop where
  step : step s.1 e t.1
  record : t.2 = s.2 ++ obs s.1 e

theorem Runs.cons_recorded {ω : Type*} {obs : σ → ε → List ω} {s t : σ} {past : List ω}
    {u : σ × List ω} {e : ε} {es : List ε} (h1 : step s e t)
    (h : Runs (Recorded step obs) (t, past ++ obs s e) es u) :
    Runs (Recorded step obs) (s, past) (e :: es) u := .cons ⟨h1, rfl⟩ h

/-- Every run has its record. -/
theorem Runs.recorded {ω : Type*} (obs : σ → ε → List ω) {s t : σ} {es : List ε}
    (h : Runs step s es t)
    (past : List ω) : ∃ log, Runs (Recorded step obs) (s, past) es (t, log) := by
  induction h generalizing past with
  | nil s => exact ⟨past, .nil _⟩
  | @cons s t u e es h1 _ ih =>
    obtain ⟨log, hlog⟩ := ih (past ++ obs s e)
    exact ⟨log, .cons_recorded h1 hlog⟩

/-- An invariant of the state and of the events so far. -/
theorem Runs.history {I : List ε → σ → Prop}
    (hstep : ∀ es s e t, I es s → step s e t → I (es ++ [e]) t) {s t : σ} {es : List ε}
    (h : Runs step s es t) {past : List ε} (hs : I past s) :
      I (past ++ es) t := by
  induction h generalizing past with
  | nil s => simpa using hs
  | cons h1 _ ih =>
    have := ih (hstep _ _ _ _ hs h1)
    rwa [List.append_assoc] at this

theorem Runs.trace {I : List ε → σ → Prop}
    (hstep : ∀ es s e t, I es s → step s e t → I (es ++ [e]) t)
    {s t : σ} {es : List ε} (h : Runs step s es t) (hs : I [] s) : I es t :=
  h.history hstep hs

end LowLevel
