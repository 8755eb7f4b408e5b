import Mathlib.Logic.Basic

/-!
# Stateful programs that may fault

`EStateM φ σ`: a program that changes a state and may stop with a fault.
`bind_run` and `bind_fault` run a sequence one step at a time; `bind_ok_iff` takes
a sequence that returned apart; a program that returns has one result (`run_unique`).
`Keeps P x`: if `x` returns, `P` holds after it if it held before.  `Ends G P x Q`: from
`P`, `x` returns with `Q`, or faults because `G` fails.  The rules of both follow the
program.  `onPart` runs a program on a part of the state.
-/

namespace LowLevel

variable {φ σ α β : Type} {s s' : σ} {x : EStateM φ σ α} {f : α → EStateM φ σ β}

theorem bind_run {a : α} (h : x s = .ok a s') : (x >>= f) s = f a s' := by
  show EStateM.bind x f s = f a s'
  simp only [EStateM.bind, h]

theorem bind_fault {e : φ} (h : x s = .error e s') : (x >>= f) s = .error e s' := by
  show EStateM.bind x f s = .error e s'
  simp only [EStateM.bind, h]

theorem bind_ok_iff {b : β} : (x >>= f) s = .ok b s' ↔ ∃ a t, x s = .ok a t ∧ f a t = .ok b s' := by
  cases hx : x s with
  | ok a t =>
    rw [bind_run hx]
    constructor
    · intro h
      exact ⟨a, t, rfl, h⟩
    · rintro ⟨a', t', h1, h2⟩
      cases h1
      exact h2
  | error e t =>
    rw [bind_fault hx]
    constructor
    · intro h
      cases h
    · rintro ⟨a', t', h1, -⟩
      cases h1

theorem bind_run_eq {y : EStateM φ σ α} (h : x s = y s') : (x >>= f) s = (y >>= f) s' := by
  show EStateM.bind x f s = EStateM.bind y f s'
  simp only [EStateM.bind, h]

theorem bind_get {g : σ → EStateM φ σ β} : ((get : EStateM φ σ σ) >>= g) s = g s s := rfl

theorem run_unique {a b : α} {t : σ} (h : x s = .ok a s') (h' : x s = .ok b t) : t = s' := by
  rw [h] at h'
  cases h'
  rfl

/-- A program that returns has one end. -/
theorem exists_run_iff {a : α} (h : x s = .ok a s') {Q : σ → Prop} : (∃ t, x s = .ok a t ∧ Q t) ↔
    Q s' := by
  constructor
  · rintro ⟨t, ht, hQ⟩
    rwa [run_unique h ht] at hQ
  · intro hQ
    exact ⟨s', h, hQ⟩

def Keeps (P : σ → Prop) (x : EStateM φ σ α) : Prop := ∀ s a s', P s → x s = .ok a s' → P s'

variable {P : σ → Prop}

theorem Keeps.bind (hx : Keeps P x) (hf : ∀ a, Keeps P (f a)) : Keeps P (x >>= f) := by
  intro s b s' hs h
  obtain ⟨a, t, h1, h2⟩ := bind_ok_iff.mp h
  exact hf a t b s' (hx s a t hs h1) h2

theorem Keeps.pure (a : α) : Keeps P (pure a : EStateM φ σ α) := by
  intro s b s' hs h
  cases h
  exact hs

theorem Keeps.throw (e : φ) : Keeps P (throw e : EStateM φ σ α) := by
  intro s b s' _ h
  cases h

theorem Keeps.get : Keeps P (get : EStateM φ σ σ) := by
  intro s b s' hs h
  cases h
  exact hs

theorem Keeps.modify {g : σ → σ} (hg : ∀ s, P s → P (g s)) :
    Keeps P (modify g : EStateM φ σ Unit) := by
  intro s b s' hs h
  cases h
  exact hg s hs

theorem Keeps.ite {c : Prop} [Decidable c] {x y : EStateM φ σ α} (hx : Keeps P x) (hy : Keeps P y) :
    Keeps P (if c then x else y) := by
  split
  · exact hx
  · exact hy

/-- From `P`, `x` returns and `Q` holds, or it faults and the assumption `G` fails. -/
def Ends (G : Prop) (P : σ → Prop) (x : EStateM φ σ α) (Q : α → σ → Prop) : Prop :=
  ∀ s, P s → (∃ a s', x s = .ok a s' ∧ Q a s') ∨ ¬ G ∧ ∃ e s', x s = .error e s'

variable {G : Prop} {Q : α → σ → Prop} {R : β → σ → Prop}

theorem Ends.bind (hx : Ends G P x Q) (hf : ∀ a, Ends G (Q a) (f a) R) : Ends G P (x >>= f) R := by
  intro s hs
  rcases hx s hs with ⟨a, t, hrun, ha⟩ | ⟨hG, e, t, hrun⟩
  · rw [bind_run hrun]
    exact hf a t ha
  · exact .inr ⟨hG, e, t, bind_fault hrun⟩

theorem Ends.pure {a : α} (h : ∀ s, P s → Q a s) : Ends G P (pure a : EStateM φ σ α) Q :=
  fun s hs => .inl ⟨a, s, rfl, h s hs⟩

theorem Ends.modify {g : σ → σ} {Q : σ → Prop} (h : ∀ s, P s → Q (g s)) :
    Ends G P (modify g : EStateM φ σ Unit) fun _ => Q :=
  fun s hs => .inl ⟨(), g s, rfl, h s hs⟩

theorem Ends.get {Q : σ → σ → Prop} (h : ∀ s, P s → Q s s) : Ends G P (get : EStateM φ σ σ) Q :=
  fun s hs => .inl ⟨s, s, rfl, h s hs⟩

theorem Ends.ite {c : Prop} [Decidable c] {x y : EStateM φ σ α} (hx : c → Ends G P x Q)
    (hy : ¬ c → Ends G P y Q) :
    Ends G P (if c then x else y) Q := by
  by_cases hc : c
  · rw [if_pos hc]
    exact hx hc
  · rw [if_neg hc]
    exact hy hc

theorem Ends.returns (h : Ends G P x Q) (hG : G) (hs : P s) : ∃ a s', x s = .ok a s' ∧ Q a s' :=
  (h s hs).resolve_right fun hfault => hfault.1 hG

theorem Ends.of_ok (h : Ends G P x Q) (hs : P s) {a : α} (hrun : x s = .ok a s') : Q a s' := by
  rcases h s hs with ⟨b, t, hrun', hb⟩ | ⟨-, e, t, hrun'⟩
  · rw [hrun] at hrun'
    cases hrun'
    exact hb
  · rw [hrun] at hrun'
    cases hrun'

/-! ### A part of the state -/

section part

variable {ε τ : Type} (read : σ → τ) (write : τ → σ → σ) (fault : ε → φ)

/-- `x` on the part of the state that `read` and `write` are about. -/
def onPart (x : EStateM ε τ α) : EStateM φ σ α := fun s =>
  match x (read s) with
  | .ok a t => .ok a (write t s)
  | .error e t => .error (fault e) (write t s)

variable {read write fault} {x : EStateM ε τ α} {a : α} {t : τ}

theorem onPart_run (h : x (read s) = .ok a t) :
    onPart read write fault x s = .ok a (write t s) := by
  simp only [onPart, h]

end part

end LowLevel
