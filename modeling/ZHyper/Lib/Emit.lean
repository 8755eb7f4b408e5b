import Mathlib.Logic.Basic

/-!
# Programs that take arguments and emit output

`Emit ε ι ω α` is a program that takes its arguments from a list of `ι` one at a time, emits a list
of `ω`, and ends with a fault or a result.  What follows emits behind what was emitted and takes
what was left (`bind_of_ok`); output emitted in two parts is one output (`emit_emit`).  `Results R
p` says what `p` can return.
-/

namespace LowLevel

/-- The end of a program without a fault: its result, its output and the arguments it left. -/
structure Emitted (ι ω α : Type) where
  result : α
  out : List ω
  rest : List ι

def Emit (ε ι ω α : Type) : Type := List ι → Except ε (Emitted ι ω α)

namespace Emit

variable {ε ι ω α β γ : Type}

def bind (p : Emit ε ι ω α) (f : α → Emit ε ι ω β) : Emit ε ι ω β := fun args =>
  match p args with
  | .error e => .error e
  | .ok r =>
    match f r.result r.rest with
    | .error e => .error e
    | .ok r' => .ok ⟨r'.result, r.out ++ r'.out, r'.rest⟩

instance : Monad (Emit ε ι ω) where
  pure x := fun args => .ok ⟨x, [], args⟩
  bind := bind

def fault (e : ε) : Emit ε ι ω α := fun _ => .error e

def emit (out : List ω) : Emit ε ι ω Unit := fun args => .ok ⟨(), out, args⟩

/-- The next argument; without one, the fault `e`. -/
def next (e : ε) : Emit ε ι ω ι
  | [] => .error e
  | a :: args => .ok ⟨a, [], args⟩

variable {p : Emit ε ι ω α} {f : α → Emit ε ι ω β} {args rest : List ι}

theorem pure_run (x : α) : (pure x : Emit ε ι ω α) args = .ok ⟨x, [], args⟩ := rfl

theorem bind_of_ok {r : Emitted ι ω α} (h : p args = .ok r) :
    (p >>= f) args =
      match f r.result r.rest with
      | .error e => .error e
      | .ok r' => .ok ⟨r'.result, r.out ++ r'.out, r'.rest⟩ := by
  show bind p f args = _
  rw [bind, h]

theorem bind_of_error {e : ε} (h : p args = .error e) : (p >>= f) args = .error e := by
  show bind p f args = _
  rw [bind, h]

/-- Two programs that both end without a fault. -/
theorem bind_ok {x : α} {y : β} {o o' : List ω} {rest' : List ι} (h : p args = .ok ⟨x, o, rest⟩)
    (h' : f x rest = .ok ⟨y, o', rest'⟩) : (p >>= f) args = .ok ⟨y, o ++ o', rest'⟩ := by
  rw [bind_of_ok h, h']

theorem bind_fault {x : α} {o : List ω} {e : ε} (h : p args = .ok ⟨x, o, rest⟩)
    (h' : f x rest = .error e) :
    (p >>= f) args = .error e := by
  rw [bind_of_ok h, h']

instance : LawfulMonad (Emit ε ι ω) := by
  refine LawfulMonad.mk' _ ?_ ?_ ?_
  · intro α p
    funext args
    show bind p pure args = p args
    rw [bind]
    cases p args with
    | error e => rfl
    | ok r =>
      show Except.ok (Emitted.mk r.result (r.out ++ []) r.rest) = .ok r
      rw [List.append_nil]
  · intro α β x f
    funext args
    show bind (pure x) f args = f x args
    rw [bind, pure_run]
    cases hf : f x args with
    | error e => simp only [hf]
    | ok r => simp only [hf, List.nil_append]
  · intro α β γ p f g
    funext args
    show bind (bind p f) g args = bind p (fun x => bind (f x) g) args
    simp only [bind]
    cases p args with
    | error e => rfl
    | ok r =>
      simp only []
      cases f r.result r.rest with
      | error e => rfl
      | ok r' =>
        simp only []
        cases g r'.result r'.rest with
        | error e => rfl
        | ok r'' => simp only [List.append_assoc]

theorem emit_emit (o o' : List ω) :
    (emit o >>= fun _ => emit o' : Emit ε ι ω Unit) = emit (o ++ o') := rfl

theorem emit_bind (o o' : List ω) (f : Unit → Emit ε ι ω α) :
    (emit o >>= fun _ => emit o' >>= f) = emit (o ++ o') >>= f := by
  rw [← emit_emit, bind_assoc]

/-- Whatever `p` returns satisfies `R`. -/
def Results (R : α → Prop) (p : Emit ε ι ω α) : Prop := ∀ args r, p args = .ok r → R r.result

theorem Results.any (p : Emit ε ι ω α) : Results (fun _ => True) p := fun _ _ _ => trivial

theorem Results.pure {R : α → Prop} {x : α} (h : R x) : Results R (Pure.pure x : Emit ε ι ω α) := by
  intro args r hr
  cases hr
  exact h

/-- The result of a sequence is the result of its end. -/
theorem Results.bind {Q : α → Prop} {R : β → Prop} (hp : Results Q p)
    (hf : ∀ x, Q x → Results R (f x)) :
    Results R (p >>= f) := by
  intro args r h
  cases hpa : p args with
  | error e =>
    rw [bind_of_error hpa] at h
    cases h
  | ok q =>
    rw [bind_of_ok hpa] at h
    cases hfa : f q.result q.rest with
    | error e =>
      rw [hfa] at h
      cases h
    | ok r' =>
      rw [hfa] at h
      cases h
      exact hf _ (hp args q hpa) _ r' hfa

/-- Programs that do the same with the results `p` can have do the same behind `p`. -/
theorem Results.bind_congr {g : α → Emit ε ι ω β} {R : α → Prop} (hR : Results R p)
    (h : ∀ x, R x → f x = g x) :
    p >>= f = p >>= g := by
  funext args
  cases hp : p args with
  | error e => rw [bind_of_error hp, bind_of_error hp]
  | ok r => rw [bind_of_ok hp, bind_of_ok hp, h _ (hR args r hp)]

end Emit

end LowLevel
