import ZHyper.Lib.Prog

/-!
# Programs with variables of their own

`StateT σ Prog` is a sequential program on memory with variables `σ` outside it.  `swp Q p s m`:
from the variables `s` and the memory `m` the program `p` neither panics nor diverges, and returns
some `x` with `Q x s' m'`.  A loop over consecutive numbers (`forUp`) keeps what each round keeps
(`swp_forUp`).
-/

namespace LowLevel

namespace Prog

variable {σ α β : Type}

def swp (Q : α → σ → Mem → Prop) (p : StateT σ Prog α) (s : σ) (m : Mem) : Prop :=
  (p.run s).wp (fun _ => True) (fun r m' => Q r.1 r.2 m') m

variable {Q Q' : α → σ → Mem → Prop} {s : σ} {m : Mem}

theorem swp_mono {p : StateT σ Prog α} (h : swp Q p s m) (hQ : ∀ x s' m', Q x s' m' → Q' x s' m') :
    swp Q' p s m :=
  wp_mono h fun _ _ => hQ _ _ _

theorem swp_bind {Q : β → σ → Mem → Prop} (p : StateT σ Prog α) (f : α → StateT σ Prog β) :
    swp Q (p >>= f) s m ↔ swp (fun x => swp Q (f x)) p s m :=
  wp_bind (p.run s) (fun r => (f r.1).run r.2) m

@[simp] theorem swp_pure (x : α) : swp Q (pure x) s m ↔ Q x s m := Iff.rfl

@[simp] theorem swp_get {Q : σ → σ → Mem → Prop} : swp Q get s m ↔ Q s s m := Iff.rfl

@[simp] theorem swp_set {Q : Unit → σ → Mem → Prop} (t : σ) : swp Q (set t) s m ↔ Q () t m :=
  Iff.rfl

@[simp] theorem swp_modify {Q : Unit → σ → Mem → Prop} (f : σ → σ) : swp Q (modify f) s m ↔
    Q () (f s) m := Iff.rfl

/-- A program that leaves the variables alone. -/
theorem swp_lift (p : Prog α) : swp Q (liftM p) s m ↔ p.wp (fun _ => True) (fun x => Q x s) m :=
  wp_bind p (fun x => pure (x, s)) m

/-- What `swp` says of the run. -/
theorem swp_exec {p : StateT σ Prog α} (h : swp Q p s m) :
    ∃ x s' m', (p.run s).exec m = .ret (x, s') m' ∧ Q x s' m' := by
  obtain ⟨⟨x, s'⟩, m', he, hQ⟩ := wp_exec h
  exact ⟨x, s', m', he, hQ⟩

theorem exec_read_bind (w a : Nat) (f : Nat → Prog β) :
    (read w a >>= f).exec m = (f (m.load w a)).exec m := rfl

theorem run_bind (p : StateT σ Prog α) (f : α → StateT σ Prog β) :
    (p >>= f).run s = p.run s >>= fun r => (f r.1).run r.2 := rfl

theorem run_lift (p : Prog α) : (liftM p : StateT σ Prog α).run s = p >>= fun x => pure (x, s) :=
  rfl

theorem exec_bind_panic {p : Prog α} {f : α → Prog β} {m' : Mem} {msg : String}
    (h : p.exec m = .panic msg m') :
    (p >>= f).exec m = .panic msg m' := by
  show (p.bind f).exec m = _
  induction p generalizing m with
  | ret x => cases h
  | panic msg =>
    injection h with h1 h2
    subst h1 h2
    rfl
  | diverge => cases h
  | load w a k ih => exact ih _ h
  | store w a v k ih => exact ih h

/-- `for (; n > 0; i++, n--) body(i);` -/
def forUp (body : Nat → StateT σ Prog Unit) : (n i : Nat) → StateT σ Prog Unit
  | 0, _ => pure ()
  | n + 1, i => do
    body i
    forUp body n (i + 1)

theorem swp_forUp {body : Nat → StateT σ Prog Unit} {I : Nat → σ → Mem → Prop} {n i : Nat}
    (hbody : ∀ j s m, i ≤ j → j < i + n → I j s m → swp (fun _ => I (j + 1)) (body j) s m)
    (h : I i s m) :
    swp (fun _ => I (i + n)) (forUp body n i) s m := by
  induction n generalizing i s m with
  | zero => exact h
  | succ n ih =>
    rw [forUp, swp_bind]
    refine swp_mono (hbody i s m (Nat.le_refl i) (by omega) h) fun _ s' m' h' => ?_
    have := ih (fun j s m hij hj => hbody j s m (by omega) (by omega)) h'
    rwa [Nat.add_right_comm, Nat.add_assoc] at this

end Prog

end LowLevel
