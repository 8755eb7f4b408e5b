import ZHyper.Lib.Bytes

/-!
# Programs as trees of memory accesses

A `Prog` is a sequential program seen from memory: it performs loads and stores
one at a time, each next one chosen from the values loaded so far, and ends by
returning, by a panic, or by using up the bound of a loop (`diverge`).  `exec`
runs it from a memory.

`wp P Q p m` is the total-correctness judgement: from `m`, every access of `p`
satisfies `P`, `p` neither panics nor diverges, and it returns some `x` in a
memory `m'` with `Q x m'`.  Straight-line code is discharged by `wp_bind`,
`wp_read` and `wp_write`, loops by induction on their bound.
-/

namespace LowLevel

inductive Access where
  | load (w a : Nat)
  | store (w a v : Nat)

inductive Prog (α : Type) where
  | ret (x : α)
  | panic (msg : String)
  | diverge
  | load (w a : Nat) (k : Nat → Prog α)
  | store (w a v : Nat) (k : Prog α)

inductive Outcome (α : Type) where
  | ret (x : α) (m : Mem)
  | panic (msg : String) (m : Mem)
  | diverge (m : Mem)

namespace Prog

variable {α β : Type}

def bind : Prog α → (α → Prog β) → Prog β
  | ret x, f => f x
  | panic s, _ => panic s
  | diverge, _ => diverge
  | load w a k, f => load w a fun v => (k v).bind f
  | store w a v k, f => store w a v (k.bind f)

instance : Monad Prog where
  pure := ret
  bind := bind

/-- Load `w` bytes at `a`. -/
def read (w a : Nat) : Prog Nat := load w a ret

/-- Store the low `w` bytes of `v` at `a`. -/
def write (w a v : Nat) : Prog Unit := store w a v (ret ())

def exec : Prog α → Mem → Outcome α
  | ret x, m => .ret x m
  | panic s, m => .panic s m
  | diverge, m => .diverge m
  | load w a k, m => (k (m.load w a)).exec m
  | store w a v k, m => k.exec (m.store w a v)

/-- The bound of a loop that goes on from address to address. -/
@[irreducible] def loopBound : Nat := 2 ^ 64

/-- Weakest precondition with a condition `P` on every access made. -/
def wp (P : Access → Prop) (Q : α → Mem → Prop) : Prog α → Mem → Prop
  | ret x, m => Q x m
  | panic _, _ => False
  | diverge, _ => False
  | load w a k, m => P (.load w a) ∧ (k (m.load w a)).wp P Q m
  | store w a v k, m => P (.store w a v) ∧ k.wp P Q (m.store w a v)

theorem bind_bind {γ : Type} (p : Prog α) (f : α → Prog β) (g : β → Prog γ) :
    p >>= f >>= g = p >>= fun x => f x >>= g := by
  show (p.bind f).bind g = p.bind fun x => (f x).bind g
  induction p with
  | ret x => rfl
  | panic s => rfl
  | diverge => rfl
  | load w a k ih => exact congrArg (load w a) (funext ih)
  | store w a v k ih => exact congrArg (store w a v) ih

variable {P : Access → Prop} {Q Q' : α → Mem → Prop}

@[simp] theorem wp_pure (x : α) (m : Mem) : (pure x : Prog α).wp P Q m ↔ Q x m := Iff.rfl

@[simp] theorem wp_read {Q : Nat → Mem → Prop} (w a : Nat) (m : Mem) :
    (read w a).wp P Q m ↔ P (.load w a) ∧ Q (m.load w a) m := Iff.rfl

@[simp] theorem wp_write {Q : Unit → Mem → Prop} (w a v : Nat) (m : Mem) :
    (write w a v).wp P Q m ↔ P (.store w a v) ∧ Q () (m.store w a v) := Iff.rfl

@[simp] theorem wp_bind (p : Prog α) (f : α → Prog β) {Q : β → Mem → Prop} (m : Mem) :
    (p >>= f).wp P Q m ↔ p.wp P (fun x m' => (f x).wp P Q m') m := by
  show (p.bind f).wp P Q m ↔ _
  induction p generalizing m with
  | ret x => rfl
  | panic s => rfl
  | diverge => rfl
  | load w a k ih => simp only [bind, wp, ih]
  | store w a v k ih => simp only [bind, wp, ih]

theorem wp_mono {p : Prog α} {m : Mem} (h : p.wp P Q m) (hQ : ∀ x m', Q x m' → Q' x m') :
    p.wp P Q' m := by
  induction p generalizing m with
  | ret x => exact hQ x m h
  | panic s => exact h
  | diverge => exact h
  | load w a k ih => exact ⟨h.1, ih _ h.2⟩
  | store w a v k ih => exact ⟨h.1, ih h.2⟩

theorem wp_access {P' : Access → Prop} {p : Prog α} {m : Mem} (h : p.wp P Q m)
    (hP : ∀ a, P a → P' a) : p.wp P' Q m := by
  induction p generalizing m with
  | ret x => exact h
  | panic s => exact h
  | diverge => exact h
  | load w a k ih => exact ⟨hP _ h.1, ih _ h.2⟩
  | store w a v k ih => exact ⟨hP _ h.1, ih h.2⟩

/-- What `wp` says of the run: the program returns, and the result is as promised. -/
theorem wp_exec {p : Prog α} {m : Mem} (h : p.wp P Q m) :
    ∃ x m', p.exec m = .ret x m' ∧ Q x m' := by
  induction p generalizing m with
  | ret x => exact ⟨x, m, rfl, h⟩
  | panic s => exact h.elim
  | diverge => exact h.elim
  | load w a k ih => exact ih _ h.2
  | store w a v k ih => exact ih h.2

/-- A program that returns satisfies `wp` for its own result. -/
theorem wp_of_exec {p : Prog α} {m m' : Mem} {x : α} (h : p.exec m = .ret x m') :
    p.wp (fun _ => True) (fun y n => y = x ∧ n = m') m := by
  induction p generalizing m with
  | ret y => injection h with h1 h2; exact ⟨h1, h2⟩
  | panic s => cases h
  | diverge => cases h
  | load w a k ih => exact ⟨trivial, ih _ h⟩
  | store w a v k ih => exact ⟨trivial, ih h⟩

/-- The postcondition of a run that returned. -/
theorem wp_ret {p : Prog α} {m m' : Mem} {x : α} (h : p.wp P Q m) (he : p.exec m = .ret x m') :
    Q x m' := by
  obtain ⟨y, n, h1, h2⟩ := wp_exec h
  rw [he] at h1
  injection h1 with h3 h4
  rw [h3, h4]
  exact h2

/-- The accesses of a run whose result is known. -/
theorem wp_run {p : Prog α} {m m' : Mem} {x : α} (h : p.wp P Q m) (he : p.exec m = .ret x m') :
    p.wp P (fun y n => y = x ∧ n = m') m := by
  induction p generalizing m with
  | ret y => injection he with h1 h2; exact ⟨h1, h2⟩
  | panic s => cases he
  | diverge => cases he
  | load w a k ih => exact ⟨h.1, ih _ h.2 he⟩
  | store w a v k ih => exact ⟨h.1, ih h.2 he⟩

/-- **Invariant.**  What every admitted store keeps holds at the end. -/
theorem wp_invariant {p : Prog α} {m : Mem} {I : Mem → Prop} (h : p.wp P Q m)
    (hP : ∀ w a v n, P (.store w a v) → I n → I (n.store w a v)) (hI : I m) :
    p.wp P (fun x m' => Q x m' ∧ I m') m := by
  induction p generalizing m with
  | ret x => exact ⟨h, hI⟩
  | panic s => exact h
  | diverge => exact h
  | load w a k ih => exact ⟨h.1, ih _ h.2 hI⟩
  | store w a v k ih => exact ⟨h.1, ih h.2 (hP w a v m h.1 hI)⟩

/-- **Frame.**  Bytes that no admitted store covers keep their values. -/
theorem wp_frame {p : Prog α} {m : Mem} {S : Nat → Prop} (h : p.wp P Q m)
    (hP : ∀ w a v, P (.store w a v) → ∀ y, S y → y < a ∨ a + w ≤ y) :
    p.wp P (fun x m' => Q x m' ∧ ∀ y, S y → m' y = m y) m := by
  refine wp_invariant (I := fun n => ∀ y, S y → n y = m y) h ?_ fun _ _ => rfl
  intro w a v n ha hn y hy
  rw [Mem.store_apply_out (hP w a v ha y hy), hn y hy]

end Prog

end LowLevel
