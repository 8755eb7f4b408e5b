import ZHyper.Lib.Prog

/-!
# Programs between two accesses

`p.after k m` is where `p`, run from `m`, stands after `k` accesses: what is left of it, and the
memory.  `steps` counts the accesses of a whole run.  What runs there in between changes the memory
that the rest goes on from (`exec_after` is the case that nothing does).

A program whose accesses all lie in `S` runs alike from every memory that agrees on `S`, and leaves
the bytes outside as they are (`exec_local`).  So it does not matter whether it runs before or after
a change that reads and writes other bytes only (`Patch`, `exec_patch`).
-/

namespace LowLevel

/-- The bytes of the access are in `S`. -/
def Access.Within (S : Nat → Prop) : Access → Prop
  | .load w a => ∀ y, a ≤ y → y < a + w → S y
  | .store w a _ => ∀ y, a ≤ y → y < a + w → S y

namespace Prog

variable {α β : Type} {p : Prog α} {f : α → Prog β} {k : Nat} {m m' n : Mem} {x : α}

def after : Prog α → Nat → Mem → Prog α × Mem
  | load w a p, k + 1, m => (p (m.load w a)).after k m
  | store w a v p, k + 1, m => p.after k (m.store w a v)
  | p, _, m => (p, m)

/-- The number of accesses of a run. -/
def steps : Prog α → Mem → Nat
  | load w a p, m => (p (m.load w a)).steps m + 1
  | store w a v p, m => p.steps (m.store w a v) + 1
  | _, _ => 0

theorem after_zero (p : Prog α) (m : Mem) : p.after 0 m = (p, m) := by
  cases p <;> rfl

theorem exec_load (w a : Nat) (p : Nat → Prog α) (m : Mem) :
    (load w a p).exec m = (p (m.load w a)).exec m := rfl

theorem after_load (w a k : Nat) (p : Nat → Prog α) (m : Mem) :
    (load w a p).after (k + 1) m = (p (m.load w a)).after k m := rfl

/-- The rest, run from the memory there, is the whole run. -/
theorem exec_after (p : Prog α) (k : Nat) (m : Mem) :
    (p.after k m).1.exec (p.after k m).2 = p.exec m := by
  induction p generalizing k m with
  | ret x => rfl
  | panic s => rfl
  | diverge => rfl
  | load w a p ih =>
    cases k with
    | zero => rfl
    | succ k => exact ih _ k m
  | store w a v p ih =>
    cases k with
    | zero => rfl
    | succ k => exact ih k _

/-- Once `p` has returned, the points of `p >>= f` are those of what it goes on with. -/
theorem after_bind (h : p.exec m = .ret x m') (hk : p.steps m ≤ k) :
    (p >>= f).after k m = (f x).after (k - p.steps m) m' := by
  show (p.bind f).after k m = _
  induction p generalizing k m with
  | ret y =>
    injection h with h1 h2
    subst h1 h2
    rfl
  | panic s => cases h
  | diverge => cases h
  | load w a p ih =>
    obtain ⟨k, rfl⟩ : ∃ j, k = j + 1 := ⟨k - 1, by simp only [steps] at hk; omega⟩
    have hk' : (p (m.load w a)).steps m ≤ k := Nat.le_of_succ_le_succ hk
    simp only [steps, Nat.add_sub_add_right]
    exact ih _ h hk'
  | store w a v p ih =>
    obtain ⟨k, rfl⟩ : ∃ j, k = j + 1 := ⟨k - 1, by simp only [steps] at hk; omega⟩
    have hk' : p.steps (m.store w a v) ≤ k := Nat.le_of_succ_le_succ hk
    simp only [steps, Nat.add_sub_add_right]
    exact ih h hk'

theorem exec_bind (h : p.exec m = .ret x m') : (p >>= f).exec m = (f x).exec m' := by
  have hall := exec_after (p >>= f) (p.steps m) m
  rw [after_bind h (Nat.le_refl _), Nat.sub_self, after_zero] at hall
  exact hall.symm

/-- From its last access on nothing is left of a program. -/
theorem after_end (h : p.exec m = .ret x m') (hk : p.steps m ≤ k) : p.after k m = (ret x, m') := by
  induction p generalizing k m with
  | ret y =>
    injection h with h1 h2
    subst h1 h2
    rfl
  | panic s => cases h
  | diverge => cases h
  | load w a p ih =>
    obtain ⟨k, rfl⟩ : ∃ j, k = j + 1 := ⟨k - 1, by simp only [steps] at hk; omega⟩
    exact ih _ h (Nat.le_of_succ_le_succ hk)
  | store w a v p ih =>
    obtain ⟨k, rfl⟩ : ∃ j, k = j + 1 := ⟨k - 1, by simp only [steps] at hk; omega⟩
    exact ih h (Nat.le_of_succ_le_succ hk)

/-! ## Programs that keep to a set of bytes -/

variable {P : Access → Prop} {Q : α → Mem → Prop} {S : Nat → Prop}

/-- **A program whose accesses lie in `S` runs alike from every memory that agrees on `S`.** -/
theorem exec_local (h : p.wp (Access.Within S) Q m) (hn : ∀ y, S y → n y = m y) :
    ∃ x m' n', p.exec m = .ret x m' ∧ p.exec n = .ret x n' ∧ Q x m' ∧ (∀ y, S y → n' y = m' y) ∧
      ∀ y, ¬ S y → m' y = m y ∧ n' y = n y := by
  induction p generalizing m n with
  | ret y => exact ⟨y, m, n, rfl, rfl, h, hn, fun _ _ => ⟨rfl, rfl⟩⟩
  | panic s => exact h.elim
  | diverge => exact h.elim
  | load w a p ih =>
    have hload : n.load w a = m.load w a := by
      apply Mem.load_congr w a
      intro y h1 h2
      exact hn y (h.1 y h1 h2)
    obtain ⟨x, m', n', h1, h2, hrest⟩ := ih _ h.2 hn
    refine ⟨x, m', n', h1, ?_, hrest⟩
    show (p (n.load w a)).exec n = _
    rw [hload]
    exact h2
  | store w a v p ih =>
    have hstore : ∀ y, S y → (n.store w a v) y = (m.store w a v) y := by
      intro y hy
      by_cases hin : a ≤ y ∧ y < a + w
      · unfold Mem.store
        rw [if_pos hin, if_pos hin]
      · rw [Mem.store_apply_out (by omega), Mem.store_apply_out (by omega), hn y hy]
    obtain ⟨x, m', n', h1, h2, hQ, hS, hout⟩ := ih h.2 hstore
    refine ⟨x, m', n', h1, h2, hQ, hS, ?_⟩
    intro y hy
    have hapart : y < a ∨ a + w ≤ y := by
      by_contra hc
      exact hy (h.1 y (by omega) (by omega))
    obtain ⟨h3, h4⟩ := hout y hy
    rw [h3, h4, Mem.store_apply_out hapart, Mem.store_apply_out hapart]
    exact ⟨rfl, rfl⟩

end Prog

/-! ## Patches -/

/-- A change of memory that reads and writes bytes of `U` only. -/
structure Patch (U : Nat → Prop) (f : Mem → Mem) : Prop where
  off : ∀ n y, ¬ U y → f n y = n y
  on : ∀ n n', (∀ y, U y → n' y = n y) → ∀ y, U y → f n' y = f n y

namespace Patch

variable {U : Nat → Prop} {f g : Mem → Mem}

theorem id : Patch U fun n => n := ⟨fun _ _ _ => rfl, fun _ _ h y hy => h y hy⟩

theorem comp (hf : Patch U f) (hg : Patch U g) : Patch U fun n => f (g n) := by
  constructor
  · intro n y hy
    rw [hf.off _ y hy, hg.off n y hy]
  · intro n n' h
    exact hf.on _ _ (hg.on n n' h)

/-- A store inside `U` of a value that depends on `U`. -/
theorem store {w a : Nat} {v : Mem → Nat} (ha : ∀ y, a ≤ y → y < a + w → U y)
    (hv : ∀ n n', (∀ y, U y → n' y = n y) → v n' = v n) : Patch U fun n => n.store w a (v n) := by
  constructor
  · intro n y hy
    apply Mem.store_apply_out
    by_contra hc
    exact hy (ha y (by omega) (by omega))
  · intro n n' h y hy
    unfold Mem.store
    rw [hv n n' h, h y hy]

/-- **A program that keeps off `U` commutes with a patch of `U`.** -/
theorem exec_patch (hf : Patch U f) {α : Type} {p : Prog α} {Q : α → Mem → Prop} {n : Mem}
    (h : p.wp (Access.Within fun y => ¬ U y) Q (f n)) :
    ∃ x n', p.exec n = .ret x n' ∧ p.exec (f n) = .ret x (f n') ∧ Q x (f n') := by
  obtain ⟨x, m', n', hm, hn, hQ, hin, hout⟩ := Prog.exec_local h fun y hy => (hf.off n y hy).symm
  have hpatch : f n' = m' := by
    funext y
    by_cases hy : U y
    · rw [hf.on n n' (fun z hz => (hout z (not_not.mpr hz)).2) y hy, (hout y (not_not.mpr hy)).1]
    · rw [hf.off n' y hy, hin y hy]
  subst hpatch
  exact ⟨x, n', hn, hm, hQ⟩

end Patch

end LowLevel
