import Mathlib.Data.Nat.ModEq

/-!
# Byte memory

A memory gives every byte address its byte.  `load` and `store` are the
little-endian accesses of `w` bytes.  Two facts carry every later proof: a load
from where a value was stored gives the value cut to `w` bytes
(`load_store_same`), and a store changes no load it does not overlap
(`load_store_apart`).
-/

namespace LowLevel

abbrev Mem := Nat → UInt8

namespace Mem

/-- The little-endian value of the `w` bytes at `a`. -/
def load (m : Mem) : (w a : Nat) → Nat
  | 0, _ => 0
  | w + 1, a => (m a).toNat + 256 * load m w (a + 1)

/-- The low `w` bytes of `v`, lowest first, put at `a`. -/
def store (m : Mem) (w a v : Nat) : Mem := fun x =>
  if a ≤ x ∧ x < a + w then UInt8.ofNat (v / 256 ^ (x - a)) else m x

theorem load_congr {m m' : Mem} (w a : Nat) (h : ∀ x, a ≤ x → x < a + w → m' x = m x) :
    load m' w a = load m w a := by
  induction w generalizing a with
  | zero => rfl
  | succ w ih =>
    rw [load, load, h a (by omega) (by omega), ih (a + 1) fun x h1 h2 => h x (by omega) (by omega)]

/-- Equal bytes load alike, wherever they stand. -/
theorem load_eq_of_bytes {m m' : Mem} {w a b : Nat} (h : ∀ i, i < w → m' (a + i) = m (b + i)) :
    load m' w a = load m w b := by
  induction w generalizing a b with
  | zero => rfl
  | succ w ih =>
    have h0 : m' a = m b := h 0 (Nat.succ_pos w)
    rw [load, load, h0, ih fun i hi => ?_]
    rw [Nat.add_assoc, Nat.add_assoc, Nat.add_comm 1 i]
    exact h (i + 1) (Nat.succ_lt_succ hi)

theorem load_lt (m : Mem) (w a : Nat) : load m w a < 256 ^ w := by
  induction w generalizing a with
  | zero => simp [load]
  | succ w ih =>
    have h1 := ih (a + 1)
    have h2 := (m a).toNat_lt
    rw [load, Nat.pow_succ]
    omega

theorem load8_lt (m : Mem) (a : Nat) : load m 8 a < 2 ^ 64 := load_lt m 8 a

theorem store_apply_out {m : Mem} {w a v x : Nat} (h : x < a ∨ a + w ≤ x) :
    store m w a v x = m x := by
  unfold store
  rw [if_neg (by omega)]

theorem store_apply_in {m : Mem} {w a v i : Nat} (h : i < w) :
    store m w a v (a + i) = UInt8.ofNat (v / 256 ^ i) := by
  unfold store
  rw [if_pos (by omega), Nat.add_sub_cancel_left]

/-- Bytes that spell `v` load as `v`, cut to `w` bytes. -/
theorem load_of_bytes {m : Mem} (w a v : Nat)
    (h : ∀ i, i < w → m (a + i) = UInt8.ofNat (v / 256 ^ i)) :
    load m w a = v % 256 ^ w := by
  induction w generalizing a v with
  | zero => simp [load, Nat.mod_one]
  | succ w ih =>
    have h0 : (m a).toNat = v % 256 := by
      have := h 0 (by omega)
      simp only [Nat.add_zero, Nat.pow_zero, Nat.div_one] at this
      rw [this, UInt8.toNat_ofNat']
    have ht : load m w (a + 1) = v / 256 % 256 ^ w := by
      apply ih (a + 1) (v / 256)
      intro i hi
      rw [Nat.div_div_eq_div_mul, ← Nat.pow_succ', ← h (i + 1) (by omega)]
      congr 1
      omega
    rw [load, h0, ht, Nat.pow_succ', Nat.mod_mul]

theorem load_store_same (m : Mem) (w a v : Nat) : load (store m w a v) w a = v % 256 ^ w :=
  load_of_bytes w a v fun _ hi => store_apply_in hi

theorem load_store_apart {m : Mem} {w a v w' b : Nat} (h : b + w' ≤ a ∨ a + w ≤ b) :
    load (store m w a v) w' b = load m w' b :=
  load_congr w' b fun _ _ _ => store_apply_out (by omega)

/-- A load spells the bytes it reads. -/
theorem load_byte (m : Mem) {w i : Nat} (h : i < w) (a : Nat) :
    UInt8.ofNat (load m w a / 256 ^ i) = m (a + i) := by
  induction w generalizing a i with
  | zero => omega
  | succ w ih =>
    have hb := (m a).toNat_lt
    cases i with
    | zero =>
      have hmod : ((m a).toNat + 256 * load m w (a + 1)) % 256 = (m a).toNat := by omega
      rw [Nat.pow_zero, Nat.div_one, load, Nat.add_zero]
      apply UInt8.toNat_inj.mp
      rw [UInt8.toNat_ofNat']
      exact hmod
    | succ i =>
      have hdiv : ((m a).toNat + 256 * load m w (a + 1)) / 256 = load m w (a + 1) := by omega
      rw [Nat.pow_succ, Nat.mul_comm, ← Nat.div_div_eq_div_mul, load, hdiv, ih (by omega)]
      congr 1
      omega

/-- Storing what was loaded copies the bytes. -/
theorem store_load_apply (m : Mem) {w i : Nat} (h : i < w) (d s : Nat) :
    store m w d (load m w s) (d + i) = m (s + i) := by
  rw [store_apply_in h]
  exact load_byte m h s

theorem load4_store4 {m : Mem} {a v : Nat} (h : v < 2 ^ 32) : load (store m 4 a v) 4 a = v :=
  (load_store_same m 4 a v).trans (Nat.mod_eq_of_lt h)

theorem load8_store8 {m : Mem} {a v : Nat} (h : v < 2 ^ 64) : load (store m 8 a v) 8 a = v :=
  (load_store_same m 8 a v).trans (Nat.mod_eq_of_lt h)

end Mem

end LowLevel
