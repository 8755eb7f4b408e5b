import Mathlib.Data.BitVec
import Mathlib.Data.Fintype.Card
import Mathlib.Data.Nat.Prime.Basic
import Mathlib.Dynamics.PeriodicPts.Lemmas
import Mathlib.Tactic.Ring

/-!
# Odd factors modulo a power of two

In words of `w` bits, an odd factor keeps the power of two that divides a word
(`two_pow_dvd_odd_mul`), so it takes only 0 to 0.  That makes the map

    x ↦ (x * a + b) * x,    `a` even, `b` odd

a permutation of the words (`oddStep_injective`) that keeps the power of two
(`two_pow_dvd_oddStep`): its first factor is odd, and the difference of two of its values is the
difference of the arguments times an odd word.  What a permutation of words goes through from a word
on comes back to that word (`iterate_recurs`).
-/

namespace LowLevel

variable {w : Nat} {a b u x y : BitVec w}

def OddWord (u : BitVec w) : Prop := u.toNat % 2 = 1

def EvenWord (u : BitVec w) : Prop := u.toNat % 2 = 0

theorem OddWord.pos (h : OddWord u) : 0 < w := by
  apply Nat.pos_of_ne_zero
  rintro rfl
  have hlt := u.isLt
  unfold OddWord at h
  omega

theorem toNat_add_mod_two (hw : 0 < w) (x y : BitVec w) :
    (x + y).toNat % 2 = (x.toNat + y.toNat) % 2 := by
  rw [BitVec.toNat_add, Nat.mod_mod_of_dvd _ (dvd_pow_self 2 (Nat.ne_of_gt hw))]

theorem toNat_mul_mod_two (hw : 0 < w) (x y : BitVec w) :
    (x * y).toNat % 2 = (x.toNat * y.toNat) % 2 := by
  rw [BitVec.toNat_mul, Nat.mod_mod_of_dvd _ (dvd_pow_self 2 (Nat.ne_of_gt hw))]

/-- A word times an even one, and an odd one added, is odd. -/
theorem oddWord_mul_add (ha : EvenWord a) (hb : OddWord b) (x : BitVec w) :
    OddWord (x * a + b) := by
  unfold OddWord EvenWord at *
  rw [toNat_add_mod_two (OddWord.pos hb), Nat.add_mod, toNat_mul_mod_two (OddWord.pos hb),
    Nat.mul_mod, ha, hb, Nat.mul_zero]

/-- Past the width of a word, a power of two that divides it divides only 0. -/
theorem two_pow_dvd_iff_min (x : BitVec w) (j : Nat) : 2 ^ j ∣ x.toNat ↔ 2 ^ min j w ∣ x.toNat := by
  rcases Nat.le_total j w with hj | hj
  · rw [Nat.min_eq_left hj]
  · rw [Nat.min_eq_right hj]
    refine ⟨(Nat.pow_dvd_pow 2 hj).trans, fun h => ?_⟩
    rw [Nat.eq_zero_of_dvd_of_lt h x.isLt]
    exact dvd_zero _

theorem eq_zero_iff_two_pow_dvd (x : BitVec w) : x = 0 ↔ 2 ^ w ∣ x.toNat := by
  constructor
  · rintro rfl
    exact dvd_zero _
  · intro h
    apply BitVec.eq_of_toNat_eq
    rw [Nat.eq_zero_of_dvd_of_lt h x.isLt]
    rfl

/-- **An odd factor keeps the power of two.** -/
theorem two_pow_dvd_odd_mul (hu : OddWord u) (x : BitVec w) (j : Nat) :
    2 ^ j ∣ (u * x).toNat ↔ 2 ^ j ∣ x.toNat := by
  have hcop : Nat.Coprime (2 ^ min j w) u.toNat :=
    Nat.Coprime.pow_left _ (Nat.coprime_two_left.mpr (Nat.odd_iff.mpr hu))
  rw [two_pow_dvd_iff_min, two_pow_dvd_iff_min x, BitVec.toNat_mul,
    Nat.dvd_mod_iff (Nat.pow_dvd_pow 2 (Nat.min_le_right j w))]
  exact hcop.dvd_mul_left

theorem odd_mul_eq_zero_iff (hu : OddWord u) (x : BitVec w) : u * x = 0 ↔ x = 0 := by
  rw [eq_zero_iff_two_pow_dvd, eq_zero_iff_two_pow_dvd x, two_pow_dvd_odd_mul hu]

/-! ## The map -/

def oddStep (a b x : BitVec w) : BitVec w := (x * a + b) * x

theorem two_pow_dvd_oddStep (ha : EvenWord a) (hb : OddWord b) (x : BitVec w) (j : Nat) :
    2 ^ j ∣ (oddStep a b x).toNat ↔ 2 ^ j ∣ x.toNat :=
  two_pow_dvd_odd_mul (oddWord_mul_add ha hb x) x j

theorem oddStep_eq_zero_iff (ha : EvenWord a) (hb : OddWord b) (x : BitVec w) : oddStep a b x = 0 ↔
    x = 0 :=
  odd_mul_eq_zero_iff (oddWord_mul_add ha hb x) x

/-- **The map is injective.** -/
theorem oddStep_injective (ha : EvenWord a) (hb : OddWord b) :
    Function.Injective (oddStep a b) := by
  intro x y h
  have hdiff : oddStep a b x - oddStep a b y = ((x + y) * a + b) * (x - y) := by
    unfold oddStep
    ring
  rw [← sub_eq_zero, ← odd_mul_eq_zero_iff (oddWord_mul_add ha hb (x + y)), ← hdiff, h, sub_self]

/-! ## Iterates -/

instance finiteBitVec : Finite (BitVec w) := Finite.of_injective BitVec.toFin BitVec.toFin_injective

theorem iterate_recurs {f : BitVec w → BitVec w} (hf : Function.Injective f) (x : BitVec w) :
    ∃ p, 0 < p ∧ ∀ n, f^[n + p] x = f^[n] x := by
  obtain ⟨p, hp, hperiod⟩ := hf.mem_periodicPts x
  refine ⟨p, hp, ?_⟩
  intro n
  rw [Function.iterate_add_apply, hperiod.eq]

end LowLevel
