import ZHyper.Lib.TwoAdic

/-!
# `rand.c`

`next` is the only state.  A call of `rand` takes it to `(next * 0x1234 + 12345) * next`, a
permutation of the words of 64 bits that keeps the power of two dividing them, and only 0 goes to 0.
So a seed that is not 0 never leads to 0, and the states come back to the seed
(`rand_never_degenerates`).
-/

namespace ZHyper

open LowLevel

/-- `next = (next * 0x1234 + 12345) * next;` -/
def randNext (next : BitVec 64) : BitVec 64 := (next * 0x1234 + 12345) * next

def rand : StateM (BitVec 64) Int := do
  modify randNext
  let next ← get
  return ((next / 65536).setWidth 32 % 32768).toNat

def srand (seed : BitVec 32) : StateM (BitVec 64) Unit := set (seed.setWidth 64)

/-- What `n` calls of `rand` return. -/
def rands : Nat → StateM (BitVec 64) (List Int)
  | 0 => return []
  | n + 1 => do
    let r ← rand
    let rs ← rands n
    return r :: rs

/-- `next` after `srand(seed)` and `n` calls of `rand`. -/
def randState (next : BitVec 64) (seed : BitVec 32) (n : Nat) : BitVec 64 :=
  ((do
    srand seed
    rands n : StateM (BitVec 64) (List Int)).run next).2

theorem randNext_eq : randNext = oddStep 0x1234 12345 := rfl

theorem evenWord_multiplier : EvenWord (0x1234 : BitVec 64) := rfl

theorem oddWord_increment : OddWord (12345 : BitVec 64) := rfl

theorem randNext_injective : Function.Injective randNext := by
  rw [randNext_eq]
  exact oddStep_injective evenWord_multiplier oddWord_increment

theorem rand_run (next : BitVec 64) :
    rand.run next = ((((randNext next / 65536).setWidth 32 % 32768 : BitVec 32).toNat : Int),
      randNext next) := rfl

theorem rands_succ (n : Nat) (next : BitVec 64) :
    (rands (n + 1)).run next =
      ((rand.run next).1 :: ((rands n).run (rand.run next).2).1,
        ((rands n).run (rand.run next).2).2) := rfl

theorem rands_state (n : Nat) (next : BitVec 64) : ((rands n).run next).2 = randNext^[n] next := by
  induction n generalizing next with
  | zero => rfl
  | succ n ih =>
    rw [rands_succ, rand_run, Function.iterate_succ_apply]
    exact ih (randNext next)

theorem randState_eq (next : BitVec 64) (seed : BitVec 32) (n : Nat) :
    randState next seed n = randNext^[n] (seed.setWidth 64) :=
  rands_state n (seed.setWidth 64)

theorem two_pow_dvd_iterate (n j : Nat) (x : BitVec 64) : 2 ^ j ∣ (randNext^[n] x).toNat ↔
    2 ^ j ∣ x.toNat := by
  induction n generalizing x with
  | zero => exact Iff.rfl
  | succ n ih =>
    rw [Function.iterate_succ_apply, ih, randNext_eq]
    exact two_pow_dvd_oddStep evenWord_multiplier oddWord_increment x j

/-- From 0 `rand` returns 0 for good. -/
theorem rands_zero (n : Nat) : (rands n).run 0 = (List.replicate n 0, 0) := by
  induction n with
  | zero => rfl
  | succ n ih =>
    have hrand : rand.run 0 = (0, 0) := by
      rw [rand_run, randNext_eq,
        (oddStep_eq_zero_iff evenWord_multiplier oddWord_increment 0).mpr rfl]
      rfl
    rw [rands_succ, hrand, ih]
    rfl

/-- **The generator never degenerates.**  `next` is what it was before `srand`. -/
theorem rand_never_degenerates {seed : BitVec 32} (hseed : seed ≠ 0) (next : BitVec 64) :
    (∀ n, randState next seed n ≠ 0) ∧
      (∀ n j, 2 ^ j ∣ (randState next seed n).toNat ↔ 2 ^ j ∣ seed.toNat) ∧
      (Function.Injective fun s : BitVec 64 => (rand.run s).2) ∧
      (∃ p, 0 < p ∧ ∀ n, randState next seed (n + p) = randState next seed n) ∧
      ∀ n, (rands n).run 0 = (List.replicate n 0, 0) := by
  have hlt : seed.toNat < 2 ^ 64 := Nat.lt_of_lt_of_le seed.isLt (by decide)
  have hword : (seed.setWidth 64).toNat = seed.toNat := by
    rw [BitVec.toNat_setWidth, Nat.mod_eq_of_lt hlt]
  have hpow : ∀ n j, 2 ^ j ∣ (randState next seed n).toNat ↔ 2 ^ j ∣ seed.toNat := by
    intro n j
    rw [randState_eq, two_pow_dvd_iterate, hword]
  have hupdate : (fun s : BitVec 64 => (rand.run s).2) = randNext :=
    funext fun s => congrArg Prod.snd (rand_run s)
  rw [hupdate]
  refine ⟨?_, hpow, randNext_injective, ?_, rands_zero⟩
  · intro n hzero
    rw [eq_zero_iff_two_pow_dvd, hpow] at hzero
    apply hseed
    apply BitVec.eq_of_toNat_eq
    exact Nat.eq_zero_of_dvd_of_lt hzero hlt
  · obtain ⟨p, hp, hperiod⟩ := iterate_recurs randNext_injective (seed.setWidth 64)
    refine ⟨p, hp, ?_⟩
    intro n
    rw [randState_eq, randState_eq, hperiod]

/-- The seed 6: twice an odd number, and so is every state. -/
theorem rand_never_degenerates_six :
    (∀ n, randState 0xDEADBEEF 6 n ≠ 0) ∧
      (∀ n j, 2 ^ j ∣ (randState 0xDEADBEEF 6 n).toNat ↔ 2 ^ j ∣ 6) ∧
      (Function.Injective fun s : BitVec 64 => (rand.run s).2) ∧
      (∃ p, 0 < p ∧ ∀ n, randState 0xDEADBEEF 6 (n + p) = randState 0xDEADBEEF 6 n) ∧
      ∀ n, (rands n).run 0 = (List.replicate n 0, 0) :=
  rand_never_degenerates (by decide) 0xDEADBEEF

end ZHyper
