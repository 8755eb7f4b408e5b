import Mathlib.Algebra.BigOperators.Ring.Finset
import Mathlib.Algebra.Order.BigOperators.Group.Finset
import ZHyper.Lib.Linearizable

/-!
# The reader-writer lock

`arch_write_lock`, `arch_read_lock`, their `trylock`s and `unlock`s as their instructions, run by
any number of CPUs on one word in any order.  A CPU may hold the lock for reading several times.  In
every run a writer is alone and the word is `0x80000000`, or there are readers only and the word is
their number:

    who holds the lock is what the word says             (rwlock_exclusive)
    no CPU waits for a lock that it could take           (rwlock_wakes)
-/

namespace ZHyper

open LowLevel

/-! ## Instructions

Registers are the operands of the `asm` statements. -/

inductive RwOp where
  | writeLock
  | writeTrylock
  | writeUnlock
  | readLock
  | readTrylock
  | readUnlock
deriving DecidableEq

def writeLockAsm : List (Insn 32) :=
  [.sevl,
    .wfe,                 -- 1:
    .ldxr 0,              -- 2:
    .cbnz 0 1,
    .stxr 0 2,
    .cbnz 0 2]

def writeTrylockAsm : List (Insn 32) :=
  [.ldxr 0, .cbnz 0 3, .stxr 0 2]

def writeUnlockAsm : List (Insn 32) := [.str 1]

def readLockAsm : List (Insn 32) :=
  [.sevl,
    .wfe,                 -- 1:
    .ldxr 0,              -- 2:
    .addImm 0 0 1,
    .tbnz 0 31 1,
    .stxr 1 0,
    .cbnz 1 2]

def readTrylockAsm : List (Insn 32) :=
  [.ldxr 0, .addImm 0 0 1, .tbnz 0 31 4, .stxr 1 0]

def readUnlockAsm : List (Insn 32) :=
  [.ldxr 0, .subImm 0 0 1, .stxr 1 0, .cbnz 1 0]

/-- The bit of a writer. -/
def writerBit : BitVec 32 := 0x80000000

/-- `arch_write_can_lock` -/
def writeCanLock (word : BitVec 32) : Bool := word == 0

/-- `arch_read_can_lock` -/
def readCanLock (word : BitVec 32) : Bool := word < 0x80000000

/-- Of the six only the `trylock`s return something: `!tmp` and `!tmp2`, where `tmp2` is 1 at the
start. -/
def rwRoutines : Routines 32 RwOp Bool where
  code
    | .writeLock => writeLockAsm
    | .writeTrylock => writeTrylockAsm
    | .writeUnlock => writeUnlockAsm
    | .readLock => readLockAsm
    | .readTrylock => readTrylockAsm
    | .readUnlock => readUnlockAsm
  args
    | .writeLock, _ | .writeTrylock, _ => writerBit
    | .readTrylock, _ => 1
    | .writeUnlock, _ | .readLock, _ | .readUnlock, _ => 0
  result
    | .writeTrylock, r => r 0 == 0
    | .readTrylock, r => r 1 == 0
    | .writeLock, _ | .writeUnlock, _ | .readLock, _ | .readUnlock, _ => true

/-! ## What they do -/

/-- What a CPU holds: the lock for writing, or so many times for reading. -/
inductive RwMode where
  | writing
  | reading (n : Nat)
deriving DecidableEq

def RwMode.readers : RwMode → Nat
  | .writing => 0
  | .reading n => n

@[simp] theorem RwMode.readers_reading (n : Nat) : (RwMode.reading n).readers = n := rfl

/-- A CPU that holds nothing may ask for the lock, a reader may ask to read again, and each gives
back what it holds. -/
def rwClient : Client RwMode RwOp Bool where
  may
    | .reading 0, op => op ≠ .writeUnlock ∧ op ≠ .readUnlock
    | .reading (_ + 1), op => op ≠ .writeUnlock ∧ op ≠ .writeLock
    | .writing, op => op = .writeUnlock
  after
    | _, .writeLock, _ | _, .writeTrylock, true => .writing
    | m, .readLock, _ | m, .readTrylock, true => .reading (m.readers + 1)
    | m, .writeTrylock, false | m, .readTrylock, false => m
    | _, .writeUnlock, _ => .reading 0
    | m, .readUnlock, _ => .reading (m.readers - 1)

/-- A `trylock` may also fail because its store does. -/
def rwSpec : RwOp → BitVec 32 → BitVec 32 → Bool → Prop
  | .writeLock, v, v', r => r = true ∧ v = 0 ∧ v' = writerBit
  | .writeTrylock, v, v', r => r = true ∧ v = 0 ∧ v' = writerBit ∨ r = false ∧ v' = v
  | .writeUnlock, _, v', _ => v' = 0
  | .readLock, v, v', r => r = true ∧ (v + 1).getLsbD 31 = false ∧ v' = v + 1
  | .readTrylock, v, v', r =>
    r = true ∧ (v + 1).getLsbD 31 = false ∧ v' = v + 1 ∨ r = false ∧ v' = v
  | .readUnlock, v, v', _ => v' = v - 1

/-! ## Notes -/

def writeLockNote : Note 32 Bool := fun pc reg view out =>
  match pc with
  | 0 | 1 | 2 => reg 2 = writerBit ∧ out = none
  | 3 => reg 2 = writerBit ∧ out = none ∧ ∀ v ∈ view, reg 0 = v
  | 4 => reg 2 = writerBit ∧ out = none ∧ ∀ v ∈ view, v = 0
  | 5 => reg 2 = writerBit ∧ (reg 0 = 0 → out = some true) ∧ (reg 0 ≠ 0 → out = none)
  | 6 => out = some true
  | _ => False

def writeTrylockNote : Note 32 Bool := fun pc reg view out =>
  match pc with
  | 0 => reg 2 = writerBit ∧ out = none
  | 1 => reg 2 = writerBit ∧ (reg 0 = 0 → out = none ∧ ∀ v ∈ view, v = 0) ∧ (reg 0 ≠ 0 →
    out = some false)
  | 2 => reg 2 = writerBit ∧ out = none ∧ ∀ v ∈ view, v = 0
  | 3 => (reg 0 = 0 → out = some true) ∧ (reg 0 ≠ 0 → out = some false)
  | _ => False

def readLockNote : Note 32 Bool := fun pc reg view out =>
  match pc with
  | 0 | 1 | 2 => out = none
  | 3 => out = none ∧ ∀ v ∈ view, reg 0 = v
  | 4 => out = none ∧ ∀ v ∈ view, reg 0 = v + 1
  | 5 => out = none ∧ (reg 0).getLsbD 31 = false ∧ ∀ v ∈ view, reg 0 = v + 1
  | 6 => (reg 1 = 0 → out = some true) ∧ (reg 1 ≠ 0 → out = none)
  | 7 => out = some true
  | _ => False

def readTrylockNote : Note 32 Bool := fun pc reg view out =>
  match pc with
  | 0 => reg 1 = 1 ∧ out = none
  | 1 => reg 1 = 1 ∧ ((reg 0 + 1).getLsbD 31 = true → out = some false) ∧
      ((reg 0 + 1).getLsbD 31 = false → out = none ∧ ∀ v ∈ view, reg 0 = v)
  | 2 => reg 1 = 1 ∧ ((reg 0).getLsbD 31 = true → out = some false) ∧
      ((reg 0).getLsbD 31 = false → out = none ∧ ∀ v ∈ view, reg 0 = v + 1)
  | 3 => out = none ∧ (reg 0).getLsbD 31 = false ∧ ∀ v ∈ view, reg 0 = v + 1
  | 4 => (reg 1 = 0 → out = some true) ∧ (reg 1 ≠ 0 → out = some false)
  | _ => False

def readUnlockNote : Note 32 Bool := fun pc reg view out =>
  match pc with
  | 0 => out = none
  | 1 => out = none ∧ ∀ v ∈ view, reg 0 = v
  | 2 => out = none ∧ ∀ v ∈ view, reg 0 = v - 1
  | 3 => (reg 1 = 0 → out = some true) ∧ (reg 1 ≠ 0 → out = none)
  | 4 => out = some true
  | _ => False

def rwNote : RwOp → Note 32 Bool
  | .writeLock => writeLockNote
  | .writeTrylock => writeTrylockNote
  | .writeUnlock => fun pc reg _ out => reg 1 = 0 ∧ out = if pc = 0 then none else some true
  | .readLock => readLockNote
  | .readTrylock => readTrylockNote
  | .readUnlock => readUnlockNote

theorem one_ne_zero32 : (1 : BitVec 32) ≠ 0 := by decide

theorem writeLock_annotated :
    Annotated writeLockAsm (rwRoutines.args .writeLock) (rwRoutines.result .writeLock)
      (rwSpec .writeLock)
      writeLockNote where
  start _ := ⟨rfl, rfl⟩
  lose {pc reg view out} h := by
    match pc, h with
    | 3, h | 4, h => exact ⟨h.1, h.2.1, nofun⟩
    | 0, h | 1, h | 2, h | 5, h | 6, h | _ + 7, h => exact h
  finish h := h
  step {pc insn reg view out} hi hn := by
    match pc, hi, hn with
    | 0, hi, hn | 1, hi, hn =>
      obtain rfl := Option.some.inj hi
      exact hn
    | 2, hi, hn =>
      obtain rfl := Option.some.inj hi
      exact fun word => ⟨out, ⟨hn.1, hn.2, fun v hv => Option.some.inj hv⟩, .keep⟩
    | 3, hi, hn =>
      obtain rfl := Option.some.inj hi
      refine ⟨fun _ => ⟨hn.1, hn.2.1⟩, fun h => ⟨hn.1, hn.2.1, fun v hv => ?_⟩⟩
      rw [← hn.2.2 v hv]
      exact bne_eq_false_iff_eq.mp h
    | 4, hi, hn =>
      obtain rfl := Option.some.inj hi
      obtain ⟨h2, rfl, hview⟩ := hn
      refine ⟨fun _ => ⟨none, ⟨h2, fun h => absurd h one_ne_zero32, fun _ => rfl⟩, .keep⟩,
        fun word hword => ?_⟩
      exact ⟨some true, ⟨h2, fun _ => rfl, fun h => absurd rfl h⟩,
        .commit ⟨rfl, hview word hword, h2⟩⟩
    | 5, hi, hn =>
      obtain rfl := Option.some.inj hi
      exact ⟨fun h => ⟨hn.1, hn.2.2 (bne_iff_ne.mp h)⟩, fun h => hn.2.1 (bne_eq_false_iff_eq.mp h)⟩
    | 6, hi, _ => cases hi
    | _ + 7, hi, _ => cases hi

theorem writeTrylock_annotated :
    Annotated writeTrylockAsm (rwRoutines.args .writeTrylock) (rwRoutines.result .writeTrylock)
      (rwSpec .writeTrylock) writeTrylockNote where
  start _ := ⟨rfl, rfl⟩
  lose {pc reg view out} h := by
    match pc, h with
    | 1, h => exact ⟨h.1, fun h0 => ⟨(h.2.1 h0).1, nofun⟩, h.2.2⟩
    | 2, h => exact ⟨h.1, h.2.1, nofun⟩
    | 0, h | 3, h | _ + 4, h => exact h
  finish {reg view out} h := by
    by_cases h0 : reg 0 = 0
    · rw [h.1 h0]
      exact congrArg some (beq_iff_eq.mpr h0).symm
    · rw [h.2 h0]
      exact congrArg some (beq_eq_false_iff_ne.mpr h0).symm
  step {pc insn reg view out} hi hn := by
    match pc, hi, hn with
    | 0, hi, hn =>
      obtain rfl := Option.some.inj hi
      obtain ⟨h2, rfl⟩ := hn
      intro word
      by_cases h0 : word = 0
      · exact ⟨none, ⟨h2, fun _ => ⟨rfl, fun v hv => (Option.some.inj hv).symm.trans h0⟩, fun h =>
          absurd h0 h⟩, .keep⟩
      · exact ⟨some false, ⟨h2, fun h => absurd h h0, fun _ => rfl⟩, .commit (Or.inr ⟨rfl, rfl⟩)⟩
    | 1, hi, hn =>
      obtain rfl := Option.some.inj hi
      refine ⟨fun h => ?_, fun h => ⟨hn.1, hn.2.1 (bne_eq_false_iff_eq.mp h)⟩⟩
      have h0 : reg 0 ≠ 0 := bne_iff_ne.mp h
      exact ⟨fun h => absurd h h0, fun _ => hn.2.2 h0⟩
    | 2, hi, hn =>
      obtain rfl := Option.some.inj hi
      obtain ⟨h2, rfl, hview⟩ := hn
      refine ⟨fun _ => ?_, fun word hword => ?_⟩
      · -- the store fails, and with it the call
        exact ⟨some false, ⟨fun h => absurd h one_ne_zero32, fun _ => rfl⟩,
          .commit (Or.inr ⟨rfl, rfl⟩)⟩
      · exact ⟨some true, ⟨fun _ => rfl, fun h => absurd rfl h⟩,
          .commit (Or.inl ⟨rfl, hview word hword, h2⟩)⟩
    | 3, hi, _ => cases hi
    | _ + 4, hi, _ => cases hi

theorem readLock_annotated :
    Annotated readLockAsm (rwRoutines.args .readLock) (rwRoutines.result .readLock)
      (rwSpec .readLock)
      readLockNote where
  start _ := rfl
  lose {pc reg view out} h := by
    match pc, h with
    | 3, h | 4, h => exact ⟨h.1, nofun⟩
    | 5, h => exact ⟨h.1, h.2.1, nofun⟩
    | 0, h | 1, h | 2, h | 6, h | 7, h | _ + 8, h => exact h
  finish h := h
  step {pc insn reg view out} hi hn := by
    match pc, hi, hn with
    | 0, hi, hn | 1, hi, hn =>
      obtain rfl := Option.some.inj hi
      exact hn
    | 2, hi, hn =>
      obtain rfl := Option.some.inj hi
      exact fun word => ⟨out, ⟨hn, fun v hv => Option.some.inj hv⟩, .keep⟩
    | 3, hi, hn =>
      obtain rfl := Option.some.inj hi
      exact ⟨hn.1, fun v hv => congrArg (· + 1) (hn.2 v hv)⟩
    | 4, hi, hn =>
      obtain rfl := Option.some.inj hi
      exact ⟨fun _ => hn.1, fun h => ⟨hn.1, h, hn.2⟩⟩
    | 5, hi, hn =>
      obtain rfl := Option.some.inj hi
      obtain ⟨rfl, hbit, hview⟩ := hn
      refine ⟨fun _ => ⟨none, ⟨fun h => absurd h one_ne_zero32, fun _ => rfl⟩, .keep⟩,
        fun word hword => ?_⟩
      rw [hview word hword] at hbit
      exact ⟨some true, ⟨fun _ => rfl, fun h => absurd rfl h⟩,
        .commit ⟨rfl, hbit, hview word hword⟩⟩
    | 6, hi, hn =>
      obtain rfl := Option.some.inj hi
      exact ⟨fun h => hn.2 (bne_iff_ne.mp h), fun h => hn.1 (bne_eq_false_iff_eq.mp h)⟩
    | 7, hi, _ => cases hi
    | _ + 8, hi, _ => cases hi

theorem readTrylock_annotated :
    Annotated readTrylockAsm (rwRoutines.args .readTrylock) (rwRoutines.result .readTrylock)
      (rwSpec .readTrylock) readTrylockNote where
  start _ := ⟨rfl, rfl⟩
  lose {pc reg view out} h := by
    match pc, h with
    | 1, h | 2, h => exact ⟨h.1, h.2.1, fun h0 => ⟨(h.2.2 h0).1, nofun⟩⟩
    | 3, h => exact ⟨h.1, h.2.1, nofun⟩
    | 0, h | 4, h | _ + 5, h => exact h
  finish {reg view out} h := by
    by_cases h1 : reg 1 = 0
    · rw [h.1 h1]
      exact congrArg some (beq_iff_eq.mpr h1).symm
    · rw [h.2 h1]
      exact congrArg some (beq_eq_false_iff_ne.mpr h1).symm
  step {pc insn reg view out} hi hn := by
    match pc, hi, hn with
    | 0, hi, hn =>
      obtain rfl := Option.some.inj hi
      obtain ⟨h1, rfl⟩ := hn
      intro word
      cases hbit : (word + 1).getLsbD 31 with
      | true =>
        exact ⟨some false, ⟨h1, fun _ => rfl, fun h => absurd (hbit.symm.trans h) (by decide)⟩,
          .commit (Or.inr ⟨rfl, rfl⟩)⟩
      | false =>
        exact ⟨none, ⟨h1, fun h => absurd (hbit.symm.trans h) (by decide), fun _ =>
          ⟨rfl, fun v hv =>
          Option.some.inj hv⟩⟩, .keep⟩
    | 1, hi, hn =>
      obtain rfl := Option.some.inj hi
      exact ⟨hn.1, hn.2.1, fun h =>
        ⟨(hn.2.2 h).1, fun v hv => congrArg (· + 1) ((hn.2.2 h).2 v hv)⟩⟩
    | 2, hi, hn =>
      obtain rfl := Option.some.inj hi
      refine ⟨fun h => ⟨fun h1 => ?_, fun _ => hn.2.1 h⟩, fun h => ⟨(hn.2.2 h).1, h, (hn.2.2 h).2⟩⟩
      exact absurd (hn.1.symm.trans h1) one_ne_zero32
    | 3, hi, hn =>
      obtain rfl := Option.some.inj hi
      obtain ⟨rfl, hbit, hview⟩ := hn
      refine ⟨fun _ => ?_, fun word hword => ?_⟩
      · exact ⟨some false, ⟨fun h => absurd h one_ne_zero32, fun _ => rfl⟩,
          .commit (Or.inr ⟨rfl, rfl⟩)⟩
      · rw [hview word hword] at hbit
        exact ⟨some true, ⟨fun _ => rfl, fun h => absurd rfl h⟩,
          .commit (Or.inl ⟨rfl, hbit, hview word hword⟩)⟩
    | 4, hi, _ => cases hi
    | _ + 5, hi, _ => cases hi

theorem readUnlock_annotated :
    Annotated readUnlockAsm (rwRoutines.args .readUnlock) (rwRoutines.result .readUnlock)
      (rwSpec .readUnlock)
      readUnlockNote where
  start _ := rfl
  lose {pc reg view out} h := by
    match pc, h with
    | 1, h | 2, h => exact ⟨h.1, nofun⟩
    | 0, h | 3, h | 4, h | _ + 5, h => exact h
  finish h := h
  step {pc insn reg view out} hi hn := by
    match pc, hi, hn with
    | 0, hi, hn =>
      obtain rfl := Option.some.inj hi
      exact fun word => ⟨out, ⟨hn, fun v hv => Option.some.inj hv⟩, .keep⟩
    | 1, hi, hn =>
      obtain rfl := Option.some.inj hi
      exact ⟨hn.1, fun v hv => congrArg (· - 1) (hn.2 v hv)⟩
    | 2, hi, hn =>
      obtain rfl := Option.some.inj hi
      obtain ⟨rfl, hview⟩ := hn
      refine ⟨fun _ => ⟨none, ⟨fun h => absurd h one_ne_zero32, fun _ => rfl⟩, .keep⟩,
        fun word hword => ?_⟩
      exact ⟨some true, ⟨fun _ => rfl, fun h => absurd rfl h⟩, .commit (hview word hword)⟩
    | 3, hi, hn =>
      obtain rfl := Option.some.inj hi
      exact ⟨fun h => hn.2 (bne_iff_ne.mp h), fun h => hn.1 (bne_eq_false_iff_eq.mp h)⟩
    | 4, hi, _ => cases hi
    | _ + 5, hi, _ => cases hi

theorem writeUnlock_annotated :
    Annotated writeUnlockAsm (rwRoutines.args .writeUnlock) (rwRoutines.result .writeUnlock)
      (rwSpec .writeUnlock)
      (rwNote .writeUnlock) where
  start _ := ⟨rfl, rfl⟩
  lose h := h
  finish h := h.2
  step {pc insn reg view out} hi hn := by
    match pc, hi, hn with
    | 0, hi, hn =>
      obtain rfl := Option.some.inj hi
      obtain ⟨h1, rfl⟩ := hn
      exact fun word => ⟨some true, ⟨h1, rfl⟩, .commit h1⟩
    | _ + 1, hi, _ => cases hi

theorem rw_annotated : rwRoutines.Annotated rwSpec rwNote
  | .writeLock => writeLock_annotated
  | .writeTrylock => writeTrylock_annotated
  | .writeUnlock => writeUnlock_annotated
  | .readLock => readLock_annotated
  | .readTrylock => readTrylock_annotated
  | .readUnlock => readUnlock_annotated

/-! ## Who holds the lock -/

section shape
variable {C : Type} [DecidableEq C] [Fintype C]

/-- The word and what the CPUs hold. -/
inductive RwShape (word : BitVec 32) (hold : C → RwMode) : Prop where
  /-- A writer is alone. -/
  | written (c : C) : hold c = .writing → (∀ d, d ≠ c → hold d = .reading 0) → word = writerBit →
    RwShape word hold
  /-- Readers are counted. -/
  | read : (∀ c, hold c ≠ .writing) → word.toNat = ∑ c, (hold c).readers → word.toNat < 2 ^ 31 →
    RwShape word hold

variable {word word' : BitVec 32} {hold : C → RwMode} {c d : C} {n : Nat}

theorem readers_update (hold : C → RwMode) (c : C) (m : RwMode) :
    ∑ d, (Function.update hold c m d).readers + (hold c).readers = ∑ d,
      (hold d).readers + m.readers := by
  have h := sum_update (fun m => (m.readers : ℤ)) hold c m
  rw [← Nat.cast_sum, ← Nat.cast_sum] at h
  omega

omit [DecidableEq C] in
theorem RwShape.free (h : RwShape (0 : BitVec 32) hold) (c : C) : hold c = .reading 0 := by
  cases h with
  | written _ _ _ hword => exact absurd hword (by decide)
  | read hnone hsum _ =>
    have hc : (hold c).readers = 0 := Finset.sum_eq_zero_iff.mp hsum.symm c (Finset.mem_univ c)
    cases hm : hold c with
    | writing => exact absurd hm (hnone c)
    | reading n =>
      rw [hm] at hc
      exact congrArg _ hc

/-- The readers' half of a step: a CPU goes from `n` to `m` readings, and the word with it. -/
theorem RwShape.count {m : Nat} (h : RwShape word hold) (hc : hold c = .reading n)
    (hword : word ≠ writerBit) (hcount : word.toNat + m = word'.toNat + n)
    (hlt : word'.toNat < 2 ^ 31) :
    RwShape word' (Function.update hold c (.reading m)) := by
  cases h with
  | written _ _ _ h => exact absurd h hword
  | read hnone hsum _ =>
    refine .read (fun d => ?_) ?_ hlt
    · by_cases hdc : d = c
      · subst hdc
        simp
      · rw [Function.update_of_ne hdc]
        exact hnone d
    · have hupdate := readers_update hold c (.reading m)
      rw [hc, RwMode.readers_reading, RwMode.readers_reading] at hupdate
      omega

omit [Fintype C] in
theorem toNat_add_one {v : BitVec 32} (h : (v + 1).getLsbD 31 = false) (hv : v.toNat < 2 ^ 31) :
    (v + 1).toNat = v.toNat + 1 ∧ (v + 1).toNat < 2 ^ 31 := by
  have hadd : (v + 1).toNat = v.toNat + 1 := by
    rw [BitVec.toNat_add]
    exact Nat.mod_eq_of_lt (by rw [show (1 : BitVec 32).toNat = 1 from rfl]; omega)
  refine ⟨hadd, ?_⟩
  have hmsb : 2 * (v + 1).toNat < 2 ^ 32 := BitVec.msb_eq_false_iff_two_mul_lt.mp h
  omega

theorem RwShape.readLock (h : RwShape word hold) (hc : hold c = .reading n)
    (hbit : (word + 1).getLsbD 31 = false) :
    RwShape (word + 1) (Function.update hold c (.reading (n + 1))) := by
  have hword : word ≠ writerBit := by
    rintro rfl
    exact absurd hbit (by decide)
  have hlt : word.toNat < 2 ^ 31 := by
    cases h with
    | written _ _ _ h => exact absurd h hword
    | read _ _ hlt => exact hlt
  obtain ⟨hadd, hlt'⟩ := toNat_add_one hbit hlt
  exact h.count hc hword (by omega) hlt'

theorem RwShape.readUnlock (h : RwShape word hold) (hc : hold c = .reading (n + 1)) :
    RwShape (word - 1) (Function.update hold c (.reading n)) := by
  cases h with
  | written d hd hothers hword =>
    by_cases hcd : c = d
    · rw [hcd, hd] at hc
      cases hc
    · cases hc.symm.trans (hothers c hcd)
  | read hnone hsum hlt =>
    have hle : (hold c).readers ≤ ∑ d, (hold d).readers :=
      Finset.single_le_sum (f := fun d => (hold d).readers) (fun _ _ => Nat.zero_le _)
        (Finset.mem_univ c)
    rw [hc, ← hsum, RwMode.readers_reading] at hle
    have hpos : 1 ≤ word.toNat := by omega
    have hsub : (word - 1).toNat = word.toNat - 1 := BitVec.toNat_sub_of_le (BitVec.le_def.mpr hpos)
    have hword : word ≠ writerBit := by
      rintro rfl
      exact absurd hlt (by decide)
    exact RwShape.count (.read hnone hsum hlt) hc hword (by omega) (by omega)

theorem RwShape.writeLock (h : RwShape (0 : BitVec 32) hold) :
    RwShape writerBit (Function.update hold c .writing) :=
  .written c (Function.update_self ..)
    (fun d hd => by rw [Function.update_of_ne hd]; exact h.free d) rfl

theorem RwShape.writeUnlock (h : RwShape word hold) (hc : hold c = .writing) :
    RwShape 0 (Function.update hold c (.reading 0)) := by
  cases h with
  | read hnone => exact absurd hc (hnone c)
  | written d hd hothers _ =>
    have hall : ∀ d', Function.update hold c (.reading 0) d' = .reading 0 := by
      intro d'
      by_cases hdc : d' = c
      · subst hdc
        simp
      · rw [Function.update_of_ne hdc]
        refine hothers d' fun hdd => ?_
        have hcd : c = d := by_contra fun hne => by
          cases hc.symm.trans (hothers c hne)
        exact hdc (hdd.trans hcd.symm)
    refine .read (fun d' => ?_) ?_ (by decide)
    · rw [hall d']
      exact nofun
    · simp [hall, RwMode.readers]

/-- What each operation does keeps the shape. -/
theorem RwShape.step {v v' : BitVec 32} {op : RwOp} {r : Bool} (h : RwShape v hold)
    (hmay : rwClient.may (hold c) op) (hspec : rwSpec op v v' r) :
      RwShape v' (Function.update hold c (rwClient.after (hold c) op r)) := by
  have hkeep : RwShape v (Function.update hold c (hold c)) := by
    rw [Function.update_eq_self]
    exact h
  cases op with
  | writeLock =>
    obtain ⟨-, rfl, rfl⟩ := hspec
    exact h.writeLock
  | writeTrylock =>
    rcases hspec with ⟨rfl, rfl, rfl⟩ | ⟨rfl, rfl⟩
    · exact h.writeLock
    · exact hkeep
  | writeUnlock =>
    obtain rfl : v' = 0 := hspec
    cases hm : hold c with
    | writing => exact h.writeUnlock hm
    | reading n =>
      rw [hm] at hmay
      cases n with
      | zero | succ => exact absurd rfl hmay.1
  | readLock =>
    obtain ⟨-, hbit, rfl⟩ := hspec
    cases hm : hold c with
    | writing =>
      rw [hm] at hmay
      cases hmay
    | reading n => exact h.readLock hm hbit
  | readTrylock =>
    rcases hspec with ⟨rfl, hbit, rfl⟩ | ⟨rfl, rfl⟩
    · cases hm : hold c with
      | writing =>
        rw [hm] at hmay
        cases hmay
      | reading n => exact h.readLock hm hbit
    · exact hkeep
  | readUnlock =>
    obtain rfl : v' = v - 1 := hspec
    cases hm : hold c with
    | writing =>
      rw [hm] at hmay
      cases hmay
    | reading n =>
      cases n with
      | zero =>
        rw [hm] at hmay
        exact absurd rfl hmay.2
      | succ n => exact h.readUnlock hm

omit [DecidableEq C] in
theorem RwShape.writeCanLock_iff (h : RwShape word hold) : writeCanLock word = true ↔
    ∀ c, hold c = .reading 0 := by
  unfold writeCanLock
  rw [beq_iff_eq]
  constructor
  · rintro rfl
    exact h.free
  · intro hall
    cases h with
    | written c hc => cases hc.symm.trans (hall c)
    | read _ hsum _ =>
      have hzero : word.toNat = 0 := by simp [hsum, hall]
      exact BitVec.eq_of_toNat_eq hzero

omit [DecidableEq C] in
theorem RwShape.readCanLock_iff (h : RwShape word hold) : readCanLock word = true ↔
    ∀ c, hold c ≠ .writing := by
  unfold readCanLock
  rw [decide_eq_true_iff]
  cases h with
  | written c hc _ hword =>
    refine iff_of_false ?_ fun hnone => hnone c hc
    rw [hword]
    decide
  | read hnone _ hlt => exact iff_of_true (BitVec.lt_def.mpr hlt) hnone

/-- **Readers or one writer.**  In every run the word says what the CPUs hold, each from the moment
its call takes effect; of a CPU that is not in a call that is what its calls have left it with, and
of one in a call what it held before or what it holds after it. -/
theorem rwlock_exclusive {es : List (MachineEvent C RwOp Bool)} {s : Multicore 32 C RwMode RwOp}
    (h : Runs (MachineStep rwRoutines rwClient) (.init 0 (.reading 0)) es s) :
    ∃ hold, RwShape s.word hold ∧ (writeCanLock s.word = true ↔ ∀ c, hold c = .reading 0) ∧
      (readCanLock s.word = true ↔ ∀ c, hold c ≠ .writing) ∧
        (∀ c, s.running c = none → hold c = s.mode c) ∧
      ∀ c op, s.running c = some op → hold c = s.mode c ∨
        ∃ r, hold c = rwClient.after (s.mode c) op r := by
  obtain ⟨hold, hshape, hidle, hcall⟩ :=
    (rw_annotated.linearizable 0 (.reading 0)).invariant (I := RwShape)
    (.read (fun _ => nofun) (by simp) (by decide))
    (fun _ _ _ _ _ _ hshape hmay hspec => hshape.step hmay hspec) h
  exact ⟨hold, hshape, hshape.writeCanLock_iff, hshape.readCanLock_iff, hidle, hcall⟩

end shape

/-! ## Waiting -/

/-- A CPU that asks for the lock has an event when it comes to `wfe`, or its monitor while the lock
is taken. -/
def rwWaits : RwOp → BitVec 32 → Core 32 → Prop
  | .writeLock, word, k =>
    match k.pc with
    | 1 => k.Awake (word ≠ 0)
    | 3 => k.reg 0 ≠ 0 → k.Awake (word ≠ 0)
    | _ => True
  | .readLock, word, k =>
    match k.pc with
    | 1 => k.Awake ((word + 1).getLsbD 31 = true)
    | 3 => (k.reg 0 + 1).getLsbD 31 = true → k.Awake ((word + 1).getLsbD 31 = true)
    | 4 => (k.reg 0).getLsbD 31 = true → k.Awake ((word + 1).getLsbD 31 = true)
    | _ => True
  | _, _, _ => True

section waits
variable {word word' : BitVec 32} {k k' : Core 32} {i : Insn 32} {ok : Bool}
    {stored : Option (BitVec 32)} {op : RwOp}

/-- The load that finds the lock taken claims the monitor. -/
theorem rwWaits_exec (hi : (rwRoutines.code op)[k.pc]? = some i)
    (he : i.exec word ok k = some (k', stored))
    (h : rwWaits op word k) : rwWaits op (stored.getD word) k' := by
  obtain ⟨pc, reg, monitor, event⟩ := k
  cases op with
  | writeLock =>
    match pc, hi, h with
    | 0, hi, _ =>
      obtain rfl := Option.some.inj hi
      obtain ⟨rfl, rfl⟩ := Prod.mk.inj (Option.some.inj he)
      exact Or.inl rfl
    | 1, hi, _ =>
      obtain rfl := Option.some.inj hi
      obtain ⟨-, rfl, rfl⟩ := Insn.exec_wfe he
      trivial
    | 2, hi, _ =>
      obtain rfl := Option.some.inj hi
      obtain ⟨rfl, rfl⟩ := Prod.mk.inj (Option.some.inj he)
      exact fun h0 => Or.inr ⟨rfl, h0⟩
    | 3, hi, h =>
      obtain rfl := Option.some.inj hi
      rcases Insn.exec_cbnz he with ⟨⟨h0, rfl⟩ | ⟨-, rfl⟩, rfl⟩
      · exact h h0
      · trivial
    | 4, hi, _ =>
      obtain rfl := Option.some.inj hi
      rcases Insn.exec_stxr he with ⟨-, rfl, rfl⟩ | ⟨rfl, rfl⟩ <;> trivial
    | 5, hi, _ =>
      obtain rfl := Option.some.inj hi
      rcases Insn.exec_cbnz he with ⟨⟨-, rfl⟩ | ⟨-, rfl⟩, rfl⟩ <;> trivial
    | _ + 6, hi, _ => cases hi
  | readLock =>
    match pc, hi, h with
    | 0, hi, _ =>
      obtain rfl := Option.some.inj hi
      obtain ⟨rfl, rfl⟩ := Prod.mk.inj (Option.some.inj he)
      exact Or.inl rfl
    | 1, hi, _ =>
      obtain rfl := Option.some.inj hi
      obtain ⟨-, rfl, rfl⟩ := Insn.exec_wfe he
      trivial
    | 2, hi, _ =>
      obtain rfl := Option.some.inj hi
      obtain ⟨rfl, rfl⟩ := Prod.mk.inj (Option.some.inj he)
      exact fun h0 => Or.inr ⟨rfl, h0⟩
    | 3, hi, h =>
      obtain rfl := Option.some.inj hi
      obtain ⟨rfl, rfl⟩ := Prod.mk.inj (Option.some.inj he)
      exact h
    | 4, hi, h =>
      obtain rfl := Option.some.inj hi
      rcases Insn.exec_branch he with ⟨⟨h0, rfl⟩ | ⟨-, rfl⟩, rfl⟩
      · exact h h0
      · trivial
    | 5, hi, _ =>
      obtain rfl := Option.some.inj hi
      rcases Insn.exec_stxr he with ⟨-, rfl, rfl⟩ | ⟨rfl, rfl⟩ <;> trivial
    | 6, hi, _ =>
      obtain rfl := Option.some.inj hi
      rcases Insn.exec_cbnz he with ⟨⟨-, rfl⟩ | ⟨-, rfl⟩, rfl⟩ <;> trivial
    | _ + 7, hi, _ => cases hi
  | writeTrylock | writeUnlock | readTrylock | readUnlock => trivial

/-- `rwWaits` says of a core where it is and that it is awake. -/
theorem rwWaits_mono (hpc : k'.pc = k.pc) (hreg : k'.reg = k.reg)
    (hawake : ∀ P Q, k.Awake P → k'.Awake Q)
    (h : rwWaits op word k) : rwWaits op word' k' := by
  obtain ⟨pc, reg, monitor, event⟩ := k
  obtain ⟨pc', reg', monitor', event'⟩ := k'
  obtain rfl : pc' = pc := hpc
  obtain rfl : reg' = reg := hreg
  cases op with
  | writeLock =>
    match pc', h with
    | 1, h => exact hawake _ _ h
    | 3, h => exact fun h0 => hawake _ _ (h h0)
    | 0, _ | 2, _ | _ + 4, _ => trivial
  | readLock =>
    match pc', h with
    | 1, h => exact hawake _ _ h
    | 3, h | 4, h => exact fun h0 => hawake _ _ (h h0)
    | 0, _ | 2, _ | _ + 5, _ => trivial
  | writeTrylock | writeUnlock | readTrylock | readUnlock => trivial

theorem rwRoutines_closed : rwRoutines.Closed := by
  intro op
  cases op <;> decide

variable {C : Type} [DecidableEq C]

/-- **No wake-up is lost.**  In a call of any of the six a CPU can go on, unless it asks to write
while the word is not 0, or to read while there is a writer or no room for one more reader. -/
theorem rwlock_wakes {es : List (MachineEvent C RwOp Bool)} {s : Multicore 32 C RwMode RwOp}
    (h : Runs (MachineStep rwRoutines rwClient) (.init 0 (.reading 0)) es s) {c : C}
    (hrun : s.running c = some op) (hwrite : op = .writeLock → s.word = 0)
    (hread : op = .readLock → (s.word + 1).getLsbD 31 = false) :
    ∃ e t, MachineStep rwRoutines rwClient s e t ∧ (e = .exec c true ∨ ∃ r, e = .ret c r) := by
  have hwaits : rwWaits op s.word (s.core c) := by
    refine rwRoutines.local_invariant (fun op word k hk _ => ?_) (fun _ _ _ _ _ _ _ => rwWaits_exec)
      (fun _ _ _ k => rwWaits_mono k.disturbed_pc k.disturbed_reg fun _ _ => Core.Awake.disturbed)
      (fun _ _ k => rwWaits_mono rfl rfl fun _ _ _ => Or.inl rfl) h hrun
    cases op <;> simp [rwWaits, hk]
  refine rwRoutines_closed.can_step h hrun fun hwfe => ?_
  generalize s.core c = k at hwaits hwfe
  obtain ⟨pc, reg, monitor, event⟩ := k
  cases op with
  | writeLock =>
    match pc, hwfe, hwaits with
    | 1, _, hwaits => exact hwaits.resolve_right fun hblocked => hblocked.2 (hwrite rfl)
    | 0, hwfe, _ | 2, hwfe, _ | 3, hwfe, _ | 4, hwfe, _ | 5, hwfe, _ | _ + 6, hwfe, _ => cases hwfe
  | readLock =>
    match pc, hwfe, hwaits with
    | 1, _, hwaits =>
      exact hwaits.resolve_right fun hblocked =>
        absurd (hblocked.2.symm.trans (hread rfl)) (by decide)
    | 0, hwfe, _ | 2, hwfe, _ | 3, hwfe, _ | 4, hwfe, _ | 5, hwfe, _ | 6, hwfe, _
    | _ + 7, hwfe, _ => cases hwfe
  | writeTrylock =>
    match pc, hwfe with
    | 0, hwfe | 1, hwfe | 2, hwfe | _ + 3, hwfe => cases hwfe
  | writeUnlock =>
    match pc, hwfe with
    | 0, hwfe | _ + 1, hwfe => cases hwfe
  | readTrylock =>
    match pc, hwfe with
    | 0, hwfe | 1, hwfe | 2, hwfe | 3, hwfe | _ + 4, hwfe => cases hwfe
  | readUnlock =>
    match pc, hwfe with
    | 0, hwfe | 1, hwfe | 2, hwfe | 3, hwfe | _ + 4, hwfe => cases hwfe

end waits

/-! ## A reader and a writer -/

/-- CPU `c` executes `n` instructions. -/
def rwGo (c : Bool) (n : Nat) : List (MachineEvent Bool RwOp Bool) :=
  List.replicate n (.exec c true)

/-- CPU `true` reads, CPU `false` finds the lock taken, and CPU `true` has done its store of 0. -/
def readThenWrite : List (MachineEvent Bool RwOp Bool) :=
  .call true .readLock :: rwGo true 7 ++ .ret true true :: .call false .writeLock :: rwGo false 4 ++
    .call true .readUnlock :: rwGo true 3

theorem readThenWrite_run : ∃ s : Multicore 32 Bool RwMode RwOp,
    Runs (MachineStep rwRoutines rwClient) (.init 0 (.reading 0)) readThenWrite s ∧
      s.running false = some .writeLock ∧ s.word = 0 :=
  ⟨_, .cons (.call rfl ⟨nofun, nofun⟩) <|
    .cons (.exec rfl rfl rfl) <| .cons (.exec rfl rfl rfl) <| .cons (.exec rfl rfl rfl) <|
    .cons (.exec rfl rfl rfl) <| .cons (.exec rfl rfl rfl) <| .cons (.exec rfl rfl rfl) <|
    .cons (.exec rfl rfl rfl) <|
    .cons (.ret rfl rfl rfl) <| .cons (.call rfl ⟨nofun, nofun⟩) <|
    .cons (.exec rfl rfl rfl) <| .cons (.exec rfl rfl rfl) <| .cons (.exec rfl rfl rfl) <|
    .cons (.exec rfl rfl rfl) <|
    .cons (.call rfl ⟨nofun, nofun⟩) <|
    .cons (.exec rfl rfl rfl) <| .cons (.exec rfl rfl rfl) <| .single (.exec rfl rfl rfl), rfl, rfl⟩

theorem rwlock_exclusive_two : ∃ (s : Multicore 32 Bool RwMode RwOp) (hold : Bool → RwMode),
    Runs (MachineStep rwRoutines rwClient) (.init 0 (.reading 0)) readThenWrite s ∧
      RwShape s.word hold ∧
      s.running false = some .writeLock ∧
      (hold false = s.mode false ∨ ∃ r, hold false =
        rwClient.after (s.mode false) .writeLock r) := by
  obtain ⟨s, h, hrun, -⟩ := readThenWrite_run
  obtain ⟨hold, hshape, -, -, -, hcall⟩ := rwlock_exclusive h
  exact ⟨s, hold, h, hshape, hrun, hcall false .writeLock hrun⟩

theorem rwlock_wakes_two : ∃ s : Multicore 32 Bool RwMode RwOp,
    Runs (MachineStep rwRoutines rwClient) (.init 0 (.reading 0)) readThenWrite s ∧
      ∃ e t, MachineStep rwRoutines rwClient s e t ∧
        (e = .exec false true ∨ ∃ r, e = .ret false r) := by
  obtain ⟨s, h, hrun, hword⟩ := readThenWrite_run
  exact ⟨s, h, rwlock_wakes h hrun (fun _ => hword) nofun⟩

end ZHyper
