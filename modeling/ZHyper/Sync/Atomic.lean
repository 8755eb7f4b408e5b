import Mathlib.Data.BitVec
import ZHyper.Lib.Traces

/-!
# Atomic counters: `atomic_t` and `atomic64_t`

Both families are loops of an exclusive load and an exclusive store, and macros over them.  On one
CPU the operations are those of a counter in two's complement, of 32 and of 64 bits; but
`atomic64_add_negative` compares a `uint64_t` with 0 and is never true:

    a run on an `atomic64_t` gives the 64-bit results
        ↔  no step of it is an `add_negative` to a negative value           (atomic64_mirrors_iff)
-/

namespace ZHyper

open LowLevel

/-! ## The exclusive loops -/

variable {w : Nat} {α : Type}

/-- `1: ldxr r; r = f(r); stxr; cbnz 1b`, where so many stores fail first; the result is `r`. -/
def exclusiveUpdate (f : BitVec w → BitVec w) : Nat → StateM (BitVec w) (BitVec w)
  | 0 => do
    let counter ← get
    set (f counter)
    return f counter
  | fails + 1 => do
    let _ ← get
    exclusiveUpdate f fails

/-- `1: ldxr oldval; cmp oldval, old; b.ne 2f; stxr new; cbnz 1b; 2:`, where so many stores fail
first. -/
def exclusiveCmpxchg (old newVal : BitVec w) : Nat → StateM (BitVec w) (BitVec w)
  | 0 => do
    let oldval ← get
    if oldval ≠ old then return oldval
    set newVal
    return oldval
  | fails + 1 => do
    let oldval ← get
    if oldval ≠ old then return oldval
    exclusiveCmpxchg old newVal fails

/-! ## `atomic_t` -/

def atomicAdd (fails : Nat) (i : Int32) : StateM (BitVec 32) Unit := do
  let _ ← exclusiveUpdate (· + i.toBitVec) fails

def atomicAddReturn (fails : Nat) (i : Int32) : StateM (BitVec 32) Int32 := do
  let result ← exclusiveUpdate (· + i.toBitVec) fails
  return .ofBitVec result

def atomicSub (fails : Nat) (i : Int32) : StateM (BitVec 32) Unit := do
  let _ ← exclusiveUpdate (· - i.toBitVec) fails

def atomicSubReturn (fails : Nat) (i : Int32) : StateM (BitVec 32) Int32 := do
  let result ← exclusiveUpdate (· - i.toBitVec) fails
  return .ofBitVec result

def atomicCmpxchg (fails : Nat) (old newVal : Int32) : StateM (BitVec 32) Int32 := do
  let oldval ← exclusiveCmpxchg old.toBitVec newVal.toBitVec fails
  return .ofBitVec oldval

def atomicInc (fails : Nat) : StateM (BitVec 32) Unit := atomicAdd fails 1

def atomicDec (fails : Nat) : StateM (BitVec 32) Unit := atomicSub fails 1

def atomicIncAndTest (fails : Nat) : StateM (BitVec 32) Bool := do
  let result ← atomicAddReturn fails 1
  return result == 0

def atomicDecAndTest (fails : Nat) : StateM (BitVec 32) Bool := do
  let result ← atomicSubReturn fails 1
  return result == 0

def atomicSubAndTest (fails : Nat) (i : Int32) : StateM (BitVec 32) Bool := do
  let result ← atomicSubReturn fails i
  return result == 0

def atomicAddNegative (fails : Nat) (i : Int32) : StateM (BitVec 32) Bool := do
  let result ← atomicAddReturn fails i
  return result < 0

/-! ## `atomic64_t` -/

def atomic64Add (fails : Nat) (i : UInt64) : StateM (BitVec 64) Unit := do
  let _ ← exclusiveUpdate (· + i.toBitVec) fails

/-- `result` is a `long`, returned as `uint64_t`. -/
def atomic64AddReturn (fails : Nat) (i : UInt64) : StateM (BitVec 64) UInt64 := do
  let result ← exclusiveUpdate (· + i.toBitVec) fails
  return .ofBitVec result

def atomic64Sub (fails : Nat) (i : UInt64) : StateM (BitVec 64) Unit := do
  let _ ← exclusiveUpdate (· - i.toBitVec) fails

def atomic64SubReturn (fails : Nat) (i : UInt64) : StateM (BitVec 64) UInt64 := do
  let result ← exclusiveUpdate (· - i.toBitVec) fails
  return .ofBitVec result

def atomic64Cmpxchg (fails : Nat) (old newVal : UInt64) : StateM (BitVec 64) UInt64 := do
  let oldval ← exclusiveCmpxchg old.toBitVec newVal.toBitVec fails
  return .ofBitVec oldval

def atomic64Inc (fails : Nat) : StateM (BitVec 64) Unit := atomic64Add fails 1

def atomic64IncReturn (fails : Nat) : StateM (BitVec 64) UInt64 := atomic64AddReturn fails 1

def atomic64IncAndTest (fails : Nat) : StateM (BitVec 64) Bool := do
  let result ← atomic64IncReturn fails
  return result == 0

def atomic64Dec (fails : Nat) : StateM (BitVec 64) Unit := atomic64Sub fails 1

def atomic64DecReturn (fails : Nat) : StateM (BitVec 64) UInt64 := atomic64SubReturn fails 1

def atomic64DecAndTest (fails : Nat) : StateM (BitVec 64) Bool := do
  let result ← atomic64DecReturn fails
  return result == 0

def atomic64SubAndTest (fails : Nat) (a : UInt64) : StateM (BitVec 64) Bool := do
  let result ← atomic64SubReturn fails a
  return result == 0

/-- The comparison is one of `uint64_t`. -/
def atomic64AddNegative (fails : Nat) (a : UInt64) : StateM (BitVec 64) Bool := do
  let result ← atomic64AddReturn fails a
  return result < 0

/-! ## The operations -/

inductive AtomicOp (α : Type) where
  | add (i : α)
  | sub (i : α)
  | inc
  | dec
  | addReturn (i : α)
  | subReturn (i : α)
  | incAndTest
  | decAndTest
  | subAndTest (i : α)
  | addNegative (i : α)
  | cmpxchg (old newVal : α)

/-- What an operation returns, the words as bits. -/
inductive AtomicResult (w : Nat) where
  | none
  | word (x : BitVec w)
  | test (b : Bool)
deriving DecidableEq

/-- An operation on an `atomic_t`, with the number of stores that fail. -/
def atomicOp (op : Nat × AtomicOp Int32) : StateM (BitVec 32) (AtomicResult 32) :=
  match op.2 with
  | .add i => (fun _ => .none) <$> atomicAdd op.1 i
  | .sub i => (fun _ => .none) <$> atomicSub op.1 i
  | .inc => (fun _ => .none) <$> atomicInc op.1
  | .dec => (fun _ => .none) <$> atomicDec op.1
  | .addReturn i => (fun r => .word r.toBitVec) <$> atomicAddReturn op.1 i
  | .subReturn i => (fun r => .word r.toBitVec) <$> atomicSubReturn op.1 i
  | .incAndTest => .test <$> atomicIncAndTest op.1
  | .decAndTest => .test <$> atomicDecAndTest op.1
  | .subAndTest i => .test <$> atomicSubAndTest op.1 i
  | .addNegative i => .test <$> atomicAddNegative op.1 i
  | .cmpxchg old newVal => (fun r => .word r.toBitVec) <$> atomicCmpxchg op.1 old newVal

/-- An operation on an `atomic64_t`. -/
def atomic64Op (op : Nat × AtomicOp UInt64) : StateM (BitVec 64) (AtomicResult 64) :=
  match op.2 with
  | .add i => (fun _ => .none) <$> atomic64Add op.1 i
  | .sub i => (fun _ => .none) <$> atomic64Sub op.1 i
  | .inc => (fun _ => .none) <$> atomic64Inc op.1
  | .dec => (fun _ => .none) <$> atomic64Dec op.1
  | .addReturn i => (fun r => .word r.toBitVec) <$> atomic64AddReturn op.1 i
  | .subReturn i => (fun r => .word r.toBitVec) <$> atomic64SubReturn op.1 i
  | .incAndTest => .test <$> atomic64IncAndTest op.1
  | .decAndTest => .test <$> atomic64DecAndTest op.1
  | .subAndTest i => .test <$> atomic64SubAndTest op.1 i
  | .addNegative i => .test <$> atomic64AddNegative op.1 i
  | .cmpxchg old newVal => (fun r => .word r.toBitVec) <$> atomic64Cmpxchg op.1 old newVal

/-! ## A counter in two's complement -/

/-- The new value of the counter. -/
def AtomicOp.next (bits : α → BitVec w) : AtomicOp α → BitVec w → BitVec w
  | .add i, v | .addReturn i, v | .addNegative i, v => v + bits i
  | .sub i, v | .subReturn i, v | .subAndTest i, v => v - bits i
  | .inc, v | .incAndTest, v => v + 1
  | .dec, v | .decAndTest, v => v - 1
  | .cmpxchg old newVal, v => if v = bits old then bits newVal else v

/-- What an operation returns; `isNegative` is the test of `add_negative`. -/
def AtomicOp.result (bits : α → BitVec w) (isNegative : BitVec w → Bool) (op : AtomicOp α)
    (v : BitVec w) :
    AtomicResult w :=
  match op with
  | .add _ | .sub _ | .inc | .dec => .none
  | .addReturn _ | .subReturn _ => .word (op.next bits v)
  | .incAndTest | .decAndTest | .subAndTest _ => .test (op.next bits v = 0)
  | .addNegative _ => .test (isNegative (op.next bits v))
  | .cmpxchg _ _ => .word v

/-- A counter that operations with arguments in `α` are done on. -/
def counterOp (bits : α → BitVec w) (op : Nat × AtomicOp α) (v : BitVec w) :
    AtomicResult w × BitVec w :=
  (op.2.result bits (fun x => x.toInt < 0) v, op.2.next bits v)

/-- An `add_negative` whose new value has the top bit. -/
def AddsToNegative (op : AtomicOp UInt64) (v : BitVec 64) : Prop :=
  ∃ i, op = .addNegative i ∧ (v + i.toBitVec).msb = true

/-! ## What the loops do -/

theorem exclusiveUpdate_run (f : BitVec w → BitVec w) (fails : Nat) (v : BitVec w) :
    (exclusiveUpdate f fails).run v = (f v, f v) := by
  induction fails with
  | zero => rfl
  | succ fails ih => exact ih

theorem exclusiveCmpxchg_run (old newVal : BitVec w) (fails : Nat) (v : BitVec w) :
    (exclusiveCmpxchg old newVal fails).run v = (v, if v = old then newVal else v) := by
  have hne : v ≠ old → ∀ fails, (exclusiveCmpxchg old newVal fails).run v = (v, v) := by
    intro h fails
    cases fails <;> exact congrFun (if_pos h) v
  have heq : v = old → (exclusiveCmpxchg old newVal fails).run v = (v, newVal) := by
    intro h
    induction fails with
    | zero => exact congrFun (if_neg (not_not_intro h)) v
    | succ fails ih => exact (congrFun (if_neg (not_not_intro h)) v).trans ih
  by_cases h : v = old
  · rw [if_pos h, heq h]
  · rw [if_neg h, hne h]

/-- An update, and what is made of its result. -/
theorem updateResult_run (g : BitVec w → AtomicResult w) (f : BitVec w → BitVec w) (fails : Nat)
    (v : BitVec w) :
    (g <$> exclusiveUpdate f fails).run v = (g (f v), f v) :=
  congrArg (fun p : BitVec w × BitVec w => (g p.1, p.2)) (exclusiveUpdate_run f fails v)

theorem cmpxchgResult_run (old newVal : BitVec w) (fails : Nat) (v : BitVec w) :
    (AtomicResult.word <$> exclusiveCmpxchg old newVal fails).run v =
      (.word v, if v = old then newVal else v) :=
  congrArg (fun p : BitVec w × BitVec w => (AtomicResult.word p.1, p.2))
    (exclusiveCmpxchg_run old newVal fails v)

/-- A test of the result; the comparison of the code is the one of the words. -/
theorem updateTest_run {t t' : BitVec w → Bool} (ht : ∀ x, t x = t' x) (f : BitVec w → BitVec w)
    (fails : Nat) (v : BitVec w) :
    ((fun r => (.test (t r) : AtomicResult w)) <$> exclusiveUpdate f fails).run v =
      (.test (t' (f v)), f v) := by
  rw [updateResult_run, ht]

/-! ## The comparisons -/

theorem int32_eq_zero (x : BitVec 32) : (Int32.ofBitVec x == 0) = decide (x = 0) := by
  rw [Bool.eq_iff_iff, beq_iff_eq, decide_eq_true_iff, ← Int32.toBitVec_inj]
  rfl

theorem int32_neg (x : BitVec 32) : decide (Int32.ofBitVec x < 0) = decide (x.toInt < 0) := by
  rw [decide_eq_decide, Int32.lt_iff_toInt_lt]
  rfl

theorem uint64_eq_zero (x : BitVec 64) : (UInt64.ofBitVec x == 0) = decide (x = 0) := by
  rw [Bool.eq_iff_iff, beq_iff_eq, decide_eq_true_iff, ← UInt64.toBitVec_inj]
  rfl

/-- No `uint64_t` is below zero. -/
theorem uint64_neg (x : BitVec 64) : decide (UInt64.ofBitVec x < 0) = false :=
  decide_eq_false UInt64.not_lt_zero

/-! ## The families -/

/-- Both families, but for the comparisons. -/
def familyOp (bits : α → BitVec w) (isZero isNegative : BitVec w → Bool) (op : Nat × AtomicOp α) :
    StateM (BitVec w) (AtomicResult w) :=
  match op.2 with
  | .add i => (fun _ => .none) <$> exclusiveUpdate (· + bits i) op.1
  | .sub i => (fun _ => .none) <$> exclusiveUpdate (· - bits i) op.1
  | .inc => (fun _ => .none) <$> exclusiveUpdate (· + 1) op.1
  | .dec => (fun _ => .none) <$> exclusiveUpdate (· - 1) op.1
  | .addReturn i => .word <$> exclusiveUpdate (· + bits i) op.1
  | .subReturn i => .word <$> exclusiveUpdate (· - bits i) op.1
  | .incAndTest => (fun r => .test (isZero r)) <$> exclusiveUpdate (· + 1) op.1
  | .decAndTest => (fun r => .test (isZero r)) <$> exclusiveUpdate (· - 1) op.1
  | .subAndTest i => (fun r => .test (isZero r)) <$> exclusiveUpdate (· - bits i) op.1
  | .addNegative i => (fun r => .test (isNegative r)) <$> exclusiveUpdate (· + bits i) op.1
  | .cmpxchg old newVal => .word <$> exclusiveCmpxchg (bits old) (bits newVal) op.1

theorem atomicOp_eq (op : Nat × AtomicOp Int32) :
    atomicOp op = familyOp Int32.toBitVec (fun x => Int32.ofBitVec x == 0)
      (fun x => Int32.ofBitVec x < 0) op := by
  obtain ⟨fails, op⟩ := op
  cases op <;> rfl

theorem atomic64Op_eq (op : Nat × AtomicOp UInt64) :
    atomic64Op op = familyOp UInt64.toBitVec (fun x => UInt64.ofBitVec x == 0)
      (fun x => UInt64.ofBitVec x < 0) op := by
  obtain ⟨fails, op⟩ := op
  cases op <;> rfl

theorem familyOp_run {bits : α → BitVec w} {isZero isNegative isNegative' : BitVec w → Bool}
    (hzero : ∀ x, isZero x = decide (x = 0)) (hneg : ∀ x, isNegative x = isNegative' x)
    (op : Nat × AtomicOp α) (v : BitVec w) :
    (familyOp bits isZero isNegative op).run v =
      (op.2.result bits isNegative' v, op.2.next bits v) := by
  obtain ⟨fails, op⟩ := op
  cases op with
  | add i => exact updateResult_run (fun _ => .none) (· + bits i) fails v
  | sub i => exact updateResult_run (fun _ => .none) (· - bits i) fails v
  | inc => exact updateResult_run (fun _ => .none) (· + 1) fails v
  | dec => exact updateResult_run (fun _ => .none) (· - 1) fails v
  | addReturn i => exact updateResult_run .word (· + bits i) fails v
  | subReturn i => exact updateResult_run .word (· - bits i) fails v
  | incAndTest => exact updateTest_run hzero (· + 1) fails v
  | decAndTest => exact updateTest_run hzero (· - 1) fails v
  | subAndTest i => exact updateTest_run hzero (· - bits i) fails v
  | addNegative i => exact updateTest_run hneg (· + bits i) fails v
  | cmpxchg old newVal => exact cmpxchgResult_run (bits old) (bits newVal) fails v

/-- The 32-bit operations are those of the counter. -/
theorem atomicOp_run (op : Nat × AtomicOp Int32) (v : BitVec 32) :
    (atomicOp op).run v = counterOp Int32.toBitVec op v := by
  rw [atomicOp_eq]
  exact familyOp_run int32_eq_zero int32_neg op v

/-- The 64-bit operations are too, but that `add_negative` is never true. -/
theorem atomic64Op_run (op : Nat × AtomicOp UInt64) (v : BitVec 64) :
    (atomic64Op op).run v = (op.2.result UInt64.toBitVec (fun _ => false) v,
      op.2.next UInt64.toBitVec v) := by
  rw [atomic64Op_eq]
  exact familyOp_run uint64_eq_zero uint64_neg op v

/-- The result of an operation is the right one unless it adds to a negative value. -/
theorem result_never_negative_iff (op : AtomicOp UInt64) (v : BitVec 64) :
    op.result UInt64.toBitVec (fun _ => false) v =
      op.result UInt64.toBitVec (fun x => x.toInt < 0) v ↔
      ¬ AddsToNegative op v := by
  have hother : (∀ i, op ≠ .addNegative i) → ¬ AddsToNegative op v := fun h ⟨i, hi, _⟩ => h i hi
  cases op with
  | addNegative i =>
    have hadds : AddsToNegative (.addNegative i) v ↔ (v + i.toBitVec).toInt < 0 := by
      constructor
      · rintro ⟨j, hj, hneg⟩
        cases hj
        rwa [BitVec.msb_eq_toInt, decide_eq_true_iff] at hneg
      · intro hneg
        exact ⟨i, rfl, by rwa [BitVec.msb_eq_toInt, decide_eq_true_iff]⟩
    rw [hadds]
    simp [AtomicOp.result, AtomicOp.next]
  | _ => exact iff_of_true rfl (hother fun _ h => nomatch h)

/-- **The 64-bit counters mirror the 32-bit ones**, which are counters in two's complement, along a
run just when no `add_negative` of the run comes to a negative value; the counter itself is always
right. -/
theorem atomic64_mirrors_iff (ops32 : List (Nat × AtomicOp Int32)) (v32 : BitVec 32)
    (ops : List (Nat × AtomicOp UInt64)) (v : BitVec 64) :
    trace (fun op => (atomicOp op).run) ops32 v32 = trace (counterOp Int32.toBitVec) ops32 v32 ∧
    (trace (fun op => (atomic64Op op).run) ops v = trace (counterOp UInt64.toBitVec) ops v ↔
      Along (counterOp UInt64.toBitVec) (fun op v => ¬ AddsToNegative op.2 v) ops v) ∧
    (trace (fun op => (atomic64Op op).run) ops v).map Prod.snd =
      (trace (counterOp UInt64.toBitVec) ops v).map Prod.snd := by
  have hnext : ∀ op v, ((atomic64Op op).run v).2 = (counterOp UInt64.toBitVec op v).2 := by
    intro op v
    rw [atomic64Op_run]
    rfl
  refine ⟨?_, ?_, trace_states hnext ops v⟩
  · rw [funext fun op => funext fun v => atomicOp_run op v]
  · refine (trace_eq_iff hnext ops v).trans (along_congr (fun op v => ?_) ops v)
    rw [atomic64Op_run]
    exact result_never_negative_iff op.2 v

/-- Adding -1 to 0: the test is true of an `atomic_t`, and false of an `atomic64_t`. -/
theorem atomic64_never_negative :
    trace (fun op => (atomicOp op).run) [(0, .addNegative (-1))] 0 = [(.test true, -1)] ∧
      trace (fun op => (atomic64Op op).run) [(0, .addNegative (-1))] 0 = [(.test false, -1)] ∧
      trace (counterOp UInt64.toBitVec) [(0, .addNegative (-1))] 0 = [(.test true, -1)] :=
  ⟨by decide, by decide, by decide⟩

end ZHyper
