import ZHyper.Lib.Linearizable
import ZHyper.Sync.Atomic

/-!
# Atomic counters shared by many CPUs

The operations of `atomic.h` as their instructions, run by any number of CPUs on one counter in any
order.  Every operation, the loops over `cmpxchg` and the plain read and write included, acts in one
step between its call and its return, and does what it does alone on one CPU:

    the CPUs' calls and returns are those of an atomic counter            (atomics_linearizable)
    with additions and subtractions only, the counter is the sum of them   (no_lost_update)
-/

namespace ZHyper

open LowLevel

/-! ## Instructions

Registers are the operands of the `asm` statements. -/

section asm
variable {w : Nat} (f : BitVec w → BitVec w → BitVec w)

/-- `1: ldxr %0; f %0, %0, %3; stxr %1, %0; cbnz %1, 1b` -/
def updateAsm : List (Insn w) :=
  [.ldxr 0, .alu 0 fun r => f (r 0) (r 3), .stxr 1 0, .cbnz 1 0]

/-- `1: ldxr %1; cmp %1, %3; b.ne 2f; stxr %0, %4; cbnz %0, 1b; 2:` -/
def cmpxchgAsm : List (Insn w) :=
  [.ldxr 1, .cmpBne 1 3 4, .stxr 0 4, .cbnz 0 0]

/-- `c = read(v); while (c != u && (old = cmpxchg(v, c, c + a)) != c) c = old;` with `c`, `a` and
`u` in the registers 5, 6 and 7. -/
def addUnlessAsm : List (Insn w) :=
  [.ldr 5, .cmpBeq 5 7 11, .mov 3 5, .alu 4 fun r => r 5 + r 6,
    .ldxr 1, .cmpBne 1 3 8, .stxr 0 4, .cbnz 0 4,
    .cmpBeq 1 5 11, .mov 5 1, .b 1]

/-- `1: ldxr %0; subs %0, %0, #1; b.mi 2f; stlxr %1, %0; cbnz %1, 1b; dmb; 2:` -/
def decIfPositiveAsm : List (Insn w) :=
  [.ldxr 0, .subImm 0 0 1, .bmi 0 5, .stxr 1 0, .cbnz 1 0]

end asm

/-! ## The operations -/

/-- `atomic_read`, `atomic_set`, the operations of `AtomicOp`, `add_unless` and
`dec_if_positive`. -/
inductive CounterOp (α : Type) where
  | read
  | set (i : α)
  | atomic (op : AtomicOp α)
  | addUnless (a u : α)
  | decIfPositive

/-- What the two families differ in: the bits of an argument, the comparisons with 0, and what
`add_unless` makes of `c` and `u`. -/
structure Family (w : Nat) (α : Type) where
  bits : α → BitVec w
  isZero : BitVec w → Bool
  isNegative : BitVec w → Bool
  unlessResult : BitVec w → BitVec w → AtomicResult w

/-- `atomic_t`: `__atomic_add_unless` returns `c`. -/
def atomicT : Family 32 Int32 :=
  ⟨Int32.toBitVec, fun x => Int32.ofBitVec x == 0, fun x => Int32.ofBitVec x < 0, fun c _ =>
    .word c⟩

/-- `atomic64_t`: `atomic64_add_unless` returns `c != u`. -/
def atomic64T : Family 64 UInt64 :=
  ⟨UInt64.toBitVec, fun x => UInt64.ofBitVec x == 0, fun x => UInt64.ofBitVec x < 0, fun c u =>
    .test (c ≠ u)⟩

section family
variable {w : Nat} {α : Type} (F : Family w α)

/-- The instruction that updates the counter. -/
def updateInsn : AtomicOp α → BitVec w → BitVec w → BitVec w
  | .sub _ | .dec | .subReturn _ | .decAndTest | .subAndTest _ => (· - ·)
  | _ => (· + ·)

def CounterOp.code : CounterOp α → List (Insn w)
  | .read => [.ldr 0]
  | .set _ => [.str 3]
  | .atomic (.cmpxchg _ _) => cmpxchgAsm
  | .atomic op => updateAsm (updateInsn op)
  | .addUnless _ _ => addUnlessAsm
  | .decIfPositive => decIfPositiveAsm

/-- The argument `i` of an update. -/
def Family.operand : AtomicOp α → BitVec w
  | .add i | .sub i | .addReturn i | .subReturn i | .subAndTest i | .addNegative i => F.bits i
  | .inc | .dec | .incAndTest | .decAndTest => 1
  | .cmpxchg old _ => F.bits old

def Family.args : CounterOp α → Nat → BitVec w
  | .set i => fun _ => F.bits i
  | .atomic (.cmpxchg old newVal) => fun r => if r = 4 then F.bits newVal else F.bits old
  | .atomic op => fun _ => F.operand op
  | .addUnless a u => fun r => if r = 6 then F.bits a else F.bits u
  | .read | .decIfPositive => fun _ => 0

/-- What is returned, from the register of the result. -/
def Family.returns (x : BitVec w) : AtomicOp α → AtomicResult w
  | .add _ | .sub _ | .inc | .dec => .none
  | .addReturn _ | .subReturn _ | .cmpxchg _ _ => .word x
  | .incAndTest | .decAndTest | .subAndTest _ => .test (F.isZero x)
  | .addNegative _ => .test (F.isNegative x)

def Family.result : CounterOp α → (Nat → BitVec w) → AtomicResult w
  | .read => fun r => .word (r 0)
  | .set _ => fun _ => .none
  | .atomic (.cmpxchg _ _) => fun r => .word (r 1)
  | .atomic op => fun r => F.returns (r 0) op
  | .addUnless _ _ => fun r => F.unlessResult (r 5) (r 7)
  | .decIfPositive => fun r => .word (r 0)

def Family.routines : Routines w (CounterOp α) (AtomicResult w) :=
  ⟨CounterOp.code, F.args, F.result⟩

/-! ## What they do on one CPU -/

/-- What an operation alone returns, and the new value. -/
def Family.alone : CounterOp α → BitVec w → AtomicResult w × BitVec w
  | .read, c => (.word c, c)
  | .set i, _ => (.none, F.bits i)
  | .atomic op, c => (familyOp F.bits F.isZero F.isNegative (0, op)).run c
  | .addUnless a u, c => (F.unlessResult c (F.bits u), if c = F.bits u then c else c + F.bits a)
  | .decIfPositive, c => (.word (c - 1), if (c - 1).msb then c else c - 1)

def Family.spec (op : CounterOp α) (v v' : BitVec w) (r : AtomicResult w) : Prop :=
  F.alone op v = (r, v')

end family

/-! ## Notes -/

section notes
variable {w : Nat} {ρ : Type} {spec : BitVec w → BitVec w → ρ → Prop} {args : Nat → BitVec w}

def updateNote (f : BitVec w → BitVec w → BitVec w) (i : BitVec w) (g : BitVec w → ρ) : Note w ρ :=
  fun pc reg view out =>
    match pc with
    | 0 => reg 3 = i ∧ out = none
    | 1 => reg 3 = i ∧ out = none ∧ ∀ v ∈ view, reg 0 = v
    | 2 => reg 3 = i ∧ out = none ∧ ∀ v ∈ view, reg 0 = f v i
    | 3 => reg 3 = i ∧ (reg 1 = 0 → out = some (g (reg 0))) ∧ (reg 1 ≠ 0 → out = none)
    | 4 => out = some (g (reg 0))
    | _ => False

theorem updateAsm_annotated {f : BitVec w → BitVec w → BitVec w} {i : BitVec w} {g : BitVec w → ρ}
    (hone : (1 : BitVec w) ≠ 0) (hargs : args 3 = i) (hspec : ∀ v, spec v (f v i) (g (f v i))) :
    Annotated (updateAsm f) args (fun r => g (r 0)) spec (updateNote f i g) where
  start _ := ⟨hargs, rfl⟩
  lose {pc reg view out} h := by
    match pc, h with
    | 1, h | 2, h => exact ⟨h.1, h.2.1, nofun⟩
    | 0, h | 3, h | 4, h | _ + 5, h => exact h
  finish h := h
  step {pc insn reg view out} hi hn := by
    rcases pc with _ | _ | _ | _ | pc
    · obtain rfl := Option.some.inj hi
      obtain ⟨h3, rfl⟩ := hn
      intro word
      exact ⟨none, ⟨h3, rfl, fun v hv => Option.some.inj hv⟩, .keep⟩
    · obtain rfl := Option.some.inj hi
      obtain ⟨h3, rfl, hview⟩ := hn
      refine ⟨h3, rfl, fun v hv => ?_⟩
      simp [hview v hv, h3]
    · obtain rfl := Option.some.inj hi
      obtain ⟨h3, rfl, hview⟩ := hn
      refine ⟨fun _ => ⟨none, ⟨h3, fun h => absurd h hone, fun _ => rfl⟩, .keep⟩, fun word hword =>
        ?_⟩
      refine ⟨some (g (reg 0)), ⟨h3, fun _ => rfl, fun h => absurd rfl h⟩, .commit ?_⟩
      rw [hview word hword]
      exact hspec word
    · obtain rfl := Option.some.inj hi
      obtain ⟨h3, hdone, hagain⟩ := hn
      refine ⟨fun h => ?_, fun h => ?_⟩
      · exact ⟨h3, hagain (by simpa using h)⟩
      · exact hdone (by simpa using h)
    · cases hi

def cmpxchgNote (old newVal : BitVec w) (g : BitVec w → ρ) : Note w ρ :=
  fun pc reg view out =>
    match pc with
    | 0 => reg 3 = old ∧ reg 4 = newVal ∧ out = none
    | 1 => reg 3 = old ∧ reg 4 = newVal ∧ (reg 1 = old → out = none ∧ ∀ v ∈ view, v = old) ∧
        (reg 1 ≠ old → out = some (g (reg 1)))
    | 2 => reg 3 = old ∧ reg 4 = newVal ∧ reg 1 = old ∧ out = none ∧ ∀ v ∈ view, v = old
    | 3 => reg 3 = old ∧ reg 4 = newVal ∧ (reg 0 = 0 → out = some (g (reg 1))) ∧ (reg 0 ≠ 0 →
      out = none)
    | 4 => out = some (g (reg 1))
    | _ => False

/-- A comparison that fails is the effect of the operation at the load. -/
theorem cmpxchgAsm_annotated {old newVal : BitVec w} {g : BitVec w → ρ} (hone : (1 : BitVec w) ≠ 0)
    (hold : args 3 = old) (hnew : args 4 = newVal)
    (hspec : ∀ v, spec v (if v = old then newVal else v) (g v)) :
    Annotated cmpxchgAsm args (fun r => g (r 1)) spec (cmpxchgNote old newVal g) where
  start _ := ⟨hold, hnew, rfl⟩
  lose {pc reg view out} h := by
    match pc, h with
    | 1, h => exact ⟨h.1, h.2.1, fun h1 => ⟨(h.2.2.1 h1).1, nofun⟩, h.2.2.2⟩
    | 2, h => exact ⟨h.1, h.2.1, h.2.2.1, h.2.2.2.1, nofun⟩
    | 0, h | 3, h | 4, h | _ + 5, h => exact h
  finish h := h
  step {pc insn reg view out} hi hn := by
    rcases pc with _ | _ | _ | _ | pc
    · obtain rfl := Option.some.inj hi
      obtain ⟨h3, h4, rfl⟩ := hn
      intro word
      by_cases h : word = old
      · refine ⟨none, ⟨h3, h4, fun _ => ⟨rfl, fun v hv => ?_⟩, fun h1 => absurd h h1⟩, .keep⟩
        rw [← Option.some.inj hv, h]
      · have heff := hspec word
        rw [if_neg h] at heff
        exact ⟨some (g word), ⟨h3, h4, fun h1 => absurd h1 h, fun _ => rfl⟩, .commit heff⟩
    · obtain rfl := Option.some.inj hi
      obtain ⟨h3, h4, heq, hne⟩ := hn
      refine ⟨fun h => ?_, fun h => ?_⟩
      · exact hne (by simpa [h3] using h)
      · have h1 : reg 1 = old := by simpa [h3] using h
        exact ⟨h3, h4, h1, heq h1⟩
    · obtain rfl := Option.some.inj hi
      obtain ⟨h3, h4, h1, rfl, hview⟩ := hn
      refine ⟨fun _ => ⟨none, ⟨h3, h4, fun h => absurd h hone, fun _ => rfl⟩, .keep⟩,
        fun word hword => ?_⟩
      refine ⟨some (g (reg 1)), ⟨h3, h4, fun _ => rfl, fun h => absurd rfl h⟩, .commit ?_⟩
      have heff := hspec old
      rw [if_pos rfl] at heff
      rw [hview word hword, h1, h4]
      exact heff
    · obtain rfl := Option.some.inj hi
      obtain ⟨h3, h4, hdone, hagain⟩ := hn
      refine ⟨fun h => ?_, fun h => ?_⟩
      · exact ⟨h3, h4, hagain (by simpa using h)⟩
      · exact hdone (by simpa using h)
    · cases hi

/-- What is known when `c` has been compared with `u`, or is about to be. -/
def UnlessRead (u c : BitVec w) (g : BitVec w → ρ) (out : Option ρ) : Prop :=
  (c = u → out = some (g u)) ∧ (c ≠ u → out = none)

def addUnlessNote (a u : BitVec w) (g : BitVec w → ρ) : Note w ρ :=
  fun pc reg view out => reg 6 = a ∧ reg 7 = u ∧
    match pc with
    | 0 => out = none
    | 1 => UnlessRead u (reg 5) g out
    | 2 => reg 5 ≠ u ∧ out = none
    | 3 => reg 5 ≠ u ∧ reg 3 = reg 5 ∧ out = none
    | 4 => reg 5 ≠ u ∧ reg 3 = reg 5 ∧ reg 4 = reg 5 + a ∧ out = none
    | 5 => reg 5 ≠ u ∧ reg 3 = reg 5 ∧ reg 4 = reg 5 + a ∧ UnlessRead u (reg 1) g out ∧
        (reg 1 = reg 5 → ∀ v ∈ view, v = reg 5)
    | 6 =>
      reg 5 ≠ u ∧ reg 3 = reg 5 ∧ reg 4 = reg 5 + a ∧ reg 1 = reg 5 ∧ out = none ∧
        ∀ v ∈ view, v = reg 5
    | 7 => reg 5 ≠ u ∧ reg 3 = reg 5 ∧ reg 4 = reg 5 + a ∧ reg 1 = reg 5 ∧
        (reg 0 = 0 → out = some (g (reg 5))) ∧ (reg 0 ≠ 0 → out = none)
    | 8 => (reg 1 = reg 5 → out = some (g (reg 5))) ∧ (reg 1 ≠ reg 5 → UnlessRead u (reg 1) g out)
    | 9 => UnlessRead u (reg 1) g out
    | 10 => UnlessRead u (reg 5) g out
    | 11 => out = some (g (reg 5))
    | _ => False

/-- Reading `u` is the effect of the operation; otherwise the store of `cmpxchg` is. -/
theorem unlessRead_load {u : BitVec w} {g : BitVec w → ρ} (hread : spec u u (g u))
    (word : BitVec w) :
    ∃ out', UnlessRead u word g out' ∧ Effect spec word word none out' := by
  by_cases h : word = u
  · subst h
    exact ⟨some (g word), ⟨fun _ => rfl, fun h => absurd rfl h⟩, .commit hread⟩
  · exact ⟨none, ⟨fun h' => absurd h' h, fun _ => rfl⟩, .keep⟩

theorem addUnlessAsm_annotated {a u : BitVec w} {g : BitVec w → BitVec w → ρ}
    (hone : (1 : BitVec w) ≠ 0) (ha : args 6 = a) (hu : args 7 = u) (hread : spec u u (g u u))
    (hadd : ∀ v, v ≠ u → spec v (v + a) (g v u)) :
    Annotated addUnlessAsm args (fun r => g (r 5) (r 7)) spec (addUnlessNote a u fun c =>
      g c u) where
  start _ := ⟨ha, hu, rfl⟩
  lose {pc reg view out} h := by
    obtain ⟨h6, h7, h⟩ := h
    refine ⟨h6, h7, ?_⟩
    match pc, h with
    | 5, h => exact ⟨h.1, h.2.1, h.2.2.1, h.2.2.2.1, fun _ => nofun⟩
    | 6, h => exact ⟨h.1, h.2.1, h.2.2.1, h.2.2.2.1, h.2.2.2.2.1, nofun⟩
    | 0, h | 1, h | 2, h | 3, h | 4, h | 7, h | 8, h | 9, h | 10, h | 11, h | _ + 12, h => exact h
  finish {reg view out} h := by
    obtain ⟨-, h7, h⟩ := h
    rw [h7]
    exact h
  step {pc insn reg view out} hi hn := by
    obtain ⟨h6, h7, hn⟩ := hn
    rcases pc with _ | _ | _ | _ | _ | _ | _ | _ | _ | _ | _ | pc
    · obtain rfl := Option.some.inj hi
      subst hn
      intro word
      obtain ⟨out', hout, heff⟩ := unlessRead_load (g := fun c => g c u) hread word
      exact ⟨out', ⟨h6, h7, hout⟩, heff⟩
    · obtain rfl := Option.some.inj hi
      refine ⟨fun h => ⟨h6, h7, ?_⟩, fun h => ⟨h6, h7, ?_⟩⟩
      · have h5 : reg 5 = u := by simpa [h7] using h
        rw [h5]
        exact hn.1 h5
      · have h5 : reg 5 ≠ u := by simpa [h7] using h
        exact ⟨h5, hn.2 h5⟩
    · obtain rfl := Option.some.inj hi
      exact ⟨h6, h7, hn.1, rfl, hn.2⟩
    · obtain rfl := Option.some.inj hi
      refine ⟨h6, h7, hn.1, hn.2.1, ?_, hn.2.2⟩
      show reg 5 + reg 6 = reg 5 + a
      rw [h6]
    · obtain rfl := Option.some.inj hi
      obtain ⟨h5, h3, h4, rfl⟩ := hn
      intro word
      obtain ⟨out', hout, heff⟩ := unlessRead_load (g := fun c => g c u) hread word
      refine ⟨out', ⟨h6, h7, h5, h3, h4, hout, fun h1 v hv => ?_⟩, heff⟩
      rw [← Option.some.inj hv]
      exact h1
    · obtain rfl := Option.some.inj hi
      obtain ⟨h5, h3, h4, hread', hview⟩ := hn
      refine ⟨fun h => ⟨h6, h7, ?_⟩, fun h => ⟨h6, h7, ?_⟩⟩
      · have h1 : reg 1 ≠ reg 5 := by simpa [h3] using h
        exact ⟨fun h => absurd h h1, fun _ => hread'⟩
      · have h1 : reg 1 = reg 5 := by simpa [h3] using h
        exact ⟨h5, h3, h4, h1, hread'.2 (h1 ▸ h5), hview h1⟩
    · obtain rfl := Option.some.inj hi
      obtain ⟨h5, h3, h4, h1, rfl, hview⟩ := hn
      refine ⟨fun _ => ⟨none, ⟨h6, h7, h5, h3, h4, h1, fun h => absurd h hone, fun _ => rfl⟩,
        .keep⟩, fun word hword => ?_⟩
      refine ⟨some (g (reg 5) u), ⟨h6, h7, h5, h3, h4, h1, fun _ => rfl, fun h => absurd rfl h⟩,
        .commit ?_⟩
      rw [hview word hword, h4]
      exact hadd (reg 5) h5
    · obtain rfl := Option.some.inj hi
      obtain ⟨h5, h3, h4, h1, hdone, hagain⟩ := hn
      refine ⟨fun h => ⟨h6, h7, ?_⟩, fun h => ⟨h6, h7, ?_⟩⟩
      · exact ⟨h5, h3, h4, hagain (by simpa using h)⟩
      · exact ⟨fun _ => hdone (by simpa using h), fun h' => absurd h1 h'⟩
    · obtain rfl := Option.some.inj hi
      refine ⟨fun h => ⟨h6, h7, ?_⟩, fun h => ⟨h6, h7, ?_⟩⟩
      · exact hn.1 (by simpa using h)
      · exact hn.2 (by simpa using h)
    · obtain rfl := Option.some.inj hi
      exact ⟨h6, h7, hn⟩
    · obtain rfl := Option.some.inj hi
      exact ⟨fun _ => ⟨h6, h7, hn⟩, fun h => by cases h⟩
    · cases hi

def decIfPositiveNote (g : BitVec w → ρ) : Note w ρ :=
  fun pc reg view out =>
    match pc with
    | 0 => out = none
    | 1 => ((reg 0 - 1).msb = true → out = some (g (reg 0 - 1))) ∧
        ((reg 0 - 1).msb = false → out = none ∧ ∀ v ∈ view, v = reg 0)
    | 2 => ((reg 0).msb = true → out = some (g (reg 0))) ∧
        ((reg 0).msb = false → out = none ∧ ∀ v ∈ view, v - 1 = reg 0)
    | 3 => (reg 0).msb = false ∧ out = none ∧ ∀ v ∈ view, v - 1 = reg 0
    | 4 => (reg 1 = 0 → out = some (g (reg 0))) ∧ (reg 1 ≠ 0 → out = none)
    | 5 => out = some (g (reg 0))
    | _ => False

theorem decIfPositiveAsm_annotated {g : BitVec w → ρ} (hone : (1 : BitVec w) ≠ 0)
    (hkeep : ∀ v, (v - 1).msb = true → spec v v (g (v - 1)))
    (hdec : ∀ v, (v - 1).msb = false → spec v (v - 1) (g (v - 1))) :
    Annotated decIfPositiveAsm args (fun r => g (r 0)) spec (decIfPositiveNote g) where
  start _ := rfl
  lose {pc reg view out} h := by
    match pc, h with
    | 1, h | 2, h => exact ⟨h.1, fun h0 => ⟨(h.2 h0).1, nofun⟩⟩
    | 3, h => exact ⟨h.1, h.2.1, nofun⟩
    | 0, h | 4, h | 5, h | _ + 6, h => exact h
  finish h := h
  step {pc insn reg view out} hi hn := by
    rcases pc with _ | _ | _ | _ | _ | pc
    · obtain rfl := Option.some.inj hi
      subst hn
      intro word
      cases hmsb : (word - 1).msb with
      | true =>
        refine ⟨some (g (word - 1)), ⟨fun _ => rfl, fun h => ?_⟩, .commit (hkeep word hmsb)⟩
        exact absurd (hmsb.symm.trans h) (by decide)
      | false =>
        refine ⟨none, ⟨fun h => ?_, fun _ => ⟨rfl, fun v hv => (Option.some.inj hv).symm⟩⟩, .keep⟩
        exact absurd (hmsb.symm.trans h) (by decide)
    · obtain rfl := Option.some.inj hi
      refine ⟨hn.1, fun h => ⟨(hn.2 h).1, fun v hv => ?_⟩⟩
      rw [(hn.2 h).2 v hv]
      rfl
    · obtain rfl := Option.some.inj hi
      exact ⟨hn.1, fun h => ⟨h, hn.2 h⟩⟩
    · obtain rfl := Option.some.inj hi
      obtain ⟨hmsb, rfl, hview⟩ := hn
      refine ⟨fun _ => ⟨none, ⟨fun h => absurd h hone, fun _ => rfl⟩, .keep⟩, fun word hword => ?_⟩
      refine ⟨some (g (reg 0)), ⟨fun _ => rfl, fun h => absurd rfl h⟩, .commit ?_⟩
      rw [← hview word hword] at hmsb ⊢
      exact hdec word hmsb
    · obtain rfl := Option.some.inj hi
      refine ⟨fun h => ?_, fun h => ?_⟩
      · exact hn.2 (by simpa using h)
      · exact hn.1 (by simpa using h)
    · cases hi

/-- A plain load, which is the effect of the operation. -/
theorem load_annotated {g : BitVec w → ρ} (hspec : ∀ v, spec v v (g v)) :
    Annotated [.ldr 0] args (fun r => g (r 0)) spec
      (fun pc reg _ out => out = if pc = 0 then none else some (g (reg 0))) where
  start _ := rfl
  lose h := h
  finish h := h
  step {pc insn reg view out} hi hn := by
    rcases pc with _ | pc
    · obtain rfl := Option.some.inj hi
      subst hn
      exact fun word => ⟨some (g word), rfl, .commit (hspec word)⟩
    · cases hi

/-- A plain store. -/
theorem store_annotated {x : BitVec w} {r : ρ} (hargs : args 3 = x) (hspec : ∀ v, spec v x r) :
    Annotated [.str 3] args (fun _ => r) spec
      (fun pc reg _ out => reg 3 = x ∧ out = if pc = 0 then none else some r) where
  start _ := ⟨hargs, rfl⟩
  lose h := h
  finish h := h.2
  step {pc insn reg view out} hi hn := by
    rcases pc with _ | pc
    · obtain rfl := Option.some.inj hi
      obtain ⟨h3, rfl⟩ := hn
      refine fun word => ⟨some r, ⟨h3, rfl⟩, .commit ?_⟩
      rw [h3]
      exact hspec word
    · cases hi

end notes

/-! ## The families -/

section family
variable {w : Nat} {α : Type} (F : Family w α)

def Family.note : CounterOp α → Note w (AtomicResult w)
  | .read => fun pc reg _ out => out = if pc = 0 then none else some (.word (reg 0))
  | .set i => fun pc reg _ out => reg 3 = F.bits i ∧ out = if pc = 0 then none else some .none
  | .atomic (.cmpxchg old newVal) => cmpxchgNote (F.bits old) (F.bits newVal) .word
  | .atomic op => updateNote (updateInsn op) (F.operand op) fun x => F.returns x op
  | .addUnless a u => addUnlessNote (F.bits a) (F.bits u) fun c => F.unlessResult c (F.bits u)
  | .decIfPositive => decIfPositiveNote .word

theorem Family.update_alone (op : AtomicOp α) (hop : ∀ old newVal, op ≠ .cmpxchg old newVal)
    (v : BitVec w) :
    F.alone (.atomic op) v = (F.returns (updateInsn op v (F.operand op)) op,
      updateInsn op v (F.operand op)) := by
  cases op with
  | add i => exact updateResult_run (fun _ => .none) (· + F.bits i) 0 v
  | sub i => exact updateResult_run (fun _ => .none) (· - F.bits i) 0 v
  | inc => exact updateResult_run (fun _ => .none) (· + 1) 0 v
  | dec => exact updateResult_run (fun _ => .none) (· - 1) 0 v
  | addReturn i => exact updateResult_run .word (· + F.bits i) 0 v
  | subReturn i => exact updateResult_run .word (· - F.bits i) 0 v
  | incAndTest => exact updateResult_run (fun x => .test (F.isZero x)) (· + 1) 0 v
  | decAndTest => exact updateResult_run (fun x => .test (F.isZero x)) (· - 1) 0 v
  | subAndTest i => exact updateResult_run (fun x => .test (F.isZero x)) (· - F.bits i) 0 v
  | addNegative i => exact updateResult_run (fun x => .test (F.isNegative x)) (· + F.bits i) 0 v
  | cmpxchg old newVal => exact absurd rfl (hop old newVal)

theorem Family.update_annotated (hone : (1 : BitVec w) ≠ 0) (op : AtomicOp α)
    (hop : ∀ old newVal, op ≠ .cmpxchg old newVal) :
    Annotated (updateAsm (updateInsn op)) (fun _ => F.operand op) (fun r => F.returns (r 0) op)
      (F.spec (.atomic op)) (updateNote (updateInsn op) (F.operand op) fun x => F.returns x op) :=
  updateAsm_annotated (i := F.operand op) (g := fun x => F.returns x op) hone rfl
    (F.update_alone op hop)

/-- Every routine does, in one step, what the operation does alone. -/
theorem Family.annotated (hone : (1 : BitVec w) ≠ 0) : F.routines.Annotated F.spec F.note := by
  intro op
  cases op with
  | read => exact load_annotated fun v => rfl
  | set i => exact store_annotated rfl fun v => rfl
  | atomic op =>
    cases op with
    | cmpxchg old newVal =>
      exact cmpxchgAsm_annotated hone rfl rfl fun v =>
        cmpxchgResult_run (F.bits old) (F.bits newVal) 0 v
    | add i => exact F.update_annotated hone (.add i) (fun _ _ => nofun)
    | sub i => exact F.update_annotated hone (.sub i) (fun _ _ => nofun)
    | inc => exact F.update_annotated hone .inc (fun _ _ => nofun)
    | dec => exact F.update_annotated hone .dec (fun _ _ => nofun)
    | addReturn i => exact F.update_annotated hone (.addReturn i) (fun _ _ => nofun)
    | subReturn i => exact F.update_annotated hone (.subReturn i) (fun _ _ => nofun)
    | incAndTest => exact F.update_annotated hone .incAndTest (fun _ _ => nofun)
    | decAndTest => exact F.update_annotated hone .decAndTest (fun _ _ => nofun)
    | subAndTest i => exact F.update_annotated hone (.subAndTest i) (fun _ _ => nofun)
    | addNegative i => exact F.update_annotated hone (.addNegative i) (fun _ _ => nofun)
  | addUnless a u =>
    refine addUnlessAsm_annotated (g := F.unlessResult) hone rfl rfl ?_ fun v hv => ?_
    · exact congrArg (F.unlessResult (F.bits u) (F.bits u), ·) (if_pos rfl)
    · exact congrArg (F.unlessResult v (F.bits u), ·) (if_neg hv)
  | decIfPositive =>
    refine decIfPositiveAsm_annotated (g := AtomicResult.word) hone (fun v hv => ?_) fun v hv => ?_
    · exact congrArg (AtomicResult.word (v - 1), ·) (if_pos hv)
    · exact congrArg (AtomicResult.word (v - 1), ·) (if_neg (by rw [hv]; decide))

end family

/-- On an `atomic_t` there is no `dec_if_positive`. -/
def atomicClient : Client Unit (CounterOp Int32) (AtomicResult 32) where
  may _ op := op ≠ .decIfPositive
  after _ _ _ := ()

def atomic64Client : Client Unit (CounterOp UInt64) (AtomicResult 64) where
  may _ _ := True
  after _ _ _ := ()

/-- **The counters are atomic**: with any number of CPUs, in any order of their instructions,
whatever exclusive stores fail, the calls and returns are those of a counter on which each operation
is done in one step, as it is alone on one CPU. -/
theorem atomics_linearizable {C : Type} [DecidableEq C] (word : BitVec 32) (word64 : BitVec 64) :
    Linearizable (C := C) atomicT.routines atomicT.spec atomicClient word () ∧
      Linearizable (C := C) atomic64T.routines atomic64T.spec atomic64Client word64 () :=
  ⟨(atomicT.annotated (by decide)).linearizable word (),
    (atomic64T.annotated (by decide)).linearizable word64 ()⟩

/-! ## Sums -/

/-- Additions, subtractions and reads. -/
def CounterOp.Updates {α : Type} : CounterOp α → Prop
  | .read => True
  | .atomic op => ∀ old newVal, op ≠ .cmpxchg old newVal
  | _ => False

def updatingClient (w : Nat) (α : Type) : Client Unit (CounterOp α) (AtomicResult w) where
  may _ op := op.Updates
  after _ _ _ := ()

/-- What an operation adds. -/
def Family.delta {w : Nat} {α : Type} (F : Family w α) : CounterOp α → BitVec w
  | .atomic op =>
    match op with
    | .sub _ | .dec | .subReturn _ | .decAndTest | .subAndTest _ => -F.operand op
    | _ => F.operand op
  | _ => 0

theorem Family.spec_delta {w : Nat} {α : Type} (F : Family w α) {op : CounterOp α} {v v' : BitVec w}
    {r : AtomicResult w} (hop : op.Updates) (h : F.spec op v v' r) : v' = v + F.delta op := by
  cases op with
  | read =>
    have hv : v = v' := congrArg Prod.snd h
    rw [← hv]
    exact (BitVec.add_zero v).symm
  | atomic op =>
    have hv : updateInsn op v (F.operand op) = v' :=
      congrArg Prod.snd ((F.update_alone op hop v).symm.trans h)
    rw [← hv]
    cases op with
    | sub | dec | subReturn | decAndTest | subAndTest => exact BitVec.sub_eq_add_neg _ _
    | add | inc | addReturn | incAndTest | addNegative => rfl
    | cmpxchg old newVal => exact absurd rfl (hop old newVal)
  | set | addUnless | decIfPositive => exact hop.elim

/-- **No update is lost.**  CPUs that add, subtract and read leave, once all are done, the counter
at what it was and the sum of what they added. -/
theorem no_lost_update {w : Nat} {α C : Type} [Fintype C] [DecidableEq C] (F : Family w α)
    {word : BitVec w} {es : List (MachineEvent C (CounterOp α) (AtomicResult w))}
    {s : Multicore w C Unit (CounterOp α)}
    (h : Runs (MachineStep F.routines (updatingClient w α)) (.init word ()) es s)
    (hidle : ∀ c, s.running c = none) :
    s.word = word +
      ((es.filterMap MachineEvent.visible).filterMap (History.added F.delta)).sum := by
  by_cases hone : (1 : BitVec w) = 0
  · have : Subsingleton (BitVec w) := subsingleton_of_zero_eq_one hone.symm
    exact Subsingleton.elim _ _
  · exact Linearizable.sum ((F.annotated hone).linearizable word ()) (fun _ _ hop => hop)
      (fun _ _ _ _ hop hspec => F.spec_delta hop hspec) h hidle

/-- Two CPUs increment a counter: both load 0, and the one that stores second finds its monitor
gone. -/
def twoIncs : List (MachineEvent Bool (CounterOp Int32) (AtomicResult 32)) :=
  [.call true (.atomic .inc), .call false (.atomic .inc), .exec true true, .exec false true,
    .exec true true,
    .exec false true, .exec true true, .exec true true, .ret true .none, .exec false true,
    .exec false true,
    .exec false true, .exec false true, .exec false true, .exec false true, .ret false .none]

theorem twoIncs_run : ∃ s : Multicore 32 Bool Unit (CounterOp Int32),
    Runs (MachineStep atomicT.routines (updatingClient 32 Int32)) (.init 0 ()) twoIncs s ∧
      ∀ c, s.running c = none := by
  have hop : (CounterOp.atomic AtomicOp.inc : CounterOp Int32).Updates := fun _ _ => nofun
  exact ⟨_, .cons (.call rfl hop) <| .cons (.call rfl hop) <| .cons (.exec rfl rfl rfl) <|
    .cons (.exec rfl rfl rfl) <|
    .cons (.exec rfl rfl rfl) <| .cons (.exec rfl rfl rfl) <| .cons (.exec rfl rfl rfl) <|
    .cons (.exec rfl rfl rfl) <| .cons (.ret rfl rfl rfl) <| .cons (.exec rfl rfl rfl) <|
      .cons (.exec rfl rfl rfl) <|
    .cons (.exec rfl rfl rfl) <| .cons (.exec rfl rfl rfl) <| .cons (.exec rfl rfl rfl) <|
    .cons (.exec rfl rfl rfl) <| .single (.ret rfl rfl rfl), fun c => by cases c <;> rfl⟩

theorem no_lost_update_two : ∃ s : Multicore 32 Bool Unit (CounterOp Int32),
    Runs (MachineStep atomicT.routines (updatingClient 32 Int32)) (.init 0 ()) twoIncs s ∧
      s.word = 2 := by
  obtain ⟨s, h, hidle⟩ := twoIncs_run
  exact ⟨s, h, (no_lost_update atomicT h hidle).trans (by decide)⟩

end ZHyper
