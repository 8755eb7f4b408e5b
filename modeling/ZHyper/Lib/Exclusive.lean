import Mathlib.Data.BitVec
import Mathlib.Logic.Function.Basic
import ZHyper.Lib.Runs

/-!
# Machines with exclusive loads and stores

Any number of cores run routines on one shared word, one instruction at a time in any order.  A core
has its registers, its exclusive monitor and its event register: an exclusive load claims the
monitor, a store of another core takes it away and leaves an event, and an exclusive store succeeds
only while the monitor is held.  It may fail even then, and the monitor may be lost for no reason.
`wfe` waits for an event.

`Multicore.view` is the word as far as a core can rely on it: the value of its last exclusive load,
as long as its monitor is held.  A step of one core changes nothing in another one but its monitor
and its event (`Multicore.put_core_ne`).
-/

namespace LowLevel

/-! ## Instructions -/

/-- Instructions on a shared word of `w` bits; the numbers are those of registers, targets are
positions in the routine. -/
inductive Insn (w : Nat) where
  /-- A prefetch. -/
  | prfm
  /-- `ldxr`, `ldaxr` -/
  | ldxr (t : Nat)
  /-- `ldaxrh`: the halfword at the lower address. -/
  | ldxrh (t : Nat)
  | ldr (t : Nat)
  | ldrh (t : Nat)
  /-- `stxr`, `stlxr`: the status goes to `s`, 0 for success. -/
  | stxr (s t : Nat)
  /-- `str`, `stlr` -/
  | str (t : Nat)
  /-- `strh`, `stlrh` -/
  | strh (t : Nat)
  /-- A register is computed from registers. -/
  | alu (d : Nat) (f : (Nat → BitVec w) → BitVec w)
  /-- A branch taken if the condition holds. -/
  | branch (p : (Nat → BitVec w) → Bool) (target : Nat)
  /-- An event for this core. -/
  | sevl
  | wfe

namespace Insn

variable {w : Nat}

def mov (d n : Nat) : Insn w := .alu d fun r => r n

def addImm (d n : Nat) (i : BitVec w) : Insn w := .alu d fun r => r n + i

def subImm (d n : Nat) (i : BitVec w) : Insn w := .alu d fun r => r n - i

def cbz (t target : Nat) : Insn w := .branch (fun r => r t == 0) target

def cbnz (t target : Nat) : Insn w := .branch (fun r => r t != 0) target

def tbnz (t bit target : Nat) : Insn w := .branch (fun r => (r t).getLsbD bit) target

/-- `cmp n, m; b.ne target` -/
def cmpBne (n m target : Nat) : Insn w := .branch (fun r => r n != r m) target

/-- `cmp n, m; b.eq target` -/
def cmpBeq (n m target : Nat) : Insn w := .branch (fun r => r n == r m) target

/-- `b.mi target`, after an instruction that sets the flags by the register `t`. -/
def bmi (t target : Nat) : Insn w := .branch (fun r => (r t).msb) target

def b (target : Nat) : Insn w := .branch (fun _ => true) target

end Insn

/-- The halfword at the lower address. -/
def lowHalf {w : Nat} (v : BitVec w) : BitVec w := BitVec.ofNat w (v.toNat % 2 ^ 16)

/-- The word with another halfword at the lower address. -/
def setLowHalf {w : Nat} (v h : BitVec w) : BitVec w :=
  BitVec.ofNat w (v.toNat / 2 ^ 16 * 2 ^ 16 + h.toNat % 2 ^ 16)

/-! ## Cores -/

structure Core (w : Nat) where
  pc : Nat
  reg : Nat → BitVec w
  monitor : Bool
  event : Bool

variable {w : Nat}

namespace Core

def next (k : Core w) : Core w := { k with pc := k.pc + 1 }

def set (k : Core w) (t : Nat) (v : BitVec w) : Core w :=
  { k with reg := Function.update k.reg t v }

/-- Another core has stored to the word. -/
def disturbed (k : Core w) : Core w := if k.monitor then { k with monitor := false, event := true }
    else k

/-- The core has an event, or will get one from the next store: it holds its monitor where it is
blocked. -/
def Awake (k : Core w) (blocked : Prop) : Prop := k.event = true ∨ k.monitor = true ∧ blocked

/-- The word, as long as the monitor is held. -/
def view (k : Core w) (word : BitVec w) : Option (BitVec w) := if k.monitor then some word else none

@[simp] theorem next_pc (k : Core w) : k.next.pc = k.pc + 1 := rfl
@[simp] theorem next_reg (k : Core w) : k.next.reg = k.reg := rfl
@[simp] theorem next_monitor (k : Core w) : k.next.monitor = k.monitor := rfl
@[simp] theorem next_event (k : Core w) : k.next.event = k.event := rfl
@[simp] theorem set_pc (k : Core w) (t : Nat) (v : BitVec w) : (k.set t v).pc = k.pc := rfl
@[simp] theorem set_reg (k : Core w) (t : Nat) (v : BitVec w) :
    (k.set t v).reg = Function.update k.reg t v := rfl
@[simp] theorem set_monitor (k : Core w) (t : Nat) (v : BitVec w) :
    (k.set t v).monitor = k.monitor := rfl
@[simp] theorem set_event (k : Core w) (t : Nat) (v : BitVec w) : (k.set t v).event = k.event := rfl

@[simp] theorem disturbed_pc (k : Core w) : k.disturbed.pc = k.pc := by
  unfold disturbed
  split <;> rfl

@[simp] theorem disturbed_reg (k : Core w) : k.disturbed.reg = k.reg := by
  unfold disturbed
  split <;> rfl

@[simp] theorem disturbed_monitor (k : Core w) : k.disturbed.monitor = false := by
  unfold disturbed
  split
  · rfl
  · simpa using ‹¬ k.monitor = true›

theorem disturbed_event (k : Core w) (h : k.monitor = true ∨ k.event = true) :
    k.disturbed.event = true := by
  unfold disturbed
  split
  · rfl
  · exact h.resolve_left ‹_›

theorem Awake.disturbed {k : Core w} {P Q : Prop} (h : k.Awake P) : k.disturbed.Awake Q :=
  Or.inl (disturbed_event k (h.symm.imp And.left id))

@[simp] theorem disturbed_view (k : Core w) (word : BitVec w) : k.disturbed.view word = none := by
  simp [view]

theorem view_eq_some {k : Core w} {word v : BitVec w} :
    k.view word = some v ↔ k.monitor = true ∧ word = v := by
  unfold view
  split <;> simp_all

end Core

/-- One instruction: the core after it and what it stores.  `ok` is false where an exclusive store
fails although the monitor is held; `wfe` without an event cannot go on. -/
def Insn.exec (i : Insn w) (word : BitVec w) (ok : Bool) (k : Core w) :
    Option (Core w × Option (BitVec w)) :=
  match i with
  | .prfm => some (k.next, none)
  | .ldxr t => some ({ (k.set t word).next with monitor := true }, none)
  | .ldxrh t => some ({ (k.set t (lowHalf word)).next with monitor := true }, none)
  | .ldr t => some ((k.set t word).next, none)
  | .ldrh t => some ((k.set t (lowHalf word)).next, none)
  | .stxr s t =>
    if k.monitor && ok then some ({ (k.set s 0).next with monitor := false }, some (k.reg t))
    else some ({ (k.set s 1).next with monitor := false }, none)
  | .str t => some ({ k.next with monitor := false }, some (k.reg t))
  | .strh t => some ({ k.next with monitor := false }, some (setLowHalf word (k.reg t)))
  | .alu d f => some ((k.set d (f k.reg)).next, none)
  | .branch p target => some ({ k with pc := if p k.reg then target else k.pc + 1 }, none)
  | .sevl => some ({ k.next with event := true }, none)
  | .wfe => if k.event then some ({ k.next with event := false }, none) else none

section exec
variable {word : BitVec w} {ok : Bool} {k k' : Core w} {stored : Option (BitVec w)}

theorem Insn.exec_stxr {s t : Nat} (he : (Insn.stxr s t).exec word ok k = some (k', stored)) :
    (k.monitor = true ∧ k' = { (k.set s 0).next with monitor := false } ∧ stored = some (k.reg t)) ∨
      (k' = { (k.set s 1).next with monitor := false } ∧ stored = none) := by
  simp only [exec] at he
  split at he
  · next hok =>
    obtain ⟨rfl, rfl⟩ := Prod.mk.inj (Option.some.inj he)
    exact Or.inl ⟨(Bool.and_eq_true_iff.mp hok).1, rfl, rfl⟩
  · obtain ⟨rfl, rfl⟩ := Prod.mk.inj (Option.some.inj he)
    exact Or.inr ⟨rfl, rfl⟩

theorem Insn.exec_branch {p : (Nat → BitVec w) → Bool} {target : Nat}
    (he : (Insn.branch p target).exec word ok k = some (k', stored)) :
    ((p k.reg = true ∧ k' = { k with pc := target }) ∨ (p k.reg = false ∧ k' = k.next)) ∧
      stored = none := by
  obtain ⟨rfl, rfl⟩ := Prod.mk.inj (Option.some.inj he)
  refine ⟨?_, rfl⟩
  cases p k.reg with
  | true => exact Or.inl ⟨rfl, rfl⟩
  | false => exact Or.inr ⟨rfl, rfl⟩

theorem Insn.exec_cbz {t target : Nat}
    (he : (Insn.cbz t target).exec word ok k = some (k', stored)) :
    ((k.reg t = 0 ∧ k' = { k with pc := target }) ∨ (k.reg t ≠ 0 ∧ k' = k.next)) ∧ stored = none :=
  (exec_branch he).imp_left
    (Or.imp (And.imp_left beq_iff_eq.mp) (And.imp_left beq_eq_false_iff_ne.mp))

theorem Insn.exec_cbnz {t target : Nat}
    (he : (Insn.cbnz t target).exec word ok k = some (k', stored)) :
    ((k.reg t ≠ 0 ∧ k' = { k with pc := target }) ∨ (k.reg t = 0 ∧ k' = k.next)) ∧ stored = none :=
  (exec_branch he).imp_left
    (Or.imp (And.imp_left bne_iff_ne.mp) (And.imp_left bne_eq_false_iff_eq.mp))

theorem Insn.exec_wfe (he : (Insn.wfe).exec word ok k = some (k', stored)) :
    k.event = true ∧ k' = { k.next with event := false } ∧ stored = none := by
  simp only [exec] at he
  split at he
  · next hev =>
    obtain ⟨rfl, rfl⟩ := Prod.mk.inj (Option.some.inj he)
    exact ⟨hev, rfl, rfl⟩
  · cases he

/-- Where an instruction may lead other than to the next one. -/
def Insn.target : Insn w → Option Nat
  | .branch _ target => some target
  | _ => none

theorem Insn.exec_pc {i : Insn w} (he : i.exec word ok k = some (k', stored)) :
    k'.pc = k.pc + 1 ∨ i.target = some k'.pc := by
  cases i with
  | prfm | ldxr | ldxrh | ldr | ldrh | str | strh | alu | sevl =>
    obtain ⟨rfl, rfl⟩ := Prod.mk.inj (Option.some.inj he)
    exact Or.inl rfl
  | stxr s t =>
    rcases exec_stxr he with ⟨-, rfl, -⟩ | ⟨rfl, -⟩ <;> exact Or.inl rfl
  | wfe =>
    obtain ⟨-, rfl, -⟩ := exec_wfe he
    exact Or.inl rfl
  | branch p target =>
    rcases (exec_branch he).1 with ⟨-, rfl⟩ | ⟨-, rfl⟩
    · exact Or.inr rfl
    · exact Or.inl rfl

/-- Only `wfe` waits. -/
theorem Insn.exists_exec (i : Insn w) (word : BitVec w) (ok : Bool)
    (h : i = .wfe → k.event = true) :
    ∃ k' stored, i.exec word ok k = some (k', stored) := by
  cases i with
  | wfe => exact ⟨_, _, if_pos (h rfl)⟩
  | stxr s t =>
    simp only [exec]
    split <;> exact ⟨_, _, rfl⟩
  | prfm | ldxr | ldxrh | ldr | ldrh | str | strh | alu | branch | sevl => exact ⟨_, _, rfl⟩

end exec

/-! ## Machines -/

/-- Routines by name: their instructions, their arguments and results in registers. -/
structure Routines (w : Nat) (ο ρ : Type) where
  code : ο → List (Insn w)
  args : ο → Nat → BitVec w
  result : ο → (Nat → BitVec w) → ρ

/-- How the routines are used: what a core may call, and what it holds after a call. -/
structure Client (μ ο ρ : Type) where
  may : μ → ο → Prop
  after : μ → ο → ρ → μ

structure Multicore (w : Nat) (C μ ο : Type) where
  word : BitVec w
  core : C → Core w
  running : C → Option ο
  mode : C → μ

inductive MachineEvent (C ο ρ : Type) where
  | call (c : C) (op : ο)
  | ret (c : C) (r : ρ)
  | exec (c : C) (ok : Bool)
  | lose (c : C)

/-- The core that does something; a monitor is lost without. -/
def MachineEvent.actor {C ο ρ : Type} : MachineEvent C ο ρ → Option C
  | .call c _ | .ret c _ | .exec c _ => some c
  | .lose _ => none

/-- Core `c` executes an instruction. -/
def MachineEvent.execs {C ο ρ : Type} [DecidableEq C] (c : C) : MachineEvent C ο ρ → Bool
  | .exec d _ => d = c
  | .call _ _ | .ret _ _ | .lose _ => false

section machine
variable {C μ ο ρ : Type} [DecidableEq C] {R : Routines w ο ρ} {client : Client μ ο ρ}

namespace Multicore

/-- All cores idle. -/
def init (word : BitVec w) (mode : μ) : Multicore w C μ ο :=
  ⟨word, fun _ => ⟨0, fun _ => 0, false, false⟩, fun _ => none, fun _ => mode⟩

/-- Core `c` has become `k`, and the word what it stored. -/
def put (s : Multicore w C μ ο) (c : C) (k : Core w) (stored : Option (BitVec w)) :
    Multicore w C μ ο :=
  { s with
    word := stored.getD s.word
    core := fun d => if d = c then k else if stored.isSome then (s.core d).disturbed else s.core d }

/-- The word as core `c` may rely on it. -/
def view (s : Multicore w C μ ο) (c : C) : Option (BitVec w) := (s.core c).view s.word

/-- Core `c` starts `op`. -/
def start (R : Routines w ο ρ) (s : Multicore w C μ ο) (c : C) (op : ο) : Multicore w C μ ο :=
  { s with
    core := Function.update s.core c { s.core c with pc := 0, reg := R.args op }
    running := Function.update s.running c (some op) }

/-- Core `c` leaves its routine. -/
def finish (s : Multicore w C μ ο) (c : C) (mode : μ) : Multicore w C μ ο :=
  { s with running := Function.update s.running c none, mode := Function.update s.mode c mode }

/-- Core `c` loses its monitor, or gets an event. -/
def lose (s : Multicore w C μ ο) (c : C) : Multicore w C μ ο :=
  { s with core := Function.update s.core c { s.core c with monitor := false, event := true } }

end Multicore

inductive MachineStep (R : Routines w ο ρ) (client : Client μ ο ρ) (s : Multicore w C μ ο) :
    MachineEvent C ο ρ → Multicore w C μ ο → Prop where
  | call {c : C} {op : ο} : s.running c = none → client.may (s.mode c) op →
      MachineStep R client s (.call c op) (s.start R c op)
  | ret {c : C} {op : ο} {r : ρ} : s.running c = some op → (s.core c).pc = (R.code op).length →
      R.result op (s.core c).reg = r →
        MachineStep R client s (.ret c r) (s.finish c (client.after (s.mode c) op r))
  | exec {c : C} {op : ο} {i : Insn w} {ok : Bool} {k : Core w} {stored : Option (BitVec w)} :
      s.running c = some op → (R.code op)[(s.core c).pc]? = some i →
      i.exec s.word ok (s.core c) = some (k, stored) →
      MachineStep R client s (.exec c ok) (s.put c k stored)
  | lose {c : C} : MachineStep R client s (.lose c) (s.lose c)

namespace Multicore

variable {s : Multicore w C μ ο} {c d : C} {k : Core w} {stored : Option (BitVec w)}

@[simp] theorem put_core_same : (s.put c k stored).core c = k := if_pos rfl

theorem put_core_ne (h : d ≠ c) :
    (s.put c k stored).core d = if stored.isSome then (s.core d).disturbed else s.core d := if_neg h

@[simp] theorem put_word : (s.put c k stored).word = stored.getD s.word := rfl
@[simp] theorem put_running : (s.put c k stored).running = s.running := rfl
@[simp] theorem put_mode : (s.put c k stored).mode = s.mode := rfl

/-- What another core sees of a step: its registers are its own, and the view is kept or lost. -/
theorem put_other (s : Multicore w C μ ο) (k : Core w) (stored : Option (BitVec w)) (h : d ≠ c) :
    ((s.put c k stored).core d).pc = (s.core d).pc ∧
      ((s.put c k stored).core d).reg = (s.core d).reg ∧
    ((s.put c k stored).view d = s.view d ∨ (s.put c k stored).view d = none) := by
  unfold view
  rw [put_core_ne h]
  cases stored with
  | none => exact ⟨rfl, rfl, Or.inl rfl⟩
  | some v => exact ⟨Core.disturbed_pc _, Core.disturbed_reg _, Or.inr (Core.disturbed_view _ _)⟩

end Multicore

/-! ## What a core knows by itself -/

variable {s s' : Multicore w C μ ο} {e : MachineEvent C ο ρ}

/-- What holds at the start of a routine and is kept by its instructions, by the stores of others
and where the monitor is lost, holds of every core in its routine, at any time. -/
theorem Routines.local_invariant {P : ο → BitVec w → Core w → Prop}
    (hstart : ∀ op word k, k.pc = 0 → k.reg = R.args op → P op word k)
    (hexec : ∀ op word k i ok k' stored, (R.code op)[k.pc]? = some i →
      i.exec word ok k = some (k', stored) →
      P op word k → P op (stored.getD word) k')
    (hdisturbed : ∀ op word word' k, P op word k → P op word' k.disturbed)
    (hlose : ∀ op word k, P op word k → P op word { k with monitor := false, event := true })
    {word : BitVec w} {mode : μ} {es : List (MachineEvent C ο ρ)}
    (h : Runs (MachineStep R client) (.init word mode) es s) {c : C} {op : ο}
      (hc : s.running c = some op) :
    P op s.word (s.core c) := by
  refine h.invariant (I := fun s => ∀ c op, s.running c = some op → P op s.word (s.core c)) ?_
    (fun _ _ hc => by cases hc)
    c op hc
  intro s e s' hs hstep d op hd
  cases hstep with
  | @call c op' =>
    by_cases hdc : d = c
    · subst hdc
      obtain rfl : op' = op := Option.some.inj ((Function.update_self d _ s.running).symm.trans hd)
      show P op' s.word (Function.update s.core d _ d)
      rw [Function.update_self]
      exact hstart op' _ _ rfl rfl
    · show P op s.word (Function.update s.core c _ d)
      rw [Function.update_of_ne hdc]
      exact hs d op ((Function.update_of_ne hdc _ s.running).symm.trans hd)
  | @ret c op' r =>
    have hdc : d ≠ c := by
      rintro rfl
      cases (Function.update_self d _ s.running).symm.trans hd
    exact hs d op ((Function.update_of_ne hdc _ s.running).symm.trans hd)
  | @exec c op' i ok k stored hc hi he =>
    by_cases hdc : d = c
    · subst hdc
      obtain rfl : op' = op := Option.some.inj (hc.symm.trans hd)
      rw [Multicore.put_core_same]
      exact hexec op' _ _ _ _ _ _ hi he (hs d op' hd)
    · rw [Multicore.put_core_ne hdc, Multicore.put_word]
      cases stored with
      | none => exact hs d op hd
      | some v => exact hdisturbed op _ _ _ (hs d op hd)
  | @lose c =>
    show P op s.word (Function.update s.core c _ d)
    by_cases hdc : d = c
    · subst hdc
      rw [Function.update_self]
      exact hlose op _ _ (hs d op hd)
    · rw [Function.update_of_ne hdc]
      exact hs d op hd

/-- No routine is left by a branch. -/
def Routines.Closed (R : Routines w ο ρ) : Prop :=
  ∀ op, ∀ i ∈ R.code op, ∀ t ∈ i.target, t ≤ (R.code op).length

/-- Nothing but a `wfe` makes a core wait. -/
theorem Routines.Closed.can_step (hR : R.Closed) {word : BitVec w} {mode : μ}
    {es : List (MachineEvent C ο ρ)} (h : Runs (MachineStep R client) (.init word mode) es s)
    {c : C} {op : ο} (hc : s.running c = some op)
    (hwfe : (R.code op)[(s.core c).pc]? = some .wfe → (s.core c).event = true) :
    ∃ e t, MachineStep R client s e t ∧ (e = .exec c true ∨ ∃ r, e = .ret c r) := by
  have hpc : (s.core c).pc ≤ (R.code op).length := by
    refine R.local_invariant (P := fun op _ k => k.pc ≤ (R.code op).length) ?_ ?_ ?_
      (fun _ _ _ hk => hk) h hc
    · intro op _ k hk _
      rw [hk]
      exact Nat.zero_le _
    · intro op _ k i ok k' stored hi he _
      rcases Insn.exec_pc he with hnext | htarget
      · rw [hnext]
        exact (List.getElem?_eq_some_iff.mp hi).1
      · exact hR op i (List.mem_of_getElem? hi) _ htarget
    · intro op _ _ k hk
      rw [Core.disturbed_pc]
      exact hk
  rcases Nat.lt_or_eq_of_le hpc with hlt | hend
  · have hi := List.getElem?_eq_getElem hlt
    obtain ⟨k', stored, he⟩ := (R.code op)[(s.core c).pc].exists_exec s.word true
      fun hi' => hwfe (hi.trans (congrArg some hi'))
    exact ⟨_, _, .exec hc hi he, Or.inl rfl⟩
  · exact ⟨_, _, .ret hc hend rfl, Or.inr ⟨_, rfl⟩⟩

end machine

end LowLevel
