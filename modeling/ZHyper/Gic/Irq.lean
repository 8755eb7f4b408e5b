import ZHyper.Gic.Contexts

/-!
# `el2_irq`

The EL2 interrupt handler: acknowledge, look the context up, call its handler, end the interrupt.
The code that a `handle` pointer stands for is a parameter (`Handlers`): it returns, leaves the
acknowledge and end registers alone, and does to the contexts what a driver can do; `env` is what it
owns besides.  `log` is a trace of the two registers and of the handlers called, oldest first.  No
function reads it.

From a zeroed context area, over any driver acts and interrupts with their handlers installed:

    every el2_irq follows the protocol  ↔  no special INTID is acknowledged     (irq_protocol_iff)

A special INTID has no context, and `el2_irq` panics.
-/

namespace ZHyper

open LowLevel

inductive IrqEvent where
  /-- a read of `ICC_IAR1_EL1` -/
  | ack (intid : Nat)
  /-- `handle(irq, regs)` -/
  | handle (addr : Nat) (irq : IrqRef)
  /-- a write of `ICC_EOIR1_EL1` -/
  | eoi (intid : Nat)
deriving DecidableEq

structure IrqWorld (ε : Type) where
  drivers : Drivers
  env : ε
  log : List IrqEvent

/-- The handlers. -/
structure Handlers (B : GicBoard) (ε : Type) where
  run : Nat → IrqRef → IrqWorld ε → IrqWorld ε
  log : ∀ h p w, (run h p w).log = w.log
  ctxs : ∀ h p w, p ∈ w.drivers.given → ∃ acts d, Runs (DriverStep B) w.drivers acts d ∧
    (run h p w).drivers.gic.ctxs = d.gic.ctxs ∧ (run h p w).drivers.given = d.given

variable {ε : Type} {B : GicBoard}

abbrev IrqM (ε : Type) := EStateM GicFault (IrqWorld ε)

def logIrq (e : IrqEvent) : IrqM ε Unit := modify fun w => { w with log := w.log ++ [e] }

/-- `get_irq_context(intid)`, which gives the context to the handler. -/
def irqContext (B : GicBoard) (cpu intid : Nat) : IrqM ε (Option IrqRef) := fun w =>
  match getIrqContext B cpu intid w.drivers.gic with
  | .ok res s => .ok res { w with drivers := ⟨s, res.toList ++ w.drivers.given⟩ }
  | .error e s => .error e { w with drivers := { w.drivers with gic := s } }

/-- `if (irq && irq->handle) irq->handle(irq, regs); else panic(NULL);` -/
def callHandle (H : Handlers B ε) : Option IrqRef → IrqM ε Unit
  | none => throw .panic
  | some p => do
    let w ← get
    if (w.drivers.gic.ctxs p).handle ≠ 0 then
      logIrq (.handle (w.drivers.gic.ctxs p).handle p)
      modify (H.run (w.drivers.gic.ctxs p).handle p)
    else throw .panic

/-- `el2_irq` on CPU `cpu`, when `ICC_IAR1_EL1` gives `intid` -/
def el2Irq (H : Handlers B ε) (cpu intid : Nat) : IrqM ε Int := do
  logIrq (.ack intid)
  let irq ← irqContext B cpu intid
  callHandle H irq
  logIrq (.eoi intid)
  return 0

/-! ## The protocol -/

/-- What one `el2_irq` is to do from `w`: for an interrupt one call of its own handler and one end,
for a special INTID nothing. -/
def Served (H : Handlers B ε) (cpu i : Nat) (w w' : IrqWorld ε) : Prop :=
  el2Irq H cpu i w = .ok 0 w' ∧
    w'.log = w.log ++ if i ≤ 1019 then
      [.ack i, .handle (w.drivers.gic.ctxs (irqRef cpu i)).handle (irqRef cpu i), .eoi i]
        else [.ack i]

inductive IrqAct where
  | driver (a : DriverAct)
  | irq (intid : Nat)

/-- The driver acts can be made and the interrupts have handlers when they come. -/
def IrqAdmissible (H : Handlers B ε) (cpu : Nat) : List IrqAct → IrqWorld ε → Prop
  | [], _ => True
  | .driver a :: acts, w => (∃ d, DriverStep B w.drivers a d) ∧
      ∀ d, DriverStep B w.drivers a d → IrqAdmissible H cpu acts { w with drivers := d }
  | .irq i :: acts, w => (i ≤ 1019 → (w.drivers.gic.ctxs (irqRef cpu i)).handle ≠ 0) ∧
      ∀ r w', el2Irq H cpu i w = .ok r w' → IrqAdmissible H cpu acts w'

/-- Every `el2_irq` follows the protocol. -/
def ServedAll (H : Handlers B ε) (cpu : Nat) : List IrqAct → IrqWorld ε → Prop
  | [], _ => True
  | .driver a :: acts, w =>
    ∀ d, DriverStep B w.drivers a d → ServedAll H cpu acts { w with drivers := d }
  | .irq i :: acts, w => ∃ w', Served H cpu i w w' ∧ ServedAll H cpu acts w'

variable {H : Handlers B ε} {cpu i : Nat} {w w' : IrqWorld ε}

theorem logIrq_run (e : IrqEvent) : logIrq e w = .ok () { w with log := w.log ++ [e] } := rfl

/-- A special INTID makes `el2_irq` panic. -/
theorem el2Irq_special (hi : 1019 < i) : ∃ w', el2Irq H cpu i w = .error .panic w' := by
  have hnone : ∀ s, getIrqContext B cpu i s = .ok none s := by
    intro s
    unfold getIrqContext
    rw [if_neg (by omega), if_neg (by omega), if_neg (by omega)]
    rfl
  have hctx : ∀ w : IrqWorld ε, irqContext B cpu i w = .ok none w := by
    intro w
    unfold irqContext
    rw [hnone]
    rfl
  refine ⟨{ w with log := w.log ++ [.ack i] }, ?_⟩
  unfold el2Irq
  rw [bind_run (logIrq_run _), bind_run (hctx _)]
  exact bind_fault rfl

/-- A lookup keeps the handler of a context that has one. -/
theorem CtxInv.handle_lookedUp {c : IrqContext} (h : CtxInv (irqRef cpu i) c) (hh : c.handle ≠ 0) :
    (lookedUp i c).handle = c.handle := by
  by_cases hppi : 16 ≤ i ∧ i ≤ 31
  · have hops : c.ops ≠ none := by
      rw [irqRef_ppi hppi.1 hppi.2] at h
      rcases h with rfl | h
      · exact absurd rfl hh
      · rw [h.2]
        simp
    rw [h.lookedUp_self hops]
  · rw [lookedUp_other hppi]

theorem Handlers.inv (H : Handlers B ε) {h : Nat} {p : IrqRef} (hinv : w.drivers.Inv)
    (hp : p ∈ w.drivers.given) :
    (H.run h p w).drivers.Inv := by
  obtain ⟨acts, d, hruns, hctxs, hgiven⟩ := H.ctxs h p w hp
  have hd := hinv.runs hruns
  constructor
  · rw [hctxs]
    exact hd.ctxs
  · rw [hctxs, hgiven]
    exact hd.given

theorem callHandle_run {p : IrqRef} (hh : (w.drivers.gic.ctxs p).handle ≠ 0) :
    callHandle H (some p) w = .ok () (H.run (w.drivers.gic.ctxs p).handle p
      { w with log := w.log ++ [.handle (w.drivers.gic.ctxs p).handle p] }) := by
  rw [callHandle, bind_get, if_pos hh, bind_run (logIrq_run _)]
  rfl

/-- The world after the handler at `h` has been called for `p`. -/
def Handlers.called (H : Handlers B ε) (h : Nat) (p : IrqRef) (w : IrqWorld ε) : IrqWorld ε :=
  H.run h p { w with log := w.log ++ [.handle h p] }

theorem Handlers.called_log (H : Handlers B ε) (h : Nat) (p : IrqRef) (w : IrqWorld ε) :
    (H.called h p w).log = w.log ++ [.handle h p] := H.log h p _

theorem el2Irq_run {w₁ : IrqWorld ε} {p : IrqRef} {h : Nat}
    (hlookup : irqContext B cpu i { w with log := w.log ++ [.ack i] } = .ok (some p) w₁)
    (hh : (w₁.drivers.gic.ctxs p).handle = h) (hne : h ≠ 0) :
    el2Irq H cpu i w = .ok 0 { H.called h p w₁ with log := (H.called h p w₁).log ++ [.eoi i] } := by
  subst hh
  unfold el2Irq
  rw [bind_run (logIrq_run _), bind_run hlookup, bind_run (callHandle_run hne)]
  rfl

/-- An interrupt with a handler is served, and the contexts stay as drivers leave them. -/
theorem el2Irq_served (hinv : w.drivers.Inv) (hcpu : cpu < B.nrCpu) (hi : i ≤ 1019)
    (hh : (w.drivers.gic.ctxs (irqRef cpu i)).handle ≠ 0) :
      ∃ w', Served H cpu i w w' ∧ w'.drivers.Inv := by
  let d : Drivers := ⟨w.drivers.gic.lookedUp cpu i, irqRef cpu i :: w.drivers.given⟩
  let w₁ : IrqWorld ε := { w with drivers := d, log := w.log ++ [.ack i] }
  have hlookup : irqContext B cpu i { w with log := w.log ++ [.ack i] } =
      .ok (some (irqRef cpu i)) w₁ := by
    unfold irqContext
    rw [getIrqContext_run hcpu hi]
    rfl
  have hl : lookup B cpu .irq i w.drivers.gic =
      .ok (some (irqRef cpu i)) (w.drivers.gic.lookedUp cpu i) :=
    getIrqContext_run hcpu hi
  have hstep : DriverStep B w.drivers (.lookup cpu .irq i) d := .lookup hl
  have hhandle : (w₁.drivers.gic.ctxs (irqRef cpu i)).handle =
      (w.drivers.gic.ctxs (irqRef cpu i)).handle := by
    rw [← (hinv.ctxs (irqRef cpu i)).handle_lookedUp hh]
    simp [w₁, d, Gic.lookedUp]
  refine ⟨_, ⟨el2Irq_run hlookup hhandle hh, ?_⟩, ?_⟩
  · rw [if_pos hi, H.called_log]
    simp [w₁]
  · exact H.inv (hinv.step hstep) List.mem_cons_self

theorem irqProtocol_of_inv (hcpu : cpu < B.nrCpu) (acts : List IrqAct) (hinv : w.drivers.Inv)
    (hacts : IrqAdmissible H cpu acts w) : ServedAll H cpu acts w ↔ ∀ i, .irq i ∈ acts →
      i ≤ 1019 := by
  induction acts generalizing w with
  | nil => simp [ServedAll]
  | cons a acts ih =>
    cases a with
    | driver a =>
      obtain ⟨⟨d, hd⟩, hrest⟩ := hacts
      have hih : ∀ d, DriverStep B w.drivers a d →
          (ServedAll H cpu acts { w with drivers := d } ↔ ∀ i, .irq i ∈ acts → i ≤ 1019) :=
            fun d hd =>
        ih (w := { w with drivers := d }) (hinv.step hd) (hrest d hd)
      constructor
      · intro h i hmem
        rw [List.mem_cons] at hmem
        exact (hih d hd).mp (h d hd) i (hmem.resolve_left (by simp))
      · intro h d hd
        exact (hih d hd).mpr fun i hmem => h i (List.mem_cons_of_mem _ hmem)
    | irq i =>
      obtain ⟨hhandle, hrest⟩ := hacts
      constructor
      · rintro ⟨w', hserved, hall⟩ j hj
        -- a special INTID panics, so this one is none
        have hi : i ≤ 1019 := by
          by_contra hi
          obtain ⟨_, hpanic⟩ := el2Irq_special (H := H) (w := w) (i := i) (by omega)
          rw [hserved.1] at hpanic
          cases hpanic
        obtain ⟨t, ht, hinv'⟩ := el2Irq_served (H := H) hinv hcpu hi (hhandle hi)
        obtain rfl : w' = t := run_unique ht.1 hserved.1
        rcases List.mem_cons.mp hj with hj | hj
        · cases hj
          exact hi
        · exact (ih hinv' (hrest 0 w' ht.1)).mp hall j hj
      · intro h
        have hi := h i List.mem_cons_self
        obtain ⟨t, ht, hinv'⟩ := el2Irq_served (H := H) hinv hcpu hi (hhandle hi)
        exact ⟨t, ht, (ih hinv' (hrest 0 t ht.1)).mpr fun j hj => h j (List.mem_cons_of_mem _ hj)⟩

/-- **Acknowledge and end of interrupt.**  From a zeroed context area, each `el2_irq` of a run calls
the interrupt's own handler once and ends the interrupt before the next acknowledge, just when the
run has no special INTID. -/
theorem irq_protocol_iff (H : Handlers B ε) {cpu : Nat} (hcpu : cpu < B.nrCpu) {w : IrqWorld ε}
    (h0 : w.drivers.Zeroed) (acts : List IrqAct) (hacts : IrqAdmissible H cpu acts w) :
    ServedAll H cpu acts w ↔ ∀ i, .irq i ∈ acts → i ≤ 1019 :=
  irqProtocol_of_inv hcpu acts h0.inv hacts

/-- Handlers that do nothing. -/
def exampleHandlers : Handlers exampleBoard Unit where
  run _ _ w := w
  log _ _ _ := rfl
  ctxs _ _ w _ := ⟨[], w.drivers, .nil _, rfl, rfl⟩

def exampleIrqWorld : IrqWorld Unit := ⟨exampleDrivers, (), []⟩

/-- The timer's driver looks its PPI up and installs a handler; then the interrupt comes. -/
def exampleIrqActs : List IrqAct :=
  [.driver (.lookup 0 .ppi 26), .driver (.write (.ppi 0 10) (.handle 0x40204000)), .irq 26]

theorem exampleIrqActs_admissible :
    IrqAdmissible exampleHandlers 0 exampleIrqActs exampleIrqWorld := by
  have hl : lookup exampleBoard 0 .ppi 26 exampleDrivers.gic =
      .ok (some (irqRef 0 26)) (exampleDrivers.gic.lookedUp 0 26) :=
    getPpiContext_run (by decide) (by decide) (by decide)
  refine ⟨⟨_, .lookup hl⟩, ?_⟩
  intro d hd
  cases hd with
  | lookup hl' =>
    have hres := hl.symm.trans hl'
    cases hres
    refine ⟨⟨_, .write (by decide)⟩, ?_⟩
    intro d hd
    cases hd
    exact ⟨by decide, fun _ _ _ => trivial⟩

theorem irq_protocol_example :
    0 < exampleBoard.nrCpu ∧ exampleIrqWorld.drivers.Zeroed ∧
    IrqAdmissible exampleHandlers 0 exampleIrqActs exampleIrqWorld ∧
    ServedAll exampleHandlers 0 exampleIrqActs exampleIrqWorld := by
  have hcpu : 0 < exampleBoard.nrCpu := by decide
  refine ⟨hcpu, exampleDrivers_zeroed, exampleIrqActs_admissible, ?_⟩
  refine (irq_protocol_iff exampleHandlers hcpu exampleDrivers_zeroed exampleIrqActs
    exampleIrqActs_admissible).mpr ?_
  intro i hi
  simp only [exampleIrqActs, List.mem_cons, reduceCtorEq, IrqAct.irq.injEq, List.not_mem_nil,
    or_false, false_or] at hi
  omega

/-- A spurious acknowledge, 1023, panics. -/
theorem spurious_irq_panics :
    IrqAdmissible exampleHandlers 0 [.irq 1023] exampleIrqWorld ∧
    ¬ ServedAll exampleHandlers 0 [.irq 1023] exampleIrqWorld ∧
    ∃ w, el2Irq exampleHandlers 0 1023 exampleIrqWorld = .error .panic w := by
  obtain ⟨w, hw⟩ := el2Irq_special (H := exampleHandlers) (w := exampleIrqWorld) (i := 1023)
    (by decide)
  refine ⟨⟨fun h => absurd h (by decide), fun _ _ _ => trivial⟩, ?_, w, hw⟩
  rintro ⟨w', hserved, -⟩
  have := hw.symm.trans hserved.1
  cases this

end ZHyper
