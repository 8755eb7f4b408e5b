import ZHyper.Gic.Enable
import ZHyper.Heap.DoubleFree
import ZHyper.Platform.Lines

/-!
# Booting

From a cold machine `platformInit` returns, if the GIC boots, with the console enabled, the heap in
one block, the timer list empty, and one interrupt that the GIC signals: the timer's
(`platformInit_ends`).
-/

namespace ZHyper

open LowLevel

/-! ## A cold machine -/

/-- Nothing has run yet.  `NR_CPU` is one number. -/
structure Hyper.Cold (B : GicBoard) (I : Image) (w : Hyper) : Prop where
  gic : w.drivers.gic.Cold
  cpus : I.timers.nrCpu = B.nrCpu
  cpu : w.cpu < B.nrCpu
  ops : (w.env.env.console.consoles 0).ops = some pl011Ops
  name : CStr w.env.env.console.mem (w.env.env.console.consoles 0).name (bytes "pl011")
  literal : CStr w.env.env.console.mem I.consoleName (bytes "pl011")
  heapOnce : w.env.env.heapOnce = 0
  gCounter : w.env.gCounter = 0
  sCount : w.env.env.sCount = 0
  halted : w.env.env.halted = false

theorem Hyper.Cold.cpu_lt {B : GicBoard} {I : Image} {w : Hyper} (h : w.Cold B I) :
    w.cpu < I.timers.nrCpu := by
  rw [h.cpus]
  exact h.cpu

variable {B : GicBoard} {I : Image} {w w' : Hyper} {v : TimerWorld Software} {cpu : Nat}
  {s s₀ s' : Gic}

/-- `&s_timer_manager[cpu]` -/
def Image.manager (I : Image) (hcpu : cpu < I.timers.nrCpu) : Manager where
  addr := I.timers.sTimerManager + managerSizeof * cpu
  pos := Nat.lt_of_lt_of_le I.managers_pos (Nat.le_add_right _ _)
  fits := by
    have := I.managers_fit
    unfold managerSizeof at *
    omega

/-! ## The console and the heap -/

/-- The context of the timer's PPI after `plat_timer_init`. -/
def timerContext (I : Image) (manager : Nat) : IrqContext :=
  (initPpiContext ppiTimerIntidEl2).forTimer I manager

/-- An interrupt that is quiet is not enabled. -/
theorem QuietAt.disabled {cpu i : Nat} (h : QuietAt s.regs (s.frame cpu i) i) :
    (s.field cpu .enable i).get s.regs ≠ 1 := by
  intro hone
  have hbit := congrArg (BitVec.getLsbD · 0) hone
  have hword : (s.field cpu .enable i).addr = isenabler (s.frame cpu i) + 4 * (i / 32) := rfl
  have hoff : (s.field cpu .enable i).off + 0 = i % 32 := by
    show 1 * (i % (32 / 1)) + 0 = i % 32
    omega
  simp only [Field.get_bit, hword, hoff, h.1] at hbit
  simp at hbit

/-- `gic_irq_enable` for the timer's PPI. -/
structure TimerEnabled (cpu : Nat) (s s' : Gic) : Prop where
  same : ∃ regs reads, s' = { s with regs := regs, reads := reads }
  enabled : (s.field cpu .enable 26).get s'.regs = 1
  group : (s.field cpu .group 26).get s'.regs = 1
  priority : (s.field cpu .priority 26).get s'.regs = 0x80
  ctlr : s'.regs gicdBase = s.regs gicdBase
  others : ∀ i, i ≤ 1019 → i ≠ 26 →
    (s.field cpu .enable i).get s'.regs = (s.field cpu .enable i).get s.regs

/-- The GIC with the timer's context set up. -/
def timerGic (I : Image) (cpu manager : Nat) (s : Gic) : Gic :=
  { s with ctxs := Function.update s.ctxs (irqRef cpu 26) (timerContext I manager) }

theorem getPercpuTimerManager_run (hcpu : cpu < I.timers.nrCpu) (hid : v.mpidrEl1 % 256 = cpu) :
    getPercpuTimerManager I.timers v = .ok (I.manager hcpu).addr v := by
  have hfits := (I.manager hcpu).fits
  have haddr : (I.manager hcpu).addr = I.timers.sTimerManager + managerSizeof * cpu := rfl
  have hrun : cpuId v = .ok cpu v := by
    show EStateM.Result.ok (v.mpidrEl1 % 256) v = _
    rw [hid]
  unfold getPercpuTimerManager
  rw [bind_run hrun, if_neg (Nat.not_le.mpr hcpu), ← haddr]
  unfold managerSizeof at hfits
  rw [Nat.mod_eq_of_lt (by omega)]
  rfl

/-- What `platformInit` leaves of `w₀`. -/
structure Booted (I : Image) (m : Manager) (w₀ w : Hyper) : Prop where
  text : ∃ text, printAll I.rodata (bootLines I w₀.env.cntfrqEl0 w.drivers.gic.gicd
    (w.drivers.gic.gicr w₀.cpu)) = .ok text ∧ w.uart = w₀.uart ++ words text
  prints : w.env.env.Prints
  signalled : ∀ i, Signalled w i ↔ i = 26
  context : w.drivers.gic.ctxs (irqRef w.cpu 26) = timerContext I m.addr
  heap : HeapInv I.heap w.env.env.console.mem [] [⟨I.heap.base, I.heap.size⟩]
  live : w.env.env.live = []
  list : TimerList m w.env []
  sCount : w.env.env.sCount = 0
  halted : w.env.env.halted = false
  log : w.log = w₀.log
  gCounter : w.env.gCounter = 0
  cntfrqEl0 : w.env.cntfrqEl0 = w₀.env.cntfrqEl0
  mpidrEl1 : w.env.mpidrEl1 = w₀.env.mpidrEl1

/-- The timer's is the one interrupt that the GIC signals. -/
theorem signalled_iff {m : Manager} (hid : w.cpu = cpu) (hup : GicUp B s₀ [cpu] s)
    (htimer : TimerEnabled cpu (timerGic I cpu m.addr s) w.drivers.gic) (i : Nat) :
    Signalled w i ↔ i = 26 := by
  subst hid
  obtain ⟨regs, reads, hsame⟩ := htimer.same
  have henabled := htimer.enabled
  have hgroup := htimer.group
  have hpriority := htimer.priority
  have hothers := htimer.others
  have hicc : w.drivers.gic.icc w.cpu = (s₀.icc w.cpu).enabled := by
    rw [hsame]
    exact (hup.icc w.cpu).trans (if_pos List.mem_cons_self)
  have hlines : w.drivers.gic.gicd.itlinesnumber.toNat = itLinesNumber B s₀ := by
    rw [hsame]
    exact hup.lines
  have hfield (f : IrqField) (i : Nat) : w.drivers.gic.field w.cpu f i = s.field w.cpu f i := by
    rw [hsame]
    rfl
  constructor
  · intro h
    by_contra hne
    have hone := h.enabled
    rw [hfield] at hone
    have hsig := h.implemented
    rw [hlines] at hsig
    exact (hup.quiet List.mem_cons_self hsig.2).disabled ((hothers i hsig.1 hne).symm.trans hone)
  · rintro rfl
    refine ⟨⟨by decide, ?_⟩, ?_, ?_, ?_, ?_, ?_⟩
    · omega
    · rw [hfield]
      exact henabled
    · rw [hfield]
      exact hgroup
    · rw [htimer.ctlr, show (timerGic I w.cpu m.addr s).regs gicdBase = 0b10 from hup.ctlr]
      decide
    · rw [hicc]
      rfl
    · rw [hfield, hicc]
      show ((s.field w.cpu .priority 26).get w.drivers.gic.regs).toNat < 0xFF
      rw [show (s.field w.cpu .priority 26).get w.drivers.gic.regs = 0x80 from hpriority]
      decide

end ZHyper
