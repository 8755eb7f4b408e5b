import ZHyper.Console.Output
import ZHyper.Exception.Printing
import ZHyper.Gic.BringUp
import ZHyper.Gic.Irq
import ZHyper.Timer.HeapIrq

/-!
# `main.c`: the hypervisor as a whole

`platform_init` on one CPU, over the consoles, the heap, the timers and the GIC, in one state.  The
one console is the PL011, and what it is sent are the words written to `DR`; every `printf` goes
through `vprintf` and `console_putc_all`.

`platformInit` is the part that nothing interrupts: `ICC_IGRPEN1_EL1` is 0 until `plat_gicv3_init`
sets it, and no interrupt is enabled then before `gic_irq_enable` in `plat_timer_init`.  What
follows is taken statement by statement, with `el2_irq` in between, down to the loop around `wfi`.

`el2_exception_init` and `irq_enable` are left out, and so is the order between the lines that
`plat_gicv3_init` prints and its accesses to the GIC.
-/

namespace ZHyper

open LowLevel

/-! ## State -/

/-- What the timers' functions see of the rest. -/
structure Software where
  console : ConsoleWorld (List (BitVec 32))
  live : List Alloc
  /-- The flag of `RUN_ONCE(__miniheap_init)`. -/
  heapOnce : Int
  /-- `s_count` -/
  sCount : BitVec 32
  /-- An interrupt handler did not return. -/
  halted : Bool

abbrev Hyper := IrqWorld (TimerWorld Software)

abbrev HyperM := EStateM TimerFault Hyper

/-- `cpu_id()` -/
def Hyper.cpu (w : Hyper) : Nat := w.env.mpidrEl1 % 256

/-- What has been written to `DR`. -/
def Hyper.uart (w : Hyper) : List (BitVec 32) := w.env.env.console.devices

/-- Where the build and the linker put things: objects that do not overlap, and functions. -/
structure Image where
  timers : TimerConfig
  /-- `g_miniheap`, and `ZHYPER_HEAP_SIZE` bytes from `__heap_start` on -/
  heap : Region
  hz : Nat
  /-- `"pl011"`, for `find_console` -/
  consoleName : Nat
  rodata : Rodata
  timerIrqHandler : Nat
  testTimerCb : Nat
  heap_size : heap.size = 0x100000
  managers_pos : 0 < timers.sTimerManager
  managers_fit : timers.sTimerManager + managerSizeof * timers.nrCpu ≤ 2 ^ 64
  managers_apart : heap.base + heap.size ≤ timers.sTimerManager ∨
    timers.sTimerManager + managerSizeof * timers.nrCpu ≤ heap.base
  timerIrqHandler_ne : timerIrqHandler ≠ 0
  testTimerCb_ne : testTimerCb ≠ 0

/-! ## Parts of the state -/

def ConsoleFault.inTimers : ConsoleFault → TimerFault
  | .panic => .panic
  | .endless => .endless

def GicFault.inTimers : GicFault → TimerFault
  | .panic => .panic
  | .nullDeref => .nullDeref
  | .endless => .endless

/-- The heap is in the memory of the consoles' names. -/
def Software.heap (e : Software) : HeapSys := ⟨e.console.mem, e.live⟩

def Software.withHeap (e : Software) (h : HeapSys) : Software :=
  { e with console := { e.console with mem := h.mem }, live := h.live }

/-- The timers' state with the software at `e`. -/
def TimerWorld.withEnv {ε ε' : Type} (w : TimerWorld ε) (e : ε') : TimerWorld ε' :=
  { w with env := e }

def Hyper.withEnv (w : Hyper) (v : TimerWorld Software) : Hyper := { w with env := v }

section

variable {α : Type}

def onConsole : ConsoleM (List (BitVec 32)) α → TimerM Software α :=
  onPart (fun w => w.env.console) (fun c w => w.withEnv { w.env with console := c })
    ConsoleFault.inTimers

def onHeapSys : TimerM HeapSys α → TimerM Software α :=
  onPart (fun w => w.withEnv w.env.heap) (fun v w => v.withEnv (w.env.withHeap v.env)) id

def onTimers : TimerM Software α → HyperM α :=
  onPart (fun w => w.env) (fun v w => w.withEnv v) id

variable {a : α} {v : TimerWorld Software} {w : Hyper}

theorem onConsole_run {x : ConsoleM (List (BitVec 32)) α} {c : ConsoleWorld (List (BitVec 32))}
    (h : x v.env.console = .ok a c) :
    onConsole x v = .ok a (v.withEnv { v.env with console := c }) := onPart_run h

theorem onHeapSys_run {x : TimerM HeapSys α} {u : TimerWorld HeapSys}
    (h : x (v.withEnv v.env.heap) = .ok a u) :
    onHeapSys x v = .ok a (u.withEnv (v.env.withHeap u.env)) := onPart_run h

theorem onTimers_run {x : TimerM Software α} (h : x w.env = .ok a v) :
    onTimers x w = .ok a (w.withEnv v) := onPart_run h

end

/-! ## Output -/

/-- `putchar` for each character; there is one console. -/
def putText (text : List UInt8) : TimerM Software Unit :=
  text.forM fun c => do
    let _ ← onConsole (Console.putchar 1 (c.toNat : Int))

/-- `printf`; formats that C leaves undefined stop. -/
def printf (R : Rodata) (p : PrintCall) : TimerM Software Unit :=
  match p.exec R with
  | .ok text => putText text
  | .error _ => throw .panic

def tickLine (sCount : BitVec 32) : PrintCall :=
  ⟨"Timer callback invoked! Counter: %d\n", [.num (sCount.setWidth 64)]⟩

def testTimerCb (I : Image) : TimerM Software Unit := do
  modify fun w => w.withEnv { w.env with sCount := w.env.sCount + 1 }
  let w ← get
  printf I.rodata (tickLine w.env.sCount)

/-- The callbacks by address; there is one. -/
def timerCallbacks (I : Image) (callback _timer _arg : Nat) : TimerM Software Unit :=
  if callback = I.testTimerCb then testTimerCb I else throw .panic

def timerFree (I : Image) (timer : Nat) : TimerM Software Unit :=
  onHeapSys (heapFree I.heap.heap timer)

/-- `malloc(sizeof(zhyper_timer_t))` -/
def mallocTimer (I : Image) : TimerM Software Nat :=
  onHeapSys (onHeap (malloc I.heap.heap timerSizeof) fun p live =>
    if p = 0 then live else ⟨p, timerSizeof⟩ :: live)

/-- `create_timer_periodic(1000, test_timer_cb, NULL)` -/
def createTestTimer (I : Image) : TimerM Software Nat := do
  let block ← mallocTimer I
  createTimerPeriodic block 1000 I.testTimerCb 0

/-- The interrupt handlers by address; there is one, and `irq->arg` is its manager. -/
def irqHandler (I : Image) (h arg : Nat) : TimerM Software Int :=
  if h = I.timerIrqHandler then
    timerIrqHandler (timerCallbacks I) (timerFree I) Prog.loopBound arg
  else throw .panic

def hyperHandler (I : Image) (h : Nat) (p : IrqRef) (w : Hyper) : Hyper :=
  match irqHandler I h (w.drivers.gic.ctxs p).arg w.env with
  | .ok _ v => w.withEnv v
  | .error _ v => w.withEnv (v.withEnv { v.env with halted := true })

theorem hyperHandler_env (I : Image) (h : Nat) (p : IrqRef) (w : Hyper) :
    ∃ v, hyperHandler I h p w = w.withEnv v := by
  unfold hyperHandler
  split
  · exact ⟨_, rfl⟩
  · exact ⟨_, rfl⟩

def hyperHandlers (B : GicBoard) (I : Image) : Handlers B (TimerWorld Software) where
  run := hyperHandler I
  log h p w := by
    obtain ⟨v, hv⟩ := hyperHandler_env I h p w
    rw [hv]
    rfl
  ctxs h p w _ := by
    obtain ⟨v, hv⟩ := hyperHandler_env I h p w
    rw [hv]
    exact ⟨[], w.drivers, .nil _, rfl, rfl⟩

/-! ## `platform_init` -/

def flagArg (b : Bool) : PrintArg := .num ((BitVec.ofBool b).setWidth 64)

/-- The lines of `gicd_init`, those of `gicv3_show_distributor` among them. -/
def gicdLines (c : GicdContext) : List PrintCall :=
  [⟨"GICv3 Distributor init: 0x%lx\n", [.num (BitVec.ofNat 64 gicdBase)]⟩,
   ⟨"gicd init done!\n", []⟩,
   ⟨"GICD: gicd_regs=0x%lx\n", [.num (BitVec.ofNat 64 c.gicdRegs)]⟩,
   ⟨"GICD: itlinesnumber=%u, spi_count=%u, cpunumber=%u\n" ++
      "securityextn=%u, mbis=%u, lpis=%u, num_lpis=%u, a3v=%u, no1n=%u\n",
    [.num (c.itlinesnumber.setWidth 64), .num (c.spiCount.setWidth 64),
     .num (c.cpunumber.setWidth 64), flagArg c.securityextn, flagArg c.mbis, flagArg c.lpis,
     .num (c.numLpis.setWidth 64), flagArg c.a3v, flagArg c.no1n]⟩,
   ⟨"GICD: implementer=0x%x, revision=%u, variant=%u, productid=0x%x\n",
    [.num (c.implementer.setWidth 64), .num (c.revision.setWidth 64),
     .num (c.variant.setWidth 64), .num (c.productid.setWidth 64)]⟩,
   ⟨"GICD: ds=%u, enable_grp0=%u, enable_grp1=%u, are=%u\n",
    [flagArg c.ds, flagArg c.enableGrp0, flagArg c.enableGrp1, flagArg c.are]⟩,
   ⟨"GICD: e1nwf=%u\n", [flagArg c.e1nwf]⟩]

/-- The line of `gicr_init`. -/
def gicrLine (c : GicrContext) : PrintCall :=
  ⟨"GICR: plpis=%u, vlpis=%u, direct_lpis=%u, last=%u, dpgs=%u, processor_number=%u, " ++
      "common_lpi_aff=%u, affinity=0x%lx\n",
    [flagArg c.plpis, flagArg c.vlpis, flagArg c.directLpis, flagArg c.last, flagArg c.dpgs,
     .num (c.processorNumber.setWidth 64), .num (c.commonLpiAff.setWidth 64),
     .num (c.affinity.setWidth 64)]⟩

/-- `PPI_TIMER_INTID_EL2` -/
def ppiTimerIntidEl2 : Nat := 26

def frequencyLine (cntfrqEl0 intervalMs cntvTval : Nat) : PrintCall :=
  ⟨"frequency: %lu Hz, interval: %u ms, cntv_tval: %lu\n",
    [.num (BitVec.ofNat 64 cntfrqEl0), .num (BitVec.ofNat 64 intervalMs),
     .num (BitVec.ofNat 64 cntvTval)]⟩

/-- `timer_ppi->…`, written by `plat_timer_init`. -/
def IrqContext.forTimer (I : Image) (manager : Nat) (c : IrqContext) : IrqContext :=
  { c with group := 1, priority := 0x80, trigger := 1, handle := I.timerIrqHandler, arg := manager }

/-- Where `platform_init` is. -/
inductive Stage where
  /-- `write_sysreg(CNTHP_TVAL_EL2, cntv_tval)` -/
  | tval
  /-- `write_sysreg(CNTHP_CTL_EL2, 1)` -/
  | ctl
  | create
  | start
  | printEl
  | printDone
  /-- `while (1) { wfi(); }` -/
  | loop
deriving DecidableEq

structure Running where
  stage : Stage
  cntvTval : Nat
  /-- `timer` -/
  timer : Nat
  world : Hyper

def elLine (currentEl : BitVec 32) : PrintCall :=
  ⟨"software EL: %d\n", [.num (currentEl.setWidth 64)]⟩

/-- The next statement, `currentEl` being what `get_current_el` returns. -/
def Running.main (I : Image) (currentEl : BitVec 32) (r : Running) : HyperM Running :=
  match r.stage with
  | .tval => do
    onTimers (modify fun w => { w with cnthpTvalEl2 := r.cntvTval })
    return { r with stage := .ctl }
  | .ctl => do
    onTimers (modify fun w => { w with cnthpCtlEl2 := 1 })
    return { r with stage := .create }
  | .create => do
    let timer ← onTimers (createTestTimer I)
    return { r with stage := .start, timer := timer }
  | .start => do
    let _ ← onTimers (startTimer I.timers r.timer 0)
    return { r with stage := .printEl }
  | .printEl => do
    onTimers (printf I.rodata (elLine currentEl))
    return { r with stage := .printDone }
  | .printDone => do
    onTimers (printf I.rodata ⟨"Platform initialized\n", []⟩)
    return { r with stage := .loop }
  | .loop => return r

/-- The GIC signals interrupt `i` to the CPU once it is pending: it is implemented, enabled and of
group 1, which the distributor forwards (`GICD_CTLR`), and neither the group's enable bit nor the
priority mask of the CPU keeps it back. -/
structure Signalled (w : Hyper) (i : Nat) : Prop where
  implemented : i ≤ 1019 ∧ i < 32 * (w.drivers.gic.gicd.itlinesnumber.toNat + 1)
  enabled : (w.drivers.gic.field w.cpu .enable i).get w.drivers.gic.regs = 1
  group : (w.drivers.gic.field w.cpu .group i).get w.drivers.gic.regs = 1
  forwarded : (w.drivers.gic.regs gicdBase).getLsbD 1 = true
  groupEnabled : (w.drivers.gic.icc w.cpu).igrpen1El1 = 1
  unmasked : ((w.drivers.gic.field w.cpu .priority i).get w.drivers.gic.regs).toNat <
    (w.drivers.gic.icc w.cpu).pmrEl1.toNat

inductive HyperEvent where
  | main
  | irq (intid : Nat)
deriving DecidableEq

/-- A statement of `platform_init`, or an interrupt. -/
inductive HyperStep (B : GicBoard) (I : Image) (currentEl : BitVec 32) :
    Running → HyperEvent → Running → Prop where
  | main {r r' : Running} {w' : Hyper} : r.main I currentEl r.world = .ok r' w' →
      HyperStep B I currentEl r .main { r' with world := w' }
  | irq {r : Running} {i : Nat} {ret : Int} {w' : Hyper} : Signalled r.world i →
      el2Irq (hyperHandlers B I) r.world.cpu i r.world = .ok ret w' →
      HyperStep B I currentEl r (.irq i) { r with world := w' }

end ZHyper
