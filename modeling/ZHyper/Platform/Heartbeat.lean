import ZHyper.Platform.Boot

/-!
# The heartbeat

What `main.c` is for: after the boot the timer interrupt comes, and at each one `test_timer_cb`
prints a line with the number of times it has run.  `Beat` counts that; `Beat.next` is what a
statement of `platform_init` or an interrupt does to the count.

From a cold machine the boot returns, if the GIC boots, and whatever statements and interrupts
follow, in any order,

    the hypervisor shows the count of them                             (hypervisor_runs)

(`Shows`): on the UART, in its counters, on the heap and in the list of timers.  The timer's is the
one interrupt that comes, and it may come between any two statements.
-/

namespace ZHyper

open LowLevel

/-! ## An interrupt with one timer or none -/

section interrupt

variable {ε : Type} {m : Manager} {v v' : TimerWorld ε} {t fuel : Nat}
  {callbacks : Nat → Nat → Nat → TimerM ε Unit} {free : Nat → TimerM ε Unit}

theorem timerIrqHandler_empty (h : TimerList m v []) (hf : 0 < fuel) :
    timerIrqHandler callbacks free fuel m.addr v = .ok 0 (irqExit (irqEntry v)) := by
  have hentry : TimerList m (irqEntry v) [] := h.same rfl rfl
  refine timerIrqHandler_ok_iff.mpr ⟨irqEntry v, ?_, rfl, rfl⟩
  obtain ⟨k, rfl⟩ : ∃ k, fuel = k + 1 := ⟨fuel - 1, by omega⟩
  rw [timerIrqLoop_eq _ _ _ hentry, listForEachSafe, posOf, if_pos rfl]
  rfl

/-- The world in which the callback of `t` runs. -/
def calledWorld (v : TimerWorld ε) (t : Nat) : TimerWorld ε :=
  { irqEntry v with log := v.log ++ [.call t (v.timers t).callback (v.timers t).arg] }

/-- A periodic timer whose callback keeps off the timers. -/
theorem timerIrqHandler_single (h : TimerList m v [t]) (hp : (v.timers t).isPeriodic = true)
    (hc : (v.timers t).callback ≠ 0)
    (hrun : callbacks (v.timers t).callback t (v.timers t).arg (calledWorld v t) = .ok () v')
    (htimers : v'.timers = v.timers) (hf : 1 < fuel) :
    timerIrqHandler callbacks free fuel m.addr v = .ok 0 (irqExit v') := by
  have hentry : TimerList m (irqEntry v) [t] := h.same rfl rfl
  have hb : TimerBlock m t := h.block t (List.mem_singleton_self t)
  have hbody : timerIrqBody callbacks free (timerNode t) (irqEntry v) = .ok () v' := by
    have hactive : ((irqEntry v).timers t).isActive = true :=
      hentry.active t (List.mem_singleton_self t)
    have hc' : ((irqEntry v).timers t).callback ≠ 0 := hc
    have hcall : timerIrqCall callbacks t (irqEntry v) = .ok () v' := by
      unfold timerIrqCall
      rw [bind_run (loadTimer_run hb.ne_zero), if_pos hc']
      exact (bind_run (record_run _)).trans hrun
    unfold timerIrqBody
    rw [hb.listEntry_node, bind_run (loadTimer_run hb.ne_zero), if_pos hactive, bind_run hcall]
    exact timerIrqReap_periodic hb.ne_zero (htimers ▸ hp)
  -- the walk stands on `t`, or is past it
  let J (rest : List Nat) (w : TimerWorld ε) : Prop :=
    rest = [t] ∧ w = irqEntry v ∨ rest = [] ∧ w = v'
  have hnext : ∀ u rest w, J (u :: rest) w →
      TimerBlock m u ∧ (w.links (timerNode u)).next = posOf m rest := by
    rintro u rest w (⟨hl, rfl⟩ | ⟨hl, -⟩)
    · cases hl
      have hfirst : TimerList m (irqEntry v) ([] ++ t :: []) := hentry
      exact ⟨hb, next_node hfirst⟩
    · cases hl
  have hround : ∀ u rest w, J (u :: rest) w →
      ∃ w', timerIrqBody callbacks free (timerNode u) w = .ok () w' ∧ J rest w' := by
    rintro u rest w (⟨hl, rfl⟩ | ⟨hl, -⟩)
    · cases hl
      exact ⟨v', hbody, .inr ⟨rfl, rfl⟩⟩
    · cases hl
  obtain ⟨w, hloop, hend⟩ := timerIrqLoop_rule hnext hround (.inl ⟨rfl, rfl⟩) hf
  obtain ⟨hl, -⟩ | ⟨-, rfl⟩ := hend
  · cases hl
  · exact timerIrqHandler_ok_iff.mpr ⟨w, (timerIrqLoop_eq _ _ _ hentry).trans hloop, rfl, rfl⟩

end interrupt

/-! ## The count -/

/-- `start_timer` has run. -/
def Stage.started : Stage → Bool
  | .tval | .ctl | .create | .start => false
  | .printEl | .printDone | .loop => true

/-- `create_timer_periodic` has run. -/
def Stage.created : Stage → Bool
  | .tval | .ctl | .create => false
  | .start | .printEl | .printDone | .loop => true

/-- How far `platform_init` is, and what came of the interrupts. -/
structure Beat where
  stage : Stage
  irqs : Nat
  /-- How often `test_timer_cb` has run. -/
  ticks : Nat
  /-- The physical timer has been switched on. -/
  enabled : Bool
  /-- The interval that it has been given last. -/
  intervalMs : Option Nat
  text : List UInt8

namespace Beat

/-- After `platformInit`. -/
def start : Beat := ⟨.tval, 0, 0, false, none, []⟩

def print (b : Beat) (text : List UInt8) : Beat := { b with text := b.text ++ text }

def tick (b : Beat) : Beat :=
  { b with ticks := b.ticks + 1 }.print (tickText (BitVec.ofNat 32 (b.ticks + 1)))

/-- The timer's interrupt.  `timer_irq_handler` always asks for the next one in a second. -/
def interrupt (b : Beat) : Beat :=
  { if b.stage.started then b.tick else b with
    irqs := b.irqs + 1, enabled := true, intervalMs := some 1000 }

theorem interrupt_stage (b : Beat) : b.interrupt.stage = b.stage := by
  unfold interrupt
  split
  · rfl
  · rfl

def main (I : Image) (currentEl : BitVec 32) (b : Beat) : Beat :=
  match b.stage with
  | .tval => { b with stage := .ctl, intervalMs := some (1000 / I.hz) }
  | .ctl => { b with stage := .create, enabled := true }
  | .create => { b with stage := .start }
  | .start => { b with stage := .printEl }
  | .printEl => { b with stage := .printDone }.print (elText currentEl)
  | .printDone => { b with stage := .loop }.print (bytes "Platform initialized\n")
  | .loop => b

def next (I : Image) (currentEl : BitVec 32) (b : Beat) : HyperEvent → Beat
  | .main => b.main I currentEl
  | .irq _ => b.interrupt

end Beat

/-! ## The timers and the software -/

variable {B : GicBoard} {I : Image} {cpu : Nat} {hcpu : cpu < I.timers.nrCpu} {b : Beat}
  {v v₀ : TimerWorld Software} {timer : Nat}

/-- `test_timer_cb`'s timer, with `start_timer` called or not. -/
def testTimer (I : Image) (started : Bool) : Timer :=
  { createdTimer true 1000 I.testTimerCb 0 with isActive := started }

/-- The part of `Shows` that is about the timers and the software, which were `v₀` after the
boot. -/
structure SoftwareShows (I : Image) (hcpu : cpu < I.timers.nrCpu) (v₀ : TimerWorld Software)
    (b : Beat) (timer : Nat) (v : TimerWorld Software) : Prop where
  prints : v.env.Prints
  uart : v.env.console.devices = v₀.env.console.devices ++ words b.text
  sCount : v.env.sCount = BitVec.ofNat 32 b.ticks
  halted : v.env.halted = false
  gCounter : v.gCounter = b.irqs % 2 ^ 64
  enabled : b.enabled = true → v.cnthpCtlEl2 = 1
  interval : ∀ ms, b.intervalMs = some ms → v.cnthpTvalEl2 = v₀.cntfrqEl0 / 1000 * ms % 2 ^ 64
  live : v.env.live = if b.stage.created then [⟨timer, timerSizeof⟩] else []
  heap : ∃ free, HeapInv I.heap v.env.console.mem v.env.live free
  block : b.stage.created = true → TimerBlock (I.manager hcpu) timer ∧
    v.timers timer = testTimer I b.stage.started
  list : TimerList (I.manager hcpu) v (if b.stage.started then [timer] else [])
  cntfrqEl0 : v.cntfrqEl0 = v₀.cntfrqEl0
  mpidrEl1 : v.mpidrEl1 % 256 = cpu

/-- The block that `malloc` takes for the timer. -/
theorem Image.timerBlock (I : Image) (hcpu : cpu < I.timers.nrCpu) :
    TimerBlock (I.manager hcpu) (I.heap.base + 16) := by
  have hsize := I.heap_size
  have hfits := I.heap.fits
  have hapart := I.managers_apart
  have haddr : (I.manager hcpu).addr = I.timers.sTimerManager + managerSizeof * cpu := rfl
  unfold managerSizeof at hapart haddr
  refine ⟨Nat.succ_pos _, ?_, ?_⟩
  · unfold timerSizeof
    omega
  · rw [haddr]
    unfold timerSizeof managerSizeof
    omega

/-- A timer is started after it is created. -/
theorem Stage.created_of_started {s : Stage} (h : s.started = true) : s.created = true := by
  cases s with
  | tval | ctl | create | start => cases h
  | printEl | printDone | loop => rfl

theorem testTimerCb_run (h : v.env.Prints) :
    testTimerCb I v = .ok () (v.withEnv
      (({ v.env with sCount := v.env.sCount + 1 } : Software).said
        (tickText (v.env.sCount + 1)))) := by
  let v₁ := v.withEnv { v.env with sCount := v.env.sCount + 1 }
  have hprints : v₁.env.Prints := ⟨h.enabled, h.ops⟩
  exact printf_run hprints (tickLine_exec _)

namespace SoftwareShows

/-- A statement that prints. -/
theorem print (h : SoftwareShows I hcpu v₀ b timer v) (text : List UInt8) :
    SoftwareShows I hcpu v₀ (b.print text) timer (v.withEnv (v.env.said text)) where
  prints := h.prints.said text
  uart := by
    show v.env.console.devices ++ words text = _ ++ words (b.text ++ text)
    rw [h.uart, words, words, words, List.map_append, List.append_assoc]
  sCount := h.sCount
  halted := h.halted
  gCounter := h.gCounter
  enabled := h.enabled
  interval := h.interval
  live := h.live
  heap := h.heap
  block := h.block
  list := h.list.same rfl rfl
  cntfrqEl0 := h.cntfrqEl0
  mpidrEl1 := h.mpidrEl1

/-- The callback counts and prints. -/
theorem tick (h : SoftwareShows I hcpu v₀ b timer v) :
    SoftwareShows I hcpu v₀ b.tick timer (v.withEnv
      (({ v.env with sCount := v.env.sCount + 1 } : Software).said
        (tickText (v.env.sCount + 1)))) := by
  have hcount : v.env.sCount + 1 = BitVec.ofNat 32 (b.ticks + 1) := by
    rw [h.sCount, BitVec.ofNat_add]
    rfl
  have hcounted : SoftwareShows I hcpu v₀ { b with ticks := b.ticks + 1 } timer
      (v.withEnv { v.env with sCount := v.env.sCount + 1 }) :=
    { h with
      prints := ⟨h.prints.enabled, h.prints.ops⟩
      sCount := hcount
      list := h.list.same rfl rfl }
  rw [show tickText (v.env.sCount + 1) = tickText (BitVec.ofNat 32 (b.ticks + 1)) from
    congrArg tickText hcount]
  exact hcounted.print _

/-- `reset_percpu_timer` and `++g_counter`, whatever is recorded. -/
theorem enter (h : SoftwareShows I hcpu v₀ b timer v) (log : List TimerEvent) :
    SoftwareShows I hcpu v₀ { b with irqs := b.irqs + 1, enabled := false, intervalMs := none }
      timer { irqEntry v with log := log } :=
  { h with
    gCounter := by
      show (v.gCounter + 1) % 2 ^ 64 = _
      rw [h.gCounter, Nat.mod_add_mod]
    enabled := nofun
    interval := nofun
    list := h.list.same rfl rfl }

/-- `set_percpu_timer(1000)` -/
theorem rearm (h : SoftwareShows I hcpu v₀ b timer v) :
    SoftwareShows I hcpu v₀ { b with enabled := true, intervalMs := some 1000 } timer
      (irqExit v) :=
  { h with
    enabled := fun _ => rfl
    interval := by
      rintro ms ⟨⟩
      show v.cntfrqEl0 / 1000 * 1000 % 2 ^ 64 = _
      rw [h.cntfrqEl0]
    list := h.list.same rfl rfl }

/-- **The interrupt.** -/
theorem interrupt (h : SoftwareShows I hcpu v₀ b timer v) :
    ∃ v', irqHandler I I.timerIrqHandler (I.manager hcpu).addr v = .ok 0 v' ∧
      SoftwareShows I hcpu v₀ b.interrupt timer v' := by
  have hlist := h.list
  have hbound : 1 < Prog.loopBound := by
    unfold Prog.loopBound
    decide
  unfold irqHandler Beat.interrupt
  rw [if_pos rfl]
  cases hs : b.stage.started with
  | false =>
    rw [hs] at hlist
    exact ⟨_, timerIrqHandler_empty hlist (Nat.lt_of_succ_lt hbound), (h.enter v.log).rearm⟩
  | true =>
    rw [hs] at hlist
    have htimer := (h.block (Stage.created_of_started hs)).2
    rw [hs] at htimer
    have hcallback : (v.timers timer).callback = I.testTimerCb := congrArg Timer.callback htimer
    have hperiodic : (v.timers timer).isPeriodic = true := congrArg Timer.isPeriodic htimer
    have hcalled := h.enter (v.log ++ [.call timer (v.timers timer).callback (v.timers timer).arg])
    have hcallbacks : timerCallbacks I (v.timers timer).callback timer (v.timers timer).arg =
        testTimerCb I := by
      rw [hcallback]
      exact if_pos rfl
    have hrun := (congrFun hcallbacks _).trans (testTimerCb_run hcalled.prints)
    have hne : (v.timers timer).callback ≠ 0 := by
      rw [hcallback]
      exact I.testTimerCb_ne
    exact ⟨_, timerIrqHandler_single hlist hperiodic hne hrun rfl hbound,
      hcalled.tick.rearm⟩

/-- `malloc` finds room for the timer at the front of the heap. -/
theorem malloc (h : SoftwareShows I hcpu v₀ b timer v) (hs : b.stage = .create) :
    ∃ mem free, mallocTimer I v = .ok (I.heap.base + 16) (v.withEnv (v.env.withHeap
        ⟨mem, [⟨I.heap.base + 16, timerSizeof⟩]⟩)) ∧
      HeapInv I.heap mem [⟨I.heap.base + 16, timerSizeof⟩] free := by
  have hlive : v.env.live = [] := by
    rw [h.live, hs]
    rfl
  have hsize : I.heap.size < 2 ^ 32 := by
    rw [I.heap_size]
    decide
  have hroom : allocTotal timerSizeof ≤ I.heap.size := by
    rw [I.heap_size]
    decide
  obtain ⟨free, hinv⟩ := h.heap
  rw [hlive] at hinv
  obtain rfl := hinv.freeList_nil
  obtain ⟨mem, hexec, -, hinv'⟩ :=
    hinv.malloc_first_exec hsize (n := timerSizeof) (by decide) (by decide) hroom
  have hheap := onHeap_run (w := v.withEnv v.env.heap)
    (f := fun p live => if p = 0 then live else ⟨p, timerSizeof⟩ :: live) hexec
  have hne : I.heap.base + 16 ≠ 0 := Nat.succ_ne_zero _
  rw [if_neg hne, show (v.withEnv v.env.heap).env.live = [] from hlive] at hheap
  exact ⟨mem, _, onHeapSys_run hheap, hinv'⟩

/-- `create_timer_periodic` -/
theorem create (h : SoftwareShows I hcpu v₀ b timer v) (hs : b.stage = .create) :
    ∃ t v', createTestTimer I v = .ok t v' ∧
      SoftwareShows I hcpu v₀ { b with stage := .start } t v' := by
  have hblock := I.timerBlock hcpu
  obtain ⟨mem, free, hmalloc, hinv⟩ := h.malloc hs
  obtain ⟨L, hcreate, hframe⟩ := createTimer_run (w := v.withEnv (v.env.withHeap
    ⟨mem, [⟨I.heap.base + 16, timerSizeof⟩]⟩)) hblock true 1000 I.testTimerCb 0
  have hlist := h.list
  rw [hs] at hlist
  refine ⟨I.heap.base + 16, _, (bind_run hmalloc).trans hcreate, { h with
    prints := ⟨h.prints.enabled, h.prints.ops⟩
    live := rfl
    heap := ⟨free, hinv⟩
    block := fun _ => ⟨hblock, Function.update_self _ _ _⟩
    list := hlist.congr (hframe _ hblock.node_ne_list.symm) nofun nofun }⟩

/-- `start_timer` -/
theorem start (h : SoftwareShows I hcpu v₀ b timer v) (hs : b.stage = .start) :
    ∃ v', startTimer I.timers timer 0 v = .ok 0 v' ∧
      SoftwareShows I hcpu v₀ { b with stage := .printEl } timer v' := by
  have hlist := h.list
  rw [hs] at hlist
  obtain ⟨hblock, htimer⟩ := h.block (hs ▸ rfl)
  have hlive := h.live
  rw [hs] at hlive
  have hon : StartsOn I.timers (I.manager hcpu) 0 v := getPercpuTimerManager_run hcpu h.mpidrEl1
  obtain ⟨L, hstart, hlist', -⟩ :=
    startTimer_run hlist (hlist.fresh_iff.mpr ⟨hblock, List.not_mem_nil⟩) hon
  refine ⟨_, hstart, { h with
    live := hlive
    block := fun _ => ⟨hblock, ?_⟩
    list := hlist' }⟩
  show Function.update v.timers timer _ timer = _
  rw [Function.update_self, htimer]
  rfl

/-- A statement that neither creates nor starts the timer. -/
theorem advance (h : SoftwareShows I hcpu v₀ b timer v) {s : Stage}
    (hcreated : s.created = b.stage.created) (hstarted : s.started = b.stage.started) :
    SoftwareShows I hcpu v₀ { b with stage := s } timer v :=
  { h with
    live := hcreated ▸ h.live
    block := fun hs => hstarted ▸ h.block (hcreated ▸ hs)
    list := hstarted ▸ h.list }

/-- `write_sysreg(CNTHP_TVAL_EL2, cntv_tval)` -/
theorem setTval (h : SoftwareShows I hcpu v₀ b timer v) {tval ms : Nat}
    (htval : tval = v₀.cntfrqEl0 / 1000 * ms % 2 ^ 64) :
    SoftwareShows I hcpu v₀ { b with intervalMs := some ms } timer
      { v with cnthpTvalEl2 := tval } :=
  { h with
    interval := by
      rintro _ ⟨⟩
      exact htval
    list := h.list.same rfl rfl }

/-- `write_sysreg(CNTHP_CTL_EL2, 1)` -/
theorem enable (h : SoftwareShows I hcpu v₀ b timer v) :
    SoftwareShows I hcpu v₀ { b with enabled := true } timer { v with cnthpCtlEl2 := 1 } :=
  { h with
    enabled := fun _ => rfl
    list := h.list.same rfl rfl }

end SoftwareShows

/-! ## The whole -/

variable {w w₀ : Hyper} {r r' : Running} {currentEl : BitVec 32} {i : Nat}

/-- What `el2_irq` does at one interrupt of the timer. -/
def timerIrqEvents (I : Image) (cpu : Nat) : List IrqEvent :=
  [.ack 26, .handle I.timerIrqHandler (irqRef cpu 26), .eoi 26]

/-- The hypervisor, which was in `w₀` after the boot, shows the count `b`. -/
structure Shows (I : Image) (hcpu : cpu < I.timers.nrCpu) (w₀ : Hyper) (b : Beat)
    (r : Running) : Prop where
  stage : r.stage = b.stage
  cntvTval : r.cntvTval = w₀.env.cntfrqEl0 / 1000 * (1000 / I.hz) % 2 ^ 64
  software : SoftwareShows I hcpu w₀.env b r.timer r.world.env
  log : r.world.log = w₀.log ++ (List.replicate b.irqs (timerIrqEvents I cpu)).flatten
  gic : r.world.drivers.gic = w₀.drivers.gic

theorem Signalled.congr {w' : Hyper} (h : Signalled w i)
    (hgic : w'.drivers.gic = w.drivers.gic) (hid : w'.cpu = w.cpu) : Signalled w' i := by
  obtain ⟨himplemented, henabled, hgroup, hforwarded, hgroupEnabled, hunmasked⟩ := h
  rw [← hgic] at himplemented hforwarded
  rw [← hgic, ← hid] at henabled hgroup hgroupEnabled hunmasked
  exact ⟨himplemented, henabled, hgroup, hforwarded, hgroupEnabled, hunmasked⟩

/-- A lookup leaves the timer's context alone. -/
theorem lookedUp_timer {s : Gic} {manager : Nat}
    (hctx : s.ctxs (irqRef cpu 26) = timerContext I manager) : s.lookedUp cpu 26 = s := by
  have hslot : lookedUp 26 (s.ctxs (irqRef cpu 26)) = s.ctxs (irqRef cpu 26) := by
    rw [hctx, lookedUp_ppi (by decide) (by decide)]
    exact if_neg (by simp [timerContext, IrqContext.forTimer, initPpiContext, ppiTimerIntidEl2])
  unfold Gic.lookedUp
  rw [hslot, Function.update_eq_self]

/-- `el2_irq` calls the timer's handler. -/
theorem el2Irq_timer {manager : Nat} {ret : Int} (hcpu : cpu < B.nrCpu)
    (hctx : w.drivers.gic.ctxs (irqRef cpu 26) = timerContext I manager)
    (hrun : irqHandler I I.timerIrqHandler manager w.env = .ok ret v) :
    el2Irq (hyperHandlers B I) cpu 26 w = .ok 0
      { drivers := ⟨w.drivers.gic, irqRef cpu 26 :: w.drivers.given⟩, env := v,
        log := w.log ++ timerIrqEvents I cpu } := by
  let w₁ : Hyper := { w with
    drivers := ⟨w.drivers.gic, irqRef cpu 26 :: w.drivers.given⟩
    log := w.log ++ [.ack 26] }
  have hlookup : irqContext B cpu 26 { w with log := w.log ++ [.ack 26] } =
      .ok (some (irqRef cpu 26)) w₁ := by
    unfold irqContext
    rw [getIrqContext_run hcpu (by decide), lookedUp_timer hctx]
    rfl
  have hcalled : (hyperHandlers B I).called I.timerIrqHandler (irqRef cpu 26) w₁ =
      { w₁ with env := v, log := w₁.log ++ [.handle I.timerIrqHandler (irqRef cpu 26)] } := by
    show hyperHandler I I.timerIrqHandler (irqRef cpu 26) _ = _
    unfold hyperHandler
    dsimp only [w₁]
    rw [hctx, show irqHandler I I.timerIrqHandler (timerContext I manager).arg w.env = .ok ret v
      from hrun]
    rfl
  have hhandle : (w₁.drivers.gic.ctxs (irqRef cpu 26)).handle = I.timerIrqHandler :=
    congrArg IrqContext.handle hctx
  rw [el2Irq_run hlookup hhandle I.timerIrqHandler_ne, hcalled]
  show EStateM.Result.ok 0 (IrqWorld.mk _ _ (w.log ++ [_] ++ [_] ++ [_])) = _
  rw [List.append_assoc, List.append_assoc]
  rfl

namespace Shows

/-- A statement on the timers and the software. -/
theorem onTimers {b' : Beat} {s : Stage} {t : Nat} (h : Shows I hcpu w₀ b r)
    (hstage : b'.stage = s) (hirqs : b'.irqs = b.irqs)
    (hv : SoftwareShows I hcpu w₀.env b' t v) :
    Shows I hcpu w₀ b' ⟨s, r.cntvTval, t, r.world.withEnv v⟩ :=
  ⟨hstage.symm, h.cntvTval, hv, hirqs ▸ h.log, h.gic⟩

/-- **A statement of `platform_init`.** -/
theorem main (currentEl : BitVec 32) (h : Shows I hcpu w₀ b r) :
    ∃ r' w', r.main I currentEl r.world = .ok r' w' ∧
      Shows I hcpu w₀ (b.main I currentEl) { r' with world := w' } := by
  unfold Running.main Beat.main
  rw [h.stage]
  have hsoft := h.software
  cases hs : b.stage with
  | tval =>
    exact ⟨_, _, bind_run (onTimers_run rfl),
      h.onTimers rfl rfl ((hsoft.setTval h.cntvTval).advance (hs ▸ rfl) (hs ▸ rfl))⟩
  | ctl =>
    exact ⟨_, _, bind_run (onTimers_run rfl),
      h.onTimers rfl rfl (hsoft.enable.advance (hs ▸ rfl) (hs ▸ rfl))⟩
  | create =>
    obtain ⟨t, v, hrun, hv⟩ := hsoft.create hs
    exact ⟨_, _, bind_run (onTimers_run hrun), h.onTimers rfl rfl hv⟩
  | start =>
    obtain ⟨v, hrun, hv⟩ := hsoft.start hs
    exact ⟨_, _, bind_run (onTimers_run hrun), h.onTimers rfl rfl hv⟩
  | printEl =>
    have hprint := printf_run (R := I.rodata) hsoft.prints (elLine_exec currentEl)
    exact ⟨_, _, bind_run (onTimers_run hprint),
      h.onTimers rfl rfl ((hsoft.print _).advance (hs ▸ rfl) (hs ▸ rfl))⟩
  | printDone =>
    have hdone := words_exec (R := I.rodata) (s := "Platform initialized\n") rfl
    have hprint := printf_run hsoft.prints hdone
    exact ⟨_, _, bind_run (onTimers_run hprint),
      h.onTimers rfl rfl ((hsoft.print _).advance (hs ▸ rfl) (hs ▸ rfl))⟩
  | loop => exact ⟨r, r.world, rfl, h⟩

/-- **The interrupt**, which may come at any time. -/
theorem irq (hw : Booted I (I.manager hcpu) w w₀) (hid : w₀.cpu = cpu) (hB : cpu < B.nrCpu)
    (h : Shows I hcpu w₀ b r) :
    ∃ w', el2Irq (hyperHandlers B I) r.world.cpu 26 r.world = .ok 0 w' ∧
      Shows I hcpu w₀ b.interrupt { r with world := w' } := by
  have hid' : r.world.cpu = cpu := h.software.mpidrEl1
  have hctx : r.world.drivers.gic.ctxs (irqRef cpu 26) = timerContext I (I.manager hcpu).addr := by
    have hcontext := hw.context
    rw [hid] at hcontext
    rw [h.gic]
    exact hcontext
  obtain ⟨v, hrun, hv⟩ := h.software.interrupt
  rw [hid']
  refine ⟨_, el2Irq_timer hB hctx hrun, ?_, h.cntvTval, hv, ?_, h.gic⟩
  · rw [h.stage, Beat.interrupt_stage]
  · show r.world.log ++ timerIrqEvents I cpu =
      w₀.log ++ (List.replicate (b.irqs + 1) (timerIrqEvents I cpu)).flatten
    rw [h.log, List.replicate_succ', List.flatten_append, List.append_assoc, List.flatten_singleton]

theorem signalled_iff (hw : Booted I (I.manager hcpu) w w₀) (hid : w₀.cpu = cpu)
    (h : Shows I hcpu w₀ b r) : Signalled r.world i ↔ i = 26 := by
  have hid' : r.world.cpu = w₀.cpu := h.software.mpidrEl1.trans hid.symm
  rw [← hw.signalled i]
  exact ⟨fun hs => hs.congr h.gic.symm hid'.symm, fun hs => hs.congr h.gic hid'⟩

/-- **Every step is counted.** -/
theorem step {e : HyperEvent} (hw : Booted I (I.manager hcpu) w w₀) (hid : w₀.cpu = cpu)
    (hB : cpu < B.nrCpu) (h : Shows I hcpu w₀ b r) (hs : HyperStep B I currentEl r e r') :
    Shows I hcpu w₀ (b.next I currentEl e) r' := by
  cases hs with
  | main hrun =>
    obtain ⟨r₁, w₁, hrun₁, hshows⟩ := h.main currentEl
    rw [hrun₁] at hrun
    cases hrun
    exact hshows
  | irq hsig hrun =>
    obtain rfl := (h.signalled_iff hw hid).mp hsig
    obtain ⟨w₁, hrun₁, hshows⟩ := h.irq hw hid hB
    rw [hrun₁] at hrun
    cases hrun
    exact hshows

/-- **So is every run.** -/
theorem run {es : List HyperEvent} (hw : Booted I (I.manager hcpu) w w₀) (hid : w₀.cpu = cpu)
    (hB : cpu < B.nrCpu) (h : Shows I hcpu w₀ b r)
    (hr : Runs (HyperStep B I currentEl) r es r') :
    Shows I hcpu w₀ (es.foldl (Beat.next I currentEl) b) r' := by
  induction hr generalizing b with
  | nil => exact h
  | cons h1 _ ih => exact ih (h.step hw hid hB h1)

end Shows

end ZHyper
