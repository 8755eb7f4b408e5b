import ZHyper.ListHead

/-!
# `timer.c`: timers and the timer interrupt

`zhyper_timer_t` and `percpu_timer_manager_t` by address; the `struct list_head`s
inside them are the nodes of `list.h` at their own addresses.  The registers of the
EL2 physical timer are part of the state.

The code that a `callback` pointer stands for is not part of `timer.c`: it is a
parameter, it may change the whole state, and `env` is what it owns besides, the heap
for instance.  So is `free`; `create_timer_*` are given the answer of their `malloc`.

`log` is a trace of the callbacks called and the timers started, unlinked and freed,
oldest first.  No function reads it.
-/

namespace ZHyper

open LowLevel

/-- `struct zhyper_timer` without its node, which is one of `TimerWorld.links`, and
`expired_tick` and `reserved0`, which nothing uses. -/
structure Timer where
  intervalMs : Nat
  isPeriodic : Bool
  isActive : Bool
  callback : Nat
  arg : Nat
  /-- `private` -/
  priv : Nat
deriving DecidableEq

/-- `struct percpu_timer_manager` without its `timer_list`. -/
structure PercpuTimerManager where
  nrTimers : Nat
  lastTick : Nat
deriving DecidableEq

inductive TimerEvent where
  /-- `callback(timer, arg)` -/
  | call (timer callback arg : Nat)
  | start (timer : Nat)
  | unlink (timer : Nat)
  | free (timer : Nat)
deriving DecidableEq

structure TimerWorld (ε : Type) where
  links : Links
  timers : Nat → Timer
  managers : Nat → PercpuTimerManager
  gCounter : Nat
  cnthpCtlEl2 : Nat
  cnthpTvalEl2 : Nat
  cntfrqEl0 : Nat
  cntvctEl0 : Nat
  mpidrEl1 : Nat
  env : ε
  log : List TimerEvent

inductive TimerFault where
  | nullDeref
  | panic
  /-- a loop that did not end within its bound -/
  | endless
deriving DecidableEq

abbrev TimerM (ε : Type) := EStateM TimerFault (TimerWorld ε)

/-- `NR_CPU` and `s_timer_manager`, which the build and the linker choose. -/
structure TimerConfig where
  nrCpu : Nat
  sTimerManager : Nat

variable {ε : Type}

/-! ## Layout -/

/-- The offset of `list` in `struct zhyper_timer`. -/
def timerListOffset : Nat := 40

/-- `&timer->list` -/
def timerNode (timer : Nat) : Nat := (timer + timerListOffset) % 2 ^ 64

def timerSizeof : Nat := 56

/-- `&manager->timer_list` -/
def timerList (manager : Nat) : Nat := (manager + 16) % 2 ^ 64

def managerSizeof : Nat := 32

/-! ## Accesses -/

/-- `timer->…`, read. -/
def loadTimer (timer : Nat) : TimerM ε Timer := do
  if timer = 0 then throw .nullDeref
  return (← get).timers timer

/-- `timer->…`, written. -/
def modifyTimer (timer : Nat) (f : Timer → Timer) : TimerM ε Unit := do
  if timer = 0 then throw .nullDeref
  modify fun w => { w with timers := Function.update w.timers timer (f (w.timers timer)) }

/-- `manager->…`, written. -/
def modifyManager (manager : Nat) (f : PercpuTimerManager → PercpuTimerManager) :
    TimerM ε Unit := do
  if manager = 0 then throw .nullDeref
  modify fun w => { w with managers := Function.update w.managers manager (f (w.managers manager)) }

/-- A function of `list.h` that changes links. -/
def TimerM.onLinks (f : Links → Option Links) : TimerM ε Unit := fun w =>
  match f w.links with
  | some L => .ok () { w with links := L }
  | none => .error .nullDeref w

/-- `ptr->next` -/
def TimerM.next (ptr : Nat) : TimerM ε Nat := fun w =>
  match loadNext ptr w.links with
  | some p => .ok p w
  | none => .error .nullDeref w

def TimerM.record (e : TimerEvent) : TimerM ε Unit := modify fun w => { w with log := w.log ++ [e] }

/-! ## The physical timer -/

def resetPercpuTimer : TimerM ε Unit := do
  modify fun w => { w with cnthpCtlEl2 := 0 }
  modify fun w => { w with cnthpTvalEl2 := 0 }

def setPercpuTimer (intervalMs : Nat) : TimerM ε Unit := do
  let cntfrqEl0 := (← get).cntfrqEl0
  let cntvTval := cntfrqEl0 / 1000 * intervalMs % 2 ^ 64
  modify fun w => { w with cnthpTvalEl2 := cntvTval }
  modify fun w => { w with cnthpCtlEl2 := 1 }

/-! ## The interrupt -/

section

-- what a `callback` pointer does with a timer and an argument, and `free`
variable (callbacks : Nat → Nat → Nat → TimerM ε Unit) (free : Nat → TimerM ε Unit)

/-- The first half of the loop's body: call the timer's callback if it has one. -/
def timerIrqCall (timer : Nat) : TimerM ε Unit := do
  let t ← loadTimer timer
  if t.callback ≠ 0 then
    TimerM.record (.call timer t.callback t.arg)
    callbacks t.callback timer t.arg

/-- The second half: a one-shot timer goes.  The flag is read after the callback has run. -/
def timerIrqReap (timer : Nat) : TimerM ε Unit := do
  let t ← loadTimer timer
  if !t.isPeriodic then
    modifyTimer timer fun t => { t with isActive := false }
    TimerM.record (.unlink timer)
    TimerM.onLinks (listDel (timerNode timer))
    TimerM.record (.free timer)
    free timer

/-- The body of the loop of `timer_irq_handler`. -/
def timerIrqBody (pos : Nat) : TimerM ε Unit := do
  let timer := listEntry pos timerListOffset
  let t ← loadTimer timer
  if t.isActive then
    timerIrqCall callbacks timer
    timerIrqReap free timer

def timerIrqLoop (fuel manager : Nat) : TimerM ε Unit := do
  let pos ← TimerM.next (timerList manager)
  let n ← TimerM.next pos
  listForEachSafe TimerM.next .endless (timerList manager) (timerIrqBody callbacks free) fuel pos n

/-- `timer_irq_handler`, with `irq->arg` for `manager`. -/
def timerIrqHandler (fuel manager : Nat) : TimerM ε Int := do
  resetPercpuTimer
  modify fun w => { w with gCounter := (w.gCounter + 1) % 2 ^ 64 }
  if manager ≠ 0 then
    timerIrqLoop callbacks free fuel manager
  setPercpuTimer 1000
  return 0

end

/-! ## Timers and managers -/

def percpuTimerManagerInit (manager : Nat) : TimerM ε Unit := do
  if manager = 0 then throw .panic
  modifyManager manager fun g => { g with nrTimers := 0 }
  let tick := (← get).cntvctEl0
  modifyManager manager fun g => { g with lastTick := tick }
  TimerM.onLinks (listInit (timerList manager))

def cpuId : TimerM ε Nat := return (← get).mpidrEl1 % 256

def getPercpuTimerManager (config : TimerConfig) : TimerM ε Nat := do
  let id ← cpuId
  if id ≥ config.nrCpu then throw .panic
  return (config.sTimerManager + managerSizeof * id) % 2 ^ 64

/-- `plat_timer_init`, but for the PPI context, which gets `timer_irq_handler` and the manager. -/
def platTimerInit (config : TimerConfig) (intervalMs : Nat) : TimerM ε Unit := do
  let cntfrqEl0 := (← get).cntfrqEl0
  let cntvTval := cntfrqEl0 / 1000 * intervalMs % 2 ^ 64
  let manager ← getPercpuTimerManager config
  if manager = 0 then throw .panic
  percpuTimerManagerInit manager
  modify fun w => { w with cnthpTvalEl2 := cntvTval }
  modify fun w => { w with cnthpCtlEl2 := 1 }

/-- The common text of `create_timer_periodic` and `create_timer_oneshot`; `block` is what
`malloc(sizeof(zhyper_timer_t))` returns. -/
def createTimer (isPeriodic : Bool) (block intervalMs callback arg : Nat) : TimerM ε Nat := do
  if block = 0 then return 0
  modifyTimer block fun t => { t with intervalMs }
  modifyTimer block fun t => { t with isPeriodic }
  modifyTimer block fun t => { t with isActive := false }
  modifyTimer block fun t => { t with callback }
  modifyTimer block fun t => { t with arg }
  modifyTimer block fun t => { t with priv := 0 }
  TimerM.onLinks (listInit (timerNode block))
  return block

def createTimerPeriodic (block intervalMs callback arg : Nat) : TimerM ε Nat :=
  createTimer true block intervalMs callback arg

def createTimerOneshot (block intervalMs callback arg : Nat) : TimerM ε Nat :=
  createTimer false block intervalMs callback arg

/-- `EINVAL` -/
def einval : Int := 22

/-- `manager`, or the manager of this CPU for `NULL`. -/
def orPercpuTimerManager (config : TimerConfig) (manager : Nat) : TimerM ε Nat :=
  if manager = 0 then getPercpuTimerManager config else pure manager

def startTimer (config : TimerConfig) (timer manager : Nat) : TimerM ε Int := do
  if timer = 0 then return -einval
  let manager ← orPercpuTimerManager config manager
  if manager = 0 then return -einval
  modifyTimer timer fun t => { t with isActive := true }
  modifyManager manager fun g => { g with nrTimers := (g.nrTimers + 1) % 2 ^ 32 }
  TimerM.record (.start timer)
  TimerM.onLinks (listAdd (timerNode timer) (timerList manager))
  return 0

end ZHyper
