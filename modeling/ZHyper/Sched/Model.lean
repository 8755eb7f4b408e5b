import ZHyper.ListHead

/-!
# `vcpu.c`: vCPUs and their queues

`struct vcpu` and `struct pcpu` by address; the `struct list_head`s inside them are
the nodes of `list.h` at their own addresses.  A fault is the dereference of a
`NULL` pointer.  The EL1 registers of the CPU and the register frame that the
`gpregs` argument points to are part of the state.

`dels` is a trace: every `list_del` the scheduler executes, with the links it met.
No function reads it.
-/

namespace ZHyper

open LowLevel

inductive VcpuState where
  | offline
  | running
  | suspended
  | ready
  | halted
deriving DecidableEq, Repr

/-- `aarch64_gpregs_t` -/
structure Gpregs where
  x : Fin 31 → UInt64
  sp : UInt64
  pc : UInt64
  pstate : UInt64

/-- `sysregs_el1_t` -/
structure SysregsEl1 where
  elr : UInt64
  spsr : UInt64
  mpidr : UInt64
  midr : UInt64
  spEl1 : UInt64
  spEl0 : UInt64
  ttbr0 : UInt64
  ttbr1 : UInt64
  tcr : UInt64
  vbar : UInt64
  sctlr : UInt64

/-- `struct vcpu` without its lists, which are nodes of `Sched.links`, and `lrs`, which nothing
uses. -/
structure Vcpu where
  id : Nat
  state : VcpuState
  gpregs : Gpregs
  sysregsEl1 : SysregsEl1
  pcpu : Nat

structure Sched where
  links : Links
  vcpus : Nat → Vcpu
  /-- `pcpu->current_vcpu` -/
  current : Nat → Nat
  sysregs : SysregsEl1
  /-- what `gpregs` points to -/
  frame : Gpregs
  dels : List (Nat × Links)

inductive Fault where
  | nullDeref
deriving DecidableEq

abbrev SchedM := EStateM Fault Sched

/-! ## Layout -/

/-- `&vcpu->irq_list` -/
def irqList (vcpu : Nat) : Nat := (vcpu + 8) % 2 ^ 64

/-- `&vcpu->preempt_list` -/
def preemptList (vcpu : Nat) : Nat := (vcpu + 24) % 2 ^ 64

/-- The offset of `node` in `struct vcpu`. -/
def nodeOffset : Nat := 528

/-- `&vcpu->node` -/
def nodeOf (vcpu : Nat) : Nat := (vcpu + nodeOffset) % 2 ^ 64

def vcpuSizeof : Nat := 552

/-- `&pcpu->ready_vcpus` -/
def readyVcpus (pcpu : Nat) : Nat := (pcpu + 8) % 2 ^ 64

/-- `&pcpu->suspend_vcpus` -/
def suspendVcpus (pcpu : Nat) : Nat := (pcpu + 24) % 2 ^ 64

def pcpuSizeof : Nat := 48

/-! ## Accesses -/

/-- `vcpu->…`, read. -/
def loadVcpu (vcpu : Nat) : SchedM Vcpu := do
  if vcpu = 0 then throw .nullDeref
  return (← get).vcpus vcpu

/-- `vcpu->…`, written. -/
def modifyVcpu (vcpu : Nat) (f : Vcpu → Vcpu) : SchedM Unit := do
  if vcpu = 0 then throw .nullDeref
  modify fun s => { s with vcpus := Function.update s.vcpus vcpu (f (s.vcpus vcpu)) }

def setState (vcpu : Nat) (state : VcpuState) : SchedM Unit :=
  modifyVcpu vcpu fun v => { v with state }

def loadCurrent (pcpu : Nat) : SchedM Nat := return (← get).current pcpu

def storeCurrent (pcpu vcpu : Nat) : SchedM Unit :=
  modify fun s => { s with current := Function.update s.current pcpu vcpu }

/-- A function of `list.h` that changes links. -/
def onLinks (f : Links → Option Links) : SchedM Unit := fun s =>
  match f s.links with
  | some L => .ok () { s with links := L }
  | none => .error .nullDeref s

/-- `list_next(ptr)` -/
def listNext (ptr : Nat) : SchedM Nat := fun s =>
  match loadNext ptr s.links with
  | some p => .ok p s
  | none => .error .nullDeref s

/-- `list_del(node)`, recorded. -/
def schedListDel (node : Nat) : SchedM Unit := do
  modify fun s => { s with dels := (node, s.links) :: s.dels }
  onLinks (listDel node)

/-! ## Contexts -/

def Gpregs.zero : Gpregs := ⟨fun _ => 0, 0, 0, 0⟩

def SysregsEl1.zero : SysregsEl1 := ⟨0, 0, 0, 0, 0, 0, 0, 0, 0, 0, 0⟩

def vcpuInit (pcpu vcpu id : Nat) : SchedM Unit := do
  modifyVcpu vcpu fun _ => ⟨id, .offline, .zero, .zero, pcpu⟩
  onLinks (listInit (irqList vcpu))
  onLinks (listInit (preemptList vcpu))
  onLinks (listInit (nodeOf vcpu))

def vcpuSaveContext (vcpu : Nat) : SchedM Unit := do
  let s ← get
  modifyVcpu vcpu fun v => { v with gpregs := s.frame }
  modifyVcpu vcpu fun v => { v with sysregsEl1 := s.sysregs }
  setState vcpu .ready

def vcpuRestoreContext (vcpu : Nat) : SchedM Unit := do
  setState vcpu .running
  let v ← loadVcpu vcpu
  modify fun s => { s with sysregs := v.sysregsEl1 }
  modify fun s => { s with frame := v.gpregs }

/-! ## Operations -/

def vcpuStart (vcpu : Nat) : SchedM Unit := do
  let v ← loadVcpu vcpu
  if v.state ≠ .offline then pure ()
  else
    setState vcpu .ready
    onLinks (listAddTail (nodeOf vcpu) (readyVcpus v.pcpu))

def vcpuSuspend (vcpu : Nat) : SchedM Unit := do
  let v ← loadVcpu vcpu
  if v.state ≠ .running then pure ()
  else
    setState vcpu .suspended
    schedListDel (nodeOf vcpu)
    onLinks (listAddTail (nodeOf vcpu) (suspendVcpus v.pcpu))

def vcpuResume (vcpu : Nat) : SchedM Unit := do
  let v ← loadVcpu vcpu
  if v.state ≠ .suspended then pure ()
  else
    setState vcpu .ready
    schedListDel (nodeOf vcpu)
    onLinks (listAddTail (nodeOf vcpu) (readyVcpus v.pcpu))

def vcpuHalt (vcpu : Nat) : SchedM Unit := do
  let v ← loadVcpu vcpu
  if v.state ≠ .running then pure ()
  else
    setState vcpu .halted
    schedListDel (nodeOf vcpu)

/-- The first half of `pcpu_switch`: save the current vCPU, and queue it if it is still running. -/
def switchOut (pcpu : Nat) : SchedM Unit := do
  let current ← loadCurrent pcpu
  if current = 0 then pure ()
  else
    vcpuSaveContext current
    let v ← loadVcpu current
    if v.state = .running then
      setState current .ready
      onLinks (listAddTail (nodeOf current) (readyVcpus pcpu))
    else pure ()

/-- The second half: take the first of the ready list. -/
def switchIn (pcpu : Nat) : SchedM Unit := do
  let first ← listNext (readyVcpus pcpu)
  if first = 0 then storeCurrent pcpu 0
  else
    let first ← listNext (readyVcpus pcpu)
    let next := listEntry first nodeOffset
    schedListDel (nodeOf next)
    setState next .running
    storeCurrent pcpu next
    vcpuRestoreContext next

def pcpuSwitch (pcpu : Nat) : SchedM Unit := do
  switchOut pcpu
  switchIn pcpu

end ZHyper
