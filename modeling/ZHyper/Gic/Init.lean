import ZHyper.Sync.RunOnce
import ZHyper.Gic.Config

/-!
# Bringing up the GIC: `gicd_init`, `gicr_init` and `plat_gicv3_init`

Each CPU runs `plat_gicv3_init`: the first one initialises the distributor (`run_once`), and each
one its redistributor, with the CPU number that it finds in its own context.  That number is zero in
a zeroed area, whichever CPU it is:

    after all CPUs ran, CPU k has its own redistributor  ↔  k = 0    (cpus_own_redistributors_iff)
-/

namespace ZHyper

open LowLevel

/-! ## The distributor -/

/-- A bit of a register as a one-bit field of a context, `(x & (1U << n)) ? 1 : 0`. -/
def flagBit {w : Nat} (x : BitVec w) (n : Nat) : Bool := x &&& (1#w <<< n) != 0

/-- The fields of `GICD_TYPER` -/
def GicdContext.withTyper (c : GicdContext) (typer : BitVec 32) : GicdContext :=
  { c with
    itlinesnumber := (typer &&& 0x1F).setWidth 5
    spiCount := ((((typer &&& 0x1F).setWidth 5).setWidth 32 + 1) * 32 - 32 : BitVec 32).setWidth 10
    cpunumber := ((typer >>> 5) &&& 7).setWidth 3
    securityextn := flagBit typer 10
    mbis := flagBit typer 16
    lpis := flagBit typer 17
    numLpis := ((typer >>> 11) &&& 0x1F).setWidth 5
    a3v := flagBit typer 11
    no1n := flagBit typer 25 }

/-- The fields of `GICD_IIDR` -/
def GicdContext.withIidr (c : GicdContext) (id : BitVec 32) : GicdContext :=
  { c with
    implementer := (id &&& 0xFFF).setWidth 12
    revision := ((id >>> 12) &&& 0xF).setWidth 4
    variant := ((id >>> 16) &&& 0xF).setWidth 4
    productid := ((id >>> 24) &&& 0xFF).setWidth 8 }

/-- The fields of `GICD_CTLR` -/
def GicdContext.withCtlr (c : GicdContext) (ctrl : BitVec 32) : GicdContext :=
  { c with
    ds := flagBit ctrl 6
    enableGrp0 := flagBit ctrl 0
    enableGrp1 := flagBit ctrl 1
    are := flagBit ctrl 4
    e1nwf := flagBit ctrl 7 }

/-- The value for `GICD_CTLR` -/
def GicdContext.ctrl (c : GicdContext) : BitVec 32 :=
  ((BitVec.ofBool c.enableGrp0).setWidth 32 <<< 0) |||
    ((BitVec.ofBool c.enableGrp1).setWidth 32 <<< 1) |||
    ((BitVec.ofBool c.are).setWidth 32 <<< 4)

def updateGicd (f : GicdContext → GicdContext) : GicM Unit :=
  modify fun s => { s with gicd := f s.gicd }

/-- The loop of `gicd_init` over the registers of the SPIs, `n` more from `i` on. -/
def gicdQuiesce (B : GicBoard) : Nat → Nat → GicM Unit
  | 0, _ => pure ()
  | n + 1, i => do
    write32 (icpendr gicdBase + 4 * (i + 1)) 0xFFFFFFFF
    write32 (icactiver gicdBase + 4 * (i + 1)) 0xFFFFFFFF
    write32 (icenabler gicdBase + 4 * (i + 1)) 0xFFFFFFFF
    gicdWaitRwp B
    gicdQuiesce B n (i + 1)

/-- `gicd_init` -/
def gicdInit (B : GicBoard) : GicM Int := do
  updateGicd fun c => { c with gicdRegs := gicdBase }
  let typer ← read32 B (gicdBase + 4)
  updateGicd fun c => c.withTyper typer
  let id ← read32 B (gicdBase + 8)
  updateGicd fun c => c.withIidr id
  updateGicd fun c =>
    { c with enableGrp0 := false, enableGrp1 := true, are := false, e1nwf := false }
  let s ← get
  write32 gicdBase s.gicd.ctrl
  gicdWaitRwp B
  let ctrl ← read32 B gicdBase
  updateGicd fun c => c.withCtlr ctrl
  let s ← get
  gicdQuiesce B s.gicd.itlinesnumber.toNat 0
  isb
  return 0

/-- `gicv3_init`; what `irq_enable` does to the CPU is left out. -/
def gicv3Init (B : GicBoard) : GicM Int := do
  let _ ← gicdInit B
  return 0

/-! ## The redistributors -/

/-- The fields of `GICR_TYPER`; `direct_lpis` is read from the bit of `plpis`. -/
def GicrContext.withTyper (c : GicrContext) (typer : BitVec 64) : GicrContext :=
  { c with
    plpis := flagBit typer 7
    vlpis := flagBit typer 6
    directLpis := flagBit typer 7
    last := flagBit typer 4
    dpgs := flagBit typer 12
    processorNumber := ((typer >>> 8) &&& 0xFFFF).setWidth 16
    commonLpiAff := ((typer >>> 32) &&& 0xFFFFFFFF).setWidth 2
    affinity := ((typer >>> 32) &&& 0xFFFFFFFF).setWidth 32
    reserved2 := ((typer >>> 55) &&& 0x1FF).setWidth 9 }

def updateGicr (k : Nat) (f : GicrContext → GicrContext) : GicM Unit :=
  modify fun s => { s with gicr := Function.update s.gicr k (f (s.gicr k)) }

/-- `&gicr_regs->waker` -/
def gicrWaker (gicr : Nat) : Nat := gicr + 0x14

/-- `GICR_WAKER_CHILDRENASLEEP` is still set. -/
def gicrAsleep (B : GicBoard) (k : Nat) : GicM Bool := do
  let s ← get
  let waker ← read32 B (gicrWaker (s.gicr k).gicrRegs)
  return waker &&& (1#32 <<< 2) != 0

/-- The part of `gicr_init` that wakes the redistributor. -/
def gicrWake (B : GicBoard) (k : Nat) : GicM Unit := do
  let s ← get
  let waker ← read32 B (gicrWaker (s.gicr k).gicrRegs)
  if waker &&& (1#32 <<< 1) != 0 then
    write32 (gicrWaker (s.gicr k).gicrRegs) (waker &&& ~~~(1#32 <<< 1))
    isb
    pollWhile (gicrAsleep B k) B.fuel
  else pure ()

/-- `GICR_BASE + GICR_STRIDE * cpu_id`; the product is one of `uint32_t`. -/
def gicrFrame (cpuId : BitVec 32) : Nat := gicrBase + (BitVec.ofNat 32 gicrStride * cpuId).toNat

/-- `gicr_init(&gicr_ctxs[k], cpu_id)` on CPU `cpu` -/
def gicrInit (B : GicBoard) (cpu k : Nat) (cpuId : BitVec 32) : GicM Int := do
  updateGicr k fun c =>
    { c with gicrRegs := gicrFrame cpuId, gicrSgiRegs := gicrFrame cpuId + 0x10000 }
  let s ← get
  let typer ← read32 B ((s.gicr k).gicrRegs + 8)
  updateGicr k fun c => c.withTyper (typer.setWidth 64)
  updateGicr k fun c =>
    { c with cpuId := cpuId, enableLpi := false, dpg0 := false, dpg1s := false, dpg1ns := false }
  gicrWake B k
  let s ← get
  write32 (gicrCtlr (s.gicr k).gicrRegs) 0
  gicrWaitRwp B cpu
  write32 (icpendr (s.gicr k).gicrSgiRegs) 0xFFFFFFFF
  write32 (icactiver (s.gicr k).gicrSgiRegs) 0xFFFFFFFF
  write32 (icenabler (s.gicr k).gicrSgiRegs) 0xFFFFFFFF
  gicrWaitRwp B cpu
  return 0

/-! ## One CPU after the other -/

/-- A `run_once` on `gicd_init_once` that no other CPU runs into. -/
def OnceProg.runAlone (func : GicM Int) : OnceProg → GicM Int :=
  OnceProg.alone GicOf.once (fun v s => { s with once := v }) func

/-- The system registers that `plat_gicv3_init` programs. -/
def IccRegs.enabled (r : IccRegs) : IccRegs :=
  { sreEl2 := (1 <<< 0) ||| (1 <<< 1) ||| (1 <<< 2) ||| (1 <<< 3)
    bpr1El1 := 7
    pmrEl1 := 0xFF
    -- `ctlr` is a `uint32_t`
    ctlrEl1 :=
      (r.ctlrEl1.setWidth 32 &&& ~~~((1#32 <<< 1) ||| (1#32 <<< 0) ||| (1#32 <<< 6))).setWidth 64
    igrpen1El1 := 1 }

/-- `plat_gicv3_init` on CPU `cpu` -/
def platGicv3Init (B : GicBoard) (cpu : Nat) : GicM Int := do
  let ret ← OnceProg.runAlone (gicv3Init B) .runOnce
  if ret < 0 then throw .panic
  let k ← getThisGicr B cpu
  let s ← get
  let ret ← gicrInit B cpu k (s.gicr k).cpuId
  if ret < 0 then return ret
  modify fun s => { s with icc := Function.update s.icc cpu (s.icc cpu).enabled }
  return 0

/-- The CPUs run `plat_gicv3_init` one after the other. -/
def bringUp (B : GicBoard) : List Nat → GicM Unit
  | [] => pure ()
  | cpu :: cpus => do
    let _ ← platGicv3Init B cpu
    bringUp B cpus

/-! ## What bring-up leaves -/

/-- The write-pending bits and the sleep bits of the redistributors clear within `fuel` reads. -/
structure GicBoard.Boots (B : GicBoard) : Prop where
  settles : B.Settles
  wakes : ∀ c n, ∃ k, k < B.fuel ∧ B.device (gicrWaker (gicrBase + gicrStride * c)) (n + k) &&&
    (1#32 <<< 2) = 0

/-- Every CPU number is still zero, the CPUs that are done have the first redistributor, the first
of them set the flag, and with it the distributor is set up. -/
structure BootInv (done : List Nat) (s : Gic) : Prop where
  cpuId : ∀ j, (s.gicr j).cpuId = 0
  regs : ∀ j ∈ done, (s.gicr j).gicrRegs = gicrBase ∧ (s.gicr j).gicrSgiRegs = gicrBase + 0x10000
  once : done ≠ [] → s.once ≠ 0
  gicd : s.once ≠ 0 → s.gicd.gicdRegs = gicdBase

variable {B : GicBoard} {cpu : Nat} {done : List Nat} {s s' : Gic}

/-- Reads, writes and polls keep what is said of the contexts. -/
def OfContexts (P : Gic → Prop) : Prop :=
  ∀ s regs reads, P s → P { s with regs := regs, reads := reads }

/-- Reads and polls keep what is said of the contexts and the registers. -/
def OfRegisters (P : Gic → Prop) : Prop := ∀ s reads, P s → P { s with reads := reads }

theorem OfContexts.ofRegisters {P : Gic → Prop} (hP : OfContexts P) : OfRegisters P :=
  fun s reads hs => hP s s.regs reads hs

theorem read32_ends {P : Gic → Prop} (hP : OfRegisters P) (a : Nat) :
    Ends B.Boots P (read32 B a) fun _ => P := by
  intro s hs
  by_cases ha : DeviceReg a
  · exact .inl ⟨_, _, read32_device ha, hP s _ hs⟩
  · exact .inl ⟨_, _, read32_run ha, hs⟩

theorem write32_ends {P : Gic → Prop} (hP : OfContexts P) (a : Nat) (v : BitVec 32) :
    Ends B.Boots P (write32 a v) fun _ => P :=
  Ends.modify fun s hs => hP s _ s.reads hs

/-- A poll returns, or the board does not boot. -/
theorem poll_ends {P : Gic → Prop} (hP : OfRegisters P) {x : GicM Unit} {a : Nat} {m : BitVec 32}
    (hx : ∀ s, P s → ∀ u s', x s = .ok u s' ↔
      ∃ k, pollCount (B.device a) m B.fuel (s.reads a) = some k ∧
      s' = { s with reads := Function.update s.reads a k })
    (hclears : B.Boots → ∀ n, ∃ k, k < B.fuel ∧ B.device a (n + k) &&& m = 0) :
      Ends B.Boots P x fun _ => P := by
  intro s hs
  cases h : x s with
  | ok u t =>
    obtain ⟨k, -, rfl⟩ := (hx s hs u t).mp h
    exact .inl ⟨u, _, rfl, hP s _ hs⟩
  | error e t =>
    refine .inr ⟨fun hB => ?_, e, t, rfl⟩
    obtain ⟨k, hk, hd⟩ := hclears hB (s.reads a)
    obtain ⟨l, hl⟩ := pollCount_some hk hd
    have hok := (hx s hs () _).mpr ⟨l, hl, rfl⟩
    rw [h] at hok
    cases hok

theorem gicdWaitRwp_ends {P : Gic → Prop} (hP : OfContexts P)
    (hregs : ∀ s, P s → s.gicd.gicdRegs = gicdBase) :
    Ends B.Boots P (gicdWaitRwp B) fun _ => P :=
  poll_ends hP.ofRegisters (fun s hs _ _ => gicdWaitRwp_ok_iff (hregs s hs)) fun hB => hB.settles.1

theorem gicrWaitRwp_ends {P : Gic → Prop} (hP : OfRegisters P) (hcpu : cpu < B.nrCpu)
    (hregs : ∀ s, P s → (s.gicr cpu).gicrRegs = gicrBase) :
      Ends B.Boots P (gicrWaitRwp B cpu) fun _ => P := by
  refine poll_ends (a := gicrCtlr gicrBase) (m := 1#32 <<< 3) hP (fun s hs u s' => ?_) fun hB =>
    hB.settles.2 0
  refine (gicrWaitRwp_ok_iff (c := 0) hcpu (hregs s hs)).trans ?_
  rw [hregs s hs]

theorem gicrWake_ends {P : Gic → Prop} (hP : OfContexts P) (k : Nat)
    (hregs : ∀ s, P s → (s.gicr k).gicrRegs = gicrBase) : Ends B.Boots P (gicrWake B k) fun _ =>
      P := by
  unfold gicrWake
  refine (Ends.get (Q := fun _ => P) fun _ hs => hs).bind fun s =>
    (read32_ends hP.ofRegisters _).bind fun waker => ?_
  refine Ends.ite (fun _ => ?_) fun _ => Ends.pure fun _ hs => hs
  refine (write32_ends hP _ _).bind fun _ => ?_
  refine poll_ends (a := gicrWaker gicrBase) (m := 1#32 <<< 2) hP.ofRegisters
    (fun s hs u s' => ?_) fun hB => hB.wakes 0
  refine pollWhile_ok_iff fun reads => ?_
  unfold gicrAsleep
  rw [bind_get, hregs s hs, bind_run (read32_device (by decide))]
  rfl

/-! ### The distributor -/

/-- What `gicd_init` keeps: the redistributors' contexts and the flag. -/
def Rest (gicr : Nat → GicrContext) (once : Int) (s : Gic) : Prop := s.gicr = gicr ∧ s.once = once

/-- The same with the address of the distributor. -/
def RestMapped (gicr : Nat → GicrContext) (once : Int) (s : Gic) : Prop :=
  Rest gicr once s ∧ s.gicd.gicdRegs = gicdBase

theorem restMapped_ofContexts (gicr : Nat → GicrContext) (once : Int) :
    OfContexts (RestMapped gicr once) :=
  fun _ _ _ hs => hs

theorem gicdQuiesce_ends (gicr : Nat → GicrContext) (once : Int) (n i : Nat) :
    Ends B.Boots (RestMapped gicr once) (gicdQuiesce B n i) fun _ => RestMapped gicr once := by
  have hP := restMapped_ofContexts gicr once
  induction n generalizing i with
  | zero => exact Ends.pure fun _ hs => hs
  | succ n ih =>
    refine (write32_ends hP _ _).bind fun _ => (write32_ends hP _ _).bind fun _ =>
      (write32_ends hP _ _).bind fun _ => ?_
    exact (gicdWaitRwp_ends hP fun _ hs => hs.2).bind fun _ => ih (i + 1)

theorem updateGicd_ends (gicr : Nat → GicrContext) (once : Int) {f : GicdContext → GicdContext}
    (hf : ∀ c, (f c).gicdRegs = c.gicdRegs) :
    Ends B.Boots (RestMapped gicr once) (updateGicd f) fun _ => RestMapped gicr once :=
  Ends.modify fun s hs => ⟨hs.1, (hf s.gicd).trans hs.2⟩

theorem gicdInit_ends (gicr : Nat → GicrContext) (once : Int) :
    Ends B.Boots (Rest gicr once) (gicdInit B) fun r s => r = 0 ∧ RestMapped gicr once s := by
  have hP := restMapped_ofContexts gicr once
  have hfirst : Ends B.Boots (Rest gicr once) (updateGicd fun c =>
    { c with gicdRegs := gicdBase }) fun _ =>
      RestMapped gicr once := Ends.modify fun _ hs => ⟨hs, rfl⟩
  unfold gicdInit
  refine hfirst.bind fun _ => (read32_ends hP.ofRegisters _).bind fun typer => ?_
  refine (updateGicd_ends gicr once (f := fun c => c.withTyper typer) fun _ => rfl).bind fun _ => ?_
  refine (read32_ends hP.ofRegisters _).bind fun id => ?_
  refine (updateGicd_ends gicr once (f := fun c => c.withIidr id) fun _ => rfl).bind fun _ => ?_
  refine Ends.bind (updateGicd_ends gicr once ?_) fun _ => ?_
  · intro c
    rfl
  refine (Ends.get (Q := fun _ => RestMapped gicr once) fun _ hs => hs).bind fun _ => ?_
  refine (write32_ends hP _ _).bind fun _ => (gicdWaitRwp_ends hP fun _ hs => hs.2).bind fun _ => ?_
  refine (read32_ends hP.ofRegisters _).bind fun ctrl => ?_
  refine (updateGicd_ends gicr once (f := fun c => c.withCtlr ctrl) fun _ => rfl).bind fun _ => ?_
  refine (Ends.get (Q := fun _ => RestMapped gicr once) fun _ hs => hs).bind fun _ => ?_
  refine (gicdQuiesce_ends gicr once _ 0).bind fun _ => ?_
  exact Ends.pure fun _ hs => ⟨rfl, hs⟩

theorem gicv3Init_ends (gicr : Nat → GicrContext) (once : Int) :
    Ends B.Boots (Rest gicr once) (gicv3Init B) fun r s => r = 0 ∧ RestMapped gicr once s :=
  (gicdInit_ends gicr once).bind fun _ => Ends.pure fun _ hs => ⟨rfl, hs.2⟩

/-! ### A CPU -/

/-- After `run_once` the distributor is mapped and its flag set. -/
theorem runOnce_ends (done : List Nat) :
    Ends B.Boots (BootInv done) (OnceProg.runAlone (gicv3Init B) .runOnce) fun r s =>
      r = 0 ∧ BootInv done s ∧ s.once ≠ 0 := by
  intro s hs
  unfold OnceProg.runAlone
  by_cases honce : s.once = 0
  · rw [OnceProg.alone_first honce]
    rcases gicv3Init_ends (B := B) s.gicr s.once s
      ⟨rfl, rfl⟩ with ⟨r, t, hrun, rfl, hrest⟩ | ⟨hB, e, t, hrun⟩
    · left
      refine ⟨0, _, OnceProg.alone_success hrun, rfl, ⟨?_, ?_, fun _ => Int.one_ne_zero, fun _ =>
        hrest.2⟩, Int.one_ne_zero⟩
      · show ∀ j, (t.gicr j).cpuId = 0
        rw [hrest.1.1]
        exact hs.cpuId
      · show ∀ j ∈ done, (t.gicr j).gicrRegs = gicrBase ∧
          (t.gicr j).gicrSgiRegs = gicrBase + 0x10000
        rw [hrest.1.1]
        exact hs.regs
    · exact .inr ⟨hB, e, t, bind_fault hrun⟩
  · exact .inl ⟨0, s, OnceProg.alone_again honce, rfl, hs, honce⟩

theorem bootInv_ofContexts (done : List Nat) : OfContexts (BootInv done) :=
  fun _ _ _ hs => ⟨hs.cpuId, hs.regs, hs.once, hs.gicd⟩

/-- A new context for `k` with number zero, and with the first redistributor if `k` is done then. -/
theorem BootInv.update {done' : List Nat} (hs : BootInv done s) {k : Nat} {c : GicrContext}
    (hcpuId : c.cpuId = 0)
    (hregs : k ∈ done' → c.gicrRegs = gicrBase ∧ c.gicrSgiRegs = gicrBase + 0x10000)
    (hdone : ∀ j ∈ done', j ≠ k → j ∈ done) (honce : done' ≠ [] → s.once ≠ 0) :
    BootInv done' { s with gicr := Function.update s.gicr k c } where
  cpuId := (Function.forall_update_iff s.gicr fun _ c => c.cpuId = 0).mpr
    ⟨hcpuId, fun j _ => hs.cpuId j⟩
  regs := (Function.forall_update_iff s.gicr fun j c =>
    j ∈ done' → c.gicrRegs = gicrBase ∧ c.gicrSgiRegs = gicrBase + 0x10000).mpr
      ⟨hregs, fun j hne hj => hs.regs j (hdone j hj hne)⟩
  once := honce
  gicd := hs.gicd

/-- A change of a context that leaves its number zero and its frames as they are. -/
theorem updateGicr_ends (done : List Nat) (k : Nat) {f : GicrContext → GicrContext}
    (hf : ∀ c, c.cpuId = 0 → (f c).cpuId = 0 ∧ (f c).gicrRegs = c.gicrRegs ∧
      (f c).gicrSgiRegs = c.gicrSgiRegs) :
    Ends B.Boots (BootInv done) (updateGicr k f) fun _ => BootInv done := by
  refine Ends.modify fun s hs => ?_
  obtain ⟨hcpuId, hregs, hsgi⟩ := hf _ (hs.cpuId k)
  refine hs.update hcpuId (fun hk => ?_) (fun j hj _ => hj) hs.once
  rw [hregs, hsgi]
  exact hs.regs k hk

/-- `gicr_init` with CPU number zero gives the context the first redistributor. -/
theorem gicrInit_ends (hcpu : cpu < B.nrCpu) :
    Ends B.Boots (fun s => BootInv done s ∧ s.once ≠ 0) (gicrInit B cpu cpu 0) fun r s =>
      r = 0 ∧ BootInv (cpu :: done) s := by
  have hP := bootInv_ofContexts (cpu :: done)
  have hregs : ∀ s, BootInv (cpu :: done) s → (s.gicr cpu).gicrRegs = gicrBase := fun s hs =>
    (hs.regs cpu List.mem_cons_self).1
  have hget : Ends B.Boots (BootInv (cpu :: done)) (get : GicM Gic) fun _ =>
      BootInv (cpu :: done) :=
    Ends.get fun _ hs => hs
  have hframe : gicrFrame 0#32 = gicrBase := by decide
  have hframes : Ends B.Boots (fun s => BootInv done s ∧ s.once ≠ 0) (updateGicr cpu fun c =>
      { c with gicrRegs := gicrFrame 0, gicrSgiRegs := gicrFrame 0 + 0x10000 }) fun _ =>
        BootInv (cpu :: done) := by
    refine Ends.modify fun s hs => hs.1.update ?_ (fun _ => ?_) (fun j hj hne => ?_) fun _ => hs.2
    · exact hs.1.cpuId cpu
    · exact ⟨hframe, congrArg (· + 0x10000) hframe⟩
    · exact (List.mem_cons.mp hj).resolve_left hne
  unfold gicrInit
  refine hframes.bind fun _ => hget.bind fun s => (read32_ends hP.ofRegisters _).bind fun typer =>
    ?_
  refine (updateGicr_ends _ cpu (f := fun c => c.withTyper (typer.setWidth 64)) fun _ h =>
    ⟨h, rfl, rfl⟩).bind fun _ => ?_
  refine Ends.bind (updateGicr_ends _ cpu ?_) fun _ => ?_
  · intro c _
    exact ⟨rfl, rfl, rfl⟩
  refine (gicrWake_ends hP cpu hregs).bind fun _ => hget.bind fun s => ?_
  refine (write32_ends hP _ _).bind fun _ =>
    (gicrWaitRwp_ends hP.ofRegisters hcpu hregs).bind fun _ => ?_
  refine (write32_ends hP _ _).bind fun _ => (write32_ends hP _ _).bind fun _ =>
    (write32_ends hP _ _).bind fun _ => ?_
  exact (gicrWaitRwp_ends hP.ofRegisters hcpu hregs).bind fun _ => Ends.pure fun _ hs => ⟨rfl, hs⟩

/-- **`plat_gicv3_init`** gives the CPU's context the first redistributor, whichever CPU it is. -/
theorem platGicv3Init_ends (hcpu : cpu < B.nrCpu) :
    Ends B.Boots (BootInv done) (platGicv3Init B cpu) fun _ s => BootInv (cpu :: done) s := by
  intro s hs
  unfold platGicv3Init
  rcases runOnce_ends (B := B) done s hs with ⟨_, s₁, hrun₁, rfl, hboot₁, honce₁⟩ | ⟨hB, e, t, hrun⟩
  · rw [bind_run hrun₁]
    show _ ∨ _
    have hcpuId : (s₁.gicr cpu).cpuId = 0 := hboot₁.cpuId cpu
    rcases gicrInit_ends (B := B) hcpu s₁ ⟨hboot₁, honce₁⟩ with ⟨_, s₂, hrun₂, rfl, hboot₂⟩ | ⟨hB,
      e, t, hrun⟩
    · left
      refine ⟨0, { s₂ with icc := Function.update s₂.icc cpu (s₂.icc cpu).enabled }, ?_,
        ⟨hboot₂.cpuId, hboot₂.regs, hboot₂.once, hboot₂.gicd⟩⟩
      rw [if_neg (by decide)]
      show (getThisGicr B cpu >>= _) s₁ = _
      rw [bind_run (getThisGicr_run hcpu), bind_get, hcpuId, bind_run hrun₂, if_neg (by decide)]
      rfl
    · right
      refine ⟨hB, e, t, ?_⟩
      rw [if_neg (by decide)]
      show (getThisGicr B cpu >>= _) s₁ = _
      rw [bind_run (getThisGicr_run hcpu), bind_get, hcpuId]
      exact bind_fault hrun
  · exact .inr ⟨hB, e, t, bind_fault hrun⟩

theorem bringUp_ends (cpus : List Nat) (hcpus : ∀ c ∈ cpus, c < B.nrCpu) (done : List Nat) :
    Ends B.Boots (BootInv done) (bringUp B cpus) fun _ s => BootInv (cpus.reverse ++ done) s := by
  induction cpus generalizing done with
  | nil => exact Ends.pure fun _ hs => hs
  | cons cpu cpus ih =>
    refine (platGicv3Init_ends (hcpus cpu List.mem_cons_self)).bind fun _ => ?_
    rw [List.reverse_cons, List.append_assoc]
    exact ih (fun c hc => hcpus c (List.mem_cons_of_mem _ hc)) (cpu :: done)

/-! ## Whose redistributor -/

/-- CPU `k` has its own number and its own frames, and its SGI and PPI operations touch only its SGI
frame. -/
def OwnsRedistributor (B : GicBoard) (s : Gic) (k : Nat) : Prop :=
  (s.gicr k).cpuId = BitVec.ofNat 32 k ∧ (s.gicr k).gicrRegs = gicrBase + gicrStride * k ∧
  (s.gicr k).gicrSgiRegs = gicrBase + gicrStride * k + 0x10000 ∧
  ∀ i p op r t, i ≤ 31 → (s.ctxs p).intid.toNat = i →
  intrOp B k (irqClass i) op (some p) s = .ok r t →
    ∀ a, t.regs a ≠ s.regs a →
      gicrBase + gicrStride * k + 0x10000 ≤ a ∧ a < gicrBase + gicrStride * k + 0x20000

/-- A zeroed `.gic_context` section, before anyone ran `plat_gicv3_init`. -/
structure Gic.Cold (s : Gic) : Prop where
  gicd : s.gicd = .zero
  gicr : ∀ k, s.gicr k = .zero
  ctxs : ∀ p, s.ctxs p = .zero
  once : s.once = 0

theorem Gic.Cold.bootInv (h : s.Cold) : BootInv [] s where
  cpuId j := by
    rw [h.gicr]
    rfl
  regs j hj := by cases hj
  once hne := absurd rfl hne
  gicd hne := absurd h.once hne

/-- An SGI or PPI operation changes words of the SGI frame only. -/
theorem intrOp_frame {i : Nat} {p : IrqRef} {op : IntrOp} {r : Int} (hm : s.Mapped B cpu)
    (hi : i ≤ 31) (hp : (s.ctxs p).intid.toNat = i)
    (h : intrOp B cpu (irqClass i) op (some p) s = .ok r s') {a : Nat} (ha : s'.regs a ≠ s.regs a) :
    (s.gicr cpu).gicrSgiRegs ≤ a ∧ a < (s.gicr cpu).gicrSgiRegs + 0x10000 := by
  obtain ⟨-, _, -, rfl⟩ := (intrOp_ok_iff hm hp (by omega) op).mp h
  have haddr : a = (s.field cpu (opField (irqClass i) op).1 i).addr := by
    by_contra hne
    exact ha (Function.update_of_ne hne _ _)
  obtain ⟨off, hoff, -, hlt⟩ :=
    (opField (irqClass i) op).1.addr_eq (s.frame cpu i) (i := i) (by omega)
  have hlt' := (opField (irqClass i) op).1.offset_lt
  have hframe : s.frame cpu i = (s.gicr cpu).gicrSgiRegs := if_pos (by omega)
  have : a = (s.gicr cpu).gicrSgiRegs + off := by
    rw [haddr, ← hframe]
    exact hoff
  omega

/-- **Each CPU drives its own redistributor** just when there is one CPU: in every order of
bring-up, CPU `k` has its own redistributor just when `k` is 0.  With a board that boots, bring-up
ends. -/
theorem cpus_own_redistributors_iff (B : GicBoard) {order : List Nat}
    (horder : order.Perm (List.range B.nrCpu)) {s : Gic} (h0 : s.Cold) :
    (B.Boots → ∃ s', bringUp B order s = .ok () s') ∧
    ∀ s', bringUp B order s = .ok () s' →
      ((∀ k, k < B.nrCpu → OwnsRedistributor B s' k) ↔ B.nrCpu ≤ 1) ∧
      ∀ k, k < B.nrCpu → (OwnsRedistributor B s' k ↔ k = 0) := by
  have hends := bringUp_ends (B := B) order (fun c hc => List.mem_range.mp (horder.mem_iff.mp hc))
    []
  have hmem : ∀ k, k < B.nrCpu → k ∈ order.reverse ++ [] := by
    intro k hk
    rw [List.append_nil, List.mem_reverse]
    exact horder.mem_iff.mpr (List.mem_range.mpr hk)
  refine ⟨fun hB => ?_, fun s' hrun => ?_⟩
  · obtain ⟨_, s', hrun, -⟩ := hends.returns hB h0.bootInv
    exact ⟨s', hrun⟩
  have hboot := hends.of_ok h0.bootInv hrun
  have hown : ∀ k, k < B.nrCpu → (OwnsRedistributor B s' k ↔ k = 0) := by
    intro k hk
    obtain ⟨hregs, hsgi⟩ := hboot.regs k (hmem k hk)
    constructor
    · rintro ⟨-, hown, -⟩
      rw [hregs] at hown
      unfold gicrStride at hown
      omega
    · rintro rfl
      have hgicd := hboot.gicd (hboot.once (List.ne_nil_of_mem (hmem 0 hk)))
      refine ⟨hboot.cpuId 0, hregs, hsgi, fun i p op r t hi hp hop a ha => ?_⟩
      have hframe := intrOp_frame ⟨hk, hgicd, 0, hregs, hsgi⟩ hi hp hop ha
      rw [hsgi] at hframe
      omega
  refine ⟨⟨fun hall => ?_, fun hone k hk => ?_⟩, hown⟩
  · by_contra hmany
    exact absurd ((hown 1 (by omega)).mp (hall 1 (by omega))) (by decide)
  · exact (hown k hk).mpr (by omega)

/-- A machine that has just been switched on. -/
def coldGic : Gic where
  regs _ := 0
  reads _ := 0
  gicd := .zero
  gicr _ := .zero
  ctxs _ := .zero
  icc _ := ⟨0, 0, 0, 0, 0⟩
  once := 0

theorem coldGic_cold : coldGic.Cold := ⟨rfl, fun _ => rfl, fun _ => rfl, rfl⟩

/-- Boards whose device registers read as zero. -/
def quietBoard (n : Nat) : GicBoard := ⟨n, fun _ _ => 0, 1⟩

theorem quietBoard_boots (n : Nat) : (quietBoard n).Boots := by
  have hclear : ∀ a k m, (quietBoard n).device a k &&& m = 0 := fun _ _ _ => BitVec.zero_and
  exact ⟨⟨fun _ => ⟨0, Nat.one_pos, hclear _ _ _⟩, fun _ _ => ⟨0, Nat.one_pos, hclear _ _ _⟩⟩,
    fun _ _ => ⟨0, Nat.one_pos, hclear _ _ _⟩⟩

theorem cpus_own_redistributors_example :
    [0].Perm (List.range (quietBoard 1).nrCpu) ∧ coldGic.Cold ∧
    ∃ s', bringUp (quietBoard 1) [0] coldGic = .ok () s' ∧
    OwnsRedistributor (quietBoard 1) s' 0 := by
  have horder : [0].Perm (List.range (quietBoard 1).nrCpu) := List.Perm.refl _
  obtain ⟨hreturns, hown⟩ := cpus_own_redistributors_iff (quietBoard 1) horder coldGic_cold
  obtain ⟨s', hrun⟩ := hreturns (quietBoard_boots 1)
  exact ⟨horder, coldGic_cold, s', hrun, (hown s' hrun).1.mpr (Nat.le_refl 1) 0 Nat.one_pos⟩

/-- With two CPUs the second one ends up on the first redistributor, with CPU number 0. -/
theorem second_cpu_on_first_redistributor :
    ∃ s', bringUp (quietBoard 2) [0, 1] coldGic = .ok () s' ∧ (s'.gicr 1).cpuId = 0 ∧
      (s'.gicr 1).gicrRegs = gicrBase ∧
      ¬ ∀ k, k < 2 → OwnsRedistributor (quietBoard 2) s' k := by
  have hends := bringUp_ends (B := quietBoard 2) [0, 1] (by decide) []
  obtain ⟨_, s', hrun, hboot⟩ := hends.returns (quietBoard_boots 2) coldGic_cold.bootInv
  have hregs := (hboot.regs 1 (by decide)).1
  refine ⟨s', hrun, hboot.cpuId 1, hregs, fun hall => ?_⟩
  have hown := (hall 1 (by decide)).2.1
  rw [hregs] at hown
  exact absurd hown (by decide)

end ZHyper
