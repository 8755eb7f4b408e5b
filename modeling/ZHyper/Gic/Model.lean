import Mathlib.Data.BitVec
import ZHyper.Lib.Fields
import ZHyper.Lib.Faulting

/-!
# The GICv3 driver: registers and contexts

The register frames of the distributor and of the redistributors are words by physical address.  A
write to a set or a clear register (offsets `0x100` to `0x3ff`) sets or clears the written bits of
the word that the two share, kept at the set register; the other registers take what is written.
The control and identification registers answer with what the device presents: the n-th read of such
a register gives the n-th value of `GicBoard.device`.

The code is the same whether the words are kept as they are (`Gic`) or with a log of the writes
(`LoggedGic`), which no function reads.

The contexts in the `.gic_context` section are records; a pointer to a `struct irq_context` is the
array and the index it points into (`IrqRef`), and `none` is `NULL`.  `printf` and the barriers are
left out.
-/

namespace ZHyper

open LowLevel

/-! ## Contexts -/

/-- The table that `ops` points to: `g_sgi_intr_ops`, `g_ppi_intr_ops` or `g_spi_intr_ops`. -/
inductive IrqClass where
  | sgi
  | ppi
  | spi
deriving DecidableEq

/-- `struct irq_context`, without the fields that no function reads. -/
structure IrqContext where
  intid : BitVec 10
  group : BitVec 1
  trigger : BitVec 1
  priority : BitVec 8
  /-- The address of the handler, `0` for `NULL`. -/
  handle : Nat
  arg : Nat
  ops : Option IrqClass
deriving DecidableEq

/-- `memset(ctx, 0, sizeof(*ctx))` -/
def IrqContext.zero : IrqContext := ⟨0, 0, 0, 0, 0, 0, none⟩

/-- `struct gicr_context` without its `sgi_ctxs` and `ppi_ctxs`, which are in `Gic`. -/
structure GicrContext where
  cpuId : BitVec 32
  enableLpi : Bool
  dpg0 : Bool
  dpg1s : Bool
  dpg1ns : Bool
  plpis : Bool
  vlpis : Bool
  directLpis : Bool
  last : Bool
  dpgs : Bool
  processorNumber : BitVec 16
  commonLpiAff : BitVec 2
  affinity : BitVec 32
  reserved2 : BitVec 9
  gicrRegs : Nat
  gicrSgiRegs : Nat
deriving DecidableEq

def GicrContext.zero : GicrContext :=
  ⟨0, false, false, false, false, false, false, false, false, false, 0, 0, 0, 0, 0, 0⟩

/-- `struct gicd_context` without its `gicr_ctxs` and `spi_ctxs`, which are in `Gic`. -/
structure GicdContext where
  spiCount : BitVec 10
  enableGrp0 : Bool
  enableGrp1 : Bool
  are : Bool
  e1nwf : Bool
  ds : Bool
  itlinesnumber : BitVec 5
  cpunumber : BitVec 3
  securityextn : Bool
  mbis : Bool
  lpis : Bool
  numLpis : BitVec 5
  a3v : Bool
  no1n : Bool
  implementer : BitVec 12
  revision : BitVec 4
  variant : BitVec 4
  productid : BitVec 8
  gicdRegs : Nat
deriving DecidableEq

def GicdContext.zero : GicdContext :=
  ⟨0, false, false, false, false, false, 0, 0, false, false, false, 0, false, false, 0, 0, 0, 0, 0⟩

/-- The `ICC_*` registers of a CPU. -/
structure IccRegs where
  sreEl2 : BitVec 64
  bpr1El1 : BitVec 64
  pmrEl1 : BitVec 64
  ctlrEl1 : BitVec 64
  igrpen1El1 : BitVec 64
deriving DecidableEq

/-- A pointer into `sgi_ctxs` or `ppi_ctxs` of a CPU, or into `spi_ctxs`. -/
inductive IrqRef where
  | sgi (cpu index : Nat)
  | ppi (cpu index : Nat)
  | spi (index : Nat)
deriving DecidableEq

/-! ## Registers -/

/-- `GICD_BASE` -/
def gicdBase : Nat := 0x8000000

/-- `GICR_BASE` -/
def gicrBase : Nat := 0x80a0000

/-- `GICR_STRIDE` -/
def gicrStride : Nat := 0x20000

/-- The offset of an address in the frame of the distributor or in the SGI frame of a
redistributor. -/
def frameOffset (a : Nat) : Option Nat :=
  if gicdBase ≤ a ∧ a < gicdBase + 0x10000 then some (a - gicdBase)
  else if gicrBase ≤ a ∧ 0x10000 ≤ (a - gicrBase) % gicrStride then
    some ((a - gicrBase) % gicrStride - 0x10000)
  else none

/-- The registers after a write of `v` to `a`. -/
def written (r : Nat → BitVec 32) (a : Nat) (v : BitVec 32) : Nat → BitVec 32 :=
  match frameOffset a with
  | some off =>
    if 0x100 ≤ off ∧ off < 0x400 then
      if off / 0x80 % 2 = 0 then Function.update r a (r a ||| v)
      else Function.update r (a - 0x80) (r (a - 0x80) &&& ~~~v)
    else Function.update r a v
  | none => Function.update r a v

/-- How the words of the frames are kept. -/
class RegWords (ρ : Type) where
  word : ρ → Nat → BitVec 32
  write : ρ → Nat → BitVec 32 → ρ
  word_write : ∀ r a v, word (write r a v) = written (word r) a v

instance : RegWords (Nat → BitVec 32) where
  word r := r
  write := written
  word_write _ _ _ := rfl

/-- A call of `write32`. -/
structure RegWrite where
  addr : Nat
  value : BitVec 32
deriving DecidableEq

/-- The words, and the writes to them, oldest first. -/
structure LoggedWords where
  words : Nat → BitVec 32
  log : List RegWrite

instance : RegWords LoggedWords where
  word := LoggedWords.words
  write r a v := ⟨written r.words a v, r.log ++ [⟨a, v⟩]⟩
  word_write _ _ _ := rfl

/-- The registers, how often the device has been read, and the data of the driver. -/
structure GicOf (ρ : Type) where
  regs : ρ
  /-- How often a register of the device has been read. -/
  reads : Nat → Nat
  gicd : GicdContext
  gicr : Nat → GicrContext
  ctxs : IrqRef → IrqContext
  icc : Nat → IccRegs
  /-- `gicd_init_once.flag` -/
  once : Int

abbrev Gic := GicOf (Nat → BitVec 32)

abbrev LoggedGic := GicOf LoggedWords

/-- What stops the code: a panic, a `NULL` dereference, or a poll that does not end within the
bound. -/
inductive GicFault where
  | panic
  | nullDeref
  | endless
deriving DecidableEq

/-- `NR_CPU`, what the device presents, and how often a poll may read. -/
structure GicBoard where
  nrCpu : Nat
  device : Nat → Nat → BitVec 32
  fuel : Nat

abbrev GicOfM (ρ : Type) := EStateM GicFault (GicOf ρ)

abbrev GicM := GicOfM (Nat → BitVec 32)

def EINVAL : Int := 22

def ENOENT : Int := 2

/-! ## Register accesses -/

/-- The registers below `GICD_IGROUPR` and the first frame of a redistributor. -/
def DeviceReg (a : Nat) : Prop :=
  (gicdBase ≤ a ∧ a < gicdBase + 0x80) ∨ (gicrBase ≤ a ∧ (a - gicrBase) % gicrStride < 0x10000)

instance (a : Nat) : Decidable (DeviceReg a) := inferInstanceAs (Decidable (_ ∨ _))

section

variable {ρ : Type} [RegWords ρ]

def isb : GicOfM ρ Unit := pure ()

def read32 (B : GicBoard) (a : Nat) : GicOfM ρ (BitVec 32) := do
  let s ← get
  if DeviceReg a then
    modify fun s => { s with reads := Function.update s.reads a (s.reads a + 1) }
    return B.device a (s.reads a)
  else
    return RegWords.word s.regs a

def write32 (a : Nat) (v : BitVec 32) : GicOfM ρ Unit :=
  modify fun s => { s with regs := RegWords.write s.regs a v }

/-! ## The layout of the frames -/

/-- `&gicd_regs->statusr` -/
def gicdStatusr (gicd : Nat) : Nat := gicd + 0x10

/-- `&gicr_regs->ctlr` -/
def gicrCtlr (gicr : Nat) : Nat := gicr

-- The offsets below are those of both `gicv3_distributor_regs` and `gicv3_redistributor_sgi_regs`.
def igroupr (base : Nat) : Nat := base + 0x80
def isenabler (base : Nat) : Nat := base + 0x100
def icenabler (base : Nat) : Nat := base + 0x180
def icpendr (base : Nat) : Nat := base + 0x280
def icactiver (base : Nat) : Nat := base + 0x380
def ipriorityr (base : Nat) : Nat := base + 0x400
def icfgr (base : Nat) : Nat := base + 0xC00
def igrpmodr (base : Nat) : Nat := base + 0xD00

/-! ## Getting at the contexts -/

/-- `__get_this_gicr()` on CPU `cpu`, as an index of `gicr_ctxs`. -/
def getThisGicr (B : GicBoard) (cpu : Nat) : GicOfM ρ Nat :=
  if B.nrCpu ≤ cpu then throw .panic else pure cpu

/-- `*ctx` -/
def derefCtx : Option IrqRef → GicOfM ρ IrqContext
  | none => throw .nullDeref
  | some p => do
    let s ← get
    return s.ctxs p

/-- `gicd_ctx->gicd_regs` behind the check for `NULL`. -/
def gicdRegsChecked : GicOfM ρ Nat := do
  let s ← get
  if s.gicd.gicdRegs = 0 then throw .panic
  return s.gicd.gicdRegs

/-! ## Waiting for register writes -/

/-- `while (test) ;`, at most so many times. -/
def pollWhile (test : GicOfM ρ Bool) : Nat → GicOfM ρ Unit
  | 0 => throw .endless
  | n + 1 => do
    if ← test then pollWhile test n else pure ()

/-- `gicd_rwp` -/
def gicdRwp (B : GicBoard) : GicOfM ρ Bool := do
  let gicd ← gicdRegsChecked
  let status ← read32 B (gicdStatusr gicd)
  return status &&& (1#32 <<< 31) != 0

/-- `gicd_wait_rwp` -/
def gicdWaitRwp (B : GicBoard) : GicOfM ρ Unit := do
  let _ ← gicdRegsChecked
  isb
  pollWhile (gicdRwp B) B.fuel

/-- `gicr_rwp` -/
def gicrRwp (B : GicBoard) (k : Nat) : GicOfM ρ Bool := do
  let s ← get
  let ctlr ← read32 B (gicrCtlr (s.gicr k).gicrRegs)
  return ctlr &&& (1#32 <<< 3) != 0

/-- `gicr_wait_rwp` on CPU `cpu` -/
def gicrWaitRwp (B : GicBoard) (cpu : Nat) : GicOfM ρ Unit := do
  let k ← getThisGicr B cpu
  let s ← get
  if (s.gicr k).gicrRegs = 0 then throw .panic
  isb
  pollWhile (gicrRwp B k) B.fuel

end

/-! ## What a poll reads -/

/-- How often a device register has been read when a poll of it ends, from `n` reads on. -/
def pollCount (d : Nat → BitVec 32) (m : BitVec 32) : Nat → Nat → Option Nat
  | 0, _ => none
  | fuel + 1, n => if d n &&& m != 0 then pollCount d m fuel (n + 1) else some (n + 1)

section

variable {ρ : Type} {B : GicBoard} {s s' : GicOf ρ} {a : Nat} {m : BitVec 32}

/-- **A poll** of the device register `a` changes nothing but its read count. -/
theorem pollWhile_ok_iff {test : GicOfM ρ Bool}
    (htest : ∀ reads, test { s with reads := reads } =
      .ok (B.device a (reads a) &&& m != 0)
        { s with reads := Function.update reads a (reads a + 1) }) {n : Nat} {u : Unit} :
    pollWhile test n s = .ok u s' ↔
      ∃ k, pollCount (B.device a) m n (s.reads a) = some k ∧
        s' = { s with reads := Function.update s.reads a k } := by
  induction n generalizing s with
  | zero =>
    constructor
    · intro h
      cases h
    · rintro ⟨k, hk, -⟩
      cases hk
  | succ n ih =>
    have hrun := htest s.reads
    rw [pollWhile, bind_run hrun, pollCount]
    by_cases hbit : (B.device a (s.reads a) &&& m != 0) = true
    · rw [if_pos hbit, if_pos hbit]
      have ih :=
        ih (s := { s with reads := Function.update s.reads a (s.reads a + 1) }) fun reads =>
        htest reads
      apply ih.trans
      simp
    · rw [if_neg hbit, if_neg hbit]
      constructor
      · intro h
        cases h
        exact ⟨_, rfl, rfl⟩
      · rintro ⟨k, hk, rfl⟩
        cases hk
        rfl

theorem gicdRegsChecked_run (h : s.gicd.gicdRegs ≠ 0) :
    gicdRegsChecked s = .ok s.gicd.gicdRegs s := by
  unfold gicdRegsChecked
  rw [bind_get, if_neg h]
  rfl

theorem getThisGicr_run {cpu : Nat} (h : cpu < B.nrCpu) : getThisGicr B cpu s = .ok cpu s := by
  unfold getThisGicr
  rw [if_neg (Nat.not_le.mpr h)]
  rfl

variable [RegWords ρ]

theorem read32_word (ha : ¬ DeviceReg a) : read32 B a s = .ok (RegWords.word s.regs a) s := by
  unfold read32
  rw [bind_get, if_neg ha]
  rfl

theorem read32_device (ha : DeviceReg a) :
    read32 B a s = .ok (B.device a (s.reads a))
      { s with reads := Function.update s.reads a (s.reads a + 1) } := by
  unfold read32
  rw [bind_get, if_pos ha]
  rfl

theorem write32_word (a : Nat) (v : BitVec 32) :
    write32 a v s = .ok () { s with regs := RegWords.write s.regs a v } := rfl

theorem gicdWaitRwp_ok_iff (hregs : s.gicd.gicdRegs = gicdBase) {u : Unit} :
    gicdWaitRwp B s = .ok u s' ↔
      ∃ k, pollCount (B.device (gicdStatusr gicdBase)) (1#32 <<< 31) B.fuel
      (s.reads (gicdStatusr gicdBase)) = some k ∧
      s' = { s with reads := Function.update s.reads (gicdStatusr gicdBase) k } := by
  have hne : s.gicd.gicdRegs ≠ 0 := by
    rw [hregs]
    decide
  have hdevice : DeviceReg (gicdStatusr s.gicd.gicdRegs) := by
    rw [hregs]
    decide
  unfold gicdWaitRwp
  rw [bind_run (gicdRegsChecked_run hne), ← hregs]
  apply pollWhile_ok_iff
  intro reads
  unfold gicdRwp
  rw [bind_run (gicdRegsChecked_run (s := { s with reads := reads }) hne),
    bind_run (read32_device hdevice)]
  rfl

/-- The first frame of a redistributor. -/
theorem deviceReg_gicr (c off : Nat) (hoff : off < 0x10000) :
    DeviceReg (gicrBase + gicrStride * c + off) := by
  right
  unfold gicrBase gicrStride
  omega

theorem gicrWaitRwp_ok_iff {cpu c : Nat} (hcpu : cpu < B.nrCpu)
    (hregs : (s.gicr cpu).gicrRegs = gicrBase + gicrStride * c) {u : Unit} :
    gicrWaitRwp B cpu s = .ok u s' ↔
      ∃ k, pollCount (B.device (gicrCtlr (s.gicr cpu).gicrRegs)) (1#32 <<< 3) B.fuel
      (s.reads (gicrCtlr (s.gicr cpu).gicrRegs)) = some k ∧
      s' = { s with reads := Function.update s.reads (gicrCtlr (s.gicr cpu).gicrRegs) k } := by
  have hne : (s.gicr cpu).gicrRegs ≠ 0 := by
    rw [hregs]
    unfold gicrBase
    omega
  have hdevice : DeviceReg (gicrCtlr (s.gicr cpu).gicrRegs) := by
    unfold gicrCtlr
    rw [hregs]
    exact deviceReg_gicr c 0 (by decide)
  unfold gicrWaitRwp
  rw [bind_run (getThisGicr_run hcpu), bind_get, if_neg hne]
  apply pollWhile_ok_iff
  intro reads
  unfold gicrRwp
  rw [bind_get, bind_run (read32_device hdevice)]
  rfl

end

variable {B : GicBoard} {s : Gic} {a : Nat}

theorem read32_run (ha : ¬ DeviceReg a) : read32 B a s = .ok (s.regs a) s := read32_word ha

theorem write32_run (a : Nat) (v : BitVec 32) :
    write32 a v s = .ok () { s with regs := written s.regs a v } := rfl

end ZHyper
