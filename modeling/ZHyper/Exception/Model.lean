import ZHyper.Lib.Words
import ZHyper.Sched.Model

/-!
# `exception.S`: entering and leaving the exception handlers

The registers and instructions that `intr_save_regs` and `intr_restore_regs` use, and
the two macros as lists of instructions, line by line.  The frame they build on the
stack is a `struct aarch64_gpregs` (`loadGpregs`, `storeGpregs`).

On entry the hardware has put the interrupted PC and PSTATE into `ELR_EL2` and
`SPSR_EL2`; `eret` takes them from there.
-/

namespace ZHyper

open LowLevel LowLevel.Mem

structure Cpu where
  x : Fin 31 → UInt64
  sp : UInt64
  elrEl2 : UInt64
  spsrEl2 : UInt64
  mem : Mem

inductive Instr where
  /-- `sub sp, sp, #imm` -/
  | subSp (imm : UInt64)
  /-- `add sp, sp, #imm` -/
  | addSp (imm : UInt64)
  /-- `str xt, [sp, #off]` -/
  | str (t : Fin 31) (off : Nat)
  /-- `stp xt, xu, [sp, #off]` -/
  | stp (t u : Fin 31) (off : Nat)
  /-- `ldr xt, [sp, #off]` -/
  | ldr (t : Fin 31) (off : Nat)
  /-- `ldp xt, xu, [sp, #off]` -/
  | ldp (t u : Fin 31) (off : Nat)
  /-- `mov xt, sp` -/
  | movFromSp (t : Fin 31)
  /-- `mov sp, xt` -/
  | movToSp (t : Fin 31)
  /-- `mrs xt, ELR_EL2` -/
  | mrsElr (t : Fin 31)
  /-- `mrs xt, SPSR_EL2` -/
  | mrsSpsr (t : Fin 31)
  /-- `msr SPSR_EL2, xt` -/
  | msrSpsr (t : Fin 31)

def Cpu.setX (c : Cpu) (t : Fin 31) (v : UInt64) : Cpu := { c with x := Function.update c.x t v }

def Instr.exec (c : Cpu) : Instr → Cpu
  | .subSp imm => { c with sp := c.sp - imm }
  | .addSp imm => { c with sp := c.sp + imm }
  | .str t off => { c with mem := c.mem.storeAt c.sp off (c.x t) }
  | .stp t u off =>
    { c with mem := (c.mem.storeAt c.sp off (c.x t)).storeAt c.sp (off + 8) (c.x u) }
  | .ldr t off => c.setX t (c.mem.loadAt c.sp off)
  | .ldp t u off => (c.setX t (c.mem.loadAt c.sp off)).setX u (c.mem.loadAt c.sp (off + 8))
  | .movFromSp t => c.setX t c.sp
  | .movToSp t => { c with sp := c.x t }
  | .mrsElr t => c.setX t c.elrEl2
  | .mrsSpsr t => c.setX t c.spsrEl2
  | .msrSpsr t => { c with spsrEl2 := c.x t }

def Cpu.run (c : Cpu) (is : List Instr) : Cpu := is.foldl Instr.exec c

def intrSaveRegs : List Instr :=
  [.subSp (8 * 34),
   -- Save X0-X30
   .stp 0 1 0, .stp 2 3 16, .stp 4 5 32, .stp 6 7 48, .stp 8 9 64, .stp 10 11 80, .stp 12 13 96,
   .stp 14 15 112, .stp 16 17 128, .stp 18 19 144, .stp 20 21 160, .stp 22 23 176, .stp 24 25 192,
   .stp 26 27 208, .stp 28 29 224, .str 30 240,
   -- Save SP
   .movFromSp 0, .str 0 248,
   -- Save PC
   .mrsElr 0, .str 0 256,
   -- Save PSTATE
   .mrsSpsr 0, .str 0 264,
   .movFromSp 0]

def intrRestoreRegs : List Instr :=
  [ -- Restore PSTATE
   .ldr 0 264, .msrSpsr 0,
   -- Restore SP
   .ldr 0 248, .movToSp 0,
   -- Restore X30-X0
   .ldr 30 240, .ldp 28 29 224, .ldp 26 27 208, .ldp 24 25 192, .ldp 22 23 176, .ldp 20 21 160,
   .ldp 18 19 144, .ldp 16 17 128, .ldp 14 15 112, .ldp 12 13 96, .ldp 10 11 80, .ldp 8 9 64,
   .ldp 6 7 48, .ldp 4 5 32, .ldp 2 3 16, .ldp 0 1 0,
   .addSp (8 * 34)]

/-- The registers the interrupted code sees after `eret`. -/
structure Resumed where
  x : Fin 31 → UInt64
  sp : UInt64
  pc : UInt64
  pstate : UInt64

def eret (c : Cpu) : Resumed := ⟨c.x, c.sp, c.elrEl2, c.spsrEl2⟩

/-! ## The frame as a `struct aarch64_gpregs` -/

/-- The words of a `struct aarch64_gpregs`, by offset. -/
def gpregsWords (g : Gpregs) : List (Nat × UInt64) :=
  (List.finRange 31).map (fun i => (8 * i.val, g.x i)) ++
    [(248, g.sp), (256, g.pc), (264, g.pstate)]

def loadGpregs (m : Mem) (p : UInt64) : Gpregs where
  x i := m.loadAt p (8 * i.val)
  sp := m.loadAt p 248
  pc := m.loadAt p 256
  pstate := m.loadAt p 264

def storeGpregs (m : Mem) (p : UInt64) (g : Gpregs) : Mem := m.storeAll p (gpregsWords g)

/-- `regs->x[29]` -/
def Gpregs.framePtr (g : Gpregs) : UInt64 := g.x 29

/-- The first argument of the C function that is called. -/
def Cpu.firstArg (c : Cpu) : UInt64 := c.x 0

/-! ## `el2_irq_handler` with a handler that switches -/

/-- `el2_irq_handler`, with a C handler that calls `pcpu_switch(pcpu, regs)` on the frame it was
given.  The C code returns with `sp` and `ELR_EL2` as it found them; the other registers, `SPSR_EL2`
and the memory outside the frame are what it makes of them, `after`. -/
def el2IrqHandler (pcpu : Nat) (after c : Cpu) (s : Sched) : Option (Resumed × Sched) :=
  let c₁ := c.run intrSaveRegs
  let regs := c₁.x 0
  match pcpuSwitch pcpu { s with frame := loadGpregs c₁.mem regs } with
  | .ok _ s' =>
    let c₂ := { after with
      sp := c₁.sp
      elrEl2 := c₁.elrEl2
      mem := storeGpregs after.mem regs s'.frame }
    some (eret (c₂.run intrRestoreRegs), s')
  | .error _ _ => none

end ZHyper
