import ZHyper.Gic.Model

/-!
# The interrupt operations: `spi.c`, `ppi.c` and `sgi.c`

The fifteen functions of the three tables `g_spi_intr_ops`, `g_ppi_intr_ops` and `g_sgi_intr_ops`.
They are read-modify-writes of a word (`updateField`, `updateBit`) or writes of one bit to a set or
a clear register, with a wait after a clear.
-/

namespace ZHyper

open LowLevel

variable {ρ : Type} [RegWords ρ]

/-! ## Accesses the functions share -/

/-- `CHECK_SPI_INTID` -/
def checkSpiIntid (intid : Nat) : Bool := intid < 32 || intid > 1019

/-- `CHECK_PPI_INTID` -/
def checkPpiIntid (intid : Nat) : Bool := intid < 16 || intid > 31

/-- `CHECK_SGI_INTID` -/
def checkSgiIntid (intid : Nat) : Bool := intid > 15

/-- `value = read32(a); value &= ~(mask << shift); value |= v << shift; write32(a, value)` -/
def updateField (B : GicBoard) (a : Nat) (mask : BitVec 32) (shift : Nat) (v : BitVec 32) :
    GicOfM ρ Unit := do
  let value ← read32 B a
  write32 a (value &&& ~~~(mask <<< shift) ||| (v <<< shift))

/-- `value = read32(a)`, then the bit is set or cleared in it, then `write32(a, value)`. -/
def updateBit (B : GicBoard) (a bit : Nat) (set : Bool) : GicOfM ρ Unit := do
  let value ← read32 B a
  write32 a (if set then value ||| (1#32 <<< bit) else value &&& ~~~(1#32 <<< bit))

/-- A write of one bit to the set register, or to the clear register and a wait. -/
def setClearBit (set clear bit : Nat) (isSet : Bool) (wait : GicOfM ρ Unit) : GicOfM ρ Unit :=
  if isSet then write32 set (1#32 <<< bit)
  else do
    write32 clear (1#32 <<< bit)
    wait

/-! ## `spi.c` -/

/-- `__gicd_set_clear_spi` -/
def gicdSetClearSpi (B : GicBoard) (intid : Nat) (set : Bool) : GicOfM ρ Int := do
  let gicd ← gicdRegsChecked
  if checkSpiIntid intid then return -EINVAL
  let regOffset := intid >>> 5
  let bitOffset := intid &&& 0x1F
  setClearBit (isenabler gicd + 4 * regOffset)
    (icenabler gicd + 4 * regOffset) bitOffset set (gicdWaitRwp B)
  return 0

/-- `__gicd_spi_set_trigger`; `GICD_ICFGR_EDGE_TRIGGERED` is 2, `GICD_ICFGR_LEVEL_SENSITIVE` 0. -/
def gicdSpiSetTrigger (B : GicBoard) (intid : Nat) (isEdge : Bool) : GicOfM ρ Int := do
  let gicd ← gicdRegsChecked
  if checkSpiIntid intid then return -EINVAL
  let regOffset := intid >>> 4
  let bitOffset := (intid &&& 0xF) <<< 1
  updateField B (icfgr gicd + 4 * regOffset) 3 bitOffset (if isEdge then 2 else 0)
  return 0

/-- `__gicd_spi_set_priority` -/
def gicdSpiSetPriority (B : GicBoard) (intid : Nat) (priority : BitVec 8) : GicOfM ρ Int := do
  let gicd ← gicdRegsChecked
  if checkSpiIntid intid then return -EINVAL
  let regOffset := intid >>> 2
  let byteOffset := intid &&& 3
  updateField B (ipriorityr gicd + 4 * regOffset) 0xFF (byteOffset * 8) (priority.setWidth 32)
  return 0

/-- `__gicd_spi_set_security`: `group` selects the register, `secure` the value of the bit. -/
def gicdSpiSetSecurity (B : GicBoard) (intid : Nat) (group secure : Bool) : GicOfM ρ Int := do
  let gicd ← gicdRegsChecked
  if checkSpiIntid intid then return -EINVAL
  let regOffset := intid >>> 5
  let bitOffset := intid &&& 0x1F
  if group then
    updateBit B (igroupr gicd + 4 * regOffset) bitOffset (!secure)
    return 0
  else
    updateBit B (igrpmodr gicd + 4 * regOffset) bitOffset (!secure)
    return 0

/-- The functions of `g_spi_intr_ops`: `if (!ctx) panic(...)`, and the function above of
`ctx->intid`. -/
def spiOp (ctx : Option IrqRef) (f : Nat → GicOfM ρ Int) : GicOfM ρ Int := do
  if ctx.isNone then throw .panic
  let c ← derefCtx ctx
  f c.intid.toNat

/-- `__gicd_set_spi` -/
def gicdSetSpi (B : GicBoard) (ctx : Option IrqRef) : GicOfM ρ Int :=
  spiOp ctx fun intid => gicdSetClearSpi B intid true

/-- `__gicd_clear_spi` -/
def gicdClearSpi (B : GicBoard) (ctx : Option IrqRef) : GicOfM ρ Int :=
  spiOp ctx fun intid => gicdSetClearSpi B intid false

/-- `__gicd_set_spi_priority` -/
def gicdSetSpiPriority (B : GicBoard) (ctx : Option IrqRef) (priority : BitVec 8) : GicOfM ρ Int :=
  spiOp ctx fun intid => gicdSpiSetPriority B intid priority

/-- `__gicd_set_spi_trigger` -/
def gicdSetSpiTrigger (B : GicBoard) (ctx : Option IrqRef) (isEdge : Bool) : GicOfM ρ Int :=
  spiOp ctx fun intid => gicdSpiSetTrigger B intid isEdge

/-- `__gicd_set_spi_group`: `__gicd_spi_set_security(ctx->intid, group, false)` -/
def gicdSetSpiGroup (B : GicBoard) (ctx : Option IrqRef) (group : BitVec 8) : GicOfM ρ Int :=
  spiOp ctx fun intid => gicdSpiSetSecurity B intid (group != 0) false

/-! ## `ppi.c` -/

/-- `__gicr_ppi_set_trigger`; `reg_offset` is added to the address in bytes. -/
def gicrPpiSetTrigger (B : GicBoard) (cpu : Nat) (ctx : Option IrqRef) (isEdge : Bool) :
    GicOfM ρ Int := do
  let k ← getThisGicr B cpu
  let c ← derefCtx ctx
  if checkPpiIntid c.intid.toNat then return -EINVAL
  let intid := c.intid.toNat - 16
  let regOffset := intid >>> 4
  let bitOffset := (intid &&& 0xF) <<< 1
  let s ← get
  updateField B (icfgr (s.gicr k).gicrSgiRegs + 4 + regOffset) 3 bitOffset (if isEdge then 1 else 0)
  return 0

/-- `__gicr_set_clear_ppi` -/
def gicrSetClearPpi (B : GicBoard) (cpu : Nat) (ctx : Option IrqRef) (set : Bool) :
    GicOfM ρ Int := do
  let k ← getThisGicr B cpu
  let c ← derefCtx ctx
  if checkPpiIntid c.intid.toNat then return -EINVAL
  let regOffset := c.intid.toNat >>> 5
  let bitOffset := c.intid.toNat &&& 0x1F
  let s ← get
  setClearBit (isenabler (s.gicr k).gicrSgiRegs + regOffset)
    (icenabler (s.gicr k).gicrSgiRegs + regOffset) bitOffset
    set (gicrWaitRwp B cpu)
  return 0

/-- `__gicr_set_ppi` -/
def gicrSetPpi (B : GicBoard) (cpu : Nat) (ctx : Option IrqRef) : GicOfM ρ Int :=
  gicrSetClearPpi B cpu ctx true

/-- `__gicr_clear_ppi` -/
def gicrClearPpi (B : GicBoard) (cpu : Nat) (ctx : Option IrqRef) : GicOfM ρ Int :=
  gicrSetClearPpi B cpu ctx false

/-- `__gicr_ppi_set_priority` -/
def gicrPpiSetPriority (B : GicBoard) (cpu : Nat) (ctx : Option IrqRef) (priority : BitVec 8) :
    GicOfM ρ Int := do
  let k ← getThisGicr B cpu
  let c ← derefCtx ctx
  if checkPpiIntid c.intid.toNat then return -EINVAL
  let regOffset := c.intid.toNat >>> 2
  let byteOffset := c.intid.toNat &&& 3
  let s ← get
  updateField B (ipriorityr (s.gicr k).gicrSgiRegs + 4 * regOffset) 0xFF (byteOffset * 8)
    (priority.setWidth 32)
  return 0

/-- `__gicr_ppi_set_group` -/
def gicrPpiSetGroup (B : GicBoard) (cpu : Nat) (ctx : Option IrqRef) (group : BitVec 8) :
    GicOfM ρ Int := do
  let k ← getThisGicr B cpu
  let c ← derefCtx ctx
  if checkPpiIntid c.intid.toNat then return -EINVAL
  let bitOffset := c.intid.toNat &&& 0x1F
  let s ← get
  updateBit B (igroupr (s.gicr k).gicrSgiRegs) bitOffset (group != 0)
  return 0

/-! ## `sgi.c` -/

/-- `__gicr_sgi_set_trigger` -/
def gicrSgiSetTrigger (B : GicBoard) (cpu : Nat) (ctx : Option IrqRef) (isEdge : Bool) :
    GicOfM ρ Int := do
  let k ← getThisGicr B cpu
  let c ← derefCtx ctx
  if checkSgiIntid c.intid.toNat then return -EINVAL
  let regOffset := c.intid.toNat >>> 4
  let bitOffset := (c.intid.toNat &&& 0xF) <<< 1
  let s ← get
  updateField B (icfgr (s.gicr k).gicrSgiRegs + regOffset) 3 bitOffset (if isEdge then 1 else 0)
  return 0

/-- `__gicr_set_clear_sgi` -/
def gicrSetClearSgi (B : GicBoard) (cpu : Nat) (intid : Nat) (set : Bool) : GicOfM ρ Int := do
  let k ← getThisGicr B cpu
  if checkSgiIntid intid then return -EINVAL
  let regOffset := intid >>> 5
  let bitOffset := intid &&& 0x1F
  let s ← get
  setClearBit (isenabler (s.gicr k).gicrSgiRegs + regOffset)
    (icenabler (s.gicr k).gicrSgiRegs + regOffset) bitOffset
    set (gicrWaitRwp B cpu)
  return 0

/-- `__gicr_set_sgi` and `__gicr_clear_sgi`: both panic on `NULL` and on an INTID that is no SGI. -/
def gicrSetOrClearSgi (B : GicBoard) (cpu : Nat) (ctx : Option IrqRef) (set : Bool) :
    GicOfM ρ Int := do
  if ctx.isNone then throw .panic
  let c ← derefCtx ctx
  if checkSgiIntid c.intid.toNat then throw .panic
  gicrSetClearSgi B cpu c.intid.toNat set

/-- `__gicr_set_sgi` -/
def gicrSetSgi (B : GicBoard) (cpu : Nat) (ctx : Option IrqRef) : GicOfM ρ Int :=
  gicrSetOrClearSgi B cpu ctx true

/-- `__gicr_clear_sgi` -/
def gicrClearSgi (B : GicBoard) (cpu : Nat) (ctx : Option IrqRef) : GicOfM ρ Int :=
  gicrSetOrClearSgi B cpu ctx false

/-- `__gicr_sgi_set_priority` -/
def gicrSgiSetPriority (B : GicBoard) (cpu : Nat) (ctx : Option IrqRef) (priority : BitVec 8) :
    GicOfM ρ Int := do
  let k ← getThisGicr B cpu
  let c ← derefCtx ctx
  if checkSgiIntid c.intid.toNat then return -EINVAL
  let regOffset := c.intid.toNat >>> 2
  let byteOffset := c.intid.toNat &&& 3
  let s ← get
  updateField B (ipriorityr (s.gicr k).gicrSgiRegs + 4 * regOffset) 0xFF (byteOffset * 8)
    (priority.setWidth 32)
  return 0

/-- `__gicr_sgi_set_group`: the check comes before the context is got at. -/
def gicrSgiSetGroup (B : GicBoard) (cpu : Nat) (ctx : Option IrqRef) (group : BitVec 8) :
    GicOfM ρ Int := do
  let c ← derefCtx ctx
  if checkSgiIntid c.intid.toNat then return -EINVAL
  let k ← getThisGicr B cpu
  let bitOffset := c.intid.toNat &&& 0x1F
  let s ← get
  updateBit B (igroupr (s.gicr k).gicrSgiRegs) bitOffset (group != 0)
  return 0

/-! ## The tables -/

/-- A call through a `gic_intr_operations_t`. -/
inductive IntrOp where
  | setIntr
  | clearIntr
  | setPriority (priority : BitVec 8)
  | setTrigger (isEdge : Bool)
  | setGroup (group : BitVec 8)

/-- `ops->f(ctx, ...)` on CPU `cpu`, through the table of the class. -/
def intrOp (B : GicBoard) (cpu : Nat) : IrqClass → IntrOp → Option IrqRef → GicOfM ρ Int
  | .spi, .setIntr, ctx => gicdSetSpi B ctx
  | .spi, .clearIntr, ctx => gicdClearSpi B ctx
  | .spi, .setPriority p, ctx => gicdSetSpiPriority B ctx p
  | .spi, .setTrigger e, ctx => gicdSetSpiTrigger B ctx e
  | .spi, .setGroup g, ctx => gicdSetSpiGroup B ctx g
  | .ppi, .setIntr, ctx => gicrSetPpi B cpu ctx
  | .ppi, .clearIntr, ctx => gicrClearPpi B cpu ctx
  | .ppi, .setPriority p, ctx => gicrPpiSetPriority B cpu ctx p
  | .ppi, .setTrigger e, ctx => gicrPpiSetTrigger B cpu ctx e
  | .ppi, .setGroup g, ctx => gicrPpiSetGroup B cpu ctx g
  | .sgi, .setIntr, ctx => gicrSetSgi B cpu ctx
  | .sgi, .clearIntr, ctx => gicrClearSgi B cpu ctx
  | .sgi, .setPriority p, ctx => gicrSgiSetPriority B cpu ctx p
  | .sgi, .setTrigger e, ctx => gicrSgiSetTrigger B cpu ctx e
  | .sgi, .setGroup g, ctx => gicrSgiSetGroup B cpu ctx g

end ZHyper
