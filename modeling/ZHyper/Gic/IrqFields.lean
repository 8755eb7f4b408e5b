import ZHyper.Gic.Ops

/-!
# What an interrupt operation does

The configuration of an interrupt is five bit fields (`IrqField`) of the frame it belongs to: the
SGI frame of the CPU for SGIs and PPIs, the distributor for SPIs.  An operation of the tables is one
`Field.put`, and a poll of one device register after a clear; which field, which value and which
register is `opField` and `opPoll`:

    intrOp returns r in s'  ↔  r = 0 and s' has the field put and the register polled
                                                                                   (intrOp_ok_iff)
-/

namespace ZHyper

open LowLevel

/-! ## The fields of an interrupt -/

inductive IrqField where
  | enable
  | priority
  | trigger
  | group
  | groupMod
deriving DecidableEq

namespace IrqField

def width : IrqField → Nat
  | enable => 1
  | priority => 8
  | trigger => 2
  | group => 1
  | groupMod => 1

/-- The offset of the first register of the field in a frame; the enable bits are at `isenabler`. -/
def offset : IrqField → Nat
  | enable => 0x100
  | priority => 0x400
  | trigger => 0xC00
  | group => 0x80
  | groupMod => 0xD00

/-- The field of INTID `i` in the frame at `base`. -/
def field (f : IrqField) (base i : Nat) : Field where
  addr := base + f.offset + 4 * (i / (32 / f.width))
  off := f.width * (i % (32 / f.width))
  width := f.width

end IrqField

/-- The frame of the distributor or the SGI frame of a redistributor. -/
def FrameBase (base : Nat) : Prop :=
  base = gicdBase ∨ ∃ c, base = gicrBase + gicrStride * c + 0x10000

/-- The frames are where `gicd_init` and `gicr_init` put them, for CPU `cpu`. -/
structure GicOf.Mapped {ρ : Type} (B : GicBoard) (cpu : Nat) (s : GicOf ρ) : Prop where
  cpu_lt : cpu < B.nrCpu
  gicd : s.gicd.gicdRegs = gicdBase
  gicr : ∃ c, (s.gicr cpu).gicrRegs = gicrBase + gicrStride * c ∧
    (s.gicr cpu).gicrSgiRegs = gicrBase + gicrStride * c + 0x10000

/-- The frame of INTID `i` on CPU `cpu`. -/
def GicOf.frame {ρ : Type} (s : GicOf ρ) (cpu i : Nat) : Nat :=
  if i < 32 then (s.gicr cpu).gicrSgiRegs else s.gicd.gicdRegs

/-- A field of INTID `i` on CPU `cpu`. -/
def GicOf.field {ρ : Type} (s : GicOf ρ) (cpu : Nat) (f : IrqField) (i : Nat) : Field :=
  f.field (s.frame cpu i) i

variable {ρ : Type} {B : GicBoard} {cpu i j base : Nat} {s s' : GicOf ρ} {f g : IrqField}

theorem GicOf.Mapped.frameBase (hm : s.Mapped B cpu) (i : Nat) : FrameBase (s.frame cpu i) := by
  unfold GicOf.frame
  split
  · obtain ⟨c, -, h⟩ := hm.gicr
    exact .inr ⟨c, h⟩
  · exact .inl hm.gicd

theorem IrqField.off_add_width (f : IrqField) (base i : Nat) :
    (f.field base i).off + (f.field base i).width ≤ 32 := by
  cases f <;> simp only [field, width] <;> omega

/-- Where the register of a field is in its frame. -/
theorem IrqField.addr_eq (f : IrqField) (base : Nat) (hi : i ≤ 1019) :
    ∃ off, (f.field base i).addr = base + off ∧ f.offset ≤ off ∧
      off < f.offset + 128 * f.width := by
  refine ⟨f.offset + 4 * (i / (32 / f.width)), by simp only [field]; omega, by omega, ?_⟩
  cases f <;> simp only [offset, width] <;> omega

theorem IrqField.offset_lt (f : IrqField) : f.offset + 128 * f.width < 0x10000 := by
  cases f <;> decide

/-- Different fields of a frame share no bit. -/
theorem IrqField.disjoint_frame (hi : i ≤ 1019) (hj : j ≤ 1019) (h : (f, i) ≠ (g, j)) :
    (f.field base i).Disjoint (g.field base j) := by
  by_cases hfg : f = g
  · subst hfg
    have hij : i ≠ j := fun e => h (by rw [e])
    cases f <;> simp only [Field.Disjoint, field, width] <;> omega
  · left
    cases f <;> cases g <;> first | exact absurd rfl hfg | (simp only [field, offset, width]; omega)

theorem FrameBase.apart {base' : Nat} (h : FrameBase base) (h' : FrameBase base')
    (hne : base ≠ base') :
    base + 0x10000 ≤ base' ∨ base' + 0x10000 ≤ base := by
  unfold FrameBase gicdBase gicrBase gicrStride at *
  obtain rfl | ⟨c, rfl⟩ := h <;> obtain rfl | ⟨c', rfl⟩ := h' <;> omega

/-- Different fields of the interrupts of a CPU share no bit. -/
theorem GicOf.Mapped.disjoint (hm : s.Mapped B cpu) (hi : i ≤ 1019) (hj : j ≤ 1019)
    (h : (f, i) ≠ (g, j)) :
    (s.field cpu f i).Disjoint (s.field cpu g j) := by
  by_cases hbase : s.frame cpu i = s.frame cpu j
  · unfold GicOf.field
    rw [hbase]
    exact IrqField.disjoint_frame hi hj h
  · left
    obtain ⟨off, hoff, -, hlt⟩ := f.addr_eq (s.frame cpu i) hi
    obtain ⟨off', hoff', -, hlt'⟩ := g.addr_eq (s.frame cpu j) hj
    have := f.offset_lt
    have := g.offset_lt
    have := (hm.frameBase i).apart (hm.frameBase j) hbase
    unfold GicOf.field
    omega

/-! ## Accesses to a frame -/

theorem FrameBase.frameOffset (h : FrameBase base) {off : Nat} (hoff : off < 0x10000) :
    frameOffset (base + off) = some off := by
  unfold ZHyper.frameOffset
  unfold FrameBase gicdBase gicrBase gicrStride at *
  obtain rfl | ⟨c, rfl⟩ := h
  · rw [if_pos (by omega), Nat.add_sub_cancel_left]
  · rw [if_neg (by omega), if_pos (by omega)]
    apply congrArg some
    omega

theorem FrameBase.not_deviceReg (h : FrameBase base) {off : Nat} (hlow : 0x80 ≤ off)
    (hoff : off < 0x10000) :
    ¬ DeviceReg (base + off) := by
  unfold DeviceReg
  unfold FrameBase gicdBase gicrBase gicrStride at *
  obtain rfl | ⟨c, rfl⟩ := h <;> omega

/-- A write outside the set and clear registers. -/
theorem FrameBase.written_plain (h : FrameBase base) {off : Nat} (hoff : off < 0x10000)
    (hplain : off < 0x100 ∨ 0x400 ≤ off) (r : Nat → BitVec 32) (v : BitVec 32) :
    written r (base + off) v = Function.update r (base + off) v := by
  unfold written
  rw [h.frameOffset hoff]
  exact if_neg (by omega)

/-- A write to a set register of the enable bits. -/
theorem FrameBase.written_set (h : FrameBase base) {off : Nat} (hlow : 0x100 ≤ off)
    (hoff : off < 0x180) (r : Nat → BitVec 32) (v : BitVec 32) :
    written r (base + off) v = Function.update r (base + off) (r (base + off) ||| v) := by
  unfold written
  rw [h.frameOffset (by omega)]
  dsimp only
  rw [if_pos (by omega), if_pos (by omega)]

/-- A write to a clear register of the enable bits. -/
theorem FrameBase.written_clear (h : FrameBase base) {off : Nat} (hlow : 0x100 ≤ off)
    (hoff : off < 0x180) (r : Nat → BitVec 32) (v : BitVec 32) :
    written r (base + off + 0x80) v = Function.update r (base + off) (r (base + off) &&& ~~~v) := by
  unfold written
  rw [Nat.add_assoc, h.frameOffset (by omega)]
  dsimp only
  rw [if_pos (by omega), if_neg (by omega), ← Nat.add_assoc, Nat.add_sub_cancel]

/-- The register of a field that is not the enable bit takes what is written to it. -/
theorem IrqField.plain (hb : FrameBase base) (hf : f ≠ .enable) (hi : i ≤ 1019) :
    ¬ DeviceReg (f.field base i).addr ∧
    ∀ r v, written r (f.field base i).addr v = Function.update r (f.field base i).addr v := by
  obtain ⟨off, hoff, hlow, hlt⟩ := f.addr_eq base hi
  have hlt' := f.offset_lt
  have h80 : 0x80 ≤ f.offset := by cases f <;> decide
  have hplain : off < 0x100 ∨ 0x400 ≤ off := by
    cases f <;> simp only [offset, width] at hlow hlt <;> first | exact absurd rfl hf | omega
  rw [hoff]
  exact ⟨hb.not_deviceReg (by omega) (by omega), hb.written_plain (by omega) hplain⟩

/-- The write that puts `v` in a field of `i` in the frame at `base`, over the words `r`: of the bit
alone to the set or the clear register, or of the word to the register of the field. -/
def IrqField.write (f : IrqField) (base i : Nat) (v : BitVec 32) (r : Nat → BitVec 32) : RegWrite :=
  if f = .enable then
    ⟨(f.field base i).addr + if v = 0 then 0x80 else 0, 1#32 <<< (f.field base i).off⟩
  else
    ⟨(f.field base i).addr, Field.insert (f.field base i).off f.width (r (f.field base i).addr) v⟩

/-- What the write makes of the words. -/
theorem IrqField.write_put (hb : FrameBase base) (hi : i ≤ 1019) {v : BitVec 32}
    (hv : v &&& Field.ones 32 f.width = v) (r : Nat → BitVec 32) :
    written r (f.write base i v r).addr (f.write base i v r).value = (f.field base i).put v r := by
  unfold IrqField.write
  split_ifs with hf hzero
  · -- the clear register
    subst hf
    subst hzero
    obtain ⟨off, hoff, hlow, hlt⟩ := IrqField.enable.addr_eq base hi
    have hwidth : (IrqField.enable.field base i).width = 1 := rfl
    have hclear := Field.insert_zero (IrqField.enable.field base i).off (r (base + off))
    dsimp only
    rw [hoff, hb.written_clear hlow hlt, ← hclear]
    unfold Field.put
    rw [hwidth, hoff]
    rfl
  · -- the set register
    subst hf
    obtain ⟨off, hoff, hlow, hlt⟩ := IrqField.enable.addr_eq base hi
    have hwidth : (IrqField.enable.field base i).width = 1 := rfl
    have hone : v = 1#32 := by
      have hbit : v &&& 1#32 = v := hv
      have hmod := congrArg BitVec.toNat hbit
      have hne : v.toNat ≠ 0 := fun e => hzero (BitVec.eq_of_toNat_eq e)
      rw [BitVec.toNat_and, show (1#32).toNat = 1 from rfl, Nat.and_one_is_mod] at hmod
      apply BitVec.eq_of_toNat_eq
      show v.toNat = 1
      omega
    subst hone
    dsimp only
    rw [hoff, Nat.add_zero, hb.written_set hlow hlt]
    unfold Field.put
    rw [hwidth, Field.insert_one, hoff]
  · exact (IrqField.plain hb hf hi).2 _ _

variable [RegWords ρ]

/-- The words of the frames. -/
def GicOf.words (s : GicOf ρ) : Nat → BitVec 32 := RegWords.word s.regs

/-- The state after the write that puts `v` in a field of `i` in the frame at `base`. -/
def GicOf.wrote (s : GicOf ρ) (f : IrqField) (base i : Nat) (v : BitVec 32) : GicOf ρ :=
  { s with
    regs := RegWords.write s.regs (f.write base i v s.words).addr (f.write base i v s.words).value }

/-- The words are kept as they are or with a log; the field is put in them. -/
theorem GicOf.words_wrote (hb : FrameBase base) (hi : i ≤ 1019) {v : BitVec 32}
    (hv : v &&& Field.ones 32 f.width = v) :
      (s.wrote f base i v).words = (f.field base i).put v s.words := by
  show RegWords.word (RegWords.write s.regs _ _) = _
  rw [RegWords.word_write]
  exact IrqField.write_put hb hi hv _

theorem IrqField.write_plain (hf : f ≠ .enable) (v : BitVec 32) (r : Nat → BitVec 32) :
    f.write base i v r =
      ⟨(f.field base i).addr, Field.insert (f.field base i).off f.width
        (r (f.field base i).addr) v⟩ :=
  if_neg hf

/-- A read-modify-write of a field that is not the enable bit. -/
theorem updateField_run (hb : FrameBase base) (hf : f ≠ .enable) (hi : i ≤ 1019)
    {mask v : BitVec 32} (hmask : mask = Field.ones 32 f.width)
    (hv : v &&& Field.ones 32 f.width = v) :
    updateField B (f.field base i).addr mask (f.field base i).off v s =
      .ok () (s.wrote f base i v) := by
  obtain ⟨hreg, -⟩ := IrqField.plain hb hf hi
  unfold updateField GicOf.wrote
  rw [bind_run (read32_word hreg), write32_word, IrqField.write_plain hf]
  unfold Field.insert
  rw [hmask, hv]
  rfl

theorem updatePriority_run (hb : FrameBase base) (hi : i ≤ 1019) (p : BitVec 8) :
    updateField B (IrqField.priority.field base i).addr 0xFF (IrqField.priority.field base i).off
      (p.setWidth 32) s =
      .ok () (s.wrote .priority base i (p.setWidth 32)) :=
  updateField_run hb (by decide) hi rfl (Field.setWidth_and_ones p)

theorem updateTrigger_run (hb : FrameBase base) (hi : i ≤ 1019) {v : BitVec 32} (hv : v &&& 3 = v) :
    updateField B (IrqField.trigger.field base i).addr 3 (IrqField.trigger.field base i).off v s =
      .ok () (s.wrote .trigger base i v) :=
  updateField_run hb (by decide) hi rfl hv

/-- A set or a clear of the one bit of a field that is not the enable bit. -/
theorem updateBit_run (hb : FrameBase base) (hf : f ≠ .enable) (hw : f.width = 1) (hi : i ≤ 1019)
    (set : Bool) :
    updateBit B (f.field base i).addr (f.field base i).off set s =
      .ok () (s.wrote f base i (if set then 1#32 else 0#32)) := by
  obtain ⟨hreg, -⟩ := IrqField.plain hb hf hi
  unfold updateBit GicOf.wrote
  rw [bind_run (read32_word hreg), write32_word, IrqField.write_plain hf, hw]
  cases set
  · rw [if_neg (by simp), if_neg (by simp), Field.insert_zero]
    rfl
  · rw [if_pos rfl, if_pos rfl, Field.insert_one]
    rfl

/-- A write to the set or the clear register of the enable bit; the clear is followed by the
wait. -/
theorem setClearBit_run (base i : Nat) (isSet : Bool) (wait : GicOfM ρ Unit) :
    setClearBit (IrqField.enable.field base i).addr ((IrqField.enable.field base i).addr + 0x80)
      (IrqField.enable.field base i).off isSet wait s =
      (if isSet then pure () else wait : GicOfM ρ Unit)
        (s.wrote .enable base i (if isSet then 1#32 else 0#32)) := by
  cases isSet <;> rfl

/-! ## The operations -/

/-- The class of an INTID up to 1019. -/
def irqClass (i : Nat) : IrqClass := if i ≤ 15 then .sgi else if i ≤ 31 then .ppi else .spi

theorem irqClass_sgi (hi : i ≤ 15) : irqClass i = .sgi := if_pos hi

theorem irqClass_ppi (hlow : 16 ≤ i) (hi : i ≤ 31) : irqClass i = .ppi := by
  unfold irqClass
  rw [if_neg (by omega), if_pos hi]

theorem irqClass_spi (h : 32 ≤ i) : irqClass i = .spi := by
  unfold irqClass
  rw [if_neg (by omega), if_neg (by omega)]

theorem irqClass_ne_spi (h : ¬ 32 ≤ i) : irqClass i ≠ .spi := by
  unfold irqClass
  split_ifs
  · decide
  · decide
  · omega

/-- The INTIDs that the functions of a table accept. -/
def IrqClass.Covers : IrqClass → Nat → Prop
  | .sgi, i => i ≤ 15
  | .ppi, i => 16 ≤ i ∧ i ≤ 31
  | .spi, i => 32 ≤ i ∧ i ≤ 1019

theorem IrqClass.covers_iff {c : IrqClass} : c.Covers i ↔ irqClass i = c ∧ i ≤ 1019 := by
  by_cases hsgi : i ≤ 15
  · rw [irqClass_sgi hsgi]
    cases c <;> simp [Covers] <;> omega
  · by_cases hppi : i ≤ 31
    · rw [irqClass_ppi (by omega) hppi]
      cases c <;> simp [Covers] <;> omega
    · rw [irqClass_spi (by omega)]
      cases c <;> simp [Covers] <;> omega

/-- The field that an operation puts, and the value it puts there. -/
def opField (c : IrqClass) : IntrOp → IrqField × BitVec 32
  | .setIntr => (.enable, 1#32)
  | .clearIntr => (.enable, 0#32)
  | .setPriority p => (.priority, p.setWidth 32)
  | .setTrigger e => (.trigger, if c = .spi then if e then 2 else 0 else if e then 1 else 0)
  | .setGroup g =>
    if c = .spi then (if g != 0 then .group else .groupMod, 1#32)
      else (.group, if g != 0 then 1#32 else 0#32)

/-- The wait of an operation. -/
def opWait (B : GicBoard) (cpu : Nat) : IrqClass → IntrOp → GicOfM ρ Unit
  | .spi, .clearIntr => gicdWaitRwp B
  | _, .clearIntr => gicrWaitRwp B cpu
  | _, _ => pure ()

/-! ### Registers and shifts of the functions -/

section Indices
variable (base i : Nat)

theorem enable_set_addr : isenabler base + 4 * (i >>> 5) = (IrqField.enable.field base i).addr := by
  rw [Nat.shiftRight_eq_div_pow]
  rfl

theorem enable_clear_addr : icenabler base + 4 * (i >>> 5) = (IrqField.enable.field base i).addr +
    0x80 := by
  rw [← enable_set_addr]
  unfold isenabler icenabler
  omega

theorem group_addr : igroupr base + 4 * (i >>> 5) = (IrqField.group.field base i).addr := by
  rw [Nat.shiftRight_eq_div_pow]
  rfl

theorem groupMod_addr : igrpmodr base + 4 * (i >>> 5) = (IrqField.groupMod.field base i).addr := by
  rw [Nat.shiftRight_eq_div_pow]
  rfl

theorem priority_addr : ipriorityr base + 4 * (i >>> 2) =
    (IrqField.priority.field base i).addr := by
  rw [Nat.shiftRight_eq_div_pow]
  rfl

theorem trigger_addr : icfgr base + 4 * (i >>> 4) = (IrqField.trigger.field base i).addr := by
  rw [Nat.shiftRight_eq_div_pow]
  rfl

/-- The bit of `i` in a register of 32 interrupts. -/
theorem bit_off {f : IrqField} (hf : f.width = 1) : i &&& 0x1F = (f.field base i).off := by
  show i &&& 2 ^ 5 - 1 = f.width * (i % (32 / f.width))
  rw [Nat.and_two_pow_sub_one_eq_mod, hf, Nat.one_mul]

theorem priority_off : (i &&& 3) * 8 = (IrqField.priority.field base i).off := by
  show (i &&& 2 ^ 2 - 1) * 8 = 8 * (i % 4)
  rw [Nat.and_two_pow_sub_one_eq_mod]
  omega

theorem trigger_off : (i &&& 0xF) <<< 1 = (IrqField.trigger.field base i).off := by
  show (i &&& 2 ^ 4 - 1) <<< 1 = 2 * (i % 16)
  rw [Nat.and_two_pow_sub_one_eq_mod, Nat.shiftLeft_eq]
  omega

-- In the SGI frame `reg_offset` is zero, so that it does not matter that it is added in bytes.
theorem shift_five_zero (hi : i ≤ 31) : i >>> 5 = 4 * (i >>> 5) := by
  rw [Nat.shiftRight_eq_div_pow]
  omega

theorem sgi_trigger_addr (hi : i ≤ 15) :
    icfgr base + i >>> 4 = (IrqField.trigger.field base i).addr := by
  rw [← trigger_addr, Nat.shiftRight_eq_div_pow]
  omega

theorem ppi_trigger_addr (hlow : 16 ≤ i) (hi : i ≤ 31) :
    icfgr base + 4 + (i - 16) >>> 4 = (IrqField.trigger.field base i).addr := by
  rw [← trigger_addr, Nat.shiftRight_eq_div_pow, Nat.shiftRight_eq_div_pow]
  omega

theorem ppi_trigger_off (hlow : 16 ≤ i) (hi : i ≤ 31) :
    ((i - 16) &&& 0xF) <<< 1 = (IrqField.trigger.field base i).off := by
  rw [trigger_off base (i - 16)]
  show 2 * ((i - 16) % 16) = 2 * (i % 16)
  omega

theorem group_addr_zero (hi : i ≤ 31) : igroupr base = (IrqField.group.field base i).addr := by
  rw [← group_addr, Nat.shiftRight_eq_div_pow]
  omega

end Indices

/-! ### `spi.c` -/

omit [RegWords ρ] in
theorem spiOp_run {p : IrqRef} (h : Nat → GicOfM ρ Int) :
    spiOp (some p) h s = h (s.ctxs p).intid.toNat s := rfl

section Spi
variable (hb : FrameBase s.gicd.gicdRegs) (hlow : 32 ≤ i) (hi : i ≤ 1019)
include hb hlow hi

omit [RegWords ρ] hlow hi in
theorem gicdRegs_ne_zero : s.gicd.gicdRegs ≠ 0 := by
  unfold FrameBase gicdBase gicrBase at hb
  omega

omit hb in
theorem spi_check : checkSpiIntid i = false := by
  simp only [checkSpiIntid, gt_iff_lt, Bool.or_eq_false_iff, decide_eq_false_iff_not]
  omega

omit [RegWords ρ] in
/-- Every function of `spi.c` checks the distributor and the INTID. -/
theorem spi_enter (f : Nat → GicOfM ρ Int) :
    (gicdRegsChecked >>= fun gicd => if checkSpiIntid i then pure (-EINVAL) else f gicd) s =
      f s.gicd.gicdRegs s := by
  rw [bind_run (gicdRegsChecked_run (gicdRegs_ne_zero hb)), spi_check hlow hi, if_neg (by simp)]

theorem gicdSetClearSpi_run (set : Bool) :
    gicdSetClearSpi B i set s = ((if set then pure () else gicdWaitRwp B : GicOfM ρ Unit) >>=
      fun _ => pure 0)
      (s.wrote .enable s.gicd.gicdRegs i (if set then 1#32 else 0#32)) := by
  unfold gicdSetClearSpi
  rw [spi_enter hb hlow hi, enable_set_addr, enable_clear_addr,
    bit_off s.gicd.gicdRegs i (f := .enable) rfl]
  exact bind_run_eq (setClearBit_run _ _ set _)

theorem gicdSpiSetPriority_run (p : BitVec 8) :
    gicdSpiSetPriority B i p s = .ok 0 (s.wrote .priority s.gicd.gicdRegs i (p.setWidth 32)) := by
  unfold gicdSpiSetPriority
  rw [spi_enter hb hlow hi, priority_addr, priority_off s.gicd.gicdRegs,
    bind_run (updatePriority_run hb hi p)]
  rfl

theorem gicdSpiSetTrigger_run (e : Bool) :
    gicdSpiSetTrigger B i e s =
      .ok 0 (s.wrote .trigger s.gicd.gicdRegs i (if e then 2 else 0)) := by
  unfold gicdSpiSetTrigger
  rw [spi_enter hb hlow hi, trigger_addr, trigger_off s.gicd.gicdRegs,
    bind_run (updateTrigger_run hb hi (by cases e <;> decide))]
  rfl

/-- `group` selects the register, and with `secure` false the bit is set in it. -/
theorem gicdSpiSetSecurity_run (group : Bool) :
    gicdSpiSetSecurity B i group false s =
      .ok 0 (s.wrote (if group then .group else .groupMod) s.gicd.gicdRegs i 1#32) := by
  unfold gicdSpiSetSecurity
  rw [spi_enter hb hlow hi]
  cases group
  · rw [if_neg (by simp), if_neg (by simp), groupMod_addr,
      bit_off s.gicd.gicdRegs i (f := .groupMod) rfl,
      bind_run (updateBit_run hb (by decide) rfl hi _)]
    rfl
  · rw [if_pos rfl, if_pos rfl, group_addr, bit_off s.gicd.gicdRegs i (f := .group) rfl,
      bind_run (updateBit_run hb (by decide) rfl hi _)]
    rfl

/-- An operation of `g_spi_intr_ops`. -/
theorem spi_run {p : IrqRef} (hp : (s.ctxs p).intid.toNat = i) (op : IntrOp) :
    intrOp B cpu .spi op (some p) s = (opWait B cpu .spi op >>= fun _ => pure 0)
      (s.wrote (opField .spi op).1 s.gicd.gicdRegs i (opField .spi op).2) := by
  cases op with
  | setIntr =>
    rw [intrOp, gicdSetSpi, spiOp_run, hp, gicdSetClearSpi_run hb hlow hi]
    rfl
  | clearIntr =>
    rw [intrOp, gicdClearSpi, spiOp_run, hp, gicdSetClearSpi_run hb hlow hi]
    rfl
  | setPriority q =>
    rw [intrOp, gicdSetSpiPriority, spiOp_run, hp, gicdSpiSetPriority_run hb hlow hi]
    rfl
  | setTrigger e =>
    rw [intrOp, gicdSetSpiTrigger, spiOp_run, hp, gicdSpiSetTrigger_run hb hlow hi]
    rfl
  | setGroup g =>
    rw [intrOp, gicdSetSpiGroup, spiOp_run, hp, gicdSpiSetSecurity_run hb hlow hi]
    rfl

end Spi

/-! ### `ppi.c` and `sgi.c` -/

omit [RegWords ρ] in
theorem derefCtx_run {p : IrqRef} : derefCtx (some p) s = .ok (s.ctxs p) s := rfl

section Ppi
variable {p : IrqRef} (hcpu : cpu < B.nrCpu) (hb : FrameBase (s.gicr cpu).gicrSgiRegs)
  (hp : (s.ctxs p).intid.toNat = i) (hlow : 16 ≤ i) (hi : i ≤ 31)
include hcpu hb hp hlow hi

omit hcpu hb hp in
theorem ppi_check : checkPpiIntid i = false := by
  simp only [checkPpiIntid, gt_iff_lt, Bool.or_eq_false_iff, decide_eq_false_iff_not]
  omega

omit [RegWords ρ] hb in
/-- Every function of `ppi.c` gets at the redistributor and the context and checks the INTID. -/
theorem ppi_enter (f : Nat → IrqContext → GicOfM ρ Int) :
    (getThisGicr B cpu >>= fun k => derefCtx (some p) >>= fun c =>
      if checkPpiIntid c.intid.toNat then pure (-EINVAL) else f k c) s = f cpu (s.ctxs p) s := by
  rw [bind_run (getThisGicr_run hcpu), bind_run derefCtx_run, hp, ppi_check hlow hi,
    if_neg (by simp)]

omit hb in
theorem gicrSetClearPpi_run (set : Bool) :
    gicrSetClearPpi B cpu (some p) set s =
      ((if set then pure () else gicrWaitRwp B cpu : GicOfM ρ Unit) >>= fun _ => pure 0)
      (s.wrote .enable (s.gicr cpu).gicrSgiRegs i (if set then 1#32 else 0#32)) := by
  unfold gicrSetClearPpi
  rw [ppi_enter hcpu hp hlow hi, hp, bind_get, shift_five_zero i hi, enable_set_addr,
    enable_clear_addr, bit_off (s.gicr cpu).gicrSgiRegs i (f := .enable) rfl]
  exact bind_run_eq (setClearBit_run _ _ set _)

theorem gicrPpiSetPriority_run (q : BitVec 8) : gicrPpiSetPriority B cpu (some p) q s =
    .ok 0 (s.wrote .priority (s.gicr cpu).gicrSgiRegs i (q.setWidth 32)) := by
  unfold gicrPpiSetPriority
  rw [ppi_enter hcpu hp hlow hi, hp, bind_get, priority_addr, priority_off (s.gicr cpu).gicrSgiRegs,
    bind_run (updatePriority_run hb (by omega) q)]
  rfl

theorem gicrPpiSetTrigger_run (e : Bool) : gicrPpiSetTrigger B cpu (some p) e s =
    .ok 0 (s.wrote .trigger (s.gicr cpu).gicrSgiRegs i (if e then 1 else 0)) := by
  unfold gicrPpiSetTrigger
  rw [ppi_enter hcpu hp hlow hi, hp, bind_get,
    ppi_trigger_addr _ _ hlow hi, ppi_trigger_off (s.gicr cpu).gicrSgiRegs i hlow hi,
    bind_run (updateTrigger_run hb (by omega) (by cases e <;> decide))]
  rfl

theorem gicrPpiSetGroup_run (g : BitVec 8) : gicrPpiSetGroup B cpu (some p) g s =
    .ok 0 (s.wrote .group (s.gicr cpu).gicrSgiRegs i (if g != 0 then 1#32 else 0#32)) := by
  unfold gicrPpiSetGroup
  rw [ppi_enter hcpu hp hlow hi, hp, bind_get,
    group_addr_zero _ i hi, bit_off (s.gicr cpu).gicrSgiRegs i (f := .group) rfl,
    bind_run (updateBit_run hb (by decide) rfl (by omega) _)]
  rfl

/-- An operation of `g_ppi_intr_ops`. -/
theorem ppi_run (op : IntrOp) :
    intrOp B cpu .ppi op (some p) s = (opWait B cpu .ppi op >>= fun _ => pure 0)
    (s.wrote (opField .ppi op).1 (s.gicr cpu).gicrSgiRegs i (opField .ppi op).2) := by
  cases op with
  | setIntr =>
    rw [intrOp, gicrSetPpi, gicrSetClearPpi_run hcpu hp hlow hi]
    rfl
  | clearIntr =>
    rw [intrOp, gicrClearPpi, gicrSetClearPpi_run hcpu hp hlow hi]
    rfl
  | setPriority q =>
    rw [intrOp, gicrPpiSetPriority_run hcpu hb hp hlow hi]
    rfl
  | setTrigger e =>
    rw [intrOp, gicrPpiSetTrigger_run hcpu hb hp hlow hi]
    rfl
  | setGroup g =>
    rw [intrOp, gicrPpiSetGroup_run hcpu hb hp hlow hi]
    rfl

end Ppi

section Sgi
variable {p : IrqRef} (hcpu : cpu < B.nrCpu) (hb : FrameBase (s.gicr cpu).gicrSgiRegs)
  (hp : (s.ctxs p).intid.toNat = i) (hi : i ≤ 15)
include hcpu hb hp hi

omit hcpu hb hp in
theorem sgi_check : checkSgiIntid i = false := by
  simp only [checkSgiIntid, gt_iff_lt, decide_eq_false_iff_not]
  omega

omit hb hp in
theorem gicrSetClearSgi_run (set : Bool) :
    gicrSetClearSgi B cpu i set s =
      ((if set then pure () else gicrWaitRwp B cpu : GicOfM ρ Unit) >>= fun _ => pure 0)
      (s.wrote .enable (s.gicr cpu).gicrSgiRegs i (if set then 1#32 else 0#32)) := by
  unfold gicrSetClearSgi
  rw [bind_run (getThisGicr_run hcpu), sgi_check hi, if_neg (by simp), bind_get,
    shift_five_zero i (by omega), enable_set_addr, enable_clear_addr,
    bit_off (s.gicr cpu).gicrSgiRegs i (f := .enable) rfl]
  exact bind_run_eq (setClearBit_run _ _ set _)

omit hb in
theorem gicrSetOrClearSgi_run (set : Bool) :
    gicrSetOrClearSgi B cpu (some p) set s =
      ((if set then pure () else gicrWaitRwp B cpu : GicOfM ρ Unit) >>= fun _ => pure 0)
        (s.wrote .enable (s.gicr cpu).gicrSgiRegs i (if set then 1#32 else 0#32)) := by
  rw [← gicrSetClearSgi_run hcpu hi set, ← hp]
  have hcheck := sgi_check hi
  rw [← hp] at hcheck
  unfold gicrSetOrClearSgi
  rw [if_neg (by simp)]
  show (derefCtx (some p) >>= _) s = _
  rw [bind_run derefCtx_run, hcheck]
  rfl

omit [RegWords ρ] hb in
/-- So do two functions of `sgi.c`; the others get at them in another order. -/
theorem sgi_enter (f : Nat → IrqContext → GicOfM ρ Int) :
    (getThisGicr B cpu >>= fun k => derefCtx (some p) >>= fun c =>
      if checkSgiIntid c.intid.toNat then pure (-EINVAL) else f k c) s = f cpu (s.ctxs p) s := by
  rw [bind_run (getThisGicr_run hcpu), bind_run derefCtx_run, hp, sgi_check hi, if_neg (by simp)]

theorem gicrSgiSetPriority_run (q : BitVec 8) : gicrSgiSetPriority B cpu (some p) q s =
    .ok 0 (s.wrote .priority (s.gicr cpu).gicrSgiRegs i (q.setWidth 32)) := by
  unfold gicrSgiSetPriority
  rw [sgi_enter hcpu hp hi, hp, bind_get, priority_addr, priority_off (s.gicr cpu).gicrSgiRegs,
    bind_run (updatePriority_run hb (by omega) q)]
  rfl

theorem gicrSgiSetTrigger_run (e : Bool) : gicrSgiSetTrigger B cpu (some p) e s =
    .ok 0 (s.wrote .trigger (s.gicr cpu).gicrSgiRegs i (if e then 1 else 0)) := by
  unfold gicrSgiSetTrigger
  rw [sgi_enter hcpu hp hi, hp, bind_get,
    sgi_trigger_addr _ _ hi, trigger_off (s.gicr cpu).gicrSgiRegs,
    bind_run (updateTrigger_run hb (by omega) (by cases e <;> decide))]
  rfl

theorem gicrSgiSetGroup_run (g : BitVec 8) : gicrSgiSetGroup B cpu (some p) g s =
    .ok 0 (s.wrote .group (s.gicr cpu).gicrSgiRegs i (if g != 0 then 1#32 else 0#32)) := by
  unfold gicrSgiSetGroup
  rw [bind_run derefCtx_run, hp, sgi_check hi, if_neg (by simp), bind_run (getThisGicr_run hcpu),
    bind_get, group_addr_zero _ i (by omega), bit_off (s.gicr cpu).gicrSgiRegs i (f := .group) rfl,
    bind_run (updateBit_run hb (by decide) rfl (by omega) _)]
  rfl

/-- An operation of `g_sgi_intr_ops`. -/
theorem sgi_run (op : IntrOp) :
    intrOp B cpu .sgi op (some p) s = (opWait B cpu .sgi op >>= fun _ => pure 0)
    (s.wrote (opField .sgi op).1 (s.gicr cpu).gicrSgiRegs i (opField .sgi op).2) := by
  cases op with
  | setIntr =>
    rw [intrOp, gicrSetSgi, gicrSetOrClearSgi_run hcpu hp hi]
    rfl
  | clearIntr =>
    rw [intrOp, gicrClearSgi, gicrSetOrClearSgi_run hcpu hp hi]
    rfl
  | setPriority q =>
    rw [intrOp, gicrSgiSetPriority_run hcpu hb hp hi]
    rfl
  | setTrigger e =>
    rw [intrOp, gicrSgiSetTrigger_run hcpu hb hp hi]
    rfl
  | setGroup g =>
    rw [intrOp, gicrSgiSetGroup_run hcpu hb hp hi]
    rfl

end Sgi

/-- **An operation on an interrupt** writes one of its fields, and waits after a clear. -/
theorem intrOp_wrote {p : IrqRef} (hm : s.Mapped B cpu) (hp : (s.ctxs p).intid.toNat = i)
    (hi : i ≤ 1019) (op : IntrOp) :
    intrOp B cpu (irqClass i) op (some p) s = (opWait B cpu (irqClass i) op >>= fun _ => pure 0)
      (s.wrote (opField (irqClass i) op).1 (s.frame cpu i) i (opField (irqClass i) op).2) := by
  have hb := hm.frameBase i
  by_cases hspi : 32 ≤ i
  · have hframe : s.frame cpu i = s.gicd.gicdRegs := if_neg (by omega)
    rw [hframe] at hb ⊢
    rw [irqClass_spi hspi]
    exact spi_run hb hspi hi hp op
  · have hframe : s.frame cpu i = (s.gicr cpu).gicrSgiRegs := if_pos (by omega)
    rw [hframe] at hb ⊢
    by_cases hsgi : i ≤ 15
    · rw [irqClass_sgi hsgi]
      exact sgi_run hm.cpu_lt hb hp hsgi op
    · rw [irqClass_ppi (by omega) (by omega)]
      exact ppi_run hm.cpu_lt hb hp (by omega) (by omega) op

/-- The device register that an operation polls, and the bit it polls for. -/
def GicOf.opPoll {ρ : Type} (s : GicOf ρ) (cpu : Nat) : IrqClass → IntrOp → Option (Nat × BitVec 32)
  | .spi, .clearIntr => some (gicdStatusr gicdBase, 1#32 <<< 31)
  | _, .clearIntr => some (gicrCtlr (s.gicr cpu).gicrRegs, 1#32 <<< 3)
  | _, _ => none

/-- A poll takes the read counts to `reads'`. -/
def Polled (B : GicBoard) : Option (Nat × BitVec 32) → (Nat → Nat) → (Nat → Nat) → Prop
  | none, reads, reads' => reads' = reads
  | some (a, m), reads, reads' =>
    ∃ k, pollCount (B.device a) m B.fuel (reads a) = some k ∧ reads' = Function.update reads a k

theorem opWait_ok_iff (hm : s.Mapped B cpu) (c : IrqClass) (op : IntrOp) {u : Unit} :
    opWait B cpu c op s = .ok u s' ↔ ∃ reads, Polled B (s.opPoll cpu c op) s.reads reads ∧
      s' = { s with reads := reads } := by
  obtain ⟨k, hk, -⟩ := hm.gicr
  have hpure : (pure () : GicOfM ρ Unit) s = .ok u s' ↔
      ∃ reads, reads = s.reads ∧ s' = { s with reads := reads } := by
    constructor
    · intro h
      cases h
      exact ⟨_, rfl, rfl⟩
    · rintro ⟨_, rfl, rfl⟩
      rfl
  have hpoll : ∀ a m, (∃ n, pollCount (B.device a) m B.fuel (s.reads a) = some n ∧
      s' = { s with reads := Function.update s.reads a n }) ↔
      ∃ reads, Polled B (some (a, m)) s.reads reads ∧ s' = { s with reads := reads } := by
    intro a m
    constructor
    · rintro ⟨n, hn, rfl⟩
      exact ⟨_, ⟨n, hn, rfl⟩, rfl⟩
    · rintro ⟨_, ⟨n, hn, rfl⟩, rfl⟩
      exact ⟨n, hn, rfl⟩
  cases op with
  | clearIntr =>
    cases c with
    | spi => exact (gicdWaitRwp_ok_iff hm.gicd).trans (hpoll _ _)
    | ppi | sgi => exact (gicrWaitRwp_ok_iff hm.cpu_lt hk).trans (hpoll _ _)
  | setIntr | setPriority | setTrigger | setGroup => cases c <;> exact hpure

theorem GicOf.Mapped.wrote (hm : s.Mapped B cpu) (f : IrqField) (base i : Nat) (v : BitVec 32) :
    (s.wrote f base i v).Mapped B cpu :=
  ⟨hm.cpu_lt, hm.gicd, hm.gicr⟩

/-- The state with device registers read. -/
def GicOf.polled {ρ : Type} (s : GicOf ρ) (reads : Nat → Nat) : GicOf ρ := { s with reads := reads }

/-- It returns `0`, has written one field, and has polled after a clear. -/
theorem intrOp_wrote_iff {p : IrqRef} (hm : s.Mapped B cpu) (hp : (s.ctxs p).intid.toNat = i)
    (hi : i ≤ 1019) (op : IntrOp) {r : Int} :
    intrOp B cpu (irqClass i) op (some p) s = .ok r s' ↔ r = 0 ∧
      ∃ reads, Polled B (s.opPoll cpu (irqClass i) op) s.reads reads ∧
        s' = (s.wrote (opField (irqClass i) op).1 (s.frame cpu i) i
          (opField (irqClass i) op).2).polled reads := by
  have hm' := hm.wrote (opField (irqClass i) op).1 (s.frame cpu i) i (opField (irqClass i) op).2
  rw [intrOp_wrote hm hp hi, bind_ok_iff]
  constructor
  · rintro ⟨_, t, hwait, hret⟩
    cases hret
    exact ⟨rfl, (opWait_ok_iff hm' _ _).mp hwait⟩
  · rintro ⟨rfl, h⟩
    exact ⟨(), s', (opWait_ok_iff hm' _ _).mpr h, rfl⟩

/-- An operation other than a clear returns, having written. -/
theorem intrOp_wrote_returns {p : IrqRef} (hm : s.Mapped B cpu) (hp : (s.ctxs p).intid.toNat = i)
    (hi : i ≤ 1019)
    (op : IntrOp) (hop : op ≠ .clearIntr) : intrOp B cpu (irqClass i) op (some p) s =
      .ok 0 (s.wrote (opField (irqClass i) op).1 (s.frame cpu i) i
        (opField (irqClass i) op).2) := by
  have hwait : (opWait B cpu (irqClass i) op : GicOfM ρ Unit) = pure () := by
    cases op <;> first | exact absurd rfl hop | (cases irqClass i <;> rfl)
  rw [intrOp_wrote hm hp hi, hwait]
  rfl

/-! ## On the words as they are -/

section

variable {s s' : Gic} {f : IrqField}

/-- The state with a field put. -/
def Gic.put (s : Gic) (q : Field) (v : BitVec 32) : Gic := { s with regs := q.put v s.regs }

/-- The state with a field put and device registers read. -/
def Gic.putPolled (s : Gic) (q : Field) (v : BitVec 32) (reads : Nat → Nat) : Gic :=
  { s with regs := q.put v s.regs, reads := reads }

theorem GicOf.Mapped.putPolled (hm : s.Mapped B cpu) (q : Field) (v : BitVec 32)
    (reads : Nat → Nat) :
    (s.putPolled q v reads).Mapped B cpu :=
  ⟨hm.cpu_lt, hm.gicd, hm.gicr⟩

theorem GicOf.Mapped.put (hm : s.Mapped B cpu) (q : Field) (v : BitVec 32) :
    (s.put q v).Mapped B cpu :=
  ⟨hm.cpu_lt, hm.gicd, hm.gicr⟩

/-- The write of a field puts it. -/
theorem Gic.wrote_eq_put (hb : FrameBase base) (hi : i ≤ 1019) {v : BitVec 32}
    (hv : v &&& Field.ones 32 f.width = v) : s.wrote f base i v = s.put (f.field base i) v := by
  have hwords : (s.wrote f base i v).words = (f.field base i).put v s.words :=
    GicOf.words_wrote hb hi hv
  show { s with regs := (s.wrote f base i v).words } = s.put (f.field base i) v
  rw [hwords]
  rfl

theorem opField_fits (c : IrqClass) (op : IntrOp) :
    (opField c op).2 &&& Field.ones 32 (opField c op).1.width = (opField c op).2 := by
  cases op with
  | setIntr | clearIntr => cases c <;> decide
  | setPriority q => exact Field.setWidth_and_ones q
  | setTrigger e => cases c <;> cases e <;> decide
  | setGroup g =>
    rw [opField]
    generalize (g != 0) = b
    cases b <;> cases c <;> decide

theorem GicOf.Mapped.wrote_eq_put (hm : s.Mapped B cpu) (hi : i ≤ 1019) (c : IrqClass)
    (op : IntrOp) :
    s.wrote (opField c op).1 (s.frame cpu i) i (opField c op).2 =
      s.put (s.field cpu (opField c op).1 i) (opField c op).2 :=
  Gic.wrote_eq_put (hm.frameBase i) hi (opField_fits c op)

/-- **What an operation does**: it returns `0`, has put one field, and has polled after a clear. -/
theorem intrOp_ok_iff {p : IrqRef} (hm : s.Mapped B cpu) (hp : (s.ctxs p).intid.toNat = i)
    (hi : i ≤ 1019) (op : IntrOp) {r : Int} :
    intrOp B cpu (irqClass i) op (some p) s = .ok r s' ↔ r = 0 ∧
      ∃ reads, Polled B (s.opPoll cpu (irqClass i) op) s.reads reads ∧
        s' = s.putPolled (s.field cpu (opField (irqClass i) op).1 i)
          (opField (irqClass i) op).2 reads := by
  rw [intrOp_wrote_iff hm hp hi, hm.wrote_eq_put hi]
  rfl

end

end ZHyper
