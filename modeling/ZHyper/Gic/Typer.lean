import ZHyper.Gic.Init

/-!
# `GICR_TYPER`

The register has 64 bits, with the affinity in the upper half.  `gicr_init` reads it with `read32`,
into a `uint64_t` whose upper half is zero from then on: the processor number is decoded, the
affinity is zero whatever the redistributor has.

    the contexts hold the affinities of two values  ↔  both are zero            (typer_decode_iff)
-/

namespace ZHyper

open LowLevel

/-- `&gicr_regs->typer` -/
def gicrTyper (gicr : Nat) : Nat := gicr + 8

/-- `GICR_TYPER` of the redistributor of CPU `cpuId` is `T`, in the two words that it takes. -/
def GicBoard.Presents (B : GicBoard) (cpuId : BitVec 32) (T : BitVec 64) : Prop :=
  ∀ n, B.device (gicrTyper (gicrFrame cpuId)) n = T.setWidth 32 ∧
    B.device (gicrTyper (gicrFrame cpuId) + 4) n = T.extractLsb' 32 32

/-- A context that `gicr_init` leaves where `GICR_TYPER` is `T`. -/
def Initialised (T : BitVec 64) (c : GicrContext) : Prop :=
  ∃ B cpu k cpuId s r s', GicBoard.Presents B cpuId T ∧ gicrInit B cpu k cpuId s = .ok r s' ∧
    s'.gicr k = c

/-- Bits 63:32 -/
def affinityOf (T : BitVec 64) : BitVec 32 := T.extractLsb' 32 32

/-- Bits 23:8 -/
def processorNumberOf (T : BitVec 64) : BitVec 16 := T.extractLsb' 8 16

/-- The context holds what the register has. -/
def DecodesTyper (T : BitVec 64) : Prop :=
  ∀ c, Initialised T c → c.affinity = affinityOf T ∧ c.processorNumber = processorNumberOf T

/-- Values with different affinities give different contexts. -/
def TellsApart (T T' : BitVec 64) : Prop :=
  affinityOf T ≠ affinityOf T' → ∀ c c', Initialised T c → Initialised T' c' →
    c.affinity ≠ c'.affinity

variable {B : GicBoard} {cpu k : Nat} {cpuId : BitVec 32} {T T' : BitVec 64} {s s' : Gic}
    {c : GicrContext} {P : Gic → Prop}

/-! ## The fields -/

/-- The fields of the type are those of the value `t`. -/
def GicrContext.HasType (c : GicrContext) (t : BitVec 64) : Prop := c.withTyper t = c

/-- From all 64 bits the decoding is right. -/
theorem GicrContext.HasType.affinity {t : BitVec 64} (h : c.HasType t) :
    c.affinity = affinityOf t := by
  have hfield : c.affinity = (Field.extract 32 32 t).setWidth 32 :=
    (congrArg GicrContext.affinity h).symm
  rw [hfield]
  exact Field.extract_setWidth 32 32 t

theorem GicrContext.HasType.processorNumber {t : BitVec 64} (h : c.HasType t) :
    c.processorNumber = processorNumberOf t := by
  have hfield : c.processorNumber = (Field.extract 8 16 t).setWidth 16 :=
    (congrArg GicrContext.processorNumber h).symm
  rw [hfield]
  exact Field.extract_setWidth 8 16 t

/-- What is left of the register in a word. -/
def lowWord (T : BitVec 64) : BitVec 64 := (T.setWidth 32).setWidth 64

theorem affinityOf_lowWord (T : BitVec 64) : affinityOf (lowWord T) = 0 := by
  apply BitVec.eq_of_getLsbD_eq
  intro i hi
  rw [affinityOf, lowWord, BitVec.getLsbD_extractLsb', BitVec.getLsbD_setWidth,
    BitVec.getLsbD_of_ge _ _ (by omega)]
  simp

theorem processorNumberOf_lowWord (T : BitVec 64) :
    processorNumberOf (lowWord T) = processorNumberOf T := by
  apply BitVec.eq_of_getLsbD_eq
  intro i hi
  have hlow : 8 + i < 32 := by omega
  have hword : 8 + i < 64 := by omega
  rw [processorNumberOf, processorNumberOf, lowWord, BitVec.getLsbD_extractLsb',
    BitVec.getLsbD_extractLsb', BitVec.getLsbD_setWidth, BitVec.getLsbD_setWidth]
  simp [hi, hlow, hword]

/-! ## `gicr_init` -/

/-- What is said of the type of a context is kept by the accesses, and by the updates of the other
fields. -/
theorem hasType_ofContexts (k : Nat) (t : BitVec 64) : OfContexts fun s => (s.gicr k).HasType t :=
  fun _ _ _ hs => hs

theorem read32_keeps (hP : OfContexts P) (a : Nat) : Keeps P (read32 B a) := by
  intro s v s' hs h
  by_cases ha : DeviceReg a
  · rw [read32_device ha] at h
    cases h
    exact hP s s.regs _ hs
  · rw [read32_run ha] at h
    cases h
    exact hs

theorem write32_keeps (hP : OfContexts P) (a : Nat) (v : BitVec 32) : Keeps P (write32 a v) :=
  Keeps.modify fun s hs => hP s _ s.reads hs

theorem pollWhile_keeps {test : GicM Bool} (htest : Keeps P test) (n : Nat) :
    Keeps P (pollWhile test n) := by
  induction n with
  | zero => exact Keeps.throw _
  | succ n ih => exact htest.bind fun _ => Keeps.ite ih (Keeps.pure ())

theorem gicrWaitRwp_keeps (hP : OfContexts P) : Keeps P (gicrWaitRwp B cpu) := by
  have htest : ∀ k, Keeps P (gicrRwp B k) := fun _ =>
    Keeps.get.bind fun _ => (read32_keeps hP _).bind fun _ => Keeps.pure _
  have hcpu : Keeps P (getThisGicr B cpu) := Keeps.ite (Keeps.throw _) (Keeps.pure _)
  unfold gicrWaitRwp
  refine hcpu.bind fun k => Keeps.get.bind fun s => ?_
  exact Keeps.ite (Keeps.throw _) (pollWhile_keeps (htest k) _)

theorem gicrWake_keeps (hP : OfContexts P) (k : Nat) : Keeps P (gicrWake B k) := by
  have htest : Keeps P (gicrAsleep B k) := Keeps.get.bind fun _ => (read32_keeps hP _).bind fun _ =>
    Keeps.pure _
  unfold gicrWake
  refine Keeps.get.bind fun s => (read32_keeps hP _).bind fun waker => ?_
  exact Keeps.ite ((write32_keeps hP _ _).bind fun _ => pollWhile_keeps htest _) (Keeps.pure ())

/-- The frame of a redistributor; the product wraps. -/
theorem gicrFrame_eq (cpuId : BitVec 32) : ∃ c, gicrFrame cpuId = gicrBase + gicrStride * c := by
  refine ⟨cpuId.toNat % 2 ^ 15, ?_⟩
  rw [gicrFrame, BitVec.toNat_mul, BitVec.toNat_ofNat]
  unfold gicrStride
  omega

/-- An update that sets the type, or keeps it. -/
theorem updateGicr_hasType {t : BitVec 64} {f : GicrContext → GicrContext} {u : Unit}
    (hf : (f (s.gicr k)).HasType t)
    (h : updateGicr k f s = .ok u s') : (s'.gicr k).HasType t := by
  cases h
  show (Function.update s.gicr k (f (s.gicr k)) k).HasType t
  rwa [Function.update_self]

/-- **`gicr_init`** leaves the type that the low word of the register says. -/
theorem gicrInit_hasType (hT : B.Presents cpuId T) {r : Int}
    (h : gicrInit B cpu k cpuId s = .ok r s') :
    (s'.gicr k).HasType (lowWord T) := by
  have hP := hasType_ofContexts k (lowWord T)
  have htyper : DeviceReg (gicrFrame cpuId + 8) := by
    obtain ⟨c, hc⟩ := gicrFrame_eq cpuId
    rw [hc]
    exact deviceReg_gicr c 8 (by decide)
  have hword : ∀ n, B.device (gicrFrame cpuId + 8) n = T.setWidth 32 := fun n => (hT n).1
  unfold gicrInit at h
  obtain ⟨_, s₁, hframes, h⟩ := bind_ok_iff.mp h
  have hregs : (s₁.gicr k).gicrRegs = gicrFrame cpuId := by
    cases hframes
    exact congrArg GicrContext.gicrRegs (Function.update_self k _ s.gicr)
  rw [bind_get, hregs, bind_run (read32_device htyper), hword] at h
  obtain ⟨_, s₂, htype, h⟩ := bind_ok_iff.mp h
  have hs₂ : (s₂.gicr k).HasType (lowWord T) :=
    updateGicr_hasType (f := fun c => c.withTyper (lowWord T)) rfl htype
  obtain ⟨_, s₃, hcpuId, h⟩ := bind_ok_iff.mp h
  have hs₃ : (s₃.gicr k).HasType (lowWord T) := by
    refine updateGicr_hasType ?_ hcpuId
    exact congrArg (fun c =>
      { c with cpuId := cpuId, enableLpi := false, dpg0 := false, dpg1s := false, dpg1ns := false })
      hs₂
  -- what is left writes registers and polls
  refine Keeps.bind (gicrWake_keeps hP k) (fun _ => ?_) s₃ r s' hs₃ h
  refine Keeps.get.bind fun s => (write32_keeps hP _ _).bind fun _ =>
    (gicrWaitRwp_keeps hP).bind fun _ => ?_
  refine (write32_keeps hP _ _).bind fun _ => (write32_keeps hP _ _).bind fun _ =>
    (write32_keeps hP _ _).bind fun _ => ?_
  exact (gicrWaitRwp_keeps hP).bind fun _ => Keeps.pure 0

theorem Initialised.hasType (h : Initialised T c) : c.HasType (lowWord T) := by
  obtain ⟨B, cpu, k, cpuId, s, r, s', hT, hrun, rfl⟩ := h
  exact gicrInit_hasType hT hrun

/-- The affinity is lost, whatever it is. -/
theorem Initialised.affinity (h : Initialised T c) : c.affinity = 0 :=
  h.hasType.affinity.trans (affinityOf_lowWord T)

theorem Initialised.processorNumber (h : Initialised T c) :
    c.processorNumber = processorNumberOf T :=
  h.hasType.processorNumber.trans (processorNumberOf_lowWord T)

/-! ## Every value occurs -/

/-- Boards with `T` in `GICR_TYPER` of the first redistributor; the other device registers read as
zero. -/
def typerBoard (T : BitVec 64) : GicBoard :=
  ⟨1, fun a _ => if a = gicrTyper gicrBase then T.setWidth 32
    else if a = gicrTyper gicrBase + 4 then affinityOf T else 0, 1⟩

theorem typerBoard_presents (T : BitVec 64) : (typerBoard T).Presents 0 T := by
  have hframe : gicrFrame 0#32 = gicrBase := by decide
  intro n
  simp [hframe, typerBoard, affinityOf]

theorem typerBoard_boots (T : BitVec 64) : (typerBoard T).Boots := by
  have hclear : ∀ a k m, a ≠ gicrTyper gicrBase → a ≠ gicrTyper gicrBase + 4 →
      (typerBoard T).device a k &&& m = 0 := by
    intro a k m h1 h2
    have hzero : (typerBoard T).device a k = 0 := (if_neg h1).trans (if_neg h2)
    rw [hzero]
    exact BitVec.zero_and
  have hgicd := fun k m => hclear (gicdStatusr gicdBase) k m (by decide) (by decide)
  refine ⟨⟨fun _ => ⟨0, Nat.one_pos, hgicd _ _⟩, fun c n => ⟨0, Nat.one_pos, ?_⟩⟩, fun c n =>
    ⟨0, Nat.one_pos, ?_⟩⟩
  · apply hclear <;> unfold gicrTyper gicrCtlr gicrBase gicrStride <;> omega
  · apply hclear <;> unfold gicrTyper gicrWaker gicrBase gicrStride <;> omega

theorem initialised_exists (T : BitVec 64) : ∃ c, Initialised T c := by
  have hboot :
      BootInv []
      { coldGic with gicd := { GicdContext.zero with gicdRegs := gicdBase }, once := 1 } :=
    ⟨fun _ => rfl, fun j hj => (by cases hj), fun _ => Int.one_ne_zero, fun _ => rfl⟩
  obtain ⟨r, s', hrun, -⟩ :=
    (gicrInit_ends Nat.one_pos).returns (typerBoard_boots T) ⟨hboot, Int.one_ne_zero⟩
  exact ⟨s'.gicr 0, typerBoard T, 0, 0, 0, _, r, s', typerBoard_presents T, hrun, rfl⟩

/-! ## When the context is right -/

theorem decodesTyper_iff (T : BitVec 64) : DecodesTyper T ↔ affinityOf T = 0 := by
  constructor
  · intro h
    obtain ⟨c, hc⟩ := initialised_exists T
    rw [← (h c hc).1]
    exact hc.affinity
  · intro hzero c hc
    exact ⟨hc.affinity.trans hzero.symm, hc.processorNumber⟩

theorem tellsApart_iff (T T' : BitVec 64) : TellsApart T T' ↔ affinityOf T = affinityOf T' := by
  constructor
  · intro h
    by_contra hne
    obtain ⟨c, hc⟩ := initialised_exists T
    obtain ⟨c', hc'⟩ := initialised_exists T'
    exact h hne c c' hc hc' (hc.affinity.trans hc'.affinity.symm)
  · intro heq hne
    exact absurd heq hne

/-- **The type is decoded faithfully just when there is no affinity**; the processor number always
is, and contexts never tell affinities apart. -/
theorem typer_decode_iff (T T' : BitVec 64) :
    (DecodesTyper T ∧ DecodesTyper T' ∧ TellsApart T T' ↔ affinityOf T = 0 ∧ affinityOf T' = 0) ∧
      (TellsApart T T' ↔ affinityOf T = affinityOf T') ∧
      (∃ c, Initialised T c) ∧ ∀ c, Initialised T c →
      c.affinity = 0 ∧ c.processorNumber = processorNumberOf T := by
  refine ⟨⟨?_, ?_⟩, tellsApart_iff T T', initialised_exists T, fun c hc =>
    ⟨hc.affinity, hc.processorNumber⟩⟩
  · rintro ⟨h, h', -⟩
    exact ⟨(decodesTyper_iff T).mp h, (decodesTyper_iff T').mp h'⟩
  · rintro ⟨h, h'⟩
    exact ⟨(decodesTyper_iff T).mpr h, (decodesTyper_iff T').mpr h',
      (tellsApart_iff T T').mpr (h.trans h'.symm)⟩

/-- The second CPU's redistributor, with affinity 0.0.0.1 and processor number 1. -/
theorem typer_loses_affinity :
    affinityOf 0x100000100 = 1 ∧
      (∃ c, Initialised 0x100000100 c ∧ c.affinity = 0 ∧ c.processorNumber = 1) ∧
      ¬ DecodesTyper 0x100000100 ∧ ¬ TellsApart 0x100000100 0 := by
  obtain ⟨c, hc⟩ := initialised_exists 0x100000100
  refine ⟨by decide, ⟨c, hc, hc.affinity,
    hc.processorNumber.trans (by decide)⟩, fun h => ?_, fun h => ?_⟩
  · exact absurd ((decodesTyper_iff _).mp h) (by decide)
  · exact absurd ((tellsApart_iff _ _).mp h) (by decide)

end ZHyper
