import ZHyper.Gic.Quiesce
import ZHyper.Gic.Typer

/-!
# What bring-up leaves enabled

`gicd_init` quiesces the SPIs and `gicr_init` the SGIs and PPIs of its redistributor.  However often
and in whatever order the CPUs run `plat_gicv3_init`, afterwards

    no interrupt that is implemented is enabled, pending or active,
    and every CPU that ran it takes interrupts of group 1 of any priority        (bring_up_quiets)
-/

namespace ZHyper

open LowLevel

/-- The SGI frame of the first redistributor. -/
def firstSgiFrame : Nat := gicrBase + 0x10000

/-- After CPUs `done` ran `plat_gicv3_init` from `s₀`. -/
structure GicUp (B : GicBoard) (s₀ : Gic) (done : List Nat) (s : Gic) : Prop where
  boot : BootInv done s
  once : s.once ≠ 0
  lines : s.gicd.itlinesnumber.toNat = itLinesNumber B s₀
  /-- The distributor forwards group 1 and not group 0. -/
  ctlr : s.regs gicdBase = 0b10
  spis : ∀ i, 32 ≤ i → i < 32 * (itLinesNumber B s₀ + 1) → QuietAt s.regs gicdBase i
  banked : ∀ i < 32, QuietAt s.regs firstSgiFrame i
  icc : ∀ j, s.icc j = if j ∈ done then (s₀.icc j).enabled else s₀.icc j
  ctxs : s.ctxs = s₀.ctxs

variable {B : GicBoard} {cpu : Nat} {done : List Nat} {s s₀ s' : Gic} {P : Gic → Prop}

/-! ## The distributor -/

theorem gicdWaitRwp_keeps (hP : OfContexts P) : Keeps P (gicdWaitRwp B) := by
  have hchecked : Keeps P gicdRegsChecked :=
    Keeps.get.bind fun _ => Keeps.ite (Keeps.throw _) (Keeps.pure _)
  have htest : Keeps P (gicdRwp B) := hchecked.bind fun _ => (read32_keeps hP _).bind fun _ =>
    Keeps.pure _
  exact hchecked.bind fun _ => pollWhile_keeps htest _

theorem gicdQuiesce_keeps (hP : OfContexts P) (n i : Nat) : Keeps P (gicdQuiesce B n i) := by
  induction n generalizing i with
  | zero => exact Keeps.pure ()
  | succ n ih =>
    refine (write32_keeps hP _ _).bind fun _ => (write32_keeps hP _ _).bind fun _ =>
      (write32_keeps hP _ _).bind fun _ => ?_
    exact (gicdWaitRwp_keeps hP).bind fun _ => ih (i + 1)

/-- The parts of the state that `gicd_init` does not write. -/
def SameCpus (s s' : Gic) : Prop := s'.gicr = s.gicr ∧ s'.ctxs = s.ctxs ∧ s'.icc = s.icc ∧
    s'.once = s.once

theorem gicdInit_sameCpus {r : Int} (h : gicdInit B s = .ok r s') : SameCpus s s' := by
  have hP : OfContexts (SameCpus s) := fun _ _ _ ht => ht
  have hupdate (f : GicdContext → GicdContext) : Keeps (SameCpus s) (updateGicd f) :=
    Keeps.modify fun _ ht => ht
  refine Keeps.bind (hupdate _) (fun _ => ?_) s r s' ⟨rfl, rfl, rfl, rfl⟩ h
  refine (read32_keeps hP _).bind fun _ => (hupdate _).bind fun _ =>
    (read32_keeps hP _).bind fun _ => ?_
  refine (hupdate _).bind fun _ => (hupdate _).bind fun _ => Keeps.get.bind fun _ =>
    (write32_keeps hP _ _).bind fun _ => ?_
  refine (gicdWaitRwp_keeps hP).bind fun _ => (read32_keeps hP _).bind fun _ =>
    (hupdate _).bind fun _ => ?_
  exact Keeps.get.bind fun _ => (gicdQuiesce_keeps hP _ 0).bind fun _ =>
    (Keeps.pure ()).bind fun _ => Keeps.pure _

theorem identified_ctrl (c : GicdContext) (typer id : BitVec 32) :
    (c.identified typer id).ctrl = 0b10 := by
  show ((BitVec.ofBool false).setWidth 32 <<< 0) ||| ((BitVec.ofBool true).setWidth 32 <<< 1) |||
    ((BitVec.ofBool false).setWidth 32 <<< 4) = 0b10#32
  decide

/-- `gicd_init` returns `0` with the SPIs quiet, group 1 on, and the number of lines in its
context. -/
theorem gicdInit_quiets {r : Int} (h : gicdInit B s = .ok r s') :
    r = 0 ∧ (∀ i, 32 ≤ i → i < 32 * (itLinesNumber B s + 1) → QuietAt s'.regs gicdBase i) ∧
      s'.gicd.itlinesnumber.toNat = itLinesNumber B s ∧ s'.regs gicdBase = 0b10 := by
  have hlt := itLinesNumber_lt B s
  have hwaits := h
  rw [gicdInit_run] at hwaits
  obtain ⟨_, t₁, hwait, -⟩ := bind_ok_iff.mp hwaits
  obtain ⟨t, htregs, hregs, hlines, hloop⟩ := gicdInit_loop hwait
  rw [hloop] at h
  obtain ⟨_, t', hrun, hend⟩ := bind_ok_iff.mp h
  obtain ⟨rfl, rfl⟩ : 0 = r ∧ t' = s' := by
    cases hend
    exact ⟨rfl, rfl⟩
  have hkeeps : Keeps (fun v : Gic => v.gicd = t.gicd) (gicdQuiesce B (itLinesNumber B s) 0) :=
    gicdQuiesce_keeps (fun _ _ _ ht => ht) _ 0
  have hgicd : t'.gicd = t.gicd := hkeeps t () t' rfl hrun
  obtain ⟨hcleared, hkept⟩ := gicdQuiesce_ok hregs (by omega) hrun
  refine ⟨rfl, fun i hlow hhigh => ?_, ?_, ?_⟩
  · have hzero (a : Nat) (ha : LineWord (i / 32) a) : (t'.regs a).getLsbD (i % 32) = false := by
      rw [hcleared (i / 32) a (by omega) (by omega) ha]
      exact BitVec.getLsbD_zero
    exact ⟨hzero _ (.inl rfl), hzero _ (.inr (.inl rfl)), hzero _ (.inr (.inr rfl))⟩
  · rw [hgicd, hlines]
  · have hline : ∀ k, ¬ LineWord k gicdBase := by
      intro k hk
      unfold LineWord isenabler ispendr isactiver at hk
      omega
    rw [hkept _ fun k _ _ => hline k, htregs, Function.update_self]
    exact identified_ctrl ..

/-! ## A redistributor -/

/-- A write to the frames of a redistributor leaves all below them alone. -/
theorem written_below {b : Nat} (hb : gicrBase ≤ b) (r : Nat → BitVec 32) (v : BitVec 32) {a : Nat}
    (ha : a < gicrBase) :
    written r b v a = r a := by
  have hne : a ≠ b := by omega
  unfold written
  cases hoff : frameOffset b with
  | none => exact Function.update_of_ne hne _ _
  | some off =>
    unfold frameOffset at hoff
    rw [if_neg (by unfold gicdBase gicrBase at *; omega)] at hoff
    split_ifs at hoff with hframe
    obtain rfl : (b - gicrBase) % gicrStride - 0x10000 = off := Option.some.inj hoff
    dsimp only
    split_ifs with hset hodd
    · exact Function.update_of_ne hne _ _
    · -- the set register is in the same frame
      have hmod := Nat.mod_le (b - gicrBase) gicrStride
      exact Function.update_of_ne (by omega) _ _
    · exact Function.update_of_ne hne _ _

/-- What `gicr_init` on the first redistributor keeps: `gicd`, the contexts and all registers
below. -/
structure BelowKept (t : Gic) (cpu : Nat) (s : Gic) : Prop where
  gicd : s.gicd = t.gicd
  ctxs : s.ctxs = t.ctxs
  icc : s.icc = t.icc
  once : s.once = t.once
  regs : ∀ a < gicrBase, s.regs a = t.regs a
  frames : (s.gicr cpu).gicrRegs = gicrBase ∧ (s.gicr cpu).gicrSgiRegs = firstSgiFrame

/-- The words of the SGI frame that are cleared: those at `offs`. -/
def Cleared (offs : List Nat) (s : Gic) : Prop := ∀ off ∈ offs, s.regs (firstSgiFrame + off) = 0

theorem BelowKept.write {t : Gic} (h : BelowKept t cpu s) {b : Nat} (hb : gicrBase ≤ b)
    (v : BitVec 32) :
    BelowKept t cpu { s with regs := written s.regs b v } :=
  ⟨h.gicd, h.ctxs, h.icc, h.once, fun a ha => (written_below hb s.regs v ha).trans (h.regs a ha),
    h.frames⟩

theorem belowKept_ofRegisters (t : Gic) (cpu : Nat) : OfRegisters (BelowKept t cpu) :=
  fun _ _ hs => ⟨hs.gicd, hs.ctxs, hs.icc, hs.once, hs.regs, hs.frames⟩

/-- Whatever of a context is changed but its frames. -/
theorem updateGicr_below {t : Gic} {f : GicrContext → GicrContext}
    (hf : ∀ c, (f c).gicrRegs = c.gicrRegs ∧ (f c).gicrSgiRegs = c.gicrSgiRegs) :
    Ends B.Boots (BelowKept t cpu) (updateGicr cpu f) fun _ => BelowKept t cpu := by
  refine Ends.modify fun s hs => ⟨hs.gicd, hs.ctxs, hs.icc, hs.once, hs.regs, ?_⟩
  show (Function.update s.gicr cpu (f (s.gicr cpu)) cpu).gicrRegs = _ ∧
    (Function.update s.gicr cpu (f (s.gicr cpu)) cpu).gicrSgiRegs = _
  rw [Function.update_self, (hf _).1, (hf _).2]
  exact hs.frames

theorem gicrWake_below {t : Gic} : Ends B.Boots (BelowKept t cpu) (gicrWake B cpu) fun _ =>
    BelowKept t cpu := by
  have hP := belowKept_ofRegisters t cpu
  unfold gicrWake
  refine (Ends.get (Q := fun v s => BelowKept t cpu s ∧
    (v.gicr cpu).gicrRegs = gicrBase) fun s hs =>
    ⟨hs, hs.frames.1⟩).bind fun v => ?_
  intro s hs
  obtain ⟨hs, hregs⟩ := hs
  rw [hregs]
  refine ((read32_ends hP _).bind fun waker => ?_) s hs
  refine Ends.ite (fun _ => ?_) fun _ => Ends.pure fun _ hs => hs
  have hwrite (v : BitVec 32) :
      Ends B.Boots (BelowKept t cpu) (write32 (gicrWaker gicrBase) v) fun _ => BelowKept t cpu :=
    Ends.modify fun s hs => hs.write (Nat.le_add_right _ _) v
  refine (hwrite _).bind fun _ => ?_
  refine poll_ends (a := gicrWaker gicrBase) (m := 1#32 <<< 2) hP (fun s hs u s' => ?_) fun hB =>
    hB.wakes 0
  refine pollWhile_ok_iff fun reads => ?_
  unfold gicrAsleep
  rw [bind_get, hs.frames.1, bind_run (read32_device (by decide))]
  rfl

/-- All ones to the clear register at `a`, whose set register is at `off` in the SGI frame. -/
theorem write_clear {t : Gic} (offs : List Nat) (off : Nat) {a : Nat}
    (ha : a = firstSgiFrame + off + 0x80) (hoff : 0x100 ≤ off ∧ off < 0x400)
    (hset : off / 0x80 % 2 = 0) :
    Ends B.Boots (fun s => BelowKept t cpu s ∧ Cleared offs s) (write32 a 0xFFFFFFFF) fun _ s =>
      BelowKept t cpu s ∧ Cleared (off :: offs) s := by
  have hbase : FrameBase firstSgiFrame := .inr ⟨0, rfl⟩
  refine Ends.modify fun s hs => ⟨hs.1.write (by unfold firstSgiFrame at ha; omega) _, ?_⟩
  have hwritten : written s.regs a 0xFFFFFFFF = Function.update s.regs (firstSgiFrame + off) 0 := by
    have hzero : s.regs (firstSgiFrame + off) &&& ~~~(0xFFFFFFFF : BitVec 32) = 0 := BitVec.and_zero
    subst ha
    unfold written
    rw [Nat.add_assoc, hbase.frameOffset (by omega)]
    dsimp only
    rw [if_pos (by omega), if_neg (by omega), ← Nat.add_assoc, Nat.add_sub_cancel, hzero]
  intro o ho
  show written s.regs a 0xFFFFFFFF (firstSgiFrame + o) = 0
  rw [hwritten, Function.update_apply]
  split
  · rfl
  · next hne =>
    refine hs.2 o ((List.mem_cons.mp ho).resolve_left fun h => hne ?_)
    rw [h]

/-- **`gicr_init`** with CPU number zero quiesces the first redistributor. -/
theorem gicrInit_quiets (hcpu : cpu < B.nrCpu) (t : Gic) :
    Ends B.Boots (fun s => s = t) (gicrInit B cpu cpu 0) fun r s =>
      r = 0 ∧ BelowKept t cpu s ∧ ∀ i < 32, QuietAt s.regs firstSgiFrame i := by
  have hP := belowKept_ofRegisters t cpu
  have hregs : ∀ s, BelowKept t cpu s → (s.gicr cpu).gicrRegs = gicrBase := fun _ hs => hs.frames.1
  have hframe : gicrFrame 0#32 = gicrBase := by decide
  have hframes : Ends B.Boots (fun s => s = t) (updateGicr cpu fun c =>
      { c with gicrRegs := gicrFrame 0, gicrSgiRegs := gicrFrame 0 + 0x10000 }) fun _ =>
        BelowKept t cpu := by
    refine Ends.modify fun s hs => ?_
    subst hs
    refine ⟨rfl, rfl, rfl, rfl, fun _ _ => rfl, ?_⟩
    show (Function.update s.gicr cpu _ cpu).gicrRegs = _ ∧
      (Function.update s.gicr cpu _ cpu).gicrSgiRegs = _
    rw [Function.update_self]
    exact ⟨hframe, congrArg (· + 0x10000) hframe⟩
  have hget : Ends B.Boots (BelowKept t cpu) (get : GicM Gic) fun v s =>
      BelowKept t cpu s ∧ (v.gicr cpu).gicrRegs = gicrBase ∧
        (v.gicr cpu).gicrSgiRegs = firstSgiFrame :=
    Ends.get fun _ hs => ⟨hs, hs.frames⟩
  unfold gicrInit
  refine hframes.bind fun _ => hget.bind fun v => ?_
  rintro s ⟨hs, -⟩
  refine ((read32_ends hP _).bind fun typer => ?_) s hs
  refine (updateGicr_below (f := fun c => c.withTyper (typer.setWidth 64)) fun _ =>
    ⟨rfl, rfl⟩).bind fun _ => ?_
  refine Ends.bind (updateGicr_below ?_) fun _ => ?_
  · intro c
    exact ⟨rfl, rfl⟩
  refine gicrWake_below.bind fun _ => hget.bind fun v => ?_
  rintro s ⟨hs, hv, hv'⟩
  rw [hv, hv']
  refine (Ends.bind (Q := fun _ => BelowKept t cpu) ?_ fun _ => ?_) s hs
  · exact Ends.modify fun s hs => hs.write (Nat.le_refl _) 0
  refine (gicrWaitRwp_ends hP hcpu hregs).bind fun _ => ?_
  intro s hs
  refine ((write_clear [] 0x200 rfl (by decide) (by decide)).bind fun _ => ?_) s ⟨hs, nofun⟩
  refine (write_clear _ 0x300 rfl (by decide) (by decide)).bind fun _ => ?_
  refine (write_clear _ 0x100 rfl (by decide) (by decide)).bind fun _ => ?_
  have hPC : OfRegisters fun s => BelowKept t cpu s ∧ Cleared [0x100, 0x300, 0x200] s :=
    fun s reads hs => ⟨hP s reads hs.1, hs.2⟩
  refine (gicrWaitRwp_ends hPC hcpu fun s hs => hregs s hs.1).bind fun _ => ?_
  refine Ends.pure fun s hs => ⟨rfl, hs.1, fun i hi => ?_⟩
  have hzero (off : Nat) (hoff : off ∈ [0x100, 0x300, 0x200]) :
      (s.regs (firstSgiFrame + off + 4 * (i / 32))).getLsbD (i % 32) = false := by
    rw [Nat.div_eq_of_lt hi, Nat.mul_zero, Nat.add_zero, hs.2 off hoff]
    exact BitVec.getLsbD_zero
  exact ⟨hzero 0x100 (by simp), hzero 0x200 (by simp), hzero 0x300 (by simp)⟩

/-! ## A CPU, and all of them -/

theorem IccRegs.enabled_enabled (r : IccRegs) : r.enabled.enabled = r.enabled := by
  have hctlr (x m : BitVec 32) : (((x &&& m).setWidth 64).setWidth 32 &&& m).setWidth 64 =
      (x &&& m).setWidth 64 := by
    rw [BitVec.setWidth_setWidth_of_le _ (by decide), BitVec.setWidth_eq, BitVec.and_assoc,
      BitVec.and_self]
  unfold IccRegs.enabled
  rw [hctlr]

/-- `plat_gicv3_init` after `run_once`, on a CPU with number zero. -/
def platGicv3Rest (B : GicBoard) (cpu : Nat) : GicM Int := do
  let ret ← gicrInit B cpu cpu 0
  if ret < 0 then return ret
  modify fun s => { s with icc := Function.update s.icc cpu (s.icc cpu).enabled }
  return 0

theorem platGicv3Init_eq (hcpu : cpu < B.nrCpu)
    (hrun : OnceProg.runAlone (gicv3Init B) .runOnce s = .ok 0 s')
    (hs' : BootInv done s') : platGicv3Init B cpu s = platGicv3Rest B cpu s' := by
  unfold platGicv3Init platGicv3Rest
  rw [bind_run hrun, if_neg (by decide)]
  show (getThisGicr B cpu >>= _) s' = _
  rw [bind_run (getThisGicr_run hcpu), bind_get, hs'.cpuId]

/-- It quiesces the first redistributor and keeps the distributor. -/
theorem platGicv3Rest_ends (hcpu : cpu < B.nrCpu) {t : Gic} (hboot : BootInv done t)
    (honce : t.once ≠ 0) (hlines : t.gicd.itlinesnumber.toNat = itLinesNumber B s₀)
    (hctlr : t.regs gicdBase = 0b10)
    (hspis : ∀ i, 32 ≤ i → i < 32 * (itLinesNumber B s₀ + 1) → QuietAt t.regs gicdBase i)
    (hicc : ∀ j, t.icc j = if j ∈ done then (s₀.icc j).enabled else s₀.icc j)
    (hctxs : t.ctxs = s₀.ctxs) :
    Ends B.Boots (fun s => s = t) (platGicv3Rest B cpu) fun r s =>
      r = 0 ∧ GicUp B s₀ (cpu :: done) s := by
  rintro s rfl
  unfold platGicv3Rest
  rcases gicrInit_ends (B := B) hcpu s ⟨hboot, honce⟩ with ⟨r, s₁, hrun, rfl, hboot₁⟩ | ⟨hB, e, s₁,
    hrun⟩
  · obtain ⟨-, hbelow, hquiet⟩ := (gicrInit_quiets hcpu s).of_ok rfl hrun
    refine .inl ⟨0, { s₁ with icc := Function.update s₁.icc cpu (s₁.icc cpu).enabled }, ?_, rfl, ?_⟩
    · rw [bind_run hrun, if_neg (by decide)]
      rfl
    · refine ⟨⟨hboot₁.cpuId, hboot₁.regs, hboot₁.once, hboot₁.gicd⟩, ?_, ?_, ?_,
        fun i hlow hhigh => ?_, hquiet, fun j => ?_, ?_⟩
      · exact hbelow.once ▸ honce
      · exact hbelow.gicd ▸ hlines
      · exact (hbelow.regs gicdBase (by decide)).trans hctlr
      · have hword (off : Nat) (hoff : off + 4 * (i / 32) < 0x10000) :
            s₁.regs (gicdBase + off + 4 * (i / 32)) = s.regs (gicdBase + off + 4 * (i / 32)) := by
          refine hbelow.regs _ ?_
          unfold gicdBase gicrBase
          omega
        have hlt := itLinesNumber_lt B s₀
        obtain ⟨h1, h2, h3⟩ := hspis i hlow hhigh
        refine ⟨?_, ?_, ?_⟩
        · exact (congrArg (·.getLsbD (i % 32)) (hword 0x100 (by omega))).trans h1
        · exact (congrArg (·.getLsbD (i % 32)) (hword 0x200 (by omega))).trans h2
        · exact (congrArg (·.getLsbD (i % 32)) (hword 0x300 (by omega))).trans h3
      · show Function.update s₁.icc cpu (s₁.icc cpu).enabled j = _
        rw [Function.update_apply, hbelow.icc]
        by_cases hj : j = cpu
        · subst hj
          rw [if_pos rfl, if_pos List.mem_cons_self, hicc]
          split
          · exact IccRegs.enabled_enabled _
          · rfl
        · rw [if_neg hj, hicc]
          simp [hj]
      · exact hbelow.ctxs.trans hctxs
  · exact .inr ⟨hB, e, s₁, bind_fault hrun⟩

/-- The first CPU initialises the distributor. -/
theorem platGicv3Init_first (hcpu : cpu < B.nrCpu) (hs : BootInv [] s) (honce : s.once = 0) :
    Ends B.Boots (fun t => t = s) (platGicv3Init B cpu) fun r t => r = 0 ∧ GicUp B s [cpu] t := by
  intro v hv
  rw [hv]
  rcases runOnce_ends (B := B) [] s hs with ⟨_, s₁, hrun₁, rfl, hboot₁, honce₁⟩ | ⟨hB, e, t, hrun⟩
  · have hrun : OnceProg.runAlone (gicv3Init B) (.call .afterCall) s = .ok 0 s₁ :=
      (OnceProg.alone_first honce).symm.trans hrun₁
    obtain ⟨_, t, hinit, hend⟩ := bind_ok_iff.mp hrun
    obtain ⟨_, t₁, hgicd, hret⟩ := bind_ok_iff.mp hinit
    cases hret
    obtain rfl : { t with once := 1 } = s₁ := by
      cases hend
      rfl
    obtain ⟨-, hspis, hlines, hctlr⟩ := gicdInit_quiets hgicd
    obtain ⟨-, hctxs, hicc, -⟩ := gicdInit_sameCpus hgicd
    rw [platGicv3Init_eq hcpu hrun₁ hboot₁]
    refine platGicv3Rest_ends hcpu hboot₁ honce₁ hlines hctlr hspis (fun j => ?_) hctxs _ rfl
    rw [if_neg List.not_mem_nil]
    exact congrFun hicc j
  · exact .inr ⟨hB, e, t, bind_fault hrun⟩

/-- The others find it initialised. -/
theorem platGicv3Init_next (hcpu : cpu < B.nrCpu) :
    Ends B.Boots (GicUp B s₀ done) (platGicv3Init B cpu) fun r s =>
      r = 0 ∧ GicUp B s₀ (cpu :: done) s := by
  intro s hs
  have hrun : OnceProg.runAlone (gicv3Init B) .runOnce s = .ok 0 s := OnceProg.alone_again hs.once
  rw [platGicv3Init_eq hcpu hrun hs.boot]
  exact platGicv3Rest_ends hcpu hs.boot hs.once hs.lines hs.ctlr hs.spis hs.icc hs.ctxs s rfl

theorem bringUp_up (cpus : List Nat) (hcpus : ∀ c ∈ cpus, c < B.nrCpu) (done : List Nat) :
    Ends B.Boots (GicUp B s₀ done) (bringUp B cpus) fun _ s =>
      GicUp B s₀ (cpus.reverse ++ done) s := by
  induction cpus generalizing done with
  | nil => exact Ends.pure fun _ hs => hs
  | cons cpu cpus ih =>
    refine (platGicv3Init_next (hcpus cpu List.mem_cons_self)).bind fun r => ?_
    rw [List.reverse_cons, List.append_assoc]
    exact fun s hs => ih (fun c hc => hcpus c (List.mem_cons_of_mem _ hc)) (cpu :: done) s hs.2

theorem bringUp_cold {cpus : List Nat} (hne : cpus ≠ []) (hcpus : ∀ c ∈ cpus, c < B.nrCpu)
    (h0 : s₀.Cold) :
    Ends B.Boots (fun s => s = s₀) (bringUp B cpus) fun _ s => GicUp B s₀ cpus.reverse s := by
  cases cpus with
  | nil => exact absurd rfl hne
  | cons cpu cpus =>
    refine (platGicv3Init_first (hcpus cpu List.mem_cons_self) h0.bootInv h0.once).bind fun r => ?_
    rw [List.reverse_cons]
    exact fun s hs => bringUp_up cpus (fun c hc => hcpus c (List.mem_cons_of_mem _ hc)) [cpu] s hs.2

/-- In the frame of its own, every implemented interrupt of a CPU that is done is quiet. -/
theorem GicUp.quiet (h : GicUp B s₀ done s) (hcpu : cpu ∈ done) {i : Nat}
    (hi : i < 32 * (itLinesNumber B s₀ + 1)) :
    QuietAt s.regs (s.frame cpu i) i := by
  unfold GicOf.frame
  split
  · next hlow =>
    rw [(h.boot.regs cpu hcpu).2]
    exact h.banked i hlow
  · next hlow =>
    rw [h.boot.gicd h.once]
    exact h.spis i (by omega) hi

/-- **Bring-up leaves no interrupt enabled.**  From a cold machine the CPUs run `plat_gicv3_init`,
in any order and as often as they like; with a board that boots they return.  Then each of them
takes interrupts of group 1, every interrupt that the distributor implements is disabled, not
pending and not active, and the contexts are as before. -/
theorem bring_up_quiets (B : GicBoard) {cpus : List Nat} (hcpus : ∀ c ∈ cpus, c < B.nrCpu) {s : Gic}
    (h0 : s.Cold) :
    (B.Boots → ∃ s', bringUp B cpus s = .ok () s') ∧
    ∀ s', bringUp B cpus s = .ok () s' → s'.ctxs = s.ctxs ∧
      (∀ k ∈ cpus, s'.icc k = (s.icc k).enabled ∧
        ∀ i, i < 32 * (itLinesNumber B s + 1) → QuietAt s'.regs (s'.frame k i) i) ∧
      ∀ k, k ∉ cpus → s'.icc k = s.icc k := by
  rcases eq_or_ne cpus [] with rfl | hne
  · refine ⟨fun _ => ⟨s, rfl⟩, fun s' hrun => ?_⟩
    cases hrun
    exact ⟨rfl, nofun, fun _ _ => rfl⟩
  have hends := bringUp_cold hne hcpus h0
  refine ⟨fun hB => ?_, fun s' hrun => ?_⟩
  · obtain ⟨_, s', hrun, -⟩ := hends.returns hB rfl
    exact ⟨s', hrun⟩
  · have hup := hends.of_ok rfl hrun
    refine ⟨hup.ctxs, fun k hk => ⟨?_, fun i hi => hup.quiet (List.mem_reverse.mpr hk) hi⟩,
      fun k hk => ?_⟩
    · rw [hup.icc, if_pos (List.mem_reverse.mpr hk)]
    · rw [hup.icc, if_neg fun h => hk (List.mem_reverse.mp h)]

/-- Two CPUs, the second one twice. -/
theorem bring_up_quiets_example : coldGic.Cold ∧
    ∃ s', bringUp (quietBoard 2) [1, 0, 1] coldGic = .ok () s' ∧
    QuietAt s'.regs (s'.frame 1 26) 26 := by
  have hcpus : ∀ c ∈ [1, 0, 1], c < (quietBoard 2).nrCpu := by decide
  obtain ⟨hreturns, hquiet⟩ := bring_up_quiets (quietBoard 2) hcpus coldGic_cold
  obtain ⟨s', hrun⟩ := hreturns (quietBoard_boots 2)
  exact ⟨coldGic_cold, s', hrun, ((hquiet s' hrun).2.1 1 (by decide)).2 26 (by decide)⟩

end ZHyper
