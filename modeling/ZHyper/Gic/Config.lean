import ZHyper.Gic.IrqFields

/-!
# Configuring interrupts

Operations on different interrupts do not disturb each other: each keeps every field of the other
interrupt, and their order does not matter (`irq_ops_independent`).

    trigger: the field reads back as the mode, but for an edge-triggered SGI or PPI
                                                                         (set_trigger_encodes_iff)
    group:   the group bit is the group requested, but for group 0 of an SPI
                                                                          (set_group_programs_iff)
-/

namespace ZHyper

open LowLevel

variable {B : GicBoard} {cpu i j : Nat} {s s' : Gic} {p q : IrqRef}

/-! ## Independence -/

/-- Within `fuel` reads the write-pending bits that the code polls are clear. -/
def GicBoard.Settles (B : GicBoard) : Prop :=
  (∀ n, ∃ k, k < B.fuel ∧ B.device (gicdStatusr gicdBase) (n + k) &&& (1#32 <<< 31) = 0) ∧
  ∀ c n, ∃ k, k < B.fuel ∧ B.device (gicrCtlr (gicrBase + gicrStride * c)) (n + k) &&&
  (1#32 <<< 3) = 0

theorem pollCount_some {d : Nat → BitVec 32} {m : BitVec 32} {fuel n k : Nat} (hk : k < fuel)
    (hd : d (n + k) &&& m = 0) :
    ∃ l, pollCount d m fuel n = some l := by
  induction fuel generalizing n k with
  | zero => omega
  | succ fuel ih =>
    rw [pollCount]
    by_cases hbit : (d n &&& m != 0) = true
    · rw [if_pos hbit]
      cases k with
      | zero =>
        rw [Nat.add_zero] at hd
        simp [hd] at hbit
      | succ k => exact ih (k := k) (by omega) (by rwa [Nat.add_right_comm])
    · rw [if_neg hbit]
      exact ⟨_, rfl⟩

/-- The polls of two operations commute: they are of different registers, or the same poll. -/
theorem polled_comm {P Q : Option (Nat × BitVec 32)} (h : ∀ x ∈ P, ∀ y ∈ Q, x.1 = y.1 → x = y)
    {reads reads' : Nat → Nat} :
    (∃ r, Polled B P reads r ∧ Polled B Q r reads') →
      ∃ r, Polled B Q reads r ∧ Polled B P r reads' := by
  rintro ⟨r, hP, hQ⟩
  cases P with
  | none =>
    cases hP
    exact ⟨reads', hQ, rfl⟩
  | some x =>
    cases Q with
    | none =>
      cases hQ
      exact ⟨reads, rfl, hP⟩
    | some y =>
      obtain ⟨a, m⟩ := x
      obtain ⟨b, n⟩ := y
      by_cases hab : a = b
      · have := h _ rfl _ rfl hab
        cases this
        exact ⟨r, hP, hQ⟩
      · obtain ⟨k, hk, rfl⟩ := hP
        obtain ⟨l, hl, rfl⟩ := hQ
        rw [Function.update_of_ne (Ne.symm hab)] at hl
        refine ⟨_, ⟨l, hl, rfl⟩, k, ?_, Function.update_comm hab _ _ _⟩
        rwa [Function.update_of_ne hab]

/-- Two operations poll the same register for the same bit. -/
theorem GicOf.Mapped.opPoll_inj (hm : s.Mapped B cpu) (c d : IrqClass) (f g : IntrOp) :
    ∀ x ∈ s.opPoll cpu c f, ∀ y ∈ s.opPoll cpu d g, x.1 = y.1 → x = y := by
  obtain ⟨k, hk, -⟩ := hm.gicr
  have hcases : ∀ (c : IrqClass) (f : IntrOp), ∀ x ∈ s.opPoll cpu c f,
      x = (gicdStatusr gicdBase, 1#32 <<< 31) ∨
        x = (gicrCtlr (s.gicr cpu).gicrRegs, 1#32 <<< 3) := by
    intro c f x hx
    cases c <;> cases f <;> cases hx <;> first | exact .inl rfl | exact .inr rfl
  have hne : gicdStatusr gicdBase ≠ gicrCtlr (s.gicr cpu).gicrRegs := by
    unfold gicrCtlr
    rw [hk]
    unfold gicdStatusr gicdBase gicrBase
    omega
  intro x hx y hy hxy
  rcases hcases c f x hx with rfl | rfl <;> rcases hcases d g y hy with rfl | rfl
  · rfl
  · exact absurd hxy hne
  · exact absurd hxy.symm hne
  · rfl

/-- Two operations one after the other. -/
theorem intrOps_ok_iff (hm : s.Mapped B cpu) (hp : (s.ctxs p).intid.toNat = i) (hi : i ≤ 1019)
    (hq : (s.ctxs q).intid.toNat = j) (hj : j ≤ 1019) (f g : IntrOp) {r : Int} :
    (do let _ ← intrOp B cpu (irqClass i) f (some p)
        intrOp B cpu (irqClass j) g (some q)) s = .ok r s' ↔
      r = 0 ∧ ∃ reads, (∃ reads₁, Polled B (s.opPoll cpu (irqClass i) f) s.reads reads₁ ∧
        Polled B (s.opPoll cpu (irqClass j) g) reads₁ reads) ∧
        s' = (s.put (s.field cpu (opField (irqClass i) f).1 i) (opField (irqClass i) f).2).putPolled
          (s.field cpu (opField (irqClass j) g).1 j) (opField (irqClass j) g).2 reads := by
  rw [bind_ok_iff]
  constructor
  · rintro ⟨_, t, hf, hg⟩
    obtain ⟨rfl, reads₁, hpoll, rfl⟩ := (intrOp_ok_iff hm hp hi f).mp hf
    obtain ⟨rfl, reads, hpoll', rfl⟩ := (intrOp_ok_iff (hm.putPolled _ _ _) hq hj g).mp hg
    exact ⟨rfl, reads, ⟨reads₁, hpoll, hpoll'⟩, rfl⟩
  · rintro ⟨rfl, reads, ⟨reads₁, hpoll, hpoll'⟩, rfl⟩
    exact ⟨0, _, (intrOp_ok_iff hm hp hi f).mpr ⟨rfl, reads₁, hpoll, rfl⟩,
      (intrOp_ok_iff (hm.putPolled _ _ _) hq hj g).mpr ⟨rfl, reads, hpoll', rfl⟩⟩

theorem GicOf.Mapped.polled (hm : s.Mapped B cpu) (hB : B.Settles) (c : IrqClass) (f : IntrOp)
    (reads : Nat → Nat) :
    ∃ reads', Polled B (s.opPoll cpu c f) reads reads' := by
  obtain ⟨k, hk, -⟩ := hm.gicr
  have hgicd : ∃ l, pollCount (B.device (gicdStatusr gicdBase)) (1#32 <<< 31) B.fuel
      (reads (gicdStatusr gicdBase)) = some l := by
    obtain ⟨n, hn, hd⟩ := hB.1 (reads (gicdStatusr gicdBase))
    exact pollCount_some hn hd
  have hgicr : ∃ l, pollCount (B.device (gicrCtlr (s.gicr cpu).gicrRegs)) (1#32 <<< 3) B.fuel
      (reads (gicrCtlr (s.gicr cpu).gicrRegs)) = some l := by
    obtain ⟨n, hn, hd⟩ := hB.2 k (reads (gicrCtlr (s.gicr cpu).gicrRegs))
    rw [← hk] at hd
    exact pollCount_some hn hd
  cases f with
  | clearIntr =>
    cases c with
    | spi =>
      obtain ⟨l, hl⟩ := hgicd
      exact ⟨_, l, hl, rfl⟩
    | ppi | sgi =>
      obtain ⟨l, hl⟩ := hgicr
      exact ⟨_, l, hl, rfl⟩
  | setIntr | setPriority | setTrigger | setGroup => cases c <;> exact ⟨reads, rfl⟩

/-- **Operations on different interrupts are independent.**  One keeps every field of the other
interrupt; in both orders they end in the same state; and with a device that settles they do end. -/
theorem irq_ops_independent (B : GicBoard) {cpu i j : Nat} {s : Gic} {p q : IrqRef}
    (hm : s.Mapped B cpu) (hi : i ≤ 1019) (hj : j ≤ 1019) (hij : i ≠ j)
    (hp : (s.ctxs p).intid.toNat = i) (hq : (s.ctxs q).intid.toNat = j) (f g : IntrOp) :
    (∀ r s', intrOp B cpu (irqClass i) f (some p) s = .ok r s' →
      ∀ h : IrqField, (s.field cpu h j).get s'.regs = (s.field cpu h j).get s.regs) ∧
    (∀ r s', (do let _ ← intrOp B cpu (irqClass i) f (some p)
                 intrOp B cpu (irqClass j) g (some q)) s = .ok r s' ↔
      (do let _ ← intrOp B cpu (irqClass j) g (some q)
          intrOp B cpu (irqClass i) f (some p)) s = .ok r s') ∧
    (B.Settles → ∃ s', (do let _ ← intrOp B cpu (irqClass i) f (some p)
                           intrOp B cpu (irqClass j) g (some q)) s = .ok 0 s') := by
  have hdisjoint : ∀ f g : IrqField, (s.field cpu f i).Disjoint (s.field cpu g j) := fun f g =>
    hm.disjoint hi hj fun e => hij (Prod.mk.inj e).2
  refine ⟨?_, ?_, ?_⟩
  · intro r s' h k
    obtain ⟨-, _, -, rfl⟩ := (intrOp_ok_iff hm hp hi f).mp h
    exact Field.get_put_of_disjoint (hdisjoint _ k)
  · intro r s'
    rw [intrOps_ok_iff hm hp hi hq hj f g, intrOps_ok_iff hm hq hj hp hi g f]
    have hput : ∀ u v f g reads, (s.put (s.field cpu f i) u).putPolled (s.field cpu g j) v reads =
        (s.put (s.field cpu g j) v).putPolled (s.field cpu f i) u reads := by
      intro u v f g reads
      unfold Gic.put Gic.putPolled
      rw [Field.put_put_comm (hdisjoint f g).symm]
    have hpoll : ∀ reads, (∃ reads₁, Polled B (s.opPoll cpu (irqClass i) f) s.reads reads₁ ∧
        Polled B (s.opPoll cpu (irqClass j) g) reads₁ reads) ↔
        ∃ reads₁, Polled B (s.opPoll cpu (irqClass j) g) s.reads reads₁ ∧
          Polled B (s.opPoll cpu (irqClass i) f) reads₁ reads := fun reads =>
      ⟨polled_comm (hm.opPoll_inj _ _ _ _), polled_comm (hm.opPoll_inj _ _ _ _)⟩
    simp only [hput, hpoll]
  · intro hB
    obtain ⟨reads₁, h₁⟩ := hm.polled hB (irqClass i) f s.reads
    obtain ⟨reads, h⟩ := hm.polled hB (irqClass j) g reads₁
    exact ⟨_, (intrOps_ok_iff hm hp hi hq hj f g).mpr ⟨rfl, reads, ⟨reads₁, h₁, h⟩, rfl⟩⟩

/-- One CPU, and a device that never shows a write as pending. -/
def exampleBoard : GicBoard := ⟨1, fun _ _ => 0, 1⟩

/-- All registers zero, the frames mapped; SGI 3, PPI 26 and SPI 37 have their contexts. -/
def exampleGic : Gic where
  regs _ := 0
  reads _ := 0
  gicd := { GicdContext.zero with gicdRegs := gicdBase }
  gicr _ := { GicrContext.zero with gicrRegs := gicrBase, gicrSgiRegs := gicrBase + 0x10000 }
  ctxs
    | .sgi _ k => { IrqContext.zero with intid := BitVec.ofNat 10 k, ops := some .sgi }
    | .ppi _ k => { IrqContext.zero with intid := BitVec.ofNat 10 (16 + k), ops := some .ppi }
    | .spi k => { IrqContext.zero with intid := BitVec.ofNat 10 (32 + k), ops := some .spi }
  icc _ := ⟨0, 0, 0, 0, 0⟩
  once := 1

theorem exampleGic_mapped : exampleGic.Mapped exampleBoard 0 := ⟨by decide, rfl, 0, rfl, rfl⟩

theorem irq_ops_independent_example :
    exampleGic.Mapped exampleBoard 0 ∧ 3 ≤ 1019 ∧ 37 ≤ 1019 ∧ 3 ≠ 37 ∧
    (exampleGic.ctxs (.sgi 0 3)).intid.toNat = 3 ∧ (exampleGic.ctxs (.spi 5)).intid.toNat = 37 ∧
    ∀ r s', (do let _ ← intrOp exampleBoard 0 .sgi .clearIntr (some (.sgi 0 3))
                intrOp exampleBoard 0 .spi (.setPriority 0x80) (some (.spi 5))) exampleGic =
                  .ok r s' ↔
      (do let _ ← intrOp exampleBoard 0 .spi (.setPriority 0x80) (some (.spi 5))
          intrOp exampleBoard 0 .sgi .clearIntr (some (.sgi 0 3))) exampleGic = .ok r s' :=
  ⟨exampleGic_mapped, by decide, by decide, by decide, by decide, by decide,
    (irq_ops_independent exampleBoard (i := 3) (j := 37) exampleGic_mapped (by decide) (by decide)
      (by decide) (by decide)
      (by decide) .clearIntr (.setPriority 0x80)).2.1⟩

/-! ## Trigger modes -/

/-- After an operation the field it puts reads as the value it puts, and the others are as
before. -/
theorem intrOp_fields (hm : s.Mapped B cpu) (hp : (s.ctxs p).intid.toNat = i) (hi : i ≤ 1019)
    {op : IntrOp} {r : Int} (h : intrOp B cpu (irqClass i) op (some p) s = .ok r s') :
    (s.field cpu (opField (irqClass i) op).1 i).get s'.regs = (opField (irqClass i) op).2 ∧
    ∀ f j, j ≤ 1019 → (f, j) ≠ ((opField (irqClass i) op).1, i) →
      (s.field cpu f j).get s'.regs = (s.field cpu f j).get s.regs := by
  obtain ⟨-, _, -, rfl⟩ := (intrOp_ok_iff hm hp hi op).mp h
  refine ⟨Field.get_put_self (opField_fits _ _) (IrqField.off_add_width _ _ _), ?_⟩
  intro f j hj hne
  exact Field.get_put_of_disjoint (hm.disjoint hi hj (Ne.symm hne))

/-- An operation other than a clear returns. -/
theorem intrOp_returns (hm : s.Mapped B cpu) (hp : (s.ctxs p).intid.toNat = i) (hi : i ≤ 1019)
    (op : IntrOp)
    (hop : op ≠ .clearIntr) : intrOp B cpu (irqClass i) op (some p) s =
      .ok 0 (s.put (s.field cpu (opField (irqClass i) op).1 i) (opField (irqClass i) op).2) := by
  rw [intrOp_wrote_returns hm hp hi op hop, hm.wrote_eq_put hi]

/-- What `set_trigger` leaves in the field. -/
theorem set_trigger_field (hm : s.Mapped B cpu) (hi : i ≤ 1019) (hp : (s.ctxs p).intid.toNat = i)
    (isEdge : Bool) :
    ∃ s', intrOp B cpu (irqClass i) (.setTrigger isEdge) (some p) s = .ok 0 s' ∧
      (s.field cpu .trigger i).get s'.regs = if 32 ≤ i then if isEdge then 2 else 0
        else if isEdge then 1 else 0 := by
  have h := intrOp_returns hm hp hi (.setTrigger isEdge) (by simp)
  refine ⟨_, h, ?_⟩
  refine (intrOp_fields hm hp hi h).1.trans ?_
  rw [opField]
  by_cases hspi : 32 ≤ i
  · rw [irqClass_spi hspi, if_pos rfl, if_pos hspi]
  · rw [if_neg (irqClass_ne_spi hspi), if_neg hspi]

/-- **The trigger field reads as the mode requested** just for SPIs and for level-sensitive
interrupts: SGIs and PPIs write `0b01` for edge-triggered. -/
theorem set_trigger_encodes_iff (B : GicBoard) {cpu i : Nat} {s : Gic} {p : IrqRef}
    (hm : s.Mapped B cpu) (hi : i ≤ 1019) (hp : (s.ctxs p).intid.toNat = i) (isEdge : Bool) :
    (∃ s', intrOp B cpu (irqClass i) (.setTrigger isEdge) (some p) s = .ok 0 s' ∧
      (s.field cpu .trigger i).get s'.regs = if isEdge then 2 else 0) ↔
        32 ≤ i ∨ isEdge = false := by
  obtain ⟨s', h, hfield⟩ := set_trigger_field hm hi hp isEdge
  rw [exists_run_iff h, hfield]
  constructor
  · intro hmode
    by_contra hnot
    rw [not_or, Bool.not_eq_false] at hnot
    rw [hnot.2, if_neg hnot.1, if_pos rfl, if_pos rfl] at hmode
    exact absurd hmode (by decide)
  · rintro (hspi | rfl)
    · rw [if_pos hspi]
    · simp

theorem set_trigger_encodes_example :
    exampleGic.Mapped exampleBoard 0 ∧ 37 ≤ 1019 ∧ (exampleGic.ctxs (.spi 5)).intid.toNat = 37 ∧
    ∃ s', intrOp exampleBoard 0 .spi (.setTrigger true) (some (.spi 5)) exampleGic = .ok 0 s' ∧
      (exampleGic.field 0 .trigger 37).get s'.regs = 2 :=
  ⟨exampleGic_mapped, by decide, by decide,
    (set_trigger_encodes_iff exampleBoard (i := 37) exampleGic_mapped (by decide) (by decide)
      true).mpr (.inl (by decide))⟩

/-- The timer's PPI 26 is made edge-triggered: its field becomes `0b01`. -/
theorem ppi_edge_miscoded :
    ¬ (∃ s', intrOp exampleBoard 0 .ppi (.setTrigger true) (some (.ppi 0 10)) exampleGic =
      .ok 0 s' ∧
      (exampleGic.field 0 .trigger 26).get s'.regs = 2) ∧
    ∃ s', intrOp exampleBoard 0 .ppi (.setTrigger true) (some (.ppi 0 10)) exampleGic = .ok 0 s' ∧
      (exampleGic.field 0 .trigger 26).get s'.regs = 1 := by
  obtain ⟨s', h, hfield⟩ :=
    set_trigger_field (i := 26) (p := .ppi 0 10) exampleGic_mapped (by decide) (by decide) true
  refine ⟨?_, s', h, hfield⟩
  rintro ⟨t, ht, hmode⟩
  rw [run_unique h ht, hfield] at hmode
  exact absurd hmode (by decide)

/-! ## Groups -/

/-- The group bit of `i` is `g`, and its group-modifier bit and all fields of the other interrupts
are as before. -/
def GroupSet (s s' : Gic) (cpu i : Nat) (g : BitVec 1) : Prop :=
  (s.field cpu .group i).get s'.regs = g.setWidth 32 ∧
  (s.field cpu .groupMod i).get s'.regs = (s.field cpu .groupMod i).get s.regs ∧
  ∀ j, j ≤ 1019 → j ≠ i → ∀ f, (s.field cpu f j).get s'.regs = (s.field cpu f j).get s.regs

/-- `set_group` calls one after the other. -/
def setGroups (B : GicBoard) (cpu : Nat) (c : IrqClass) (ctx : Option IrqRef) : List (BitVec 1) →
    GicM Unit
  | [] => pure ()
  | g :: gs => do
    let _ ← intrOp B cpu c (.setGroup (g.setWidth 8)) ctx
    setGroups B cpu c ctx gs

theorem group_cases (g : BitVec 1) : g = 0 ∨ g = 1 := by
  revert g
  decide

/-- What `set_group` puts: the group bit, but for group 0 of an SPI the group-modifier bit. -/
theorem opField_group (i : Nat) (g : BitVec 1) : opField (irqClass i) (.setGroup (g.setWidth 8)) =
    if 32 ≤ i ∧ g = 0 then (.groupMod, 1#32) else (.group, g.setWidth 32) := by
  by_cases hspi : 32 ≤ i
  · rw [irqClass_spi hspi]
    rcases group_cases g with rfl | rfl <;> simp [opField, hspi]
  · have hclass := irqClass_ne_spi hspi
    rcases group_cases g with rfl | rfl <;> simp [opField, hspi, hclass]

/-- The group bit after a `set_group`. -/
theorem set_group_field (hm : s.Mapped B cpu) (hi : i ≤ 1019) (hp : (s.ctxs p).intid.toNat = i)
    (g : BitVec 1) :
    ∃ s', intrOp B cpu (irqClass i) (.setGroup (g.setWidth 8)) (some p) s = .ok 0 s' ∧
      s'.Mapped B cpu ∧
      s'.ctxs = s.ctxs ∧ s'.field cpu = s.field cpu ∧
      (s.field cpu .group i).get s'.regs = if 32 ≤ i ∧ g = 0 then (s.field cpu .group i).get s.regs
      else g.setWidth 32 := by
  have h := intrOp_returns hm hp hi (.setGroup (g.setWidth 8)) (by simp)
  obtain ⟨hput, hother⟩ := intrOp_fields hm hp hi h
  refine ⟨_, h, hm.putPolled _ _ _, rfl, rfl, ?_⟩
  rw [opField_group] at hput hother ⊢
  by_cases hbad : 32 ≤ i ∧ g = 0
  · rw [if_pos hbad] at hput hother ⊢
    rw [if_pos hbad]
    exact hother .group i hi (by simp)
  · rw [if_neg hbad] at hput hother ⊢
    rw [if_neg hbad]
    exact hput

/-- One `set_group(ctx, g)` programs group `g` for a PPI or an SGI, for group 1, and where the
registers said group 0 before. -/
theorem set_group_once_iff (hm : s.Mapped B cpu) (hi : i ≤ 1019) (hp : (s.ctxs p).intid.toNat = i)
    (g : BitVec 1) :
    (∃ s', intrOp B cpu (irqClass i) (.setGroup (g.setWidth 8)) (some p) s = .ok 0 s' ∧
      GroupSet s s' cpu i g) ↔
      i < 32 ∨ g = 1 ∨ (s.field cpu .group i).get s.regs = 0 ∧
      (s.field cpu .groupMod i).get s.regs = 1 := by
  have h := intrOp_returns hm hp hi (.setGroup (g.setWidth 8)) (by simp)
  obtain ⟨hput, hother⟩ := intrOp_fields hm hp hi h
  generalize s.put _ _ = s' at h hput hother
  have hothers : ∀ j, j ≤ 1019 → j ≠ i →
      ∀ f, (s.field cpu f j).get s'.regs = (s.field cpu f j).get s.regs :=
    fun j hj hne f => hother f j hj fun e => hne (Prod.mk.inj e).2
  rw [exists_run_iff h]
  rw [opField_group] at hput hother
  by_cases hbad : 32 ≤ i ∧ g = 0
  · rw [if_pos hbad] at hput hother
    obtain ⟨hspi, rfl⟩ := hbad
    have hgroup := hother .group i hi (by simp)
    constructor
    · rintro ⟨hg, hmod, -⟩
      exact .inr (.inr ⟨hgroup.symm.trans hg, hmod.symm.trans hput⟩)
    · rintro (hlt | hg | ⟨hg, hmod⟩)
      · omega
      · exact absurd hg (by decide)
      · exact ⟨hgroup.trans hg, hput.trans hmod.symm, hothers⟩
  · rw [if_neg hbad] at hput hother
    have hgood : i < 32 ∨ g = 1 := by
      rcases group_cases g with rfl | rfl
      · left
        by_contra hge
        exact hbad ⟨by omega, rfl⟩
      · exact .inr rfl
    constructor
    · intro _
      rcases hgood with hgood | hgood
      · exact .inl hgood
      · exact .inr (.inl hgood)
    · intro _
      exact ⟨hput, hother .groupMod i hi (by simp), hothers⟩

/-- The group bit after `set_group` calls: for an SPI it stays set once it is set. -/
theorem setGroups_field (hm : s.Mapped B cpu) (hi : i ≤ 1019) (hp : (s.ctxs p).intid.toNat = i)
    (gs : List (BitVec 1)) :
    ∃ s', setGroups B cpu (irqClass i) (some p) gs s = .ok () s' ∧ s'.Mapped B cpu ∧
      s'.ctxs = s.ctxs ∧
      s'.field cpu = s.field cpu ∧
      (s.field cpu .group i).get s'.regs =
        gs.foldl (fun b g => if 32 ≤ i ∧ g = 0 then b else g.setWidth 32)
          ((s.field cpu .group i).get s.regs) := by
  induction gs generalizing s with
  | nil => exact ⟨s, rfl, hm, rfl, rfl, rfl⟩
  | cons g gs ih =>
    obtain ⟨s₁, h₁, hm₁, hctxs₁, hfield₁, hbit₁⟩ := set_group_field hm hi hp g
    obtain ⟨s', h', hm', hctxs', hfield', hbit'⟩ := ih hm₁ (by rw [hctxs₁]; exact hp)
    refine ⟨s', ?_, hm', hctxs'.trans hctxs₁, hfield'.trans hfield₁, ?_⟩
    · rw [setGroups, bind_run h₁, h']
    · rw [hfield₁] at hbit'
      rw [hbit', hbit₁, List.foldl_cons]

/-- Calls that end with group 0 leave the bit of an SPI zero just when no call and no earlier one
set it. -/
theorem foldl_group_zero (gs : List (BitVec 1)) (b : BitVec 32) :
    gs.foldl (fun b g => if g = 0 then b else g.setWidth 32) b = 0 ↔ (∀ g ∈ gs, g = 0) ∧ b = 0 := by
  induction gs generalizing b with
  | nil => simp
  | cons g gs ih =>
    rw [List.foldl_cons, ih, List.forall_mem_cons]
    rcases group_cases g with rfl | rfl
    · simp
    · simp

/-- **`set_group` programs the group** for SGIs, PPIs and for group 1.  For group 0 of an SPI it
sets the group-modifier bit: the group is what was last requested only if it was never 1. -/
theorem set_group_programs_iff (B : GicBoard) {cpu i : Nat} {s : Gic} {p : IrqRef}
    (hm : s.Mapped B cpu) (hi : i ≤ 1019) (hp : (s.ctxs p).intid.toNat = i) :
    (∀ g : BitVec 1,
      (∃ s', intrOp B cpu (irqClass i) (.setGroup (g.setWidth 8)) (some p) s = .ok 0 s' ∧
        GroupSet s s' cpu i g) ↔
        i < 32 ∨ g = 1 ∨ (s.field cpu .group i).get s.regs = 0 ∧
        (s.field cpu .groupMod i).get s.regs = 1) ∧
    ∀ (gs : List (BitVec 1)) (g : BitVec 1),
      (∃ s', setGroups B cpu (irqClass i) (some p) (gs ++ [g]) s = .ok () s' ∧
        (s.field cpu .group i).get s'.regs = g.setWidth 32) ↔
      i < 32 ∨ g = 1 ∨ (∀ h ∈ gs, h = 0) ∧ (s.field cpu .group i).get s.regs = 0 := by
  refine ⟨set_group_once_iff hm hi hp, ?_⟩
  intro gs g
  obtain ⟨s', h, -, -, -, hbit⟩ := setGroups_field hm hi hp (gs ++ [g])
  rw [exists_run_iff h, hbit, List.foldl_append, List.foldl_cons, List.foldl_nil]
  by_cases hspi : 32 ≤ i
  · rcases group_cases g with rfl | rfl
    · rw [if_pos ⟨hspi, rfl⟩]
      have hfold := foldl_group_zero gs ((s.field cpu .group i).get s.regs)
      simpa [hspi, Nat.not_lt.mpr hspi] using hfold
    · simp
  · simp [hspi, Nat.lt_of_not_le hspi]

theorem set_group_programs_example :
    exampleGic.Mapped exampleBoard 0 ∧ 26 ≤ 1019 ∧ (exampleGic.ctxs (.ppi 0 10)).intid.toNat = 26 ∧
    ∃ s', setGroups exampleBoard 0 .ppi (some (.ppi 0 10)) [1, 0] exampleGic = .ok () s' ∧
      (exampleGic.field 0 .group 26).get s'.regs = 0 :=
  ⟨exampleGic_mapped, by decide, by decide,
    ((set_group_programs_iff exampleBoard (i := 26) exampleGic_mapped (by decide) (by decide)).2
      [1] 0).mpr
      (.inl (by decide))⟩

/-- SPI 37 is put in group 1 and then in group 0: its group bit stays 1. -/
theorem spi_group_zero_lost :
    ¬ (∃ s', setGroups exampleBoard 0 .spi (some (.spi 5)) [1, 0] exampleGic = .ok () s' ∧
      (exampleGic.field 0 .group 37).get s'.regs = 0) ∧
    ¬ ∃ s', intrOp exampleBoard 0 .spi (.setGroup 0) (some (.spi 5)) exampleGic = .ok 0 s' ∧
      GroupSet exampleGic s' 0 37 0 := by
  constructor
  · obtain ⟨s', h, -, -, -, hbit⟩ :=
      setGroups_field (i := 37) (p := .spi 5) exampleGic_mapped (by decide) (by decide) [1, 0]
    rintro ⟨t, ht, hg⟩
    rw [run_unique h ht, hbit] at hg
    exact absurd hg (by decide)
  · intro h
    have := (set_group_once_iff (i := 37) (p := .spi 5) exampleGic_mapped (by decide) (by decide)
      0).mp h
    revert this
    decide

end ZHyper
