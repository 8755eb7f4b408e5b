import ZHyper.Gic.Contexts

/-!
# `gic_irq_enable` is all or nothing

The five calls of `gic_irq_enable` repeat one check of the INTID.  Where it fails it fails in the
first call, before any register is written; else the interrupt is disabled, configured and enabled,
in this order.  The order is read off the log of the register writes:

    write   clear   priority   group   trigger   set
    bit       -        0         0        0       -          (gic_irq_enable_atomic)
-/

namespace ZHyper

open LowLevel

variable {B : GicBoard} {cpu i j k : Nat} {s : Gic} {p : IrqRef} {c : IrqClass}

/-! ## The log of a run -/

/-- The state with an empty log. -/
def Gic.logged (s : Gic) : LoggedGic where
  regs := ⟨s.regs, []⟩
  reads := s.reads
  gicd := s.gicd
  gicr := s.gicr
  ctxs := s.ctxs
  icc := s.icc
  once := s.once

/-- The state without its log. -/
def LoggedGic.plain (t : LoggedGic) : Gic where
  regs := t.regs.words
  reads := t.reads
  gicd := t.gicd
  gicr := t.gicr
  ctxs := t.ctxs
  icc := t.icc
  once := t.once

/-- The words after writes. -/
def wordsAfter (r : Nat → BitVec 32) (log : List RegWrite) : Nat → BitVec 32 :=
  log.foldl (fun r w => written r w.addr w.value) r

/-- The writes of operations on `i` in the frame at `base`, from the words `r` on. -/
def opWrites (base i : Nat) : List IntrOp → (Nat → BitVec 32) → List RegWrite
  | [], _ => []
  | op :: ops, r =>
    let w := (opField (irqClass i) op).1.write base i (opField (irqClass i) op).2 r
    w :: opWrites base i ops (written r w.addr w.value)

/-- Operations append their writes to the log, -/
theorem LoggedGic.wrotes_log (t : LoggedGic) (cpu i : Nat) (ops : List IntrOp) :
    (t.wrotes cpu i ops).regs.log = t.regs.log ++ opWrites (t.frame cpu i) i ops t.regs.words := by
  induction ops generalizing t with
  | nil => exact (List.append_nil _).symm
  | cons op ops ih =>
    refine (ih _).trans ?_
    exact List.append_assoc _ _ _

/-- make them to the words, -/
theorem LoggedGic.wrotes_words (t : LoggedGic) (cpu i : Nat) (ops : List IntrOp) :
    (t.wrotes cpu i ops).regs.words =
      wordsAfter t.regs.words (opWrites (t.frame cpu i) i ops t.regs.words) := by
  induction ops generalizing t with
  | nil => rfl
  | cons op ops ih => exact ih _

/-- and do the same without the log. -/
theorem LoggedGic.wrotes_plain (t : LoggedGic) (cpu i : Nat) (ops : List IntrOp) :
    LoggedGic.plain (t.wrotes cpu i ops) = (LoggedGic.plain t).wrotes cpu i ops := by
  induction ops generalizing t with
  | nil => rfl
  | cons op ops ih => exact ih _

/-- The words after the first writes have the fields of the first operations put. -/
theorem wordsAfter_opWrites (hm : s.Mapped B cpu) (hi : i ≤ 1019) (ops : List IntrOp) (k : Nat) :
    wordsAfter s.regs ((opWrites (s.frame cpu i) i ops s.regs).take k) =
      (s.puts cpu i (ops.take k)).regs := by
  induction ops generalizing s k with
  | nil =>
    rw [opWrites, List.take_nil, List.take_nil]
    rfl
  | cons op ops ih =>
    cases k with
    | zero => rfl
    | succ k =>
      have hput := IrqField.write_put (hm.frameBase i) hi (opField_fits (irqClass i) op) s.regs
      rw [opWrites, List.take_succ_cons, List.take_succ_cons]
      show wordsAfter (written s.regs _ _) ((opWrites _ _ _ (written s.regs _ _)).take k) = _
      rw [hput]
      exact ih (hm.put _ _) k

/-- The clear bit of an interrupt is `0x80` above its set bit. -/
theorem IrqField.write_addr (f : IrqField) (base i : Nat) (v : BitVec 32) (r : Nat → BitVec 32) :
    (f.write base i v r).addr = (f.field base i).addr + if f = .enable ∧ v = 0 then 0x80
      else 0 := by
  unfold IrqField.write
  by_cases hf : f = .enable
  · simp [hf]
  · simp [hf]

/-- Where operations write. -/
theorem opWrites_addrs (base i : Nat) (ops : List IntrOp) (r : Nat → BitVec 32) :
    (opWrites base i ops r).map RegWrite.addr = ops.map fun op =>
      ((opField (irqClass i) op).1.field base i).addr +
        if (opField (irqClass i) op).1 = .enable ∧ (opField (irqClass i) op).2 = 0 then 0x80
          else 0 := by
  induction ops generalizing r with
  | nil => rfl
  | cons op ops ih =>
    rw [opWrites, List.map_cons, List.map_cons, ih, IrqField.write_addr]

/-! ## What the operations leave -/

/-- The fields that operations put. -/
def opFields (c : IrqClass) (ops : List IntrOp) : List IrqField :=
  ops.map fun op => (opField c op).1

/-- Operations keep the fields that they do not put, -/
theorem Gic.puts_keeps (hm : s.Mapped B cpu) (hi : i ≤ 1019) {f : IrqField} (ops : List IntrOp)
    (hf : f ∉ opFields (irqClass i) ops) :
    (s.field cpu f i).get (s.puts cpu i ops).regs = (s.field cpu f i).get s.regs := by
  induction ops generalizing s with
  | nil => rfl
  | cons op ops ih =>
    obtain ⟨hhead, htail⟩ :
        f ≠ (opField (irqClass i) op).1 ∧ f ∉ opFields (irqClass i) ops := by
      simpa [opFields] using hf
    refine (ih (hm.put _ _) htail).trans ?_
    exact Field.get_put_of_disjoint (hm.disjoint hi hi fun e => hhead (Prod.mk.inj e).1.symm)

/-- and leave what they put, when each puts another field. -/
theorem Gic.puts_field (hm : s.Mapped B cpu) (hi : i ≤ 1019) {op : IntrOp} (ops : List IntrOp)
    (hops : (opFields (irqClass i) ops).Nodup) (hop : op ∈ ops) :
    (s.field cpu (opField (irqClass i) op).1 i).get (s.puts cpu i ops).regs =
      (opField (irqClass i) op).2 := by
  induction ops generalizing s with
  | nil => cases hop
  | cons op' ops ih =>
    obtain ⟨hhead, htail⟩ := List.nodup_cons.mp hops
    rcases List.mem_cons.mp hop with rfl | hop
    · refine (Gic.puts_keeps (hm.put _ _) hi ops hhead).trans ?_
      exact Field.get_put_self (opField_fits _ _) (IrqField.off_add_width _ _ _)
    · exact ih (hm.put _ _) htail hop

/-- Each operation of `gic_irq_enable` after the clear puts another field, the last one the enable
bit. -/
theorem opFields_enableOps (c : IrqClass) (x : IrqContext) :
    ∃ g, (g = .group ∨ g = .groupMod) ∧
      opFields c (enableOps x) = [.priority, g, .trigger, .enable] := by
  refine ⟨(opField c (.setGroup (x.group.setWidth 8))).1, ?_, rfl⟩
  unfold opField
  dsimp only
  split_ifs
  · exact .inl rfl
  · exact .inr rfl
  · exact .inl rfl
  · exact .inl rfl

/-! ## The enable bit along the log -/

/-- The operations of `gic_irq_enable`. -/
def allOps (x : IrqContext) : List IntrOp := .clearIntr :: enableOps x

theorem Gic.puts_allOps (s : Gic) (cpu i : Nat) (x : IrqContext) (k : Nat) :
    s.puts cpu i ((allOps x).take (k + 1)) =
      (s.put (s.field cpu .enable i) 0#32).puts cpu i ((enableOps x).take k) := rfl

/-- After the clear and up to three more operations of `gic_irq_enable` the enable bit is clear. -/
theorem enable_cleared (hm : s.Mapped B cpu) (hi : i ≤ 1019) (x : IrqContext) (hk : k ≤ 3) :
    (s.field cpu .enable i).get (s.puts cpu i ((allOps x).take (k + 1))).regs = 0 := by
  obtain ⟨g, hg, hfields⟩ := opFields_enableOps (irqClass i) x
  have henable : ∀ k, k ≤ 3 → IrqField.enable ∉ [.priority, g, .trigger, .enable].take k := by
    rcases hg with rfl | rfl <;> decide
  have hkept : IrqField.enable ∉ opFields (irqClass i) ((enableOps x).take k) := by
    unfold opFields at hfields ⊢
    rw [List.map_take, hfields]
    exact henable k hk
  have hclear : (0#32) &&& Field.ones 32 (s.field cpu .enable i).width = 0#32 := BitVec.zero_and
  rw [Gic.puts_allOps]
  refine (Gic.puts_keeps (hm.put _ _) hi _ hkept).trans ?_
  exact Field.get_put_self hclear (IrqField.off_add_width _ _ _)

/-- After all of them every field is as the context has it. -/
theorem enable_configured (hm : s.Mapped B cpu) (hi : i ≤ 1019) (x : IrqContext) :
    ∀ op ∈ enableOps x, (s.field cpu (opField (irqClass i) op).1 i).get
      (s.puts cpu i (allOps x)).regs =
      (opField (irqClass i) op).2 := by
  obtain ⟨g, hg, hfields⟩ := opFields_enableOps (irqClass i) x
  intro op hop
  have hnodup : (opFields (irqClass i) (enableOps x)).Nodup := by
    rw [hfields]
    rcases hg with rfl | rfl <;> decide
  exact Gic.puts_field (hm.put (s.field cpu .enable i) 0#32) hi (enableOps x) hnodup hop

/-- The registers that `gic_irq_enable` writes. -/
def enableAddrs (s : Gic) (cpu i : Nat) (c : IrqClass) (x : IrqContext) : List Nat :=
  [(s.field cpu .enable i).addr + 0x80, (s.field cpu .priority i).addr,
    (s.field cpu (opField c (.setGroup (x.group.setWidth 8))).1 i).addr,
    (s.field cpu .trigger i).addr, (s.field cpu .enable i).addr]

theorem opWrites_allOps (s : Gic) (cpu i : Nat) (x : IrqContext) (r : Nat → BitVec 32) :
    (opWrites (s.frame cpu i) i (allOps x) r).map RegWrite.addr =
      enableAddrs s cpu i (irqClass i) x := by
  obtain ⟨g, hg, hfields⟩ := opFields_enableOps (irqClass i) x
  have hmem : (opField (irqClass i) (.setGroup (x.group.setWidth 8))).1 = g :=
    (List.cons.inj (List.cons.inj hfields).2).1
  have hgroup : (opField (irqClass i) (.setGroup (x.group.setWidth 8))).1 ≠ .enable := by
    rw [hmem]
    rcases hg with rfl | rfl <;> decide
  rw [opWrites_addrs, allOps, enableOps, enableAddrs]
  simp only [List.map_cons, List.map_nil, hgroup, false_and, if_false, Nat.add_zero]
  rfl

/-- A write to a register with a priority, group or trigger field of `i`. -/
def Configures (s : Gic) (cpu i : Nat) (w : RegWrite) : Prop :=
  ∃ f ∈ [IrqField.priority, .group, .groupMod, .trigger], w.addr = (s.field cpu f i).addr

/-- The log of `gic_irq_enable` for the INTID `i` with the context `x`, on the registers of `s`. -/
structure EnableLog (s : Gic) (cpu i : Nat) (c : IrqClass) (x : IrqContext) (log : List RegWrite) :
    Prop where
  addrs : log.map RegWrite.addr = enableAddrs s cpu i c x
  /-- The enable bit is clear before and after every write to a priority, group or trigger field. -/
  disabled : ∀ k w, log[k]? = some w → Configures s cpu i w →
    (s.field cpu .enable i).get (wordsAfter s.regs (log.take k)) = 0 ∧
    (s.field cpu .enable i).get (wordsAfter s.regs (log.take (k + 1))) = 0
  /-- No write touches another interrupt. -/
  others : ∀ k j, j ≤ 1019 → j ≠ i → ∀ f,
    (s.field cpu f j).get (wordsAfter s.regs (log.take k)) = (s.field cpu f j).get s.regs
  configured : ∀ op ∈ enableOps x,
    (s.field cpu (opField c op).1 i).get (wordsAfter s.regs log) = (opField c op).2
  enabled : (s.field cpu .enable i).get (wordsAfter s.regs log) = 1
  priority : (s.field cpu .priority i).get (wordsAfter s.regs log) = x.priority.setWidth 32

/-- The registers of the enable bits hold no other field. -/
theorem not_configures_enable (hi : i ≤ 1019) {w : RegWrite}
    (hw : w.addr = (s.field cpu .enable i).addr + 0x80 ∨ w.addr = (s.field cpu .enable i).addr) :
    ¬ Configures s cpu i w := by
  rintro ⟨f, hf, haddr⟩
  obtain ⟨off, hoff, hlow, hlt⟩ := f.addr_eq (s.frame cpu i) hi
  obtain ⟨off', hoff', hlow', hlt'⟩ := IrqField.enable.addr_eq (s.frame cpu i) hi
  unfold GicOf.field at hw haddr
  rw [hoff] at haddr
  rw [hoff'] at hw
  cases f with
  | enable => exact absurd hf (by decide)
  | priority | trigger | group | groupMod =>
    simp only [IrqField.offset, IrqField.width] at hlow hlt hlow' hlt'
    omega

/-- **The log of the writes** of the five operations. -/
theorem enableLog_opWrites (hm : s.Mapped B cpu) (hi : i ≤ 1019) (x : IrqContext) :
    EnableLog s cpu i (irqClass i) x (opWrites (s.frame cpu i) i (allOps x) s.regs) := by
  have haddrs := opWrites_allOps s cpu i x s.regs
  have hafter := wordsAfter_opWrites hm hi (allOps x)
  have hconfigured := enable_configured hm hi x
  generalize opWrites (s.frame cpu i) i (allOps x) s.regs = log at *
  have hall : wordsAfter s.regs log = (s.puts cpu i (allOps x)).regs := by
    have hlen : log.length = 5 := by
      rw [← List.length_map, haddrs]
      rfl
    rw [← List.take_of_length_le (Nat.le_of_eq hlen), hafter]
    rfl
  rw [← hall] at hconfigured
  constructor
  · exact haddrs
  · intro k w hw hconf
    have hat : (enableAddrs s cpu i (irqClass i) x)[k]? = some w.addr := by
      rw [← haddrs, List.getElem?_map, hw]
      rfl
    -- the first and the last write are to the clear and the set register
    have hk : 1 ≤ k ∧ k ≤ 3 := by
      by_contra hout
      have hends : k = 0 ∨ k = 4 ∨ 5 ≤ k := by omega
      rcases hends with rfl | rfl | hlong
      · exact not_configures_enable hi (.inl (Option.some.inj hat).symm) hconf
      · exact not_configures_enable hi (.inr (Option.some.inj hat).symm) hconf
      · rw [List.getElem?_eq_none (by exact hlong)] at hat
        cases hat
    obtain ⟨n, rfl⟩ := Nat.exists_eq_add_of_le' hk.1
    rw [hafter, hafter]
    constructor
    · exact enable_cleared hm hi x (by omega)
    · exact enable_cleared hm hi x (by omega)
  · intro k j hj hij f
    rw [hafter]
    exact Gic.puts_other hm hi hj hij _ f
  · exact hconfigured
  · exact hconfigured .setIntr (by simp [enableOps])
  · exact hconfigured (.setPriority x.priority) (by simp [enableOps])

/-- A run of `gic_irq_enable` with its log. -/
theorem gicIrqEnable_logged (hm : s.Mapped B cpu) (hp : (s.ctxs p).intid.toNat = i) (hi : i ≤ 1019)
    (hops : (s.ctxs p).ops = some (irqClass i)) {r : Int} {t : LoggedGic}
    (h : gicIrqEnable B cpu (some p) s.logged = .ok r t) :
    r = 0 ∧ gicIrqEnable B cpu (some p) s = .ok 0 (LoggedGic.plain t) ∧
    t.regs.log = opWrites (s.frame cpu i) i (allOps (s.ctxs p)) s.regs ∧
    t.regs.words = wordsAfter s.regs t.regs.log := by
  have hm' : s.logged.Mapped B cpu := ⟨hm.cpu_lt, hm.gicd, hm.gicr⟩
  obtain ⟨rfl, reads, hpoll, rfl⟩ := (gicIrqEnable_wrote_iff hm' hp hi hops).mp h
  have hlog := LoggedGic.wrotes_log (s.logged.cleared cpu i reads) cpu i (enableOps (s.ctxs p))
  have hwords := LoggedGic.wrotes_words (s.logged.cleared cpu i reads) cpu i (enableOps (s.ctxs p))
  have hplain := LoggedGic.wrotes_plain (s.logged.cleared cpu i reads) cpu i (enableOps (s.ctxs p))
  refine ⟨rfl, ?_, hlog, ?_⟩
  · refine Eq.trans ?_ (congrArg (EStateM.Result.ok 0) hplain.symm)
    exact (gicIrqEnable_wrote_iff hm hp hi hops).mpr ⟨rfl, reads, hpoll, rfl⟩
  · refine hwords.trans ?_
    rw [show (s.logged.ctxs p) = s.ctxs p from rfl, hlog]
    rfl

/-- **`gic_irq_enable` is all or nothing.**  An INTID that the table does not accept is refused,
with the state as it was and no register written; with any other the call returns `0`, and its log
of register writes says that the interrupt was disabled while its priority, its group and its
trigger mode were written, and that it ends configured and enabled. -/
theorem gic_irq_enable_atomic (B : GicBoard) {cpu : Nat} {s : Gic} {p : IrqRef} {c : IrqClass}
    (hm : s.Mapped B cpu) (hops : (s.ctxs p).ops = some c) :
    (¬ c.Covers (s.ctxs p).intid.toNat →
      gicIrqEnable B cpu (some p) s.logged =
        if c = .sgi then .error .panic s.logged else .ok (-EINVAL) s.logged) ∧
    (c.Covers (s.ctxs p).intid.toNat →
      (B.Settles → ∃ t, gicIrqEnable B cpu (some p) s.logged = .ok 0 t) ∧
      ∀ r t, gicIrqEnable B cpu (some p) s.logged = .ok r t →
        r = 0 ∧ gicIrqEnable B cpu (some p) s = .ok 0 (LoggedGic.plain t) ∧
        t.regs.words = wordsAfter s.regs t.regs.log ∧
        EnableLog s cpu (s.ctxs p).intid.toNat c (s.ctxs p) t.regs.log) := by
  have hm' : s.logged.Mapped B cpu := ⟨hm.cpu_lt, hm.gicd, hm.gicr⟩
  refine ⟨gicIrqEnable_refused hm' hops, ?_⟩
  intro hc
  obtain ⟨hclass, hi⟩ := IrqClass.covers_iff.mp hc
  subst hclass
  constructor
  · intro hB
    obtain ⟨reads, hpoll⟩ := hm.polled hB (irqClass (s.ctxs p).intid.toNat) .clearIntr s.reads
    exact ⟨_, (gicIrqEnable_wrote_iff hm' rfl hi hops).mpr ⟨rfl, reads, hpoll, rfl⟩⟩
  · intro r t ht
    obtain ⟨hr, hplain, hlog, hwords⟩ := gicIrqEnable_logged hm rfl hi hops ht
    refine ⟨hr, hplain, hwords, ?_⟩
    rw [hlog]
    exact enableLog_opWrites hm hi (s.ctxs p)

/-- The board of the example settles, so enabling SPI 37 there returns. -/
theorem gic_irq_enable_atomic_example :
    exampleGic.Mapped exampleBoard 0 ∧ (exampleGic.ctxs (.spi 5)).ops = some .spi ∧
    ∃ t, gicIrqEnable exampleBoard 0 (some (.spi 5)) exampleGic.logged = .ok 0 t ∧
      t.regs.log.map RegWrite.addr = [0x8000184, 0x8000424, 0x8000d04, 0x8000c08, 0x8000104] := by
  have hsettles : exampleBoard.Settles := by
    constructor
    · intro n
      exact ⟨0, by decide, BitVec.zero_and⟩
    · intro c n
      exact ⟨0, by decide, BitVec.zero_and⟩
  have hcovers : IrqClass.spi.Covers (exampleGic.ctxs (.spi 5)).intid.toNat :=
    ⟨by decide, by decide⟩
  obtain ⟨hreturns, hlog⟩ := (gic_irq_enable_atomic exampleBoard exampleGic_mapped rfl).2 hcovers
  obtain ⟨t, ht⟩ := hreturns hsettles
  refine ⟨exampleGic_mapped, rfl, t, ht, ?_⟩
  rw [(hlog 0 t ht).2.2.2.addrs]
  rfl

end ZHyper
