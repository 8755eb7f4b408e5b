import ZHyper.Lib.Runs
import ZHyper.Gic.Config

/-!
# Interrupt contexts

The three lookups of contexts, `get_irq_context`, `gic_irq_enable`, and what drivers write to the
contexts they were given.  A lookup of `i` on a CPU always gives the slot `irqRef cpu i`; it sets
`ops` for SGIs and SPIs, and for PPIs it initialises the whole context unless it has its INTID and
its table already.

Whatever lookups and writes came before, from a zeroed area:

    the context looked up for i has INTID i and the table of its class  ↔  i is a PPI or 0
                                                                           (contexts_name_own_iff)

`get_sgi_context` and `get_spi_context` never set `intid`.
-/

namespace ZHyper

open LowLevel

/-! ## Lookups -/

/-- A store to `ctx->field`s. -/
def updateCtx (p : IrqRef) (f : IrqContext → IrqContext) : GicM Unit :=
  modify fun s => { s with ctxs := Function.update s.ctxs p (f (s.ctxs p)) }

/-- `get_sgi_context` on CPU `cpu` -/
def getSgiContext (B : GicBoard) (cpu intid : Nat) : GicM (Option IrqRef) := do
  let k ← getThisGicr B cpu
  if checkSgiIntid intid then return none
  updateCtx (.sgi k intid) fun c => { c with ops := some .sgi }
  return some (.sgi k intid)

/-- The context that `get_ppi_context` initialises. -/
def initPpiContext (intid : Nat) : IrqContext :=
  { IrqContext.zero with
    intid := BitVec.ofNat 10 intid, group := 1, priority := 0x80, trigger := 0, ops := some .ppi }

/-- `get_ppi_context` on CPU `cpu` -/
def getPpiContext (B : GicBoard) (cpu intid : Nat) : GicM (Option IrqRef) := do
  let k ← getThisGicr B cpu
  if checkPpiIntid intid then return none
  updateCtx (.ppi k (intid - 16)) fun c =>
    if c.intid.toNat ≠ intid ∨ c.ops ≠ some .ppi then initPpiContext intid else c
  return some (.ppi k (intid - 16))

/-- `get_spi_context` -/
def getSpiContext (intid : Nat) : GicM (Option IrqRef) := do
  if checkSpiIntid intid then return none
  updateCtx (.spi (intid - 32)) fun c => { c with ops := some .spi }
  return some (.spi (intid - 32))

/-- `get_irq_context` on CPU `cpu` -/
def getIrqContext (B : GicBoard) (cpu intid : Nat) : GicM (Option IrqRef) :=
  if intid ≤ 15 then getSgiContext B cpu intid
  else if intid ≤ 31 then getPpiContext B cpu intid
  else if intid ≤ 1019 then getSpiContext intid
  else pure none

/-- `gic_irq_enable` on CPU `cpu` -/
def gicIrqEnable {ρ : Type} [RegWords ρ] (B : GicBoard) (cpu : Nat) (intr : Option IrqRef) :
    GicOfM ρ Int := do
  if intr.isNone then return -ENOENT
  let c ← derefCtx intr
  match c.ops with
  | none => throw .nullDeref
  | some ops =>
    let ret ← intrOp B cpu ops .clearIntr intr
    if ret < 0 then return ret
    let ret ← intrOp B cpu ops (.setPriority c.priority) intr
    if ret < 0 then return ret
    let ret ← intrOp B cpu ops (.setGroup (c.group.setWidth 8)) intr
    if ret < 0 then return ret
    let ret ← intrOp B cpu ops (.setTrigger (c.trigger != 0)) intr
    if ret < 0 then return ret
    intrOp B cpu ops .setIntr intr

/-! ## What a lookup does -/

/-- The slot of INTID `i` on CPU `cpu`. -/
def irqRef (cpu i : Nat) : IrqRef :=
  if i ≤ 15 then .sgi cpu i else if i ≤ 31 then .ppi cpu (i - 16) else .spi (i - 32)

/-- What a lookup of `i` makes of its context. -/
def lookedUp (i : Nat) (c : IrqContext) : IrqContext :=
  if 16 ≤ i ∧ i ≤ 31 then if c.intid.toNat ≠ i ∨ c.ops ≠ some .ppi then initPpiContext i else c
  else { c with ops := some (irqClass i) }

/-- The four functions that look a context up. -/
inductive Lookup where
  | irq
  | sgi
  | ppi
  | spi

def lookup (B : GicBoard) (cpu : Nat) : Lookup → Nat → GicM (Option IrqRef)
  | .irq, i => getIrqContext B cpu i
  | .sgi, i => getSgiContext B cpu i
  | .ppi, i => getPpiContext B cpu i
  | .spi, i => getSpiContext i

variable {B : GicBoard} {cpu i j : Nat} {s s' : Gic} {p q : IrqRef}

/-- The state after a lookup. -/
def Gic.lookedUp (s : Gic) (cpu i : Nat) : Gic :=
  { s with
    ctxs := Function.update s.ctxs (irqRef cpu i) (ZHyper.lookedUp i (s.ctxs (irqRef cpu i))) }

theorem irqRef_sgi (hi : i ≤ 15) : irqRef cpu i = .sgi cpu i := if_pos hi

theorem irqRef_ppi (hlow : 16 ≤ i) (hi : i ≤ 31) : irqRef cpu i = .ppi cpu (i - 16) := by
  unfold irqRef
  rw [if_neg (by omega), if_pos hi]

theorem irqRef_spi (hlow : 32 ≤ i) : irqRef cpu i = .spi (i - 32) := by
  unfold irqRef
  rw [if_neg (by omega), if_neg (by omega)]

theorem lookedUp_ppi (hlow : 16 ≤ i) (hi : i ≤ 31) (c : IrqContext) :
    lookedUp i c = if c.intid.toNat ≠ i ∨ c.ops ≠ some .ppi then initPpiContext i else c :=
  if_pos ⟨hlow, hi⟩

theorem lookedUp_other (h : ¬ (16 ≤ i ∧ i ≤ 31)) (c : IrqContext) :
    lookedUp i c = { c with ops := some (irqClass i) } :=
  if_neg h

theorem getSgiContext_run (hcpu : cpu < B.nrCpu) (hi : i ≤ 15) :
    getSgiContext B cpu i s = .ok (some (irqRef cpu i)) (s.lookedUp cpu i) := by
  unfold getSgiContext Gic.lookedUp
  rw [bind_run (getThisGicr_run hcpu), sgi_check hi, if_neg (by simp), irqRef_sgi hi,
    lookedUp_other (by omega), irqClass_sgi hi]
  rfl

theorem getPpiContext_run (hcpu : cpu < B.nrCpu) (hlow : 16 ≤ i) (hi : i ≤ 31) :
    getPpiContext B cpu i s = .ok (some (irqRef cpu i)) (s.lookedUp cpu i) := by
  unfold getPpiContext Gic.lookedUp
  rw [bind_run (getThisGicr_run hcpu), ppi_check hlow hi, if_neg (by simp), irqRef_ppi hlow hi,
    lookedUp_ppi hlow hi]
  rfl

theorem getSpiContext_run (hlow : 32 ≤ i) (hi : i ≤ 1019) :
    getSpiContext i s = .ok (some (irqRef cpu i)) (s.lookedUp cpu i) := by
  unfold getSpiContext Gic.lookedUp
  rw [spi_check hlow hi, if_neg (by simp), irqRef_spi hlow, lookedUp_other (by omega),
    irqClass_spi hlow]
  rfl

theorem getIrqContext_run (hcpu : cpu < B.nrCpu) (hi : i ≤ 1019) :
    getIrqContext B cpu i s = .ok (some (irqRef cpu i)) (s.lookedUp cpu i) := by
  unfold getIrqContext
  split_ifs with h1 h2
  · exact getSgiContext_run hcpu h1
  · exact getPpiContext_run hcpu (by omega) h2
  · exact getSpiContext_run (by omega) hi

/-- What a lookup of `i` may end in: `NULL` and nothing changed, or the slot of `i` and that context
looked up. -/
def LookupEnds (cpu i : Nat) (s : Gic) (res : Option IrqRef) (s' : Gic) : Prop :=
  res = none ∧ s' = s ∨ i ≤ 1019 ∧ res = some (irqRef cpu i) ∧ s' = s.lookedUp cpu i

theorem LookupEnds.of_null {x : GicM (Option IrqRef)} {res : Option IrqRef} (hx : x s = .ok none s)
    (h : x s = .ok res s') :
    LookupEnds cpu i s res s' := by
  rw [hx] at h
  cases h
  exact .inl ⟨rfl, rfl⟩

theorem LookupEnds.of_slot {x : GicM (Option IrqRef)} {res : Option IrqRef} (hi : i ≤ 1019)
    (hx : x s = .ok (some (irqRef cpu i)) (s.lookedUp cpu i)) (h : x s = .ok res s') :
      LookupEnds cpu i s res s' := by
  rw [hx] at h
  cases h
  exact .inr ⟨hi, rfl, rfl⟩

/-- A function that got at the contexts of the CPU runs on a CPU that there is. -/
theorem cpu_lt_of_ok {α : Type} {f : Nat → GicM α} {a : α}
    (h : (getThisGicr B cpu >>= f) s = .ok a s') : cpu < B.nrCpu := by
  by_contra hcpu
  have hfault : getThisGicr B cpu s = .error .panic s := by
    unfold getThisGicr
    rw [if_pos (Nat.le_of_not_lt hcpu)]
    rfl
  rw [bind_fault hfault] at h
  cases h

theorem getSgiContext_ends {res : Option IrqRef} (h : getSgiContext B cpu i s = .ok res s') :
    LookupEnds cpu i s res s' := by
  have hcpu := cpu_lt_of_ok h
  by_cases hi : i ≤ 15
  · exact .of_slot (by omega) (getSgiContext_run hcpu hi) h
  · have hcheck : checkSgiIntid i = true := by
      simp only [checkSgiIntid, gt_iff_lt, decide_eq_true_eq]
      omega
    refine .of_null ?_ h
    rw [getSgiContext, bind_run (getThisGicr_run hcpu), hcheck]
    rfl

theorem getPpiContext_ends {res : Option IrqRef} (h : getPpiContext B cpu i s = .ok res s') :
    LookupEnds cpu i s res s' := by
  have hcpu := cpu_lt_of_ok h
  by_cases hi : 16 ≤ i ∧ i ≤ 31
  · exact .of_slot (by omega) (getPpiContext_run hcpu hi.1 hi.2) h
  · have hcheck : checkPpiIntid i = true := by
      simp only [checkPpiIntid, gt_iff_lt, Bool.or_eq_true, decide_eq_true_eq]
      omega
    refine .of_null ?_ h
    rw [getPpiContext, bind_run (getThisGicr_run hcpu), hcheck]
    rfl

theorem getSpiContext_ends {res : Option IrqRef} (h : getSpiContext i s = .ok res s') :
    LookupEnds cpu i s res s' := by
  by_cases hi : 32 ≤ i ∧ i ≤ 1019
  · exact .of_slot hi.2 (getSpiContext_run hi.1 hi.2) h
  · have hcheck : checkSpiIntid i = true := by
      simp only [checkSpiIntid, gt_iff_lt, Bool.or_eq_true, decide_eq_true_eq]
      omega
    refine .of_null ?_ h
    rw [getSpiContext, hcheck]
    rfl

/-- **A lookup** gives `NULL` and changes nothing, or gives the slot of its INTID and changes that
context only. -/
theorem lookup_ok {how : Lookup} {res : Option IrqRef} (h : lookup B cpu how i s = .ok res s') :
    LookupEnds cpu i s res s' := by
  cases how with
  | sgi => exact getSgiContext_ends h
  | ppi => exact getPpiContext_ends h
  | spi => exact getSpiContext_ends h
  | irq =>
    rw [lookup, getIrqContext] at h
    split_ifs at h
    · exact getSgiContext_ends h
    · exact getPpiContext_ends h
    · exact getSpiContext_ends h
    · exact .of_null rfl h

/-! ## Enabling an interrupt -/

/-- The operations that `gic_irq_enable` makes after the clear. -/
def enableOps (c : IrqContext) : List IntrOp :=
  [.setPriority c.priority, .setGroup (c.group.setWidth 8), .setTrigger (c.trigger != 0), .setIntr]

section

variable {ρ : Type} [RegWords ρ] {s s' : GicOf ρ}

/-- The writes of operations on `i`, first to last. -/
def GicOf.wrotes (s : GicOf ρ) (cpu i : Nat) (ops : List IntrOp) : GicOf ρ :=
  ops.foldl (fun s op =>
    s.wrote (opField (irqClass i) op).1 (s.frame cpu i) i (opField (irqClass i) op).2) s

/-- The calls of `gic_irq_enable` after the clear. -/
theorem enableOps_run (hm : s.Mapped B cpu) (hp : (s.ctxs p).intid.toNat = i) (hi : i ≤ 1019)
    (c : IrqContext) :
    (do
      let ret ← intrOp B cpu (irqClass i) (.setPriority c.priority) (some p)
      if ret < 0 then return ret
      let ret ← intrOp B cpu (irqClass i) (.setGroup (c.group.setWidth 8)) (some p)
      if ret < 0 then return ret
      let ret ← intrOp B cpu (irqClass i) (.setTrigger (c.trigger != 0)) (some p)
      if ret < 0 then return ret
      intrOp B cpu (irqClass i) .setIntr (some p) :
        GicOfM ρ Int) s = .ok 0 (s.wrotes cpu i (enableOps c)) := by
  rw [bind_run (intrOp_wrote_returns hm hp hi _ (by simp)), if_neg (by decide),
    bind_run (intrOp_wrote_returns (hm.wrote _ _ _ _) hp hi _ (by simp)), if_neg (by decide),
    bind_run (intrOp_wrote_returns ((hm.wrote _ _ _ _).wrote _ _ _ _) hp hi _ (by simp)),
    if_neg (by decide),
    intrOp_wrote_returns (((hm.wrote _ _ _ _).wrote _ _ _ _).wrote _ _ _ _) hp hi _ (by simp)]
  rfl

/-- The state after the clear of `gic_irq_enable`. -/
def GicOf.cleared (s : GicOf ρ) (cpu i : Nat) (reads : Nat → Nat) : GicOf ρ :=
  (s.wrote .enable (s.frame cpu i) i 0#32).polled reads

theorem GicOf.Mapped.cleared (hm : s.Mapped B cpu) (i : Nat) (reads : Nat → Nat) :
    (s.cleared cpu i reads).Mapped B cpu :=
  ⟨hm.cpu_lt, hm.gicd, hm.gicr⟩

/-- `gic_irq_enable` on a context with the table of its INTID clears, writes the configuration and
sets. -/
theorem gicIrqEnable_wrote_iff (hm : s.Mapped B cpu) (hp : (s.ctxs p).intid.toNat = i)
    (hi : i ≤ 1019) (hops : (s.ctxs p).ops = some (irqClass i)) {r : Int} :
    gicIrqEnable B cpu (some p) s = .ok r s' ↔ r = 0 ∧
      ∃ reads, Polled B (s.opPoll cpu (irqClass i) .clearIntr) s.reads reads ∧
        s' = (s.cleared cpu i reads).wrotes cpu i (enableOps (s.ctxs p)) := by
  unfold gicIrqEnable
  rw [if_neg (by simp), bind_run derefCtx_run]
  simp only [hops]
  rw [bind_ok_iff]
  constructor
  · rintro ⟨_, t, hclear, hrest⟩
    obtain ⟨rfl, reads, hpoll, rfl⟩ := (intrOp_wrote_iff hm hp hi _).mp hclear
    rw [if_neg (by decide)] at hrest
    have hrun := enableOps_run (hm.cleared i reads) hp hi (s.ctxs p)
    rw [GicOf.cleared] at hrun
    refine ⟨?_, reads, hpoll, ?_⟩
    · exact (EStateM.Result.ok.inj (hrest.symm.trans hrun)).1
    · exact (EStateM.Result.ok.inj (hrest.symm.trans hrun)).2
  · rintro ⟨rfl, reads, hpoll, rfl⟩
    refine ⟨0, _, (intrOp_wrote_iff hm hp hi _).mpr ⟨rfl, reads, hpoll, rfl⟩, ?_⟩
    rw [if_neg (by decide)]
    exact enableOps_run (hm.cleared i reads) hp hi (s.ctxs p)

end

/-- The puts of operations on `i`, first to last. -/
def Gic.puts (s : Gic) (cpu i : Nat) (ops : List IntrOp) : Gic :=
  ops.foldl (fun s op =>
    s.put (s.field cpu (opField (irqClass i) op).1 i) (opField (irqClass i) op).2) s

theorem GicOf.Mapped.wrotes_eq_puts (hm : s.Mapped B cpu) (hi : i ≤ 1019) (ops : List IntrOp) :
    s.wrotes cpu i ops = s.puts cpu i ops := by
  induction ops generalizing s with
  | nil => rfl
  | cons op ops ih =>
    refine Eq.trans ?_ (ih (hm.put _ _))
    show (s.wrote _ _ _ _).wrotes cpu i ops = _
    rw [hm.wrote_eq_put hi]

/-- `gic_irq_enable` on a context with the table of its INTID clears, puts the configuration and
sets. -/
theorem gicIrqEnable_ok_iff (hm : s.Mapped B cpu) (hp : (s.ctxs p).intid.toNat = i) (hi : i ≤ 1019)
    (hops : (s.ctxs p).ops = some (irqClass i)) {r : Int} :
    gicIrqEnable B cpu (some p) s = .ok r s' ↔ r = 0 ∧
      ∃ reads, Polled B (s.opPoll cpu (irqClass i) .clearIntr) s.reads reads ∧
        s' = (s.putPolled (s.field cpu .enable i) 0#32 reads).puts cpu i
          (enableOps (s.ctxs p)) := by
  have hputs : ∀ reads ops, (s.cleared cpu i reads).wrotes cpu i ops =
      (s.putPolled (s.field cpu .enable i) 0#32 reads).puts cpu i ops := by
    intro reads ops
    rw [(hm.cleared i reads).wrotes_eq_puts hi, GicOf.cleared,
      Gic.wrote_eq_put (hm.frameBase i) hi (by decide)]
    rfl
  rw [gicIrqEnable_wrote_iff hm hp hi hops]
  simp only [hputs]

/-- Operations on `i` keep the fields of the other interrupts. -/
theorem Gic.puts_other (hm : s.Mapped B cpu) (hi : i ≤ 1019) (hj : j ≤ 1019) (hij : j ≠ i)
    (ops : List IntrOp) (f : IrqField) :
    (s.field cpu f j).get (s.puts cpu i ops).regs = (s.field cpu f j).get s.regs := by
  induction ops generalizing s with
  | nil => rfl
  | cons op ops ih =>
    refine (ih (hm.put _ _)).trans ?_
    exact Field.get_put_of_disjoint (hm.disjoint hi hj fun e => hij (Prod.mk.inj e).2.symm)

/-- `gic_irq_enable` enables the interrupt that its context names and touches no other. -/
theorem gicIrqEnable_acts (hm : s.Mapped B cpu) (hp : (s.ctxs p).intid.toNat = i) (hi : i ≤ 1019)
    (hops : (s.ctxs p).ops = some (irqClass i)) {r : Int}
    (h : gicIrqEnable B cpu (some p) s = .ok r s') :
    r = 0 ∧ (s.field cpu .enable i).get s'.regs = 1 ∧
    ∀ j, j ≤ 1019 → j ≠ i → ∀ f, (s.field cpu f j).get s'.regs = (s.field cpu f j).get s.regs := by
  obtain ⟨rfl, reads, -, rfl⟩ := (gicIrqEnable_ok_iff hm hp hi hops).mp h
  refine ⟨rfl, ?_, ?_⟩
  · exact Field.get_put_self (opField_fits _ .setIntr) (IrqField.off_add_width _ _ _)
  · intro j hj hij f
    refine (Gic.puts_other (hm.putPolled _ _ reads) hi hj hij _ f).trans ?_
    exact Field.get_put_of_disjoint (hm.disjoint hi hj fun e => hij (Prod.mk.inj e).2.symm)

/-- It returns when the device settles. -/
theorem gicIrqEnable_returns (hm : s.Mapped B cpu) (hB : B.Settles)
    (hp : (s.ctxs p).intid.toNat = i) (hi : i ≤ 1019) (hops : (s.ctxs p).ops = some (irqClass i)) :
      ∃ s', gicIrqEnable B cpu (some p) s = .ok 0 s' := by
  obtain ⟨reads, hpoll⟩ := hm.polled hB (irqClass i) .clearIntr s.reads
  exact ⟨_, (gicIrqEnable_ok_iff hm hp hi hops).mpr ⟨rfl, reads, hpoll, rfl⟩⟩

/-- What a function of a table does with an INTID that the table does not accept, when it is called
first. -/
def IrqClass.refusal {ρ : Type} (c : IrqClass) (s : GicOf ρ) :
    EStateM.Result GicFault (GicOf ρ) Int :=
  if c = .sgi then .error .panic s else .ok (-EINVAL) s

/-- A clear through the table of another class fails, -/
theorem clearIntr_refused {ρ : Type} [RegWords ρ] {s : GicOf ρ} {c : IrqClass} (hm : s.Mapped B cpu)
    (hc : ¬ c.Covers (s.ctxs p).intid.toNat) :
    intrOp B cpu c .clearIntr (some p) s = c.refusal s := by
  cases c with
  | sgi =>
    have hcheck : checkSgiIntid (s.ctxs p).intid.toNat = true := by
      simpa [checkSgiIntid, IrqClass.Covers] using hc
    rw [intrOp, gicrClearSgi, gicrSetOrClearSgi, if_neg (by simp)]
    refine (bind_run derefCtx_run).trans ?_
    rw [hcheck]
    rfl
  | ppi =>
    have hcheck : checkPpiIntid (s.ctxs p).intid.toNat = true := by
      simp only [checkPpiIntid, IrqClass.Covers, Bool.or_eq_true, decide_eq_true_eq] at hc ⊢
      omega
    rw [intrOp, gicrClearPpi, gicrSetClearPpi, bind_run (getThisGicr_run hm.cpu_lt),
      bind_run derefCtx_run, hcheck]
    rfl
  | spi =>
    have hne : s.gicd.gicdRegs ≠ 0 := by
      rw [hm.gicd]
      decide
    have hcheck : checkSpiIntid (s.ctxs p).intid.toNat = true := by
      simp only [checkSpiIntid, IrqClass.Covers, Bool.or_eq_true, decide_eq_true_eq] at hc ⊢
      omega
    rw [intrOp, gicdClearSpi, spiOp_run, gicdSetClearSpi, bind_run (gicdRegsChecked_run hne),
      hcheck]
    rfl

/-- and with it `gic_irq_enable`: nothing is done. -/
theorem gicIrqEnable_refused {ρ : Type} [RegWords ρ] {s : GicOf ρ} {c : IrqClass}
    (hm : s.Mapped B cpu) (hops : (s.ctxs p).ops = some c)
    (hc : ¬ c.Covers (s.ctxs p).intid.toNat) : gicIrqEnable B cpu (some p) s = c.refusal s := by
  have hclear := clearIntr_refused hm hc
  unfold gicIrqEnable
  rw [if_neg (by simp), bind_run derefCtx_run]
  simp only [hops]
  unfold IrqClass.refusal at *
  split_ifs at hclear ⊢
  · exact bind_fault hclear
  · rw [bind_run hclear]
    rfl

/-! ## Lookups and writes of drivers -/

/-- A store of a driver to a context. -/
inductive DriverWrite where
  | priority (v : BitVec 8)
  | group (v : BitVec 1)
  | trigger (v : BitVec 1)
  | handle (v : Nat)
  | arg (v : Nat)

def DriverWrite.apply (c : IrqContext) : DriverWrite → IrqContext
  | priority v => { c with priority := v }
  | group v => { c with group := v }
  | trigger v => { c with trigger := v }
  | handle v => { c with handle := v }
  | arg v => { c with arg := v }

/-- The state, and the contexts that lookups have given so far. -/
structure Drivers where
  gic : Gic
  given : List IrqRef

inductive DriverAct where
  | lookup (cpu : Nat) (how : Lookup) (i : Nat)
  | write (p : IrqRef) (w : DriverWrite)

/-- A driver looks a context up, or writes to one it was given. -/
inductive DriverStep (B : GicBoard) : Drivers → DriverAct → Drivers → Prop where
  | lookup {d : Drivers} {cpu : Nat} {how : Lookup} {i : Nat} {res : Option IrqRef} {s' : Gic} :
      lookup B cpu how i d.gic = .ok res s' →
      DriverStep B d (.lookup cpu how i) ⟨s', res.toList ++ d.given⟩
  | write {d : Drivers} {p : IrqRef} {w : DriverWrite} : p ∈ d.given →
      DriverStep B d (.write p w)
        ⟨{ d.gic with ctxs := Function.update d.gic.ctxs p (w.apply (d.gic.ctxs p)) }, d.given⟩

/-- The `.gic_context` section is zero and no context has been given. -/
structure Drivers.Zeroed (d : Drivers) : Prop where
  ctxs : ∀ p, d.gic.ctxs p = .zero
  given : d.given = []

/-- What a context has when nobody has looked it up, and what it has afterwards. -/
def CtxInv : IrqRef → IrqContext → Prop
  | .sgi _ _, c => c.intid = 0 ∧ (c.ops = none ∨ c.ops = some .sgi)
  | .spi _, c => c.intid = 0 ∧ (c.ops = none ∨ c.ops = some .spi)
  | .ppi _ n, c => c = .zero ∨ c.intid.toNat = 16 + n ∧ c.ops = some .ppi

/-- Every context is as lookups and writes leave it, and one that was given has its table. -/
structure Drivers.Inv (d : Drivers) : Prop where
  ctxs : ∀ p, CtxInv p (d.gic.ctxs p)
  given : ∀ p ∈ d.given, (d.gic.ctxs p).ops ≠ none

theorem Drivers.Zeroed.inv {d : Drivers} (h : d.Zeroed) : d.Inv where
  ctxs p := by
    rw [h.ctxs p]
    cases p with
    | sgi => exact ⟨rfl, .inl rfl⟩
    | spi => exact ⟨rfl, .inl rfl⟩
    | ppi => exact .inl rfl
  given p hp := by
    rw [h.given] at hp
    cases hp

/-- A lookup keeps the form of the context and leaves it with its table. -/
theorem CtxInv.after {c : IrqContext} (hi : i ≤ 1019) (h : CtxInv (irqRef cpu i) c) :
    CtxInv (irqRef cpu i) (lookedUp i c) ∧ (lookedUp i c).ops = some (irqClass i) := by
  by_cases hppi : 16 ≤ i ∧ i ≤ 31
  · rw [irqRef_ppi hppi.1 hppi.2] at h ⊢
    rw [lookedUp_ppi hppi.1 hppi.2, irqClass_ppi hppi.1 hppi.2]
    split_ifs with hnew
    · refine ⟨.inr ⟨?_, rfl⟩, rfl⟩
      show (BitVec.ofNat 10 i).toNat = 16 + (i - 16)
      rw [BitVec.toNat_ofNat]
      omega
    · rw [not_or, not_not, not_not] at hnew
      exact ⟨h, hnew.2⟩
  · rw [lookedUp_other hppi]
    refine ⟨?_, rfl⟩
    by_cases hsgi : i ≤ 15
    · rw [irqRef_sgi hsgi, irqClass_sgi hsgi] at *
      exact ⟨h.1, .inr rfl⟩
    · rw [irqRef_spi (by omega), irqClass_spi (by omega)] at *
      exact ⟨h.1, .inr rfl⟩

/-- A driver's store keeps it too, on a context that was given. -/
theorem CtxInv.write {c : IrqContext} (h : CtxInv p c) (hops : c.ops ≠ none) (w : DriverWrite) :
    CtxInv p (w.apply c) := by
  have hfields : (w.apply c).intid = c.intid ∧ (w.apply c).ops = c.ops := by
    cases w <;> exact ⟨rfl, rfl⟩
  cases p with
  | sgi | spi => exact ⟨hfields.1.trans h.1, by rw [hfields.2]; exact h.2⟩
  | ppi =>
    rcases h with rfl | h
    · exact absurd rfl hops
    · right
      rw [hfields.1, hfields.2]
      exact h

theorem Drivers.Inv.step {d d' : Drivers} {a : DriverAct} (hinv : d.Inv) (h : DriverStep B d a d') :
    d'.Inv := by
  cases h with
  | @lookup cpu how i res s' hl =>
    rcases lookup_ok hl with ⟨rfl, rfl⟩ | ⟨hi, rfl, rfl⟩
    · exact ⟨hinv.ctxs, hinv.given⟩
    · obtain ⟨hctx, hops⟩ := (hinv.ctxs (irqRef cpu i)).after hi
      constructor
      · exact (Function.forall_update_iff d.gic.ctxs CtxInv).mpr ⟨hctx, fun p _ => hinv.ctxs p⟩
      · refine (Function.forall_update_iff d.gic.ctxs fun p c => p ∈ irqRef cpu i :: d.given →
          c.ops ≠ none).mpr ⟨?_, ?_⟩
        · intro _
          rw [hops]
          simp
        · intro p hne hp
          exact hinv.given p ((List.mem_cons.mp hp).resolve_left hne)
  | @write p w hp =>
    have hops : ∀ c : IrqContext, (w.apply c).ops = c.ops := by
      intro c
      cases w <;> rfl
    constructor
    · refine (Function.forall_update_iff d.gic.ctxs CtxInv).mpr ⟨?_, fun q _ => hinv.ctxs q⟩
      exact (hinv.ctxs p).write (hinv.given p hp) w
    · refine (Function.forall_update_iff d.gic.ctxs fun q c => q ∈ d.given → c.ops ≠ none).mpr
        ⟨?_, fun q _ => hinv.given q⟩
      intro _
      rw [hops]
      exact hinv.given p hp

theorem Drivers.Inv.runs {d d' : Drivers} {acts : List DriverAct} (hinv : d.Inv)
    (h : Runs (DriverStep B) d acts d') :
    d'.Inv :=
  h.invariant (fun _ _ _ hinv hstep => hinv.step hstep) hinv

/-! ## What a looked-up context names -/

/-- On one CPU different INTIDs have different slots. -/
theorem irqRef_inj (hi : i ≤ 1019) (hj : j ≤ 1019) (h : irqRef cpu i = irqRef cpu j) : i = j := by
  unfold irqRef at h
  split_ifs at h <;> simp only [IrqRef.sgi.injEq, IrqRef.ppi.injEq, IrqRef.spi.injEq,
    true_and] at h <;> omega

/-- The INTID in a context that was looked up. -/
theorem CtxInv.intid {c : IrqContext} (h : CtxInv (irqRef cpu i) c) (hops : c.ops ≠ none) :
    c.intid.toNat = if 16 ≤ i ∧ i ≤ 31 then i else 0 := by
  by_cases hppi : 16 ≤ i ∧ i ≤ 31
  · rw [irqRef_ppi hppi.1 hppi.2] at h
    rw [if_pos hppi]
    rcases h with rfl | h
    · exact absurd rfl hops
    · rw [h.1]
      omega
  · rw [if_neg hppi]
    by_cases hsgi : i ≤ 15
    · rw [irqRef_sgi hsgi] at h
      rw [h.1]
      rfl
    · rw [irqRef_spi (by omega)] at h
      rw [h.1]
      rfl

/-- A context that has its table is not changed by a lookup. -/
theorem CtxInv.lookedUp_self {c : IrqContext} (h : CtxInv (irqRef cpu i) c) (hops : c.ops ≠ none) :
    lookedUp i c = c := by
  have hintid := h.intid hops
  by_cases hppi : 16 ≤ i ∧ i ≤ 31
  · rw [if_pos hppi] at hintid
    rw [irqRef_ppi hppi.1 hppi.2] at h
    have hppi' : c.ops = some .ppi := by
      rcases h with rfl | h
      · exact absurd rfl hops
      · exact h.2
    rw [lookedUp_ppi hppi.1 hppi.2, if_neg (by simp [hintid, hppi'])]
  · have hclass : c.ops = some (irqClass i) := by
      by_cases hsgi : i ≤ 15
      · rw [irqRef_sgi hsgi] at h
        rw [irqClass_sgi hsgi]
        exact h.2.resolve_left hops
      · rw [irqRef_spi (by omega)] at h
        rw [irqClass_spi (by omega)]
        exact h.2.resolve_left hops
    rw [lookedUp_other hppi, ← hclass]

/-- `gic_irq_enable` on a context whose INTID is not `i` leaves interrupt `i` as it is. -/
theorem gicIrqEnable_elsewhere (hm : s.Mapped B cpu) (hi : i ≤ 1019)
    (hnot : ¬ (i = 0 ∨ 16 ≤ i ∧ i ≤ 31)) (hp : (s.ctxs p).intid.toNat = 0)
    (hops : (s.ctxs p).ops = some (irqClass i)) {r : Int}
    (h : gicIrqEnable B cpu (some p) s = .ok r s') (f : IrqField) :
    (s.field cpu f i).get s'.regs = (s.field cpu f i).get s.regs := by
  by_cases hsgi : i ≤ 15
  · rw [irqClass_sgi hsgi] at hops
    exact (gicIrqEnable_acts hm hp (by omega) hops h).2.2 i hi (by omega) f
  · rw [irqClass_spi (by omega)] at hops
    have hcovers : ¬ IrqClass.spi.Covers (s.ctxs p).intid.toNat := by
      rw [hp]
      exact fun hc => absurd hc.1 (by decide)
    rw [gicIrqEnable_refused hm hops hcovers] at h
    cases h
    rfl

/-- The context that a lookup of `i` leaves. -/
theorem Drivers.Inv.lookedUp {d : Drivers} (hinv : d.Inv) (cpu : Nat) (hi : i ≤ 1019) :
    ((d.gic.lookedUp cpu i).ctxs (irqRef cpu i)).ops = some (irqClass i) ∧
    ((d.gic.lookedUp cpu i).ctxs (irqRef cpu i)).intid.toNat = if 16 ≤ i ∧ i ≤ 31 then i
    else 0 := by
  obtain ⟨hctx, hops⟩ := (hinv.ctxs (irqRef cpu i)).after hi
  have hslot : (d.gic.lookedUp cpu i).ctxs (irqRef cpu i) =
      ZHyper.lookedUp i (d.gic.ctxs (irqRef cpu i)) :=
    Function.update_self _ _ _
  rw [hslot]
  refine ⟨hops, hctx.intid ?_⟩
  rw [hops]
  simp

theorem intid_own_iff : (if 16 ≤ i ∧ i ≤ 31 then i else 0) = i ↔ i = 0 ∨ 16 ≤ i ∧ i ≤ 31 := by
  split_ifs <;> omega

/-- **A looked-up context names its own interrupt** just for PPIs and INTID 0.  All lookups of an
INTID give one slot, different INTIDs have different slots on a CPU, and a repeated lookup changes
nothing.  Where the context names its interrupt, `gic_irq_enable` acts on that interrupt and no
other; elsewhere it does not act on it. -/
theorem contexts_name_own_iff (B : GicBoard) {d₀ d : Drivers} {acts : List DriverAct}
    (h0 : d₀.Zeroed) (h : Runs (DriverStep B) d₀ acts d) {cpu i : Nat} (hcpu : cpu < B.nrCpu)
    (hi : i ≤ 1019) :
    ∃ p s', getIrqContext B cpu i d.gic = .ok (some p) s' ∧
      (∀ how q t, lookup B cpu how i d.gic = .ok (some q) t → q = p ∧ t = s') ∧
      (((s'.ctxs p).intid.toNat = i ∧ (s'.ctxs p).ops = some (irqClass i)) ↔
        i = 0 ∨ 16 ≤ i ∧ i ≤ 31) ∧
      (∀ how j q t, lookup B cpu how j d.gic = .ok (some q) t → j ≠ i → q ≠ p) ∧
      (p ∈ d.given → s' = d.gic) ∧
      (s'.Mapped B cpu →
        ((i = 0 ∨ 16 ≤ i ∧ i ≤ 31) → (B.Settles → ∃ t, gicIrqEnable B cpu (some p) s' = .ok 0 t) ∧
          ∀ r t, gicIrqEnable B cpu (some p) s' = .ok r t →
            r = 0 ∧ (s'.field cpu .enable i).get t.regs = 1 ∧
            ∀ j, j ≤ 1019 → j ≠ i → ∀ f, (s'.field cpu f j).get t.regs =
            (s'.field cpu f j).get s'.regs) ∧
        (¬ (i = 0 ∨ 16 ≤ i ∧ i ≤ 31) → ∀ r t, gicIrqEnable B cpu (some p) s' = .ok r t →
          ∀ f, (s'.field cpu f i).get t.regs = (s'.field cpu f i).get s'.regs)) := by
  have hinv := h0.inv.runs h
  obtain ⟨hops, hintid⟩ := hinv.lookedUp cpu hi
  have hname : ((d.gic.lookedUp cpu i).ctxs (irqRef cpu i)).intid.toNat = i ↔
      i = 0 ∨ 16 ≤ i ∧ i ≤ 31 := by
    rw [hintid]
    exact intid_own_iff
  refine ⟨irqRef cpu i, d.gic.lookedUp cpu i, getIrqContext_run hcpu hi, ?_, ?_, ?_, ?_, fun hm =>
    ⟨?_, ?_⟩⟩
  · intro how q t hl
    rcases lookup_ok hl with ⟨hq, -⟩ | ⟨-, hq, ht⟩
    · cases hq
    · exact ⟨Option.some.inj hq, ht⟩
  · constructor
    · rintro ⟨he, -⟩
      exact hname.mp he
    · intro hcond
      exact ⟨hname.mpr hcond, hops⟩
  · intro how j q t hl hij
    rcases lookup_ok hl with ⟨hq, -⟩ | ⟨hj, hq, -⟩
    · cases hq
    · intro hqp
      rw [Option.some.inj hq] at hqp
      exact hij (irqRef_inj hj hi hqp)
  · intro hgiven
    unfold Gic.lookedUp
    rw [(hinv.ctxs (irqRef cpu i)).lookedUp_self (hinv.given _ hgiven), Function.update_eq_self]
  · intro hcond
    have hown := hname.mpr hcond
    exact ⟨fun hB => gicIrqEnable_returns hm hB hown hi hops, fun r t ht =>
      gicIrqEnable_acts hm hown hi hops ht⟩
  · intro hnot r t ht f
    rw [if_neg fun hppi => hnot (.inr hppi)] at hintid
    exact gicIrqEnable_elsewhere hm hi hnot hintid hops ht f

/-- A zeroed context area, the frames mapped. -/
def exampleDrivers : Drivers := ⟨{ exampleGic with ctxs := fun _ => .zero }, []⟩

theorem exampleDrivers_zeroed : exampleDrivers.Zeroed := ⟨fun _ => rfl, rfl⟩

/-- The timer's PPI 26 after a lookup of it and a write of its handler. -/
theorem contexts_name_own_example :
    exampleDrivers.Zeroed ∧
    ∃ d, Runs (DriverStep exampleBoard) exampleDrivers
        [.lookup 0 .ppi 26, .write (.ppi 0 10) (.handle 0x40204000)] d ∧
      0 < exampleBoard.nrCpu ∧ 26 ≤ 1019 ∧
      ∃ p s', getIrqContext exampleBoard 0 26 d.gic = .ok (some p) s' ∧
      (s'.ctxs p).intid.toNat = 26 := by
  have hruns : ∃ d, Runs (DriverStep exampleBoard) exampleDrivers
      [.lookup 0 .ppi 26, .write (.ppi 0 10) (.handle 0x40204000)] d := by
    have hl : lookup exampleBoard 0 .ppi 26 exampleDrivers.gic =
        .ok (some (irqRef 0 26)) (exampleDrivers.gic.lookedUp 0 26) :=
      getPpiContext_run (by decide) (by decide) (by decide)
    refine ⟨_, .cons (.lookup hl) (.single (.write ?_))⟩
    decide
  obtain ⟨d, hd⟩ := hruns
  have hcpu : 0 < exampleBoard.nrCpu := by decide
  obtain ⟨p, s', hget, -, hname, -⟩ :=
    contexts_name_own_iff exampleBoard (i := 26) exampleDrivers_zeroed hd hcpu (by decide)
  exact ⟨exampleDrivers_zeroed, d, hd,
    hcpu, by decide, p, s', hget, (hname.mpr (.inr (by decide))).1⟩

/-- The context of SPI 37 has INTID 0, and enabling it is refused. -/
theorem spi_context_unnamed :
    ∃ s', getIrqContext exampleBoard 0 37 exampleDrivers.gic = .ok (some (.spi 5)) s' ∧
      (s'.ctxs (.spi 5)).intid.toNat = 0 ∧ ¬ (s'.ctxs (.spi 5)).intid.toNat = 37 ∧
      gicIrqEnable exampleBoard 0 (some (.spi 5)) s' = .ok (-EINVAL) s' := by
  refine ⟨_, getIrqContext_run (by decide) (by decide), by decide, by decide, ?_⟩
  exact gicIrqEnable_refused (c := .spi) ⟨by decide, rfl, 0, rfl, rfl⟩ (by decide)
    (fun hc => absurd hc.1 (by decide))

end ZHyper
