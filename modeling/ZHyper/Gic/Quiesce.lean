import ZHyper.Gic.Init

/-!
# `gicd_init` quiesces every SPI

The loop of `gicd_init` goes over the lines `1` to `ITLinesNumber`, each with the 32 INTIDs of one
word of the enable, pending and active registers, and writes all ones to the clear register of each
word.  So all SPIs that are implemented end disabled, not pending and not active, and nothing else
changes but `GICD_CTLR` (`gicd_init_quiesces`).
-/

namespace ZHyper

open LowLevel

def ispendr (base : Nat) : Nat := base + 0x200

def isactiver (base : Nat) : Nat := base + 0x300

/-- `GICD_TYPER.ITLinesNumber`, as the next read of the register gives it. -/
def itLinesNumber (B : GicBoard) (s : Gic) : Nat :=
  (B.device (gicdBase + 4) (s.reads (gicdBase + 4)) &&& 0x1F).toNat

/-- The round of the loop that clears line `k`. -/
def gicdQuiesceLine (B : GicBoard) (k : Nat) : GicM Unit := do
  write32 (icpendr gicdBase + 4 * k) 0xFFFFFFFF
  write32 (icactiver gicdBase + 4 * k) 0xFFFFFFFF
  write32 (icenabler gicdBase + 4 * k) 0xFFFFFFFF
  gicdWaitRwp B

/-- The words of line `k`. -/
def LineWord (k a : Nat) : Prop :=
  a = isenabler gicdBase + 4 * k ∨ a = ispendr gicdBase + 4 * k ∨ a = isactiver gicdBase + 4 * k

/-- INTID `i` of the frame at `base` is disabled, not pending and not active. -/
def QuietAt (r : Nat → BitVec 32) (base i : Nat) : Prop :=
  (r (isenabler base + 4 * (i / 32))).getLsbD (i % 32) = false ∧
  (r (ispendr base + 4 * (i / 32))).getLsbD (i % 32) = false ∧
  (r (isactiver base + 4 * (i / 32))).getLsbD (i % 32) = false

/-- The distributor after `gicd_init` with `n` lines. -/
structure Quiesced (r r' : Nat → BitVec 32) (n : Nat) : Prop where
  spis : ∀ i, 32 ≤ i → i < 32 * (n + 1) → QuietAt r' gicdBase i
  rest : ∀ a, a ≠ gicdBase → (∀ k, 1 ≤ k → k ≤ n → ¬ LineWord k a) → r' a = r a
  word0 : ∀ a, LineWord 0 a → r' a = r a
  /-- The group registers, and from `0x400` on those of priority, target, trigger, group modifier
  and routing. -/
  config : ∀ off, (0x80 ≤ off ∧ off < 0x100) ∨ 0x400 ≤ off →
    r' (gicdBase + off) = r (gicdBase + off)

variable {B : GicBoard} {s s' : Gic} {n i k : Nat} {r r' : Nat → BitVec 32}

/-! ## A line -/

/-- All ones to the clear register at `a`, whose set register is at `b`. -/
theorem written_clear_all (off : Nat) {a b : Nat} (ha : a = gicdBase + off + 0x80)
    (hb : b = gicdBase + off) (hoff : 0x100 ≤ off ∧ off < 0x400) (hset : off / 0x80 % 2 = 0)
    (r : Nat → BitVec 32) :
    written r a 0xFFFFFFFF = Function.update r b 0 := by
  have hframe : FrameBase gicdBase := .inl rfl
  have hzero : r (gicdBase + off) &&& ~~~(0xFFFFFFFF : BitVec 32) = 0 := BitVec.and_zero
  subst ha hb
  unfold written
  rw [Nat.add_assoc, hframe.frameOffset (by omega)]
  dsimp only
  rw [if_pos (by omega), if_neg (by omega), ← Nat.add_assoc, Nat.add_sub_cancel, hzero]

/-- The registers after the writes of a line. -/
def clearedLine (r : Nat → BitVec 32) (k : Nat) : Nat → BitVec 32 :=
  Function.update (Function.update (Function.update r (ispendr gicdBase + 4 * k) 0)
    (isactiver gicdBase + 4 * k) 0)
    (isenabler gicdBase + 4 * k) 0

theorem clearedLine_word {a : Nat} (h : LineWord k a) : clearedLine r k a = 0 := by
  unfold clearedLine
  simp only [Function.update_apply]
  rcases h with rfl | rfl | rfl <;> simp

theorem clearedLine_other {a : Nat} (h : ¬ LineWord k a) : clearedLine r k a = r a := by
  unfold LineWord at h
  rw [not_or, not_or] at h
  unfold clearedLine
  rw [Function.update_of_ne h.1, Function.update_of_ne h.2.2, Function.update_of_ne h.2.1]

/-- Different lines have no word in common. -/
theorem LineWord.unique {j a : Nat} (h : LineWord k a) (hj : LineWord j a) (hk : k < 32)
    (hj32 : j < 32) : j = k := by
  unfold LineWord isenabler ispendr isactiver at *
  omega

/-- **A round of the loop** clears its line and waits. -/
theorem gicdQuiesceLine_run (hk : k < 32) :
    gicdQuiesceLine B k s = gicdWaitRwp B { s with regs := clearedLine s.regs k } := by
  have hpend : ∀ r, written r (icpendr gicdBase + 4 * k) 0xFFFFFFFF =
      Function.update r (ispendr gicdBase + 4 * k) 0 :=
    written_clear_all (0x200 + 4 * k) (by unfold icpendr; omega) (by unfold ispendr; omega)
      (by omega) (by omega)
  have hactive : ∀ r, written r (icactiver gicdBase + 4 * k) 0xFFFFFFFF =
      Function.update r (isactiver gicdBase + 4 * k) 0 :=
    written_clear_all (0x300 + 4 * k) (by unfold icactiver; omega) (by unfold isactiver; omega)
      (by omega)
      (by omega)
  have henable : ∀ r, written r (icenabler gicdBase + 4 * k) 0xFFFFFFFF =
      Function.update r (isenabler gicdBase + 4 * k) 0 :=
    written_clear_all (0x100 + 4 * k) (by unfold icenabler; omega) (by unfold isenabler; omega)
      (by omega)
      (by omega)
  unfold gicdQuiesceLine
  rw [bind_run (write32_run _ _), bind_run (write32_run _ _), bind_run (write32_run _ _)]
  dsimp only
  rw [hpend, hactive, henable]
  rfl

/-- What follows once the words of the lines are cleared and all others kept. -/
theorem quiesced_of (hn : n < 32) (hcleared : ∀ k a, 1 ≤ k → k ≤ n → LineWord k a → r' a = 0)
    (hrest : ∀ a, a ≠ gicdBase → (∀ k, 1 ≤ k → k ≤ n → ¬ LineWord k a) → r' a = r a) :
      Quiesced r r' n where
  spis := by
    intro i hlow hhigh
    have hzero : ∀ a, LineWord (i / 32) a → (r' a).getLsbD (i % 32) = false := by
      intro a ha
      rw [hcleared (i / 32) a (by omega) (by omega) ha]
      exact BitVec.getLsbD_zero
    exact ⟨hzero _ (.inl rfl), hzero _ (.inr (.inl rfl)), hzero _ (.inr (.inr rfl))⟩
  rest := hrest
  word0 := by
    intro a ha
    apply hrest
    · unfold LineWord isenabler ispendr isactiver at ha
      omega
    · intro k h1 h2 hk
      have := LineWord.unique ha hk (by omega) (by omega)
      omega
  config := by
    intro off hoff
    apply hrest
    · omega
    · intro k h1 h2 hk
      unfold LineWord isenabler ispendr isactiver at hk
      omega

/-! ## The loop -/

theorem gicdQuiesce_succ (n i : Nat) :
    gicdQuiesce B (n + 1) i = gicdQuiesceLine B (i + 1) >>= fun _ => gicdQuiesce B n (i + 1) := by
  unfold gicdQuiesceLine
  rw [gicdQuiesce]
  simp only [bind_assoc]

/-- The loop goes over the lines one after the other. -/
theorem gicdQuiesce_lines (n i : Nat) :
    gicdQuiesce B n i = (List.range' (i + 1) n).forM (gicdQuiesceLine B) := by
  induction n generalizing i with
  | zero => rfl
  | succ n ih =>
    rw [gicdQuiesce_succ, ih (i + 1)]
    rfl

/-- **A run of the loop** clears its lines and changes nothing else. -/
theorem gicdQuiesce_ok (hregs : s.gicd.gicdRegs = gicdBase) (hn : i + n < 32) {u : Unit}
    (h : gicdQuiesce B n i s = .ok u s') :
    (∀ k a, i < k → k ≤ i + n → LineWord k a → s'.regs a = 0) ∧
    ∀ a, (∀ k, i < k → k ≤ i + n → ¬ LineWord k a) → s'.regs a = s.regs a := by
  induction n generalizing i s with
  | zero =>
    cases h
    refine ⟨fun k a h1 h2 => ?_, fun _ _ => rfl⟩
    omega
  | succ n ih =>
    rw [gicdQuiesce_succ] at h
    obtain ⟨_, t, hline, hrest⟩ := bind_ok_iff.mp h
    rw [gicdQuiesceLine_run (by omega)] at hline
    obtain ⟨k, -, ht⟩ :=
      (gicdWaitRwp_ok_iff (s := { s with regs := clearedLine s.regs (i + 1) }) hregs).mp hline
    have htregs : t.regs = clearedLine s.regs (i + 1) := by rw [ht]
    have htgicd : t.gicd.gicdRegs = gicdBase := by
      rw [ht]
      exact hregs
    obtain ⟨hcleared, hkept⟩ := ih (i := i + 1) htgicd (by omega) hrest
    rw [htregs] at hkept
    have hfirst : ∀ a, LineWord (i + 1) a → s'.regs a = 0 := by
      intro a ha
      rw [hkept a ?_]
      · exact clearedLine_word ha
      · intro k h1 h2 hk
        have := LineWord.unique ha hk (by omega) (by omega)
        omega
    refine ⟨?_, ?_⟩
    · intro k a h1 h2 ha
      by_cases hk : k = i + 1
      · exact hfirst a (hk ▸ ha)
      · exact hcleared k a (by omega) (by omega) ha
    · intro a ha
      rw [hkept a fun k h1 h2 => ha k (by omega) (by omega)]
      exact clearedLine_other (ha (i + 1) (by omega) (by omega))

/-- With a device that settles the wait ends, -/
theorem gicdWaitRwp_returns (hB : B.Settles) (hregs : s.gicd.gicdRegs = gicdBase) :
    ∃ reads, gicdWaitRwp B s = .ok () { s with reads := reads } := by
  obtain ⟨k, hk, hd⟩ := hB.1 (s.reads (gicdStatusr gicdBase))
  obtain ⟨l, hl⟩ := pollCount_some hk hd
  exact ⟨_, (gicdWaitRwp_ok_iff hregs).mpr ⟨l, hl, rfl⟩⟩

/-- and so does the loop. -/
theorem gicdQuiesce_returns (hB : B.Settles) (hregs : s.gicd.gicdRegs = gicdBase)
    (hn : i + n < 32) :
    ∃ s', gicdQuiesce B n i s = .ok () s' := by
  induction n generalizing i s with
  | zero => exact ⟨s, rfl⟩
  | succ n ih =>
    obtain ⟨reads, hwait⟩ :=
      gicdWaitRwp_returns (s := { s with regs := clearedLine s.regs (i + 1) }) hB hregs
    rw [← gicdQuiesceLine_run (by omega)] at hwait
    rw [gicdQuiesce_succ, bind_run hwait]
    exact ih hregs (by omega)

/-! ## The whole function -/

/-- The context once the identification registers are read. -/
def GicdContext.identified (c : GicdContext) (typer id : BitVec 32) : GicdContext :=
  { (({ c with gicdRegs := gicdBase } : GicdContext).withTyper typer).withIidr id with
    enableGrp0 := false
    enableGrp1 := true
    are := false
    e1nwf := false }

/-- The state before the first wait of `gicd_init`. -/
def Gic.identified (B : GicBoard) (s : Gic) : Gic :=
  let c := s.gicd.identified (B.device (gicdBase + 4) (s.reads (gicdBase + 4)))
    (B.device (gicdBase + 8) (s.reads (gicdBase + 8)))
  { s with
    gicd := c
    regs := Function.update s.regs gicdBase c.ctrl
    reads := Function.update (Function.update s.reads (gicdBase + 4) (s.reads (gicdBase + 4) + 1))
      (gicdBase + 8)
      (s.reads (gicdBase + 8) + 1) }

theorem gicdInit_run : gicdInit B s = (do
    gicdWaitRwp B
    let ctrl ← read32 B gicdBase
    updateGicd fun c => c.withCtlr ctrl
    let s ← get
    gicdQuiesce B s.gicd.itlinesnumber.toNat 0
    isb
    return 0 : GicM Int) (s.identified B) := by
  have hframe : FrameBase gicdBase := .inl rfl
  have hctlr : ∀ r v, written r (gicdBase + 0) v = Function.update r (gicdBase + 0) v :=
    hframe.written_plain (by decide) (.inl (by decide))
  have hupdate : ∀ f (t : Gic), updateGicd f t = .ok () { t with gicd := f t.gicd } :=
    fun _ _ => rfl
  have htyper : DeviceReg (gicdBase + 4) := by decide
  have hiidr : DeviceReg (gicdBase + 8) := by decide
  unfold gicdInit
  rw [bind_run (hupdate _ _), bind_run (read32_device htyper), bind_run (hupdate _ _),
    bind_run (read32_device hiidr), bind_run (hupdate _ _), bind_run (hupdate _ _), bind_get,
    bind_run (write32_run _ _)]
  have hctlr : ∀ r v, written r gicdBase v = Function.update r gicdBase v := hctlr
  dsimp only
  rw [hctlr]
  rfl

theorem itlinesnumber_toNat (c : GicdContext) (typer : BitVec 32) :
    (c.withTyper typer).itlinesnumber.toNat = (typer &&& 0x1F).toNat := by
  have hlt : (typer &&& 0x1F).toNat < 2 ^ 5 :=
    Nat.lt_succ_of_le (Nat.and_le_right (n := typer.toNat) (m := 0x1F))
  unfold GicdContext.withTyper
  rw [BitVec.toNat_setWidth, Nat.mod_eq_of_lt hlt]

theorem itLinesNumber_lt (B : GicBoard) (s : Gic) : itLinesNumber B s < 32 :=
  Nat.lt_succ_of_le
    (Nat.and_le_right (n := (B.device (gicdBase + 4) (s.reads (gicdBase + 4))).toNat) (m := 0x1F))

/-- What `gicd_init` does before its loop, once the first wait has returned. -/
theorem gicdInit_loop {u : Unit} (h : gicdWaitRwp B (s.identified B) = .ok u s') :
    ∃ t : Gic, t.regs = Function.update s.regs gicdBase (s.identified B).gicd.ctrl ∧
      t.gicd.gicdRegs = gicdBase ∧
      t.gicd.itlinesnumber.toNat = itLinesNumber B s ∧
      gicdInit B s = (do gicdQuiesce B (itLinesNumber B s) 0; isb; return 0 : GicM Int) t := by
  have hctlr : DeviceReg gicdBase := by decide
  have hupdate : ∀ f (t : Gic), updateGicd f t = .ok () { t with gicd := f t.gicd } :=
    fun _ _ => rfl
  have hlines : (s.identified B).gicd.itlinesnumber.toNat = itLinesNumber B s :=
    itlinesnumber_toNat { s.gicd with gicdRegs := gicdBase } _
  obtain ⟨k, -, rfl⟩ := (gicdWaitRwp_ok_iff (s := s.identified B) rfl).mp h
  rw [gicdInit_run, bind_run h, bind_run (read32_device hctlr), bind_run (hupdate _ _), bind_get,
    ← hlines]
  refine ⟨_, ?_, ?_, ?_, rfl⟩
  · rfl
  · rfl
  · rfl

/-- **Initialisation of the distributor.** With a device that settles it returns `0`, and whenever
it returns, every SPI that is implemented is quiet and all else as before; the loop of the run goes
over the lines `1` to `ITLinesNumber`, all below 32. -/
theorem gicd_init_quiesces (B : GicBoard) (s : Gic) :
    (B.Settles → ∃ s', gicdInit B s = .ok 0 s') ∧
    (∀ r s', gicdInit B s = .ok r s' → r = 0 ∧ Quiesced s.regs s'.regs (itLinesNumber B s) ∧
      ∃ t : Gic, t.gicd.itlinesnumber.toNat = itLinesNumber B s ∧
        gicdQuiesce B (itLinesNumber B s) 0 t = .ok () s') ∧
    gicdQuiesce B (itLinesNumber B s) 0 = (List.range' 1 (itLinesNumber B s)).forM
      (gicdQuiesceLine B) ∧
    ∀ k ∈ List.range' 1 (itLinesNumber B s), k < 32 := by
  have hlt := itLinesNumber_lt B s
  refine ⟨?_, ?_, gicdQuiesce_lines _ _, ?_⟩
  · intro hB
    obtain ⟨reads, hwait⟩ := gicdWaitRwp_returns (s := s.identified B) hB rfl
    obtain ⟨t, -, hregs, -, hloop⟩ := gicdInit_loop hwait
    obtain ⟨s', hs'⟩ := gicdQuiesce_returns (n := itLinesNumber B s) (i := 0) hB hregs (by omega)
    rw [hloop, bind_run hs']
    exact ⟨s', rfl⟩
  · intro r s' h
    have hwaits := h
    rw [gicdInit_run] at hwaits
    obtain ⟨u, w, hwait, -⟩ := bind_ok_iff.mp hwaits
    obtain ⟨t, htregs, hregs, hlines, hloop⟩ := gicdInit_loop hwait
    rw [hloop] at h
    obtain ⟨_, t', hrun, hend⟩ := bind_ok_iff.mp h
    obtain ⟨hr, rfl⟩ : 0 = r ∧ t' = s' := by
      cases hend
      exact ⟨rfl, rfl⟩
    obtain ⟨hcleared, hkept⟩ := gicdQuiesce_ok hregs (by omega) hrun
    have hrest : ∀ a, a ≠ gicdBase → (∀ k, 1 ≤ k → k ≤ itLinesNumber B s → ¬ LineWord k a) →
        t'.regs a = s.regs a := by
      intro a ha hline
      rw [hkept a fun k h1 h2 => hline k h1 (by omega), htregs, Function.update_of_ne ha]
    exact ⟨hr.symm, quiesced_of hlt (fun k a h1 h2 => hcleared k a h1 (by omega)) hrest, t, hlines,
      hrun⟩
  · intro k hk
    obtain ⟨-, hk⟩ := List.mem_range'_1.mp hk
    omega

end ZHyper
