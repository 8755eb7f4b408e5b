import ZHyper.Gic.Init

/-!
# What waiting for a register write waits for

`gicr_wait_rwp` polls `GICR_CTLR` and returns after a read with `RWP` clear.  `gicd_wait_rwp` tests
the bit of `GICD_CTLR.RWP` in `GICD_STATUSR`: it never reads `GICD_CTLR`, so its return says nothing
about pending writes, and neither does that of the functions that wait with it:

    the waits return after a read of RWP clear  ↔  the one of the distributor never returns
                                                                                     (rwp_law_iff)
-/

namespace ZHyper

open LowLevel

/-- Whenever `x` returns, it has read the device register `a`, the last time with the bits `m`
clear. -/
def PollsClear {α : Type} (B : GicBoard) (x : GicM α) (s : Gic) (a : Nat) (m : BitVec 32) : Prop :=
  ∀ r s', x s = .ok r s' → s.reads a < s'.reads a ∧ B.device a (s'.reads a - 1) &&& m = 0

/-- `GICD_CTLR_RWP` -/
def gicdCtlrRwp : BitVec 32 := 1#32 <<< 31

/-- `GICR_CTLR_RWP` -/
def gicrCtlrRwp : BitVec 32 := 1#32 <<< 3

/-- The waits return once the pending write is done: the bare ones, the clear of an SPI, and a round
of the loop of `gicd_init`. -/
structure RwpLaw (B : GicBoard) (cpu : Nat) (s : Gic) : Prop where
  gicd : PollsClear B (gicdWaitRwp B) s gicdBase gicdCtlrRwp
  clearSpi : ∀ i, 32 ≤ i → i ≤ 1019 →
    PollsClear B (gicdSetClearSpi B i false) s gicdBase gicdCtlrRwp
  quiesce : ∀ i, PollsClear B (gicdQuiesce B 1 i) s gicdBase gicdCtlrRwp
  gicr : PollsClear B (gicrWaitRwp B cpu) s (gicrCtlr (s.gicr cpu).gicrRegs) gicrCtlrRwp

variable {B : GicBoard} {cpu : Nat} {s s' : Gic} {d : Nat → BitVec 32} {m : BitVec 32}
    {fuel n k : Nat}

/-- The last read of a poll that ends. -/
theorem pollCount_last (h : pollCount d m fuel n = some k) : n < k ∧ d (k - 1) &&& m = 0 := by
  induction fuel generalizing n with
  | zero => cases h
  | succ fuel ih =>
    rw [pollCount] at h
    split at h
    · obtain ⟨hlt, hclear⟩ := ih h
      exact ⟨by omega, hclear⟩
    · next hbit =>
      cases h
      exact ⟨Nat.lt_succ_self n, by simpa using hbit⟩

/-- A poll does not end just when the bits stay set. -/
theorem pollCount_none_iff : (∀ k, pollCount d m fuel n ≠ some k) ↔
    ∀ k < fuel, d (n + k) &&& m ≠ 0 := by
  constructor
  · intro h k hk hd
    obtain ⟨l, hl⟩ := pollCount_some hk hd
    exact h l hl
  · intro h k hk
    induction fuel generalizing n with
    | zero => cases hk
    | succ fuel ih =>
      rw [pollCount] at hk
      split at hk
      · refine ih (n := n + 1) (fun j hj => ?_) hk
        rw [Nat.add_right_comm]
        exact h (j + 1) (Nat.succ_lt_succ hj)
      · next hbit => exact h 0 (Nat.succ_pos fuel) (by simpa using hbit)

/-- **The redistributor's wait** ends with `RWP` read as clear. -/
theorem gicrWaitRwp_polls (hm : s.Mapped B cpu) :
    PollsClear B (gicrWaitRwp B cpu) s (gicrCtlr (s.gicr cpu).gicrRegs) gicrCtlrRwp := by
  intro _ s' h
  obtain ⟨c, hregs, -⟩ := hm.gicr
  obtain ⟨k, hk, rfl⟩ := (gicrWaitRwp_ok_iff hm.cpu_lt hregs).mp h
  dsimp only
  rw [Function.update_self]
  exact pollCount_last hk

/-- **The distributor's wait** reads `GICD_STATUSR` only. -/
theorem gicdWaitRwp_reads (hregs : s.gicd.gicdRegs = gicdBase) {u : Unit}
    (h : gicdWaitRwp B s = .ok u s') :
    s'.reads gicdBase = s.reads gicdBase ∧
      ∃ k, pollCount (B.device (gicdStatusr gicdBase)) gicdCtlrRwp B.fuel
      (s.reads (gicdStatusr gicdBase)) = some k := by
  obtain ⟨k, hk, rfl⟩ := (gicdWaitRwp_ok_iff hregs).mp h
  have hne : gicdBase ≠ gicdStatusr gicdBase := by decide
  exact ⟨Function.update_of_ne hne k s.reads, k, hk⟩

/-- A round of the loop of `gicd_init` ends with the wait. -/
theorem gicdQuiesce_one (i : Nat) {u : Unit} (h : gicdQuiesce B 1 i s = .ok u s') :
    ∃ regs, gicdWaitRwp B { s with regs := regs } = .ok () s' := by
  unfold gicdQuiesce at h
  rw [bind_run (write32_run _ _), bind_run (write32_run _ _), bind_run (write32_run _ _)] at h
  obtain ⟨_, t, hwait, hret⟩ := bind_ok_iff.mp h
  cases hret
  exact ⟨_, hwait⟩

/-- So does the clear of an SPI. -/
theorem gicdSetClearSpi_wait (hregs : s.gicd.gicdRegs = gicdBase) {i : Nat} (hlow : 32 ≤ i)
    (hi : i ≤ 1019) {r : Int} (h : gicdSetClearSpi B i false s = .ok r s') :
      ∃ regs, gicdWaitRwp B { s with regs := regs } = .ok () s' := by
  rw [gicdSetClearSpi_run (.inl hregs) hlow hi, if_neg (by simp)] at h
  obtain ⟨_, t, hwait, hret⟩ := bind_ok_iff.mp h
  cases hret
  exact ⟨_, hwait⟩

/-- What waits for the distributor polls `GICD_CTLR` just if it never returns. -/
theorem not_pollsClear_gicd {α : Type} {x : GicM α} (hregs : s.gicd.gicdRegs = gicdBase)
    (hx : ∀ r s', x s = .ok r s' → ∃ regs, gicdWaitRwp B { s with regs := regs } = .ok () s')
    {r : α}
    (h : x s = .ok r s') : ¬ PollsClear B x s gicdBase gicdCtlrRwp := by
  intro hpolls
  obtain ⟨regs, hwait⟩ := hx r s' h
  have hreads := (gicdWaitRwp_reads (s := { s with regs := regs }) hregs hwait).1
  have hlt := (hpolls r s' h).1
  rw [hreads] at hlt
  exact absurd hlt (Nat.lt_irrefl _)

/-- Nothing that waits for the distributor returns while bit 31 of `GICD_STATUSR` stays set. -/
theorem pollsClear_of_stuck {α : Type} {x : GicM α} (hregs : s.gicd.gicdRegs = gicdBase)
    (hx : ∀ r s', x s = .ok r s' → ∃ regs, gicdWaitRwp B { s with regs := regs } = .ok () s')
    (hstuck : ∀ k < B.fuel, B.device (gicdStatusr gicdBase) (s.reads (gicdStatusr gicdBase) + k) &&&
      gicdCtlrRwp ≠ 0) :
    PollsClear B x s gicdBase gicdCtlrRwp := by
  intro r s' h
  obtain ⟨regs, hwait⟩ := hx r s' h
  obtain ⟨-, k, hk⟩ := gicdWaitRwp_reads (s := { s with regs := regs }) hregs hwait
  exact absurd hk (pollCount_none_iff.mpr hstuck k)

/-- **When waiting really waits**: for the redistributor always, for the distributor just when it
never ends. -/
theorem rwp_law_iff (B : GicBoard) (cpu : Nat) (s : Gic) (hm : s.Mapped B cpu) :
    RwpLaw B cpu s ↔
      ∀ k < B.fuel, B.device (gicdStatusr gicdBase) (s.reads (gicdStatusr gicdBase) + k) &&&
        gicdCtlrRwp ≠ 0 := by
  constructor
  · intro hlaw
    apply pollCount_none_iff.mp
    intro k hk
    have hrun := (gicdWaitRwp_ok_iff (u := ()) hm.gicd).mpr ⟨k, hk, rfl⟩
    exact not_pollsClear_gicd hm.gicd (fun _ _ h => ⟨s.regs, h⟩) hrun hlaw.gicd
  · intro hstuck
    refine ⟨?_, ?_, ?_, gicrWaitRwp_polls hm⟩
    · exact pollsClear_of_stuck hm.gicd (fun _ _ h => ⟨s.regs, h⟩) hstuck
    · intro i hlow hi
      exact pollsClear_of_stuck hm.gicd (fun _ _ h => gicdSetClearSpi_wait hm.gicd hlow hi h) hstuck
    · intro i
      exact pollsClear_of_stuck hm.gicd (fun _ _ h => gicdQuiesce_one i h) hstuck

/-- Boards that answer every read of the register `a` with `v`, and the other reads with zero. -/
def constantBoard (a : Nat) (v : BitVec 32) : GicBoard := ⟨1, fun b _ => if b = a then v else 0, 4⟩

theorem rwp_law_example :
    RwpLaw (constantBoard (gicdStatusr gicdBase) gicdCtlrRwp) 0 exampleGic := by
  refine (rwp_law_iff _ 0 exampleGic ⟨by decide, rfl, 0, rfl, rfl⟩).mpr ?_
  intro k _
  show (if gicdStatusr gicdBase = gicdStatusr gicdBase then gicdCtlrRwp else 0) &&& gicdCtlrRwp ≠ 0
  rw [if_pos rfl]
  decide

/-- `GICD_CTLR.RWP` stays set, and `gicd_wait_rwp` returns at once. -/
theorem wait_misses_rwp :
    (∀ n, (constantBoard gicdBase gicdCtlrRwp).device gicdBase n &&& gicdCtlrRwp ≠ 0) ∧
      (∃ s', gicdWaitRwp (constantBoard gicdBase gicdCtlrRwp) exampleGic = .ok () s') ∧
      ¬ RwpLaw (constantBoard gicdBase gicdCtlrRwp) 0 exampleGic := by
  have hregs : exampleGic.gicd.gicdRegs = gicdBase := rfl
  have hrun := (gicdWaitRwp_ok_iff (B := constantBoard gicdBase gicdCtlrRwp) (u := ()) hregs).mpr
    ⟨1, by decide, rfl⟩
  refine ⟨?_, ⟨_, hrun⟩, ?_⟩
  · intro n
    show (if gicdBase = gicdBase then gicdCtlrRwp else 0) &&& gicdCtlrRwp ≠ 0
    rw [if_pos rfl]
    decide
  · intro hlaw
    exact not_pollsClear_gicd hregs (fun _ _ h => ⟨exampleGic.regs, h⟩) hrun hlaw.gicd

end ZHyper
