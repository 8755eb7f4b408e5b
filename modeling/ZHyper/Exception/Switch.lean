import ZHyper.Exception.Frame
import ZHyper.Sched.Switch

/-!
# Switching vCPUs from an exception handler

The way of a register: from the CPU through the frame into the `gpregs` of the vCPU
that is switched out, and from the `gpregs` of the next vCPU through the frame back
into the CPU.  The first half always works (`el2IrqHandler_run`).  The second does
so for PSTATE only: the PC is taken from `ELR_EL2`, which is never written, and the
general registers from where the `sp` of the next vCPU points, which need not be the
frame.  `switch_takes_effect_iff` states when the switch takes effect nevertheless.
-/

namespace ZHyper

open LowLevel LowLevel.Mem

/-- After the handler the CPU runs the context saved for `b`, and `a` holds the interrupted one. -/
def TakesEffect (M : Machine) (after c : Cpu) (s : Sched) (a b : Nat) : Prop :=
  ∃ r s', el2IrqHandler M.pcpu after c s = some (r, s') ∧
    (r.x = (s.vcpus b).gpregs.x ∧ r.pc = (s.vcpus b).gpregs.pc ∧
      r.pstate = (s.vcpus b).gpregs.pstate) ∧
    (s'.vcpus a).gpregs.x = c.x ∧ (s'.vcpus a).gpregs.pc = c.elrEl2 ∧
      (s'.vcpus a).gpregs.pstate = c.spsrEl2

section

variable {M : Machine} {s : Sched} {qs : Queue → List Nat} {a b : Nat} {rest : List Nat}

/-- **What the handler does**: `a` holds the interrupted registers; the CPU resumes with the PC it
was interrupted at, with the PSTATE of `b`, and with the registers found at the `sp` of `b`. -/
theorem el2IrqHandler_run (after c : Cpu) (h : Queues M s.links qs) (ha : a ∈ M.vcpus)
    (hcur : s.current M.pcpu = a) (haq : a ∉ qs .ready) (hready : qs .ready = b :: rest) :
    ∃ s', (s'.vcpus a).gpregs = interrupted c ∧
      el2IrqHandler M.pcpu after c s = some
        ({ x := fun i => (storeGpregs after.mem (frameOf c) (s.vcpus b).gpregs).loadAt
             (s.vcpus b).gpregs.sp (8 * i.val)
           sp := (s.vcpus b).gpregs.sp + 8 * 34
           pc := c.elrEl2
           pstate := (s.vcpus b).gpregs.pstate }, s') := by
  have ha0 := Machine.ne_zero ha
  have hab : a ≠ b := by
    rintro rfl
    exact haq (hready ▸ List.mem_cons_self)
  -- the frame `pcpu_switch` is given, and the context it leaves there
  generalize ht : ({ s with frame := interrupted c } : Sched) = t
  have hq : Queues M t.links qs := by
    rw [← ht]
    exact h
  have htcur : t.current M.pcpu = a := by
    rw [← ht]
    exact hcur
  have htb : t.vcpus b = s.vcpus b := by rw [← ht]
  have htf : t.frame = interrupted c := by rw [← ht]
  obtain ⟨L, hrun, -⟩ := pcpuSwitch_run hq hready
  have hframe : (switchedTo t M.pcpu b L).frame = (s.vcpus b).gpregs := by
    show (savedVcpus t (t.current M.pcpu) b).gpregs = _
    rw [htcur, savedVcpus_of_ne (Ne.symm hab), htb]
  have hsaved : ((switchedTo t M.pcpu b L).vcpus a).gpregs = interrupted c := by
    show (switchedVcpus t (t.current M.pcpu) b a).gpregs = _
    rw [htcur, switchedVcpus, Function.update_of_ne hab, savedVcpus, if_neg ha0,
      Function.update_self]
    exact htf
  refine ⟨_, hsaved, ?_⟩
  obtain ⟨-, h2, h3, h4⟩ := intrSaveRegs_run c
  unfold el2IrqHandler
  dsimp only
  rw [intrSaveRegs_frame, ht, hrun]
  dsimp only
  rw [h2, h3, h4, hframe, intrRestoreRegs_run]
  dsimp only
  -- the words of the frame that `intr_restore_regs` reads at `sp`
  have hback := loadGpregs_storeGpregs after.mem (frameOf c) (s.vcpus b).gpregs
  have hsp : (storeGpregs after.mem (frameOf c) (s.vcpus b).gpregs).loadAt (frameOf c) 248 =
      (s.vcpus b).gpregs.sp := congrArg Gpregs.sp hback
  have hps : (storeGpregs after.mem (frameOf c) (s.vcpus b).gpregs).loadAt (frameOf c) 264 =
      (s.vcpus b).gpregs.pstate := congrArg Gpregs.pstate hback
  rw [hsp, hps]

/-- What a switch that takes effect needs of the next vCPU. -/
theorem takesEffect_needs {after c : Cpu} (h : Queues M s.links qs) (ha : a ∈ M.vcpus)
    (hcur : s.current M.pcpu = a) (haq : a ∉ qs .ready) (hready : qs .ready = b :: rest)
    (he : TakesEffect M after c s a b) :
    (s.vcpus b).gpregs.pc = c.elrEl2 ∧
      ∀ i : Fin 31, (storeGpregs after.mem (frameOf c) (s.vcpus b).gpregs).loadAt
        (s.vcpus b).gpregs.sp
        (8 * i.val) = (s.vcpus b).gpregs.x i := by
  obtain ⟨s', -, hrun⟩ := el2IrqHandler_run after c h ha hcur haq hready
  obtain ⟨r, t, hr, ⟨hx, hpc, -⟩, -⟩ := he
  rw [hrun] at hr
  obtain ⟨rfl, rfl⟩ := Prod.mk.inj (Option.some.inj hr)
  exact ⟨hpc.symm, fun i => congrFun hx i⟩

end

/-- **When a switch from a handler takes effect**: exactly if the next vCPU is to resume at the
interrupted PC, and its registers are found at its own `sp` once the frame holds its context. -/
theorem switch_takes_effect_iff (M : Machine) (after c : Cpu) (s : Sched) (qs : Queue → List Nat)
    (a b : Nat) (rest : List Nat) (h : Queues M s.links qs) (ha : a ∈ M.vcpus)
    (hcur : s.current M.pcpu = a) (haq : a ∉ qs .ready) (hready : qs .ready = b :: rest) :
    TakesEffect M after c s a b ↔
      (s.vcpus b).gpregs.pc = c.elrEl2 ∧
      ∀ i : Fin 31, (storeGpregs after.mem (frameOf c) (s.vcpus b).gpregs).loadAt
      (s.vcpus b).gpregs.sp
        (8 * i.val) = (s.vcpus b).gpregs.x i := by
  refine ⟨fun he => takesEffect_needs h ha hcur haq hready he, ?_⟩
  rintro ⟨hpc, hx⟩
  obtain ⟨s', hsaved, hrun⟩ := el2IrqHandler_run after c h ha hcur haq hready
  refine ⟨_, s', hrun, ⟨funext hx, hpc.symm, rfl⟩, ?_⟩
  rw [hsaved]
  exact ⟨rfl, rfl, rfl⟩

/-- A CPU interrupted at `0x40080000`. -/
def exampleCpu : Cpu where
  x := fun _ => 7
  sp := 0x90000
  elrEl2 := 0x40080000
  spsrEl2 := 0x3c9
  mem := fun _ => 0

/-- `8192` runs, and `12288` waits with a context that was saved in the same place of the stack and
at the same PC. -/
def exampleSaved : Sched := { exampleRotating with
  vcpus := Function.update exampleRotating.vcpus 12288 { exampleRotating.vcpus 12288 with
    gpregs := ⟨fun _ => 5, frameOf exampleCpu, 0x40080000, 0x3c5⟩ } }

theorem switch_takes_effect_example :
    TakesEffect exampleMachine exampleCpu exampleCpu exampleSaved 8192 12288 := by
  have h := exampleRotating_rotating
  refine (switch_takes_effect_iff exampleMachine exampleCpu exampleCpu exampleSaved exampleQueues
    8192 12288
    [] h.queues h.member h.current (h.unqueued .ready) rfl).mpr ⟨?_, ?_⟩
  · simp only [exampleSaved, Function.update_self]
    rfl
  · intro i
    have hg : (exampleSaved.vcpus 12288).gpregs =
        ⟨fun _ => 5, frameOf exampleCpu, 0x40080000, 0x3c5⟩ := by
      simp only [exampleSaved, Function.update_self]
    rw [hg]
    exact congrFun (congrArg Gpregs.x
      (loadGpregs_storeGpregs exampleCpu.mem (frameOf exampleCpu) _)) i

/-- A vCPU that was only initialised and started does not get the CPU: it resumes at the PC of the
other one. -/
theorem switch_keeps_pc :
    ∃ s qs, Rotating exampleMachine s qs 8192 ∧ qs .ready = [12288] ∧
      ∀ after, ¬ TakesEffect exampleMachine after exampleCpu s 8192 12288 := by
  have h := exampleRotating_rotating
  refine ⟨exampleRotating, exampleQueues, h, rfl, ?_⟩
  intro after he
  have hpc := (takesEffect_needs h.queues h.member h.current (h.unqueued .ready) rfl he).1
  have hzero : (exampleRotating.vcpus 12288).gpregs.pc = 0 := by decide +kernel
  rw [hzero] at hpc
  exact absurd hpc (by decide)

end ZHyper
