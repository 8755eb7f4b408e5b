import ZHyper.Exception.Switch

/-!
# Interrupts are transparent

`el2_sync_handler`, `el2_irq_handler` and `el2_fiq_handler` are the same four steps around
their C function.  A C function that gives `sp`, `ELR_EL2` and the frame back as it found
them (`LeavesFrame`), whatever it does to the other registers, to `SPSR_EL2` and to the rest
of the memory, is not noticed by the interrupted code (`el2Handler_transparent`).
-/

namespace ZHyper

open LowLevel LowLevel.Mem

/-- `intr_save_regs; bl handler; intr_restore_regs; eret` -/
def el2Handler (handler : Cpu → Cpu) (c : Cpu) : Resumed :=
  eret ((handler (c.run intrSaveRegs)).run intrRestoreRegs)

/-- What C code called with `before` gives back: the stack pointer, the return address of the
exception and the 34 words of the frame at `sp`. -/
structure LeavesFrame (before after : Cpu) : Prop where
  sp : after.sp = before.sp
  elr : after.elrEl2 = before.elrEl2
  frame : ∀ k < 34, after.mem.loadAt before.sp (8 * k) = before.mem.loadAt before.sp (8 * k)

theorem LeavesFrame.loadGpregs_eq {before after : Cpu} (h : LeavesFrame before after) :
    loadGpregs after.mem before.sp = loadGpregs before.mem before.sp := by
  have hx : (fun i : Fin 31 => after.mem.loadAt before.sp (8 * i.val)) =
      fun i => before.mem.loadAt before.sp (8 * i.val) := by
    funext i
    exact h.frame i.val (by omega)
  have hsp : after.mem.loadAt before.sp 248 = before.mem.loadAt before.sp 248 :=
    h.frame 31 (by decide)
  have hpc : after.mem.loadAt before.sp 256 = before.mem.loadAt before.sp 256 :=
    h.frame 32 (by decide)
  have hps : after.mem.loadAt before.sp 264 = before.mem.loadAt before.sp 264 :=
    h.frame 33 (by decide)
  unfold loadGpregs
  rw [hx, hsp, hpc, hps]

/-- `intr_restore_regs; eret` on a frame whose `sp` is its own address. -/
theorem intrRestoreRegs_own {c : Cpu} {g : Gpregs} (hg : loadGpregs c.mem c.sp = g)
    (hsp : g.sp = c.sp) :
    eret (c.run intrRestoreRegs) = ⟨g.x, c.sp + 8 * 34, c.elrEl2, g.pstate⟩ := by
  have hslot : c.mem.loadAt c.sp 248 = c.sp := (congrArg Gpregs.sp hg).trans hsp
  rw [intrRestoreRegs_run, hslot, ← hg]
  rfl

/-- **Interrupts are transparent**: the C function is given the interrupted registers, and the
interrupted code goes on with all of them. -/
theorem el2Handler_transparent (c : Cpu) (handler : Cpu → Cpu)
    (h : LeavesFrame (c.run intrSaveRegs) (handler (c.run intrSaveRegs))) :
    (∃ g, loadGpregs (c.run intrSaveRegs).mem ((c.run intrSaveRegs).x 0) = g ∧
        g.x = c.x ∧ g.pc = c.elrEl2 ∧ g.pstate = c.spsrEl2) ∧
      el2Handler handler c = { x := c.x, sp := c.sp, pc := c.elrEl2, pstate := c.spsrEl2 } := by
  obtain ⟨-, h0, hsp, helr⟩ := intrSaveRegs_run c
  have hframe := intrSaveRegs_frame c
  refine ⟨⟨interrupted c, hframe, rfl, rfl, rfl⟩, ?_⟩
  have hback : loadGpregs (handler (c.run intrSaveRegs)).mem (handler (c.run intrSaveRegs)).sp =
      interrupted c := by
    rw [h.sp, h.loadGpregs_eq, hsp, ← h0]
    exact hframe
  have hown : (interrupted c).sp = (handler (c.run intrSaveRegs)).sp := by
    rw [h.sp, hsp]
    rfl
  have hadd : frameOf c + 8 * 34 = c.sp := UInt64.sub_add_cancel c.sp (8 * 34)
  unfold el2Handler
  rw [intrRestoreRegs_own hback hown, h.sp, h.elr, hsp, helr, hadd]
  rfl

/-- A C function that spoils what it may. -/
def exampleHandler (c : Cpu) : Cpu :=
  { c with x := fun i => c.x i + 1, spsrEl2 := 0, mem := c.mem.store 8 4096 0xffff }

theorem exampleHandler_leavesFrame {c : Cpu} (h : 4104 ≤ c.sp.toNat) (hlt : c.sp.toNat < 2 ^ 32) :
    LeavesFrame c (exampleHandler c) := by
  refine ⟨rfl, rfl, ?_⟩
  intro k hk
  unfold exampleHandler loadAt
  dsimp only
  rw [load_store_apart]
  omega

theorem el2Handler_transparent_example :
    el2Handler exampleHandler exampleCpu = ⟨fun _ => 7, 0x90000, 0x40080000, 0x3c9⟩ := by
  have hsp := (intrSaveRegs_run exampleCpu).2.2.1
  have hp : (frameOf exampleCpu).toNat = 589552 := by decide
  have hleaves : LeavesFrame (exampleCpu.run intrSaveRegs)
      (exampleHandler (exampleCpu.run intrSaveRegs)) := by
    apply exampleHandler_leavesFrame
    · rw [hsp, hp]
      decide
    · rw [hsp, hp]
      decide
  exact (el2Handler_transparent exampleCpu exampleHandler hleaves).2

end ZHyper
