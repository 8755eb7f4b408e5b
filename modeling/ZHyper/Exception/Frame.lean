import ZHyper.Exception.Model

/-!
# What the two macros do

`intrSaveRegs_frame`: the frame reads as the interrupted registers.
`intrRestoreRegs_run`: PSTATE comes from the frame at `sp`, but `sp` is reloaded from
it before the general registers are, and `ELR_EL2` is not restored at all.
-/

namespace ZHyper

open LowLevel LowLevel.Mem

/-! ## The layout -/

theorem gpregsWords_offsets (g : Gpregs) :
    (gpregsWords g).map Prod.fst = (List.range 34).map fun k => 8 * k := rfl

theorem gpregsWords_clear (g : Gpregs) : ((gpregsWords g).map Prod.fst).Pairwise Clear := by
  rw [gpregsWords_offsets]
  decide

theorem gpregsWords_lt (g : Gpregs) : ∀ a ∈ (gpregsWords g).map Prod.fst, a < 2 ^ 32 := by
  rw [gpregsWords_offsets]
  decide

theorem loadAt_storeGpregs {m : Mem} {p : UInt64} {g : Gpregs} {off : Nat} {v : UInt64}
    (h : (off, v) ∈ gpregsWords g) : (storeGpregs m p g).loadAt p off = v :=
  loadAt_storeAll (gpregsWords_clear g) (gpregsWords_lt g) h m

/-- **A frame reads back.** -/
theorem loadGpregs_storeGpregs (m : Mem) (p : UInt64) (g : Gpregs) :
    loadGpregs (storeGpregs m p g) p = g := by
  have hx : (fun i : Fin 31 => (storeGpregs m p g).loadAt p (8 * i.val)) = g.x := by
    funext i
    apply loadAt_storeGpregs
    apply List.mem_append_left
    exact List.mem_map_of_mem (List.mem_finRange i)
  have hsp : (storeGpregs m p g).loadAt p 248 = g.sp := loadAt_storeGpregs (by simp [gpregsWords])
  have hpc : (storeGpregs m p g).loadAt p 256 = g.pc := loadAt_storeGpregs (by simp [gpregsWords])
  have hps : (storeGpregs m p g).loadAt p 264 = g.pstate :=
    loadAt_storeGpregs (by simp [gpregsWords])
  unfold loadGpregs
  rw [hx, hsp, hpc, hps]

/-! ## Blocks of stores and loads -/

/-- The registers an instruction stores, and the offsets they go to. -/
def Instr.stores : Instr → List (Fin 31 × Nat)
  | .str t off => [(t, off)]
  | .stp t u off => [(t, off), (u, off + 8)]
  | _ => []

/-- The registers an instruction loads, and the offsets they come from. -/
def Instr.loads : Instr → List (Fin 31 × Nat)
  | .ldr t off => [(t, off)]
  | .ldp t u off => [(t, off), (u, off + 8)]
  | _ => []

def writeAll (x : Fin 31 → UInt64) (l : List (Fin 31 × UInt64)) : Fin 31 → UInt64 :=
  l.foldl (fun x w => Function.update x w.1 w.2) x

theorem run_cons (c : Cpu) (i : Instr) (is : List Instr) : c.run (i :: is) = (i.exec c).run is :=
  rfl

theorem run_append (c : Cpu) (is js : List Instr) : c.run (is ++ js) = (c.run is).run js :=
  List.foldl_append

/-- A block of stores changes the memory only. -/
theorem run_stores {is : List Instr} (h : ∀ i ∈ is, i.stores ≠ []) :
    ∀ c : Cpu, c.run is = { c with
      mem := c.mem.storeAll c.sp ((is.flatMap Instr.stores).map fun w => (w.2, c.x w.1)) } := by
  induction is with
  | nil =>
    intro c
    rfl
  | cons i is ih =>
    intro c
    have hi := h i List.mem_cons_self
    rw [run_cons, ih fun j hj => h j (List.mem_cons_of_mem _ hj)]
    cases i with
    | str t off => rfl
    | stp t u off => rfl
    | _ => exact absurd rfl hi

/-- A block of loads changes the registers only. -/
theorem run_loads {is : List Instr} (h : ∀ i ∈ is, i.loads ≠ []) :
    ∀ c : Cpu, c.run is = { c with
      x := writeAll c.x ((is.flatMap Instr.loads).map fun w => (w.1, c.mem.loadAt c.sp w.2)) } := by
  induction is with
  | nil =>
    intro c
    rfl
  | cons i is ih =>
    intro c
    have hi := h i List.mem_cons_self
    rw [run_cons, ih fun j hj => h j (List.mem_cons_of_mem _ hj)]
    cases i with
    | ldr t off => rfl
    | ldp t u off => rfl
    | _ => exact absurd rfl hi

theorem writeAll_of_notMem {i : Fin 31} {l : List (Fin 31 × UInt64)} (h : i ∉ l.map Prod.fst) :
    ∀ x, writeAll x l i = x i := by
  induction l with
  | nil =>
    intro x
    rfl
  | cons w l ih =>
    intro x
    rw [List.map_cons, List.mem_cons, not_or] at h
    show writeAll (Function.update x w.1 w.2) l i = x i
    rw [ih h.2, Function.update_of_ne h.1]

/-- A register loaded once has what was loaded. -/
theorem writeAll_of_mem {i : Fin 31} {v : UInt64} {l : List (Fin 31 × UInt64)}
    (hnd : (l.map Prod.fst).Nodup) (h : (i, v) ∈ l) : ∀ x, writeAll x l i = v := by
  induction l with
  | nil => cases h
  | cons w l ih =>
    intro x
    rw [List.map_cons, List.nodup_cons] at hnd
    show writeAll (Function.update x w.1 w.2) l i = v
    rcases List.mem_cons.mp h with rfl | h
    · rw [writeAll_of_notMem hnd.1, Function.update_self]
    · exact ih hnd.2 h _

/-! ## `intr_save_regs` -/

/-- The address of the frame. -/
def frameOf (c : Cpu) : UInt64 := c.sp - 8 * 34

/-- The interrupted registers, as the frame has them: in place of the interrupted `sp`, the address
of the frame itself. -/
def interrupted (c : Cpu) : Gpregs := ⟨c.x, frameOf c, c.elrEl2, c.spsrEl2⟩

/-- The stores of X0-X30. -/
def saveBlock : List Instr := (intrSaveRegs.drop 1).take 16

theorem saveBlock_stores : saveBlock.flatMap Instr.stores =
    (List.finRange 31).map fun i => (i, 8 * i.val) := by decide

theorem run_saveBlock (c : Cpu) : c.run saveBlock = { c with
    mem := c.mem.storeAll c.sp ((List.finRange 31).map fun i => (8 * i.val, c.x i)) } := by
  rw [run_stores (by decide) c, saveBlock_stores, List.map_map]
  rfl

theorem intrSaveRegs_run (c : Cpu) :
    (c.run intrSaveRegs).mem = storeGpregs c.mem (frameOf c) (interrupted c) ∧
      (c.run intrSaveRegs).x 0 = frameOf c ∧ (c.run intrSaveRegs).sp = frameOf c ∧
      (c.run intrSaveRegs).elrEl2 = c.elrEl2 := by
  have hsplit : intrSaveRegs = .subSp (8 * 34) ::
    (saveBlock ++ [.movFromSp 0, .str 0 248, .mrsElr 0,
      .str 0 256, .mrsSpsr 0, .str 0 264, .movFromSp 0]) := rfl
  rw [hsplit, run_cons, run_append, run_saveBlock]
  refine ⟨?_, rfl, rfl, rfl⟩
  unfold storeGpregs gpregsWords storeAll
  rw [List.foldl_append]
  rfl

/-- **The frame the handler is given** holds the interrupted registers. -/
theorem intrSaveRegs_frame (c : Cpu) :
    loadGpregs (c.run intrSaveRegs).mem ((c.run intrSaveRegs).x 0) = interrupted c := by
  obtain ⟨h1, h2, -⟩ := intrSaveRegs_run c
  rw [h1, h2]
  exact loadGpregs_storeGpregs c.mem (frameOf c) (interrupted c)

/-! ## `intr_restore_regs` -/

/-- The loads of X30-X0. -/
def restoreBlock : List Instr := (intrRestoreRegs.drop 4).take 16

theorem run_restoreBlock (c : Cpu) :
    c.run restoreBlock = { c with x := fun i => c.mem.loadAt c.sp (8 * i.val) } := by
  have hnd : ((restoreBlock.flatMap Instr.loads).map Prod.fst).Nodup := by decide
  have hall : ∀ i : Fin 31, (i, 8 * i.val) ∈ restoreBlock.flatMap Instr.loads := by decide
  rw [run_loads (by decide) c]
  congr 1
  funext i
  refine writeAll_of_mem ?_ (List.mem_map.mpr ⟨_, hall i, rfl⟩) c.x
  rw [List.map_map]
  exact hnd

/-- **The general registers come from where the frame's `sp` points**, the PC from `ELR_EL2`. -/
theorem intrRestoreRegs_run (c : Cpu) :
    eret (c.run intrRestoreRegs) =
      { x := fun i => c.mem.loadAt (c.mem.loadAt c.sp 248) (8 * i.val)
        sp := c.mem.loadAt c.sp 248 + 8 * 34
        pc := c.elrEl2
        pstate := c.mem.loadAt c.sp 264 } := by
  have hsplit : intrRestoreRegs = [.ldr 0 264, .msrSpsr 0, .ldr 0 248, .movToSp 0] ++
      (restoreBlock ++ [.addSp (8 * 34)]) := rfl
  rw [hsplit, run_append, run_append, run_restoreBlock]
  rfl

end ZHyper
