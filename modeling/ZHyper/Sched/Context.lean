import ZHyper.Lib.Runs
import ZHyper.Libc.Memory
import ZHyper.Sched.Model

/-!
# Saved guest contexts

`vcpu_save_context` and `vcpu_restore_context` on byte memory: the two `memcpy`s of the
`struct aarch64_gpregs`, and the EL1 registers one by one, in the order and under the
fields of the two lists in `vcpu.c`.  The EL1 registers are plain 64-bit registers.

Between the save of a vCPU and its next restore anything may happen to the live
registers and to the memory outside the vCPUs, and other vCPUs may be saved and
restored; the restore still gives the registers that were saved
(`guest_contexts_isolated`).
-/

namespace ZHyper

open LowLevel LowLevel.Prog

/-! ## Registers and layout -/

/-- The EL1 registers that a context holds; the fields of `sysregs_el1_t` have their names. -/
inductive SysReg where
  | elrEl1
  | spsrEl1
  | mpidrEl1
  | midrEl1
  | spEl1
  | spEl0
  | ttbr0El1
  | ttbr1El1
  | tcrEl1
  | vbarEl1
  | sctlrEl1
deriving DecidableEq

/-- The offset of a field in `sysregs_el1_t`. -/
def SysReg.offset : SysReg → Nat
  | elrEl1 => 0
  | spsrEl1 => 8
  | mpidrEl1 => 16
  | midrEl1 => 24
  | spEl1 => 32
  | spEl0 => 40
  | ttbr0El1 => 48
  | ttbr1El1 => 56
  | tcrEl1 => 64
  | vbarEl1 => 72
  | sctlrEl1 => 80

/-- `&vcpu->state` -/
def vcpuStateField (vcpu : Nat) : Nat := vcpu + 4

/-- `&vcpu->gpregs` -/
def vcpuGpregs (vcpu : Nat) : Nat := vcpu + 168

def gpregsSizeof : Nat := 272

/-- `&vcpu->sysregs_el1.field` -/
def vcpuSysreg (vcpu : Nat) (field : SysReg) : Nat := vcpu + 440 + field.offset

/-- The values of `enum vcpu_state`. -/
def VcpuState.code : VcpuState → Nat
  | offline => 0
  | running => 1
  | suspended => 2
  | ready => 3
  | halted => 4

/-! ## The two functions -/

/-- The assignments `vcpu->sysregs_el1.field = read_sysreg(reg)` of `vcpu_save_context`. -/
def savedSysregs : List (SysReg × SysReg) :=
  [(.elrEl1, .elrEl1), (.spsrEl1, .spsrEl1), (.mpidrEl1, .mpidrEl1), (.midrEl1, .midrEl1),
   (.spEl1, .spEl1), (.spEl0, .spEl0), (.ttbr0El1, .ttbr0El1), (.ttbr1El1, .ttbr1El1),
   (.tcrEl1, .tcrEl1), (.vbarEl1, .vbarEl1), (.sctlrEl1, .sctlrEl1)]

/-- The calls `write_sysreg(reg, vcpu->sysregs_el1.field)` of `vcpu_restore_context`, as `(field,
reg)`. -/
def restoredSysregs : List (SysReg × SysReg) :=
  [(.elrEl1, .elrEl1), (.spsrEl1, .spsrEl1), (.mpidrEl1, .mpidrEl1), (.midrEl1, .midrEl1),
   (.spEl1, .spEl1), (.spEl0, .spEl0), (.ttbr0El1, .ttbr0El1), (.ttbr1El1, .ttbr1El1),
   (.tcrEl1, .tcrEl1), (.vbarEl1, .vbarEl1), (.sctlrEl1, .sctlrEl1)]

def saveSysregs (sysregs : SysReg → UInt64) (vcpu : Nat) : List (SysReg × SysReg) → Prog Unit
  | [] => pure ()
  | (field, reg) :: l => do
    write 8 (vcpuSysreg vcpu field) (sysregs reg).toNat
    saveSysregs sysregs vcpu l

def restoreSysregs (vcpu : Nat) : List (SysReg × SysReg) → (SysReg → UInt64) →
    Prog (SysReg → UInt64)
  | [], sysregs => pure sysregs
  | (field, reg) :: l, sysregs => do
    let v ← read 8 (vcpuSysreg vcpu field)
    restoreSysregs vcpu l (Function.update sysregs reg (UInt64.ofNat v))

/-- `vcpu_save_context` with the EL1 registers `sysregs`. -/
def vcpuSaveContextBytes (sysregs : SysReg → UInt64) (vcpu gpregs : Nat) : Prog Unit := do
  let _ ← memcpy (vcpuGpregs vcpu) gpregs gpregsSizeof
  saveSysregs sysregs vcpu savedSysregs
  write 4 (vcpuStateField vcpu) VcpuState.ready.code

/-- `vcpu_restore_context`; it returns the EL1 registers it leaves. -/
def vcpuRestoreContextBytes (sysregs : SysReg → UInt64) (vcpu gpregs : Nat) :
    Prog (SysReg → UInt64) := do
  write 4 (vcpuStateField vcpu) VcpuState.running.code
  let sysregs ← restoreSysregs vcpu restoredSysregs sysregs
  let _ ← memcpy gpregs (vcpuGpregs vcpu) gpregsSizeof
  return sysregs

/-! ## What they do -/

variable {R : SysReg → UInt64} {v g : Nat} {m : Mem}

theorem offset_clear {r q : SysReg} (h : r ≠ q) : r.offset + 8 ≤ q.offset ∨
    q.offset + 8 ≤ r.offset := by
  cases r <;> cases q <;> first | exact absurd rfl h | decide

theorem offset_lt (r : SysReg) : r.offset + 8 ≤ 88 := by
  cases r <;> decide

/-- Stores to distinct fields: each reads back, and nothing else changes. -/
theorem saveSysregs_wp (v : Nat) (l : List (SysReg × SysReg)) (hl : (l.map Prod.fst).Nodup)
    (m : Mem) :
    (saveSysregs R v l).wp (fun _ => True) (fun _ m' =>
      (∀ field reg, (field, reg) ∈ l → m'.load 8 (vcpuSysreg v field) = (R reg).toNat) ∧
      (∀ field, field ∉ l.map Prod.fst →
        m'.load 8 (vcpuSysreg v field) = m.load 8 (vcpuSysreg v field)) ∧
      ∀ x, x < v + 440 ∨ v + 528 ≤ x → m' x = m x) m := by
  induction l generalizing m with
  | nil => exact ⟨by simp, fun _ _ => rfl, fun _ _ => rfl⟩
  | cons p l ih =>
    obtain ⟨field, reg⟩ := p
    obtain ⟨hnot, hl⟩ := List.nodup_cons.mp hl
    rw [saveSysregs, wp_bind, wp_write]
    refine ⟨trivial, wp_mono (ih hl _) ?_⟩
    intro _ m' h
    obtain ⟨hsaved, hkept, hframe⟩ := h
    refine ⟨?_, ?_, ?_⟩
    · intro f r hfr
      rcases List.mem_cons.mp hfr with he | hfr
      · cases he
        rw [hkept field hnot, Mem.load8_store8 (R reg).toNat_lt]
      · exact hsaved f r hfr
    · intro f hf
      rw [List.map_cons, List.mem_cons, not_or] at hf
      rw [hkept f hf.2]
      apply Mem.load_store_apart
      have := offset_clear (q := field) hf.1
      unfold vcpuSysreg
      omega
    · intro x hx
      rw [hframe x hx]
      apply Mem.store_apply_out
      have := offset_lt field
      unfold vcpuSysreg
      omega

theorem restoreSysregs_wp (v : Nat) (l : List (SysReg × SysReg)) (hl : (l.map Prod.snd).Nodup)
    (R : SysReg → UInt64) (m : Mem) :
    (restoreSysregs v l R).wp (fun _ => True) (fun R' m' => m' = m ∧
      (∀ field reg, (field, reg) ∈ l → R' reg = UInt64.ofNat (m.load 8 (vcpuSysreg v field))) ∧
      ∀ reg, reg ∉ l.map Prod.snd → R' reg = R reg) m := by
  induction l generalizing R with
  | nil => exact ⟨rfl, by simp, fun _ _ => rfl⟩
  | cons p l ih =>
    obtain ⟨field, reg⟩ := p
    obtain ⟨hnot, hl⟩ := List.nodup_cons.mp hl
    rw [restoreSysregs, wp_bind, wp_read]
    refine ⟨trivial, wp_mono (ih hl _) ?_⟩
    intro R' m' h
    obtain ⟨rfl, hread, hkept⟩ := h
    refine ⟨rfl, ?_, ?_⟩
    · intro f r hfr
      rcases List.mem_cons.mp hfr with he | hfr
      · cases he
        rw [hkept reg hnot, Function.update_self]
      · exact hread f r hfr
    · intro r hr
      rw [List.map_cons, List.mem_cons, not_or] at hr
      rw [hkept r hr.2, Function.update_of_ne hr.1]

/-- What a save of `v` leaves: the frame at `g` and the registers `R` in its context, and nothing
else changed but the `struct vcpu`. -/
structure SavedFrom (v g : Nat) (R : SysReg → UInt64) (m m' : Mem) : Prop where
  gpregs : ∀ i, i < gpregsSizeof → m' (vcpuGpregs v + i) = m (g + i)
  sysregs : ∀ r, m'.load 8 (vcpuSysreg v r) = (R r).toNat
  frame : ∀ x, x < v ∨ v + vcpuSizeof ≤ x → m' x = m x

theorem vcpuSaveContextBytes_wp (hg : g + gpregsSizeof ≤ v ∨ v + vcpuSizeof ≤ g) :
    (vcpuSaveContextBytes R v g).wp (fun _ => True) (fun _ m' => SavedFrom v g R m m') m := by
  unfold gpregsSizeof vcpuSizeof at hg
  unfold vcpuSaveContextBytes
  rw [wp_bind]
  apply wp_mono (memcpy_wp m (by unfold vcpuGpregs gpregsSizeof; omega))
  intro _ m₁ h₁
  obtain ⟨-, hcopy⟩ := h₁
  rw [wp_bind]
  apply wp_mono (saveSysregs_wp v savedSysregs (by decide) m₁)
  intro _ m₂ h₂
  obtain ⟨hsaved, -, hframe⟩ := h₂
  rw [wp_write]
  refine ⟨trivial, ⟨?_, ?_, ?_⟩⟩
  · intro i hi
    rw [Mem.store_apply_out (by unfold vcpuStateField vcpuGpregs; omega),
      hframe _ (by unfold vcpuGpregs; unfold gpregsSizeof at hi; omega), hcopy.copied i hi]
  · intro r
    rw [Mem.load_store_apart (by unfold vcpuSysreg vcpuStateField; omega)]
    exact hsaved r r (by cases r <;> decide)
  · intro x hx
    unfold vcpuSizeof at hx
    rw [Mem.store_apply_out (by unfold vcpuStateField; omega), hframe x (by omega),
      hcopy.frame x (by unfold vcpuGpregs gpregsSizeof; omega)]

/-- What a restore of `v` leaves: its context in the frame at `g` and in the registers. -/
structure RestoredTo (v g : Nat) (m : Mem) (R' : SysReg → UInt64) (m' : Mem) : Prop where
  gpregs : ∀ i, i < gpregsSizeof → m' (g + i) = m (vcpuGpregs v + i)
  sysregs : ∀ r, R' r = UInt64.ofNat (m.load 8 (vcpuSysreg v r))
  frame : ∀ x, x < v ∨ v + vcpuSizeof ≤ x → x < g ∨ g + gpregsSizeof ≤ x → m' x = m x

theorem vcpuRestoreContextBytes_wp (hg : g + gpregsSizeof ≤ v ∨ v + vcpuSizeof ≤ g) :
    (vcpuRestoreContextBytes R v g).wp (fun _ => True) (fun R' m' => RestoredTo v g m R' m') m := by
  unfold gpregsSizeof vcpuSizeof at hg
  unfold vcpuRestoreContextBytes
  rw [wp_bind, wp_write]
  refine ⟨trivial, ?_⟩
  rw [wp_bind]
  apply wp_mono (restoreSysregs_wp v restoredSysregs (by decide) R _)
  intro R' m₁ h₁
  obtain ⟨rfl, hread, -⟩ := h₁
  rw [wp_bind]
  apply wp_mono (memcpy_wp _ (by unfold vcpuGpregs gpregsSizeof; omega))
  intro _ m' h'
  obtain ⟨-, hcopy⟩ := h'
  refine ⟨?_, ?_, ?_⟩
  · intro i hi
    rw [hcopy.copied i hi, Mem.store_apply_out (by unfold vcpuStateField vcpuGpregs; omega)]
  · intro r
    rw [hread r r (by cases r <;> decide),
      Mem.load_store_apart (by unfold vcpuSysreg vcpuStateField; omega)]
  · intro x hv hx
    unfold vcpuSizeof at hv
    rw [hcopy.frame x hx, Mem.store_apply_out (by unfold vcpuStateField; omega)]

/-! ## Runs -/

/-- The `struct vcpu`s: C objects apart from each other. -/
structure Guests where
  vcpus : List Nat
  apart : vcpus.Pairwise fun v w => v + vcpuSizeof ≤ w ∨ w + vcpuSizeof ≤ v

/-- A `struct aarch64_gpregs` apart from the vCPUs. -/
def Guests.FrameAt (G : Guests) (g : Nat) : Prop :=
  ∀ v ∈ G.vcpus, g + gpregsSizeof ≤ v ∨ v + vcpuSizeof ≤ g

/-- The memory and the EL1 registers. -/
structure Live where
  mem : Mem
  sysregs : SysReg → UInt64

/-- The registers in the `struct aarch64_gpregs` at `p`. -/
def gpregsAt (m : Mem) (p : Nat) : Gpregs where
  x i := UInt64.ofNat (m.load 8 (p + 8 * i.val))
  sp := UInt64.ofNat (m.load 8 (p + 248))
  pc := UInt64.ofNat (m.load 8 (p + 256))
  pstate := UInt64.ofNat (m.load 8 (p + 264))

inductive ContextAct where
  /-- anything but a save or a restore -/
  | live
  | save (vcpu gpregs : Nat)
  | restore (vcpu gpregs : Nat)

/-- The vCPU an act is about. -/
def ContextAct.vcpu : ContextAct → Option Nat
  | live => none
  | save v _ => some v
  | restore v _ => some v

inductive ContextStep (G : Guests) : Live → ContextAct → Live → Prop where
  /-- The registers and the memory outside the vCPUs take any values. -/
  | live {s s' : Live} : (∀ v ∈ G.vcpus, ∀ x, v ≤ x → x < v + vcpuSizeof → s'.mem x = s.mem x) →
      ContextStep G s .live s'
  | save {s : Live} {v g : Nat} {m' : Mem} : v ∈ G.vcpus → G.FrameAt g →
      (vcpuSaveContextBytes s.sysregs v g).exec s.mem = .ret () m' →
      ContextStep G s (.save v g) ⟨m', s.sysregs⟩
  | restore {s : Live} {v g : Nat} {m' : Mem} {R' : SysReg → UInt64} : v ∈ G.vcpus → G.FrameAt g →
      (vcpuRestoreContextBytes s.sysregs v g).exec s.mem = .ret R' m' →
      ContextStep G s (.restore v g) ⟨m', R'⟩

variable {G : Guests} {s s' : Live} {u : Nat}

theorem Guests.apart_of_ne (hv : v ∈ G.vcpus) (hu : u ∈ G.vcpus) (hne : v ≠ u) :
    v + vcpuSizeof ≤ u ∨ u + vcpuSizeof ≤ v := by
  have hsymm : Std.Symm fun v w : Nat => v + vcpuSizeof ≤ w ∨ w + vcpuSizeof ≤ v :=
    ⟨fun _ _ h => h.symm⟩
  exact G.apart.forall hv hu hne

/-- **A step keeps the memory of every vCPU it is not about.** -/
theorem ContextStep.keeps {a : ContextAct} (h : ContextStep G s a s') (hu : u ∈ G.vcpus)
    (ha : a.vcpu ≠ some u) : ∀ x, u ≤ x → x < u + vcpuSizeof → s'.mem x = s.mem x := by
  intro x hx hx'
  have hapart : ∀ v ∈ G.vcpus, v ≠ u → x < v ∨ v + vcpuSizeof ≤ x := by
    intro v hv hne
    have := G.apart_of_ne hv hu hne
    omega
  cases h with
  | live hkeep => exact hkeep u hu x hx hx'
  | save hv hg hrun =>
    have hne : ∀ v, some v ≠ some u → v ≠ u := fun v h e => h (congrArg some e)
    exact (wp_ret (vcpuSaveContextBytes_wp (hg _ hv)) hrun).frame x (hapart _ hv (hne _ ha))
  | restore hv hg hrun =>
    have hne : ∀ v, some v ≠ some u → v ≠ u := fun v h e => h (congrArg some e)
    have := hg u hu
    exact (wp_ret (vcpuRestoreContextBytes_wp (hg _ hv)) hrun).frame x (hapart _ hv (hne _ ha))
      (by omega)

/-- Over a run that is not about `u` its memory stays. -/
theorem contextRuns_keep {acts : List ContextAct} (h : Runs (ContextStep G) s acts s')
    (hu : u ∈ G.vcpus)
    (ha : ∀ a ∈ acts, a.vcpu ≠ some u) : ∀ x, u ≤ x → x < u + vcpuSizeof → s'.mem x = s.mem x := by
  induction h with
  | nil s =>
    intro x _ _
    rfl
  | cons hstep _ ih =>
    intro x hx hx'
    rw [ih (fun a ha' => ha a (List.mem_cons_of_mem _ ha')) x hx hx']
    exact hstep.keeps hu (ha _ List.mem_cons_self) x hx hx'

theorem gpregsAt_congr {m m' : Mem} {p q : Nat}
    (h : ∀ i, i < gpregsSizeof → m' (p + i) = m (q + i)) :
    gpregsAt m' p = gpregsAt m q := by
  have hload : ∀ off, off + 8 ≤ gpregsSizeof → m'.load 8 (p + off) = m.load 8 (q + off) := by
    intro off hoff
    apply Mem.load_eq_of_bytes
    intro i hi
    rw [Nat.add_assoc, Nat.add_assoc]
    exact h (off + i) (by omega)
  have hx : ∀ i : Fin 31, m'.load 8 (p + 8 * i.val) = m.load 8 (q + 8 * i.val) := by
    intro i
    apply hload
    unfold gpregsSizeof
    omega
  unfold gpregsAt
  rw [hload 248 (by decide), hload 256 (by decide), hload 264 (by decide)]
  simp only [hx]

/-- A restore of `v` after a save of it, with the memory of `v` kept in between, gives what was
saved. -/
theorem RestoredTo.of_saved {out : Nat} {m₁ m₂ m₃ : Mem} {R' : SysReg → UInt64}
    (hsaved : SavedFrom v g R m m₁) (hkeep : ∀ x, v ≤ x → x < v + vcpuSizeof → m₂ x = m₁ x)
    (hrestored : RestoredTo v out m₂ R' m₃) :
    gpregsAt m₃ out = gpregsAt m g ∧ R' = R := by
  constructor
  · apply gpregsAt_congr
    intro i hi
    refine (hrestored.gpregs i hi).trans ((hkeep _ ?_ ?_).trans (hsaved.gpregs i hi))
    · unfold vcpuGpregs
      omega
    · unfold gpregsSizeof at hi
      unfold vcpuGpregs vcpuSizeof
      omega
  · funext r
    have hlt := offset_lt r
    have hload : m₂.load 8 (vcpuSysreg v r) = m₁.load 8 (vcpuSysreg v r) := by
      apply Mem.load_congr 8
      intro x h1 h2
      unfold vcpuSysreg at h1 h2
      apply hkeep x
      · omega
      · unfold vcpuSizeof
        omega
    rw [hrestored.sysregs r, hload, hsaved.sysregs r, UInt64.ofNat_toNat]

/-- **Guest contexts are isolated.**  Saves and restores return; a restore of `v` gives the
registers of the last save of `v`, whatever the other guests and the live registers did in between;
and no step changes a context it is not about. -/
theorem guest_contexts_isolated (G : Guests) {v g out : Nat} (hv : v ∈ G.vcpus) (hg : G.FrameAt g)
    (hout : G.FrameAt out) :
    (∀ s, (∃ s', ContextStep G s (.save v g) s') ∧ ∃ s', ContextStep G s (.restore v out) s') ∧
    (∀ s s₁ s₂ s₃ acts, ContextStep G s (.save v g) s₁ → Runs (ContextStep G) s₁ acts s₂ →
      (∀ a ∈ acts, a.vcpu ≠ some v) → ContextStep G s₂ (.restore v out) s₃ →
      gpregsAt s₃.mem out = gpregsAt s.mem g ∧ s₃.sysregs = s.sysregs) ∧
    ∀ s a s', ContextStep G s a s' → a.vcpu ≠ some v →
      ∀ x, v ≤ x → x < v + vcpuSizeof → s'.mem x = s.mem x := by
  refine ⟨fun s => ⟨?_, ?_⟩, ?_, fun s a s' h ha => h.keeps hv ha⟩
  · obtain ⟨_, m', hrun, -⟩ :=
      wp_exec (vcpuSaveContextBytes_wp (R := s.sysregs) (m := s.mem) (hg v hv))
    exact ⟨_, .save hv hg hrun⟩
  · obtain ⟨R', m', hrun, -⟩ :=
      wp_exec (vcpuRestoreContextBytes_wp (R := s.sysregs) (m := s.mem) (hout v hv))
    exact ⟨_, .restore hv hout hrun⟩
  · intro s s₁ s₂ s₃ acts hsave hruns hacts hrestore
    have hkeep := contextRuns_keep hruns hv hacts
    cases hsave with
    | save _ _ hs =>
      cases hrestore with
      | restore _ _ hr =>
        have hsaved := wp_ret (vcpuSaveContextBytes_wp (hg v hv)) hs
        have hrestored := wp_ret (vcpuRestoreContextBytes_wp (hout v hv)) hr
        exact hrestored.of_saved hsaved hkeep

/-- Two guests, `0x2000` and `0x6000`. -/
def exampleGuests : Guests where
  vcpus := [8192, 24576]
  apart := by decide

/-- The first guest is saved from a frame at `0x1000`, the second one saved from and restored to it,
and the first one restored to a frame at `0x4000`. -/
theorem guest_contexts_isolated_example :
    8192 ∈ exampleGuests.vcpus ∧ exampleGuests.FrameAt 4096 ∧ exampleGuests.FrameAt 16384 ∧
    ∀ s s₁ s₂ s₃, ContextStep exampleGuests s (.save 8192 4096) s₁ →
      Runs (ContextStep exampleGuests) s₁ [.live, .save 24576 4096, .live, .restore 24576 4096] s₂ →
      ContextStep exampleGuests s₂ (.restore 8192 16384) s₃ →
      gpregsAt s₃.mem 16384 = gpregsAt s.mem 4096 ∧ s₃.sysregs = s.sysregs := by
  have hv : 8192 ∈ exampleGuests.vcpus := by decide
  have hg : exampleGuests.FrameAt 4096 := by
    unfold Guests.FrameAt
    decide
  have hout : exampleGuests.FrameAt 16384 := by
    unfold Guests.FrameAt
    decide
  refine ⟨hv, hg, hout, ?_⟩
  intro s s₁ s₂ s₃ hsave hruns hrestore
  exact (guest_contexts_isolated exampleGuests hv hg hout).2.1 s s₁ s₂ s₃ _ hsave hruns
    (by decide) hrestore

end ZHyper
