import ZHyper.Sched.Runs

/-!
# What `pcpu_switch` does to the vCPU it switches out

`vcpu_save_context` writes READY into the state of the outgoing vCPU, whatever it was,
and `pcpu_switch` tests for RUNNING only afterwards.  So the outgoing vCPU is never
queued again (`switch_never_requeues`), and one that was suspended or halted while it
was current comes back as READY (`switch_revives`).
-/

namespace ZHyper

open LowLevel

/-- `pcpu_switch`, `k` times. -/
def switches (pcpu : Nat) : Nat → SchedM Unit
  | 0 => pure ()
  | k + 1 => do
    pcpuSwitch pcpu
    switches pcpu k

/-- The list at a queue head, as the links have it. -/
def OnQueue (M : Machine) (s : Sched) (q : Queue) (l : List Nat) : Prop :=
  NodeRing s.links (M.head q) (l.map nodeOf)

/-- `v₀` runs, on no list, and the vCPUs of the ready list are READY. -/
structure Rotating (M : Machine) (s : Sched) (qs : Queue → List Nat) (v₀ : Nat) : Prop where
  queues : Queues M s.links qs
  member : v₀ ∈ M.vcpus
  current : s.current M.pcpu = v₀
  running : (s.vcpus v₀).state = .running
  unqueued : ∀ q, v₀ ∉ qs q
  ready : ∀ v ∈ qs .ready, (s.vcpus v).state = .ready

/-- One switch: `v₁` runs, and `v₀` is the last of the ready list. -/
def RotatesOnce (M : Machine) (s : Sched) (v₀ v₁ : Nat) (rest : List Nat) : Prop :=
  ∃ s', pcpuSwitch M.pcpu s = .ok () s' ∧ s'.current M.pcpu = v₁ ∧ (s'.vcpus v₁).state = .running ∧
    OnQueue M s' .ready (rest ++ [v₀])

/-- Any number of switches: they go round `l`, and all of `l` stays runnable. -/
def RotatesForever (M : Machine) (s : Sched) (l : List Nat) : Prop :=
  ∀ k, ∃ s' l', switches M.pcpu k s = .ok () s' ∧ l[k % l.length]? = some (s'.current M.pcpu) ∧
    OnQueue M s' .ready l' ∧ ∀ v ∈ M.vcpus, v ∈ l ↔ v = s'.current M.pcpu ∨ v ∈ l'

section

variable {M : Machine} {s s' : Sched} {qs : Queue → List Nat} {v v₀ v₁ : Nat} {rest l : List Nat}

/-- The list at a head is the one of the queues. -/
theorem Queues.onQueue_eq (h : Queues M s.links qs) {q : Queue} (hl : OnQueue M s q l) :
    l.map nodeOf = (qs q).map nodeOf := hl.unique (h.ring q)

theorem Queues.mem_of_onQueue (h : Queues M s.links qs) {q : Queue} (hl : OnQueue M s q l)
    (hv : v ∈ M.vcpus) (hm : v ∈ l) : v ∈ qs q := by
  have hmem : nodeOf v ∈ (qs q).map nodeOf := by
    rw [← h.onQueue_eq hl]
    exact List.mem_map_of_mem hm
  exact (h.nodeOf_mem hv).mp (List.mem_cons_of_mem _ hmem)

/-- **The outgoing vCPU is on no list.** -/
theorem switch_drops (h : Queues M s.links qs) (hready : qs .ready = v₁ :: rest)
    (he : pcpuSwitch M.pcpu s = .ok () s') :
    Queues M s'.links (Function.update qs .ready rest) ∧ s'.current M.pcpu = v₁ ∧
      s'.vcpus = switchedVcpus s (s.current M.pcpu) v₁ := by
  obtain ⟨L, hrun, hqueues, -⟩ := pcpuSwitch_run h hready
  rw [he] at hrun
  rw [(EStateM.Result.ok.inj hrun).2]
  exact ⟨hqueues, switchedTo_current s M.pcpu v₁ L, rfl⟩

theorem Rotating.not_once (h : Rotating M s qs v₀) (hready : qs .ready = v₁ :: rest) :
    ¬ RotatesOnce M s v₀ v₁ rest := by
  rintro ⟨s', he, -, -, hring⟩
  obtain ⟨hqueues, -⟩ := switch_drops h.queues hready he
  have hmem := hqueues.mem_of_onQueue hring h.member (List.mem_append_right _ List.mem_cons_self)
  rw [Function.update_self] at hmem
  exact h.unqueued .ready (hready ▸ List.mem_cons_of_mem _ hmem)

theorem Rotating.not_forever (h : Rotating M s qs v₀) (hready : qs .ready = v₁ :: rest) :
    ¬ RotatesForever M s (v₀ :: v₁ :: rest) := by
  intro hall
  obtain ⟨s', l', he, -, hring, hmem⟩ := hall 1
  have he : pcpuSwitch M.pcpu s = .ok () s' := by
    obtain ⟨L, hrun, -⟩ := pcpuSwitch_run h.queues hready
    rw [switches, bind_run hrun] at he
    rw [hrun, (EStateM.Result.ok.inj he).2]
  obtain ⟨hqueues, hcur, -⟩ := switch_drops h.queues hready he
  have hv₁ : v₁ ∈ qs .ready := by
    rw [hready]
    exact List.mem_cons_self
  rcases (hmem v₀ h.member).mp List.mem_cons_self with e | hm
  · rw [hcur] at e
    exact h.unqueued .ready (e ▸ hv₁)
  · have hold := hqueues.mem_of_onQueue hring h.member hm
    rw [Function.update_self] at hold
    exact h.unqueued .ready (hready ▸ List.mem_cons_of_mem _ hold)

end

/-- **Switching never rotates.**  Whatever the ready list, the vCPU that ran is not on it after the
switch, and is no longer runnable. -/
theorem switch_never_requeues (M : Machine) (s : Sched) (qs : Queue → List Nat) (v₀ v₁ : Nat)
    (rest : List Nat) (h : Rotating M s qs v₀) (hready : qs .ready = v₁ :: rest) :
    ¬ RotatesOnce M s v₀ v₁ rest ∧ ¬ RotatesForever M s (v₀ :: v₁ :: rest) :=
  ⟨h.not_once hready, h.not_forever hready⟩

/-- `8192` was switched to while `12288` waits. -/
def exampleRotating : Sched := exampleSched [.start 8192, .start 12288, exampleSwitch]

def exampleQueues : Queue → List Nat
  | .ready => [12288]
  | .suspend => []

theorem exampleRotating_rotating : Rotating exampleMachine exampleRotating exampleQueues 8192 where
  queues := by
    refine ⟨?_, ?_, ?_⟩
    · intro q
      cases q with
      | ready =>
        refine ⟨by decide, ?_⟩
        show [16392, 12816, 16392].IsChain (Adj exampleRotating.links)
        rw [List.isChain_cons_cons, List.isChain_pair]
        unfold Adj
        decide +kernel
      | suspend =>
        refine ⟨by decide, ?_⟩
        show [16408, 16408].IsChain (Adj exampleRotating.links)
        rw [List.isChain_pair]
        unfold Adj
        decide +kernel
    · intro q v hv
      cases q with
      | ready =>
        rw [List.mem_singleton.mp hv]
        exact List.mem_cons_of_mem _ List.mem_cons_self
      | suspend => cases hv
    · intro q q' v hv hv'
      cases q with
      | ready =>
        cases q' with
        | ready => rfl
        | suspend => cases hv'
      | suspend => cases hv
  member := List.mem_cons_self
  current := by decide +kernel
  running := by decide +kernel
  unqueued := by
    intro q
    cases q with
    | ready => decide
    | suspend => decide
  ready := by
    intro v hv
    rw [List.mem_singleton.mp hv]
    decide +kernel

theorem switch_never_requeues_example :
    ¬ RotatesOnce exampleMachine exampleRotating 8192 12288 [] :=
  (switch_never_requeues exampleMachine exampleRotating exampleQueues 8192 12288 []
    exampleRotating_rotating rfl).1

/-- With `8192` running and `12288` waiting, a switch leaves the ready list empty. -/
theorem switch_fails_to_rotate :
    ∃ s qs, Rotating exampleMachine s qs 8192 ∧ qs .ready = [12288] ∧
      ¬ RotatesOnce exampleMachine s 8192 12288 [] ∧
        ¬ RotatesForever exampleMachine s [8192, 12288] :=
  ⟨_, _, exampleRotating_rotating, rfl, exampleRotating_rotating.not_once rfl,
    exampleRotating_rotating.not_forever rfl⟩

/-! ## Suspended and halted vCPUs -/

/-- A switch leaves `v` suspended and on the suspend list. -/
def StaysSuspended (M : Machine) (s : Sched) (v : Nat) : Prop :=
  ∃ s' l, pcpuSwitch M.pcpu s = .ok () s' ∧ (s'.vcpus v).state = .suspended ∧
    OnQueue M s' .suspend l ∧ v ∈ l

/-- After a switch, `vcpu_resume` makes `v` READY and the last of the ready list. -/
def ResumesLater (M : Machine) (s : Sched) (v : Nat) : Prop :=
  ∃ s' s'' l, pcpuSwitch M.pcpu s = .ok () s' ∧ vcpuResume v s' = .ok () s'' ∧
    (s''.vcpus v).state = .ready ∧ OnQueue M s'' .ready (l ++ [v])

/-- A switch leaves `v` halted and on no list. -/
def StaysHalted (M : Machine) (s : Sched) (v : Nat) : Prop :=
  ∃ s' qs, pcpuSwitch M.pcpu s = .ok () s' ∧ (s'.vcpus v).state = .halted ∧ Queues M s'.links qs ∧
    ∀ q, v ∉ qs q

/-- No run of the operations other than `vcpu_halt` makes `v` READY or RUNNING. -/
def NeverRevived (M : Machine) (s : Sched) (v : Nat) : Prop :=
  ∀ ops s', Runs (SchedStep M) s ops s' → (∀ w, SchedOp.halt w ∉ ops) →
    (s'.vcpus v).state ≠ .ready ∧ (s'.vcpus v).state ≠ .running

/-- `v` is current in the state `state`, and a vCPU waits. -/
structure Outgoing (M : Machine) (s : Sched) (qs : Queue → List Nat) (v : Nat) (state : VcpuState) :
    Prop where
  queues : Queues M s.links qs
  member : v ∈ M.vcpus
  current : s.current M.pcpu = v
  state_eq : (s.vcpus v).state = state
  waits : qs .ready ≠ []

section

variable {M : Machine} {s s' : Sched} {qs : Queue → List Nat} {v : Nat} {state : VcpuState}

/-- **Whatever state it had, it is READY after the switch.** -/
theorem Outgoing.ready_after (h : Outgoing M s qs v state) (hv : v ∉ qs .ready)
    (he : pcpuSwitch M.pcpu s = .ok () s') : (s'.vcpus v).state = .ready := by
  obtain ⟨v₁, rest, hready⟩ := List.exists_cons_of_ne_nil h.waits
  obtain ⟨-, -, hvcpus⟩ := switch_drops h.queues hready he
  rw [hvcpus, h.current]
  refine switchedVcpus_current (Machine.ne_zero h.member) fun e => hv ?_
  rw [e, hready]
  exact List.mem_cons_self

theorem Outgoing.with_regs (h : Outgoing M s qs v state) (gpregs : Gpregs) (sysregs : SysregsEl1) :
    Outgoing M { s with frame := gpregs, sysregs := sysregs } qs v state :=
  ⟨h.queues, h.member, h.current, h.state_eq, h.waits⟩

/-- A vCPU on the suspend list is not on the ready list. -/
theorem Queues.suspended_not_ready (h : Queues M s.links qs) (hv : v ∈ qs .suspend) :
    v ∉ qs .ready := by
  intro hm
  cases h.disjoint _ _ v hm hv

theorem Outgoing.not_staysSuspended (h : Outgoing M s qs v .suspended) (hv : v ∈ qs .suspend) :
    ¬ StaysSuspended M s v := by
  rintro ⟨s', l, he, hs, -⟩
  rw [h.ready_after (h.queues.suspended_not_ready hv) he] at hs
  cases hs

/-- `vcpu_resume` finds a READY vCPU and does nothing. -/
theorem Outgoing.not_resumesLater (h : Outgoing M s qs v .suspended) (hv : v ∈ qs .suspend) :
    ¬ ResumesLater M s v := by
  rintro ⟨s', s'', l, he, hres, -, hring⟩
  have hnot := h.queues.suspended_not_ready hv
  have hready := h.ready_after hnot he
  rw [vcpuResume_skip (Machine.ne_zero h.member) (by simp [hready])] at hres
  have hs : s' = s'' := (EStateM.Result.ok.inj hres).2
  subst hs
  obtain ⟨v₁, rest, hq⟩ := List.exists_cons_of_ne_nil h.waits
  obtain ⟨hqueues, -⟩ := switch_drops h.queues hq he
  have hmem := hqueues.mem_of_onQueue hring h.member (List.mem_append_right _ List.mem_cons_self)
  rw [Function.update_self] at hmem
  exact hnot (hq ▸ List.mem_cons_of_mem _ hmem)

theorem Outgoing.not_staysHalted (h : Outgoing M s qs v .halted) (hv : ∀ q, v ∉ qs q) :
    ¬ StaysHalted M s v := by
  rintro ⟨s', qs', he, hs, -⟩
  rw [h.ready_after (hv .ready) he] at hs
  cases hs

theorem Outgoing.not_neverRevived (h : Outgoing M s qs v .halted) (hv : ∀ q, v ∉ qs q) :
    ¬ NeverRevived M s v := by
  intro hall
  obtain ⟨v₁, rest, hq⟩ := List.exists_cons_of_ne_nil h.waits
  have h' := h.with_regs .zero .zero
  obtain ⟨L, he, -⟩ := pcpuSwitch_run h'.queues hq
  have hstep : SchedStep M s (.switch .zero .zero) _ := ⟨trivial, he⟩
  exact (hall _ _ (Runs.single hstep) (by simp)).1 (h'.ready_after (hv .ready) he)

end

/-- **A switch revives the vCPU it switches out.**  A suspended one becomes READY and is out of the
reach of `vcpu_resume`; a halted one becomes READY. -/
theorem switch_revives (M : Machine) (s : Sched) (qs : Queue → List Nat) (v : Nat) :
    (Outgoing M s qs v .suspended → v ∈ qs .suspend →
      ¬ StaysSuspended M s v ∧ ¬ ResumesLater M s v) ∧
    (Outgoing M s qs v .halted → (∀ q, v ∉ qs q) → ¬ StaysHalted M s v ∧ ¬ NeverRevived M s v) :=
  ⟨fun h hv => ⟨h.not_staysSuspended hv, h.not_resumesLater hv⟩,
    fun h hv => ⟨h.not_staysHalted hv, h.not_neverRevived hv⟩⟩

/-- `8192` is current, suspended as `vcpu_suspend` means to leave it, and `12288` waits. -/
theorem exampleSuspended :
    ∃ s qs, Outgoing exampleMachine s qs 8192 .suspended ∧ 8192 ∈ qs .suspend := by
  have h := exampleRotating_rotating
  -- what the state is does not matter from here on
  generalize exampleRotating = s at h
  obtain ⟨L, -, hqueues, -⟩ := h.queues.addTail h.member h.unqueued .suspend
  refine ⟨{ s with
    links := L
    vcpus := Function.update s.vcpus 8192 { s.vcpus 8192 with state := .suspended } }, _,
    ⟨hqueues, h.member, h.current, ?_, ?_⟩, ?_⟩
  · simp only [Function.update_self]
  · rw [Function.update_of_ne (by decide)]
    exact List.cons_ne_nil _ _
  · rw [Function.update_self]
    exact List.mem_append_right _ List.mem_cons_self

/-- `8192` is current and halted, and `12288` waits. -/
theorem exampleHalted :
    ∃ s qs, Outgoing exampleMachine s qs 8192 .halted ∧ ∀ q, 8192 ∉ qs q := by
  have h := exampleRotating_rotating
  generalize exampleRotating = s at h
  refine ⟨{ s with
    vcpus := Function.update s.vcpus 8192 { s.vcpus 8192 with state := .halted } }, exampleQueues,
    ⟨h.queues, h.member, h.current, ?_, List.cons_ne_nil _ _⟩, h.unqueued⟩
  simp only [Function.update_self]

theorem switch_revives_example :
    (∃ s qs, Outgoing exampleMachine s qs 8192 .suspended ∧
      ¬ StaysSuspended exampleMachine s 8192) ∧
      ∃ s qs, Outgoing exampleMachine s qs 8192 .halted ∧ ¬ StaysHalted exampleMachine s 8192 := by
  obtain ⟨s, qs, h, hv⟩ := exampleSuspended
  obtain ⟨s', qs', h', hv'⟩ := exampleHalted
  exact ⟨⟨s, qs, h, ((switch_revives exampleMachine s qs 8192).1 h hv).1⟩,
    s', qs', h', ((switch_revives exampleMachine s' qs' 8192).2 h' hv').1⟩

/-- A suspended and a halted vCPU that a switch makes READY. -/
theorem switch_fails_to_keep :
    (∃ s qs, Outgoing exampleMachine s qs 8192 .suspended ∧ 8192 ∈ qs .suspend ∧
      ¬ StaysSuspended exampleMachine s 8192 ∧ ¬ ResumesLater exampleMachine s 8192) ∧
    ∃ s qs, Outgoing exampleMachine s qs 8192 .halted ∧ (∀ q, 8192 ∉ qs q) ∧
      ¬ StaysHalted exampleMachine s 8192 ∧ ¬ NeverRevived exampleMachine s 8192 := by
  obtain ⟨s, qs, h, hv⟩ := exampleSuspended
  obtain ⟨s', qs', h', hv'⟩ := exampleHalted
  exact ⟨⟨s, qs, h, hv, h.not_staysSuspended hv, h.not_resumesLater hv⟩,
    s', qs', h', hv', h'.not_staysHalted hv', h'.not_neverRevived hv'⟩

end ZHyper
