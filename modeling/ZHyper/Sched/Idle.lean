import ZHyper.Sched.Switch

/-!
# `pcpu_switch` on a CPU that runs nothing

With a vCPU on the ready list the first one is taken (`pcpuSwitch_first`).  With none, the
test for it is `!list_next(&pcpu->ready_vcpus)`; but `list_init` links an empty head to itself,
so the test fails and the head is taken for the node of a vCPU (`pcpuSwitch_idle`): what becomes
current is an address inside, or below, the `struct pcpu`, and the head ends unlinked.
-/

namespace ZHyper

open LowLevel

/-- What a switch is to do on a CPU with no current vCPU.  The vCPUs that were passed to
`vcpu_start` are those on its lists. -/
structure PicksReal (M : Machine) (s : Sched) (qs : Queue → List Nat) : Prop where
  first : ∀ v rest, qs .ready = v :: rest → ∃ s', pcpuSwitch M.pcpu s = .ok () s' ∧
    s'.current M.pcpu = v ∧ (s'.vcpus v).state = .running ∧ s'.frame = (s.vcpus v).gpregs ∧
    Queues M s'.links (Function.update qs .ready rest)
  idle : qs .ready = [] → ∃ s', pcpuSwitch M.pcpu s = .ok () s' ∧
    s'.current M.pcpu = 0 ∧ Queues M s'.links qs ∧ s'.vcpus = s.vcpus ∧ s'.frame = s.frame
  real : ∀ s', pcpuSwitch M.pcpu s = .ok () s' → s'.current M.pcpu = 0 ∨
    ∃ q, s'.current M.pcpu ∈ qs q

section

variable {M : Machine} {s s' : Sched} {qs : Queue → List Nat} {v : Nat} {rest : List Nat}

/-- **The first of the ready list** is picked. -/
theorem pcpuSwitch_first (h : Queues M s.links qs) (hcur : s.current M.pcpu = 0)
    (hready : qs .ready = v :: rest) :
    ∃ s', pcpuSwitch M.pcpu s = .ok () s' ∧ s'.current M.pcpu = v ∧ (s'.vcpus v).state = .running ∧
      s'.frame = (s.vcpus v).gpregs ∧ Queues M s'.links (Function.update qs .ready rest) := by
  obtain ⟨L, hrun, hqueues, -⟩ := pcpuSwitch_run h hready
  have hv : v ∈ M.vcpus := h.member .ready v (hready ▸ List.mem_cons_self)
  refine ⟨_, hrun, switchedTo_current s M.pcpu v L, switchedVcpus_self s _ v, ?_, hqueues⟩
  show (savedVcpus s (s.current M.pcpu) v).gpregs = (s.vcpus v).gpregs
  rw [hcur, savedVcpus_of_ne (Machine.ne_zero hv)]

/-- The vCPU whose node would be the head of a list. -/
def headVcpu (M : Machine) : Nat := listEntry (M.head .ready) nodeOffset

/-- **With nothing to run** the head of the ready list is picked as if it were in a vCPU. -/
theorem pcpuSwitch_idle (h : Queues M s.links qs) (hnil : qs .ready = [])
    (he : pcpuSwitch M.pcpu s = .ok () s') : s'.current M.pcpu = headVcpu M ∧ headVcpu M ≠ 0 := by
  have hring := h.ring .ready
  rw [hnil] at hring
  obtain ⟨hnext, hprev⟩ := hring.adj_nil
  unfold pcpuSwitch at he
  rw [bind_run switchOut_run] at he
  exact (switchIn_empty (M.head .ready) rfl (M.head_ne_zero .ready) he hnext hprev).2

theorem not_picksReal_idle (h : Queues M s.links qs) (hnil : qs .ready = []) :
    ¬ PicksReal M s qs := by
  intro hp
  obtain ⟨s', he, hcur, -⟩ := hp.idle hnil
  obtain ⟨hfake, hne⟩ := pcpuSwitch_idle h hnil he
  exact hne (hfake.symm.trans hcur)

end

/-- **`pcpu_switch` picks a real vCPU exactly if there is one.** -/
theorem picksReal_iff (M : Machine) (s : Sched) (qs : Queue → List Nat) (h : Queues M s.links qs)
    (hcur : s.current M.pcpu = 0) : PicksReal M s qs ↔ qs .ready ≠ [] := by
  refine ⟨fun hp hnil => not_picksReal_idle h hnil hp, ?_⟩
  intro hne
  obtain ⟨v, rest, hready⟩ := List.exists_cons_of_ne_nil hne
  refine ⟨fun _ _ hr => pcpuSwitch_first h hcur hr, fun hnil => absurd hnil hne, ?_⟩
  intro s' he
  obtain ⟨t, hrun, hv, -⟩ := pcpuSwitch_first h hcur hready
  rw [he] at hrun
  rw [(EStateM.Result.ok.inj hrun).2, hv]
  exact Or.inr ⟨.ready, hready ▸ List.mem_cons_self⟩

/-- The lists before any vCPU is started. -/
theorem exampleSched_queues : Queues exampleMachine (exampleSched []).links fun _ => [] := by
  obtain ⟨h, -⟩ := schedInitial_sound exampleSched_initial
  exact h.queues

theorem exampleSched_idle : (exampleSched []).current exampleMachine.pcpu = 0 := by decide +kernel

theorem picksReal_example : ∃ s qs, qs .ready = [8192] ∧ PicksReal exampleMachine s qs := by
  have hv : 8192 ∈ exampleMachine.vcpus := List.mem_cons_self
  obtain ⟨L, -, hqueues, -⟩ := exampleSched_queues.addTail hv (fun _ => List.not_mem_nil) .ready
  have hcur : ({ exampleSched [] with links := L } : Sched).current exampleMachine.pcpu = 0 :=
    exampleSched_idle
  refine ⟨_, Function.update (fun _ => []) .ready [8192], Function.update_self _ _ _,
    (picksReal_iff exampleMachine _ _ hqueues hcur).mpr ?_⟩
  rw [Function.update_self]
  exact List.cons_ne_nil _ _

/-- Both lists of the CPU are empty: `pcpu_switch` makes a vCPU out of the head of the ready
list. -/
theorem idle_switch_picks_head :
    ∃ s qs, Queues exampleMachine s.links qs ∧ s.current exampleMachine.pcpu = 0 ∧ qs .ready = [] ∧
      ¬ PicksReal exampleMachine s qs :=
  ⟨_, _, exampleSched_queues, exampleSched_idle, rfl, not_picksReal_idle exampleSched_queues rfl⟩

end ZHyper
