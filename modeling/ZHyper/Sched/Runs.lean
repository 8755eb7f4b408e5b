import ZHyper.Sched.Ops
import ZHyper.Lib.Runs

/-!
# The scheduler over whole runs

A run starts with the two lists of a CPU initialised, no current vCPU and every vCPU
set up by `vcpu_init`, and takes `vcpu_start`, `vcpu_suspend`, `vcpu_resume`,
`vcpu_halt` and `pcpu_switch` in any order, on any vCPU, with any registers in the
frame.  `Sound` is what holds of the queues and the states as long as no running
vCPU is suspended or halted.

* `sched_consistent_iff`: states and queues stay in step exactly as long as, besides,
  `pcpu_switch` is called only with no current vCPU and a vCPU to switch to.
* `list_del_linked_iff`: the `list_del`s are all of linked nodes exactly as long as
  no running vCPU is suspended or halted: its node is on no list.
-/

namespace ZHyper

open LowLevel

inductive SchedOp where
  | start (vcpu : Nat)
  | suspend (vcpu : Nat)
  | resume (vcpu : Nat)
  | halt (vcpu : Nat)
  /-- with these registers in the frame and in the CPU -/
  | switch (gpregs : Gpregs) (sysregs : SysregsEl1)

def SchedOp.Targets (M : Machine) : SchedOp → Prop
  | .start v | .suspend v | .resume v | .halt v => v ∈ M.vcpus
  | .switch _ _ => True

def runOp (M : Machine) : SchedOp → SchedM Unit
  | .start v => vcpuStart v
  | .suspend v => vcpuSuspend v
  | .resume v => vcpuResume v
  | .halt v => vcpuHalt v
  | .switch gpregs sysregs => do
    modify fun s => { s with frame := gpregs, sysregs := sysregs }
    pcpuSwitch M.pcpu

def SchedStep (M : Machine) (s : Sched) (op : SchedOp) (s' : Sched) : Prop :=
  op.Targets M ∧ runOp M op s = .ok () s'

def initVcpus (pcpu : Nat) (ids : Nat → Nat) : List Nat → SchedM Unit
  | [] => pure ()
  | v :: vs => do
    vcpuInit pcpu v (ids v)
    initVcpus pcpu ids vs

/-- The repository has no function that sets up a `struct pcpu`; its lists are initialised and it
has no current vCPU. -/
def schedInit (M : Machine) (ids : Nat → Nat) : SchedM Unit := do
  onLinks (listInit (readyVcpus M.pcpu))
  onLinks (listInit (suspendVcpus M.pcpu))
  storeCurrent M.pcpu 0
  initVcpus M.pcpu ids M.vcpus

def SchedInitial (M : Machine) (s : Sched) : Prop :=
  ∃ s₀ ids, s₀.dels = [] ∧ schedInit M ids s₀ = .ok () s

/-- The ready list has a vCPU on it. -/
def HasReady (M : Machine) (s : Sched) : Prop := (s.links (M.head .ready)).next ≠ M.head .ready

/-- States, queues and `current_vcpu` agree. -/
structure Consistent (M : Machine) (s : Sched) (qs : Queue → List Nat) : Prop where
  queues : Queues M s.links qs
  ready : ∀ v ∈ M.vcpus, (s.vcpus v).state = .ready ↔ v ∈ qs .ready
  suspended : ∀ v ∈ M.vcpus, (s.vcpus v).state = .suspended ↔ v ∈ qs .suspend
  running : ∀ v ∈ M.vcpus, (s.vcpus v).state = .running → s.current M.pcpu = v

/-- What a run keeps as long as no running vCPU is suspended or halted.  A vCPU that was switched
out may be READY without being queued. -/
structure Sound (M : Machine) (s : Sched) (qs : Queue → List Nat) : Prop where
  queues : Queues M s.links qs
  owner : ∀ v ∈ M.vcpus, (s.vcpus v).pcpu = M.pcpu
  ready : ∀ v ∈ qs .ready, (s.vcpus v).state = .ready
  suspended : ∀ v ∈ M.vcpus, (s.vcpus v).state = .suspended ↔ v ∈ qs .suspend
  current : s.current M.pcpu ≠ 0 →
    s.current M.pcpu ∈ M.vcpus ∧ (s.vcpus (s.current M.pcpu)).state = .running
  running : ∀ v ∈ M.vcpus, (s.vcpus v).state = .running →
    s.current M.pcpu = v ∧ s.links (nodeOf v) = ⟨0, 0⟩
  dels : ∀ d ∈ s.dels, LinkedAt d.2 d.1

variable {M : Machine} {s s' : Sched} {qs : Queue → List Nat} {v : Nat}

/-! ## The initial state -/

theorem vcpuInit_run (pcpu id : Nat) (hv : v ∈ M.vcpus) :
    ∃ L, vcpuInit pcpu v id s = .ok () { s with
        links := L
        vcpus := Function.update s.vcpus v ⟨id, .offline, .zero, .zero, pcpu⟩ } ∧
      ∀ q, L (M.head q) = s.links (M.head q) := by
  have hfits := M.vcpu_fits v hv
  have hpos := M.vcpu_pos v hv
  have hapart := M.pcpu_apart v hv
  unfold vcpuSizeof at hfits hapart
  unfold pcpuSizeof at hapart
  have hirq : irqList v = v + 8 := Nat.mod_eq_of_lt (by omega)
  have hpre : preemptList v = v + 24 := Nat.mod_eq_of_lt (by omega)
  obtain ⟨L₁, h1, -, f1⟩ := listInit_ring (L := s.links) (x := irqList v) (by omega)
  obtain ⟨L₂, h2, -, f2⟩ := listInit_ring (L := L₁) (x := preemptList v) (by omega)
  obtain ⟨L₃, h3, -, f3⟩ := listInit_ring (L := L₂) (Machine.nodeOf_ne_zero hv)
  refine ⟨L₃, ?_, ?_⟩
  · generalize hV : Function.update s.vcpus v ⟨id, .offline, .zero, .zero, pcpu⟩ = V
    have e1 : onLinks (listInit (irqList v)) { s with vcpus := V } =
        .ok () { s with vcpus := V, links := L₁ } := onLinks_run h1
    have e2 : onLinks (listInit (preemptList v)) { s with vcpus := V, links := L₁ } =
        .ok () { s with vcpus := V, links := L₂ } := onLinks_run h2
    unfold vcpuInit
    rw [bind_run (modifyVcpu_run (Machine.ne_zero hv) _), hV, bind_run e1, bind_run e2]
    exact onLinks_run h3
  · intro q
    have hhead := M.head_eq q
    have hbound : M.pcpu + 8 ≤ M.head q ∧ M.head q ≤ M.pcpu + 24 := by
      rw [hhead]
      cases q
      · dsimp only
        omega
      · dsimp only
        omega
    rw [f3 _ (Ne.symm (Machine.nodeOf_ne_head hv q)), f2 _ (by omega), f1 _ (by omega)]

theorem initVcpus_run (pcpu : Nat) (ids : Nat → Nat) :
    ∀ (vs : List Nat) (s : Sched), (∀ v ∈ vs, v ∈ M.vcpus) →
      ∃ s', initVcpus pcpu ids vs s = .ok () s' ∧ (∀ q, s'.links (M.head q) = s.links (M.head q)) ∧
        s'.current = s.current ∧ s'.dels = s.dels ∧
        (∀ v ∈ vs, (s'.vcpus v).state = .offline ∧ (s'.vcpus v).pcpu = pcpu) ∧
        ∀ v, v ∉ vs → s'.vcpus v = s.vcpus v := by
  intro vs
  induction vs with
  | nil =>
    intro s _
    exact ⟨s, rfl, fun _ => rfl, rfl, rfl, fun v hv => (by cases hv), fun v _ => rfl⟩
  | cons v vs ih =>
    intro s hvs
    obtain ⟨L, he, hL⟩ := vcpuInit_run (s := s) pcpu (ids v) (hvs v List.mem_cons_self)
    obtain ⟨s', he', h1, h2, h3, h4, h5⟩ := ih { s with
        links := L
        vcpus := Function.update s.vcpus v ⟨ids v, .offline, .zero, .zero, pcpu⟩ }
      fun w hw => hvs w (List.mem_cons_of_mem _ hw)
    refine ⟨s', ?_, fun q => (h1 q).trans (hL q), h2, h3, ?_, ?_⟩
    · rw [initVcpus, bind_run he, he']
    · intro w hw
      by_cases hmem : w ∈ vs
      · exact h4 w hmem
      · have hwv : w = v := (List.mem_cons.mp hw).resolve_right hmem
        rw [h5 w hmem, hwv]
        simp only [Function.update_self, and_self]
    · intro w hw
      rw [List.mem_cons, not_or] at hw
      rw [h5 w hw.2]
      exact Function.update_of_ne hw.1 _ _

/-- At the start both lists are empty, and every vCPU is OFFLINE. -/
theorem schedInitial_sound (h : SchedInitial M s) :
    Sound M s (fun _ => []) ∧ s.current M.pcpu = 0 ∧
      ∀ v ∈ M.vcpus, (s.vcpus v).state = .offline := by
  obtain ⟨s₀, ids, hdels, he⟩ := h
  obtain ⟨L₁, h1, r1, f1⟩ := listInit_ring (L := s₀.links) (M.head_ne_zero .ready)
  obtain ⟨L₂, h2, r2, f2⟩ := listInit_ring (L := L₁) (M.head_ne_zero .suspend)
  have e1 : onLinks (listInit (readyVcpus M.pcpu)) s₀ = .ok () { s₀ with links := L₁ } :=
    onLinks_run h1
  have e2 : onLinks (listInit (suspendVcpus M.pcpu)) { s₀ with links := L₁ } =
      .ok () { s₀ with links := L₂ } := onLinks_run h2
  have e3 : storeCurrent M.pcpu 0 { s₀ with links := L₂ } =
      .ok () { s₀ with links := L₂, current := Function.update s₀.current M.pcpu 0 } := rfl
  obtain ⟨s', e4, g1, g2, g3, g4, -⟩ := initVcpus_run (M := M) M.pcpu ids M.vcpus
    { s₀ with links := L₂, current := Function.update s₀.current M.pcpu 0 } fun v hv => hv
  rw [schedInit, bind_run e1, bind_run e2, bind_run e3, e4] at he
  injection he with _ he
  subst he
  have hcurrent : s'.current M.pcpu = 0 := by
    rw [g2]
    exact Function.update_self _ _ _
  have hoff : ∀ v ∈ M.vcpus, (s'.vcpus v).state = .offline := fun v hv => (g4 v hv).1
  have hheads : M.head .ready ≠ M.head .suspend := fun e => by cases M.head_injective e
  have hring : ∀ q, NodeRing s'.links (M.head q) [] := by
    intro q
    have hL₂ : NodeRing L₂ (M.head q) [] := by
      cases q
      · refine r1.congr fun x hx => f2 x ?_
        rw [List.mem_singleton.mp hx]
        exact hheads
      · exact r2
    apply hL₂.congr
    intro x hx
    rw [List.mem_singleton.mp hx]
    exact g1 q
  refine ⟨⟨⟨hring, fun q v hv => (by cases hv), fun q q' v hv => (by cases hv)⟩, fun v hv =>
    (g4 v hv).2,
    fun v hv => (by cases hv), ?_, fun hne => absurd hcurrent hne, ?_, ?_⟩,
    hcurrent, hoff⟩
  · intro v hv
    rw [hoff v hv]
    simp
  · intro v hv hrun
    rw [hoff v hv] at hrun
    cases hrun
  · rw [g3]
    intro d hd
    rw [show ({ s₀ with links := L₂, current := Function.update s₀.current M.pcpu 0 } :
      Sched).dels = []
      from hdels] at hd
    cases hd

/-! ## One operation -/

/-- A vCPU that is neither READY nor SUSPENDED is on no queue. -/
theorem Sound.unqueued (h : Sound M s qs) (hv : v ∈ M.vcpus) (h1 : (s.vcpus v).state ≠ .ready)
    (h2 : (s.vcpus v).state ≠ .suspended) : ∀ q, v ∉ qs q := by
  intro q hm
  cases q with
  | ready => exact h1 (h.ready v hm)
  | suspend => exact h2 ((h.suspended v hv).mpr hm)

/-- Making a vCPU READY that is not running, with queues to match. -/
theorem Sound.makeReady (h : Sound M s qs) (hv : v ∈ M.vcpus) (hs : (s.vcpus v).state ≠ .running)
    {qs' : Queue → List Nat}
    (hvcpus : s'.vcpus = Function.update s.vcpus v { s.vcpus v with state := .ready })
    (hcurrent : s'.current = s.current) (hqueues : Queues M s'.links qs')
    (hready : qs' .ready = qs .ready ++ [v])
    (hsuspend : ∀ w, w ∈ qs' .suspend ↔ w ∈ qs .suspend ∧ w ≠ v)
    (hframe : ∀ w ∈ M.vcpus, (s.vcpus w).state = .running →
      s'.links (nodeOf w) = s.links (nodeOf w))
    (hdels : ∀ d ∈ s'.dels, LinkedAt d.2 d.1) : Sound M s' qs' := by
  have hself : s'.vcpus v = { s.vcpus v with state := .ready } := by
    rw [hvcpus, Function.update_self]
  have hother : ∀ w, w ≠ v → s'.vcpus w = s.vcpus w := fun w hw => by
    rw [hvcpus, Function.update_of_ne hw]
  refine ⟨hqueues, ?_, ?_, ?_, ?_, ?_, hdels⟩
  · intro w hw
    by_cases hwv : w = v
    · rw [hwv, hself]
      exact h.owner v hv
    · rw [hother w hwv]
      exact h.owner w hw
  · intro w hw
    by_cases hwv : w = v
    · rw [hwv, hself]
    · rw [hready, List.mem_append, List.mem_singleton] at hw
      rw [hother w hwv]
      exact h.ready w (hw.resolve_right hwv)
  · intro w hw
    rw [hsuspend]
    by_cases hwv : w = v
    · rw [hwv, hself]
      simp
    · rw [hother w hwv, h.suspended w hw]
      simp [hwv]
  · intro hc
    rw [hcurrent] at hc ⊢
    obtain ⟨h1, h2⟩ := h.current hc
    refine ⟨h1, ?_⟩
    rw [hother _ fun e => hs (e ▸ h2)]
    exact h2
  · intro w hw hr
    by_cases hwv : w = v
    · rw [hwv, hself] at hr
      cases hr
    · rw [hother w hwv] at hr
      rw [hcurrent, hframe w hw hr]
      exact h.running w hw hr

theorem Sound.start (h : Sound M s qs) (hv : v ∈ M.vcpus) (hs : (s.vcpus v).state = .offline) :
    ∃ s', vcpuStart v s = .ok () s' ∧ Sound M s' (Function.update qs .ready (qs .ready ++ [v])) ∧
      s'.current = s.current ∧
        s'.vcpus = Function.update s.vcpus v { s.vcpus v with state := .ready } := by
  have hfree : ∀ q, v ∉ qs q := h.unqueued hv (by simp [hs]) (by simp [hs])
  obtain ⟨L, hadd, hqueues, hframe⟩ := h.queues.addTail hv hfree .ready
  have hrun := vcpuStart_run (s := s) (L := L) (Machine.ne_zero hv) hs
    (by rw [h.owner v hv]; exact hadd)
  refine ⟨_, hrun, h.makeReady hv (by simp [hs]) rfl rfl hqueues (Function.update_self _ _ _)
    ?_ ?_ h.dels, rfl, rfl⟩
  · intro w
    rw [Function.update_of_ne (by decide)]
    constructor
    · intro hw
      exact ⟨hw, fun e => hfree .suspend (e ▸ hw)⟩
    · exact fun hw => hw.1
  · intro w hw hr
    refine hframe w hw ?_ (h.unqueued hw (by simp [hr]) (by simp [hr]))
    intro e
    rw [e, hs] at hr
    cases hr

theorem Sound.resume (h : Sound M s qs) (hv : v ∈ M.vcpus) (hs : (s.vcpus v).state = .suspended) :
    ∃ s' qs', vcpuResume v s = .ok () s' ∧ Sound M s' qs' ∧ qs' .ready = qs .ready ++ [v] ∧
      s'.current = s.current ∧
        s'.vcpus = Function.update s.vcpus v { s.vcpus v with state := .ready } := by
  have hmem : v ∈ qs .suspend := (h.suspended v hv).mp hs
  obtain ⟨l₁, l₂, hsplit⟩ := List.append_of_mem hmem
  have hnd := h.queues.nodup .suspend
  rw [hsplit] at hnd
  obtain ⟨L, hdel, hq₁, -, hframe₁⟩ := h.queues.del hsplit
  have hrest : v ∉ l₁ ++ l₂ := fun hm => (List.nodup_middle.mp hnd).notMem hm
  have hfree : ∀ q, v ∉ Function.update qs .suspend (l₁ ++ l₂) q := by
    intro q hm
    cases q with
    | ready =>
      rw [Function.update_of_ne (by decide)] at hm
      cases h.queues.disjoint _ _ v hm hmem
    | suspend =>
      rw [Function.update_self] at hm
      exact hrest hm
  obtain ⟨L', hadd, hq₂, hframe₂⟩ := hq₁.addTail hv hfree .ready
  have hrun := vcpuResume_run (s := s) (L := L) (Machine.ne_zero hv) hs hdel
    (by rw [h.owner v hv]; exact hadd)
  have hready : Function.update (Function.update qs .suspend (l₁ ++ l₂)) .ready
      (Function.update qs .suspend (l₁ ++ l₂) .ready ++ [v]) .ready = qs .ready ++ [v] := by
    rw [Function.update_self, Function.update_of_ne (by decide)]
  refine ⟨_, _, hrun, h.makeReady hv (by simp [hs]) rfl rfl hq₂ hready ?_ ?_
    ?_, hready, rfl, rfl⟩
  · intro w
    rw [Function.update_of_ne (by decide), Function.update_self, hsplit]
    constructor
    · intro hw
      refine ⟨?_, fun e => hrest (e ▸ hw)⟩
      rw [List.mem_append, List.mem_cons]
      exact (List.mem_append.mp hw).imp id Or.inr
    · rintro ⟨hw, hne⟩
      rw [List.mem_append, List.mem_cons] at hw
      exact List.mem_append.mpr (hw.imp id fun hw => hw.resolve_left hne)
  · intro w hw hr
    have hun := h.unqueued hw (by simp [hr]) (by simp [hr])
    have hun₁ : ∀ q, w ∉ Function.update qs .suspend (l₁ ++ l₂) q := by
      intro q hm
      cases q with
      | ready =>
        rw [Function.update_of_ne (by decide)] at hm
        exact hun .ready hm
      | suspend =>
        rw [Function.update_self] at hm
        apply hun .suspend
        rw [hsplit, List.mem_append, List.mem_cons]
        exact (List.mem_append.mp hm).imp id Or.inr
    show L' (nodeOf w) = s.links (nodeOf w)
    rw [hframe₂ w hw (fun e => ?_) hun₁, hframe₁ w hw hun]
    rw [e, hs] at hr
    cases hr
  · intro d hd
    rcases List.mem_cons.mp hd with rfl | hd
    · exact h.queues.linkedAt hmem
    · exact h.dels d hd

/-- **A switch** to the first vCPU of the ready list.  The old current vCPU becomes READY and stays
off the lists. -/
theorem Sound.switch (h : Sound M s qs) {rest : List Nat} (hready : qs .ready = v :: rest) :
    ∃ L, pcpuSwitch M.pcpu s = .ok () (switchedTo s M.pcpu v L) ∧
      Sound M (switchedTo s M.pcpu v L) (Function.update qs .ready rest) ∧
      ∀ w ∈ M.vcpus, (∀ q, w ∉ qs q) → L (nodeOf w) = s.links (nodeOf w) := by
  have hvq : v ∈ qs .ready := by
    rw [hready]
    exact List.mem_cons_self
  have hv := h.queues.member .ready v hvq
  have hnd := h.queues.nodup .ready
  rw [hready] at hnd
  obtain ⟨L, hrun, hqueues, hnull, hframe⟩ := pcpuSwitch_run h.queues hready
  -- the outgoing vCPU was running, so it is not `v` and not queued
  have hcv : s.current M.pcpu ≠ v := by
    intro e
    obtain ⟨-, h2⟩ := h.current (e ▸ Machine.ne_zero hv)
    rw [e, h.ready v hvq] at h2
    cases h2
  have hcfree : s.current M.pcpu ≠ 0 → ∀ q, s.current M.pcpu ∉ qs q := by
    intro hc0
    obtain ⟨h1, h2⟩ := h.current hc0
    exact h.unqueued h1 (by simp [h2]) (by simp [h2])
  refine ⟨L, hrun, ⟨hqueues, ?_, ?_, ?_, ?_, ?_,
    ?_⟩, hframe⟩
  · intro w hw
    show (switchedVcpus s (s.current M.pcpu) v w).pcpu = M.pcpu
    rw [switchedVcpus_pcpu]
    exact h.owner w hw
  · intro w hw
    rw [Function.update_self] at hw
    have hwv : w ≠ v := fun e => (List.nodup_cons.mp hnd).1 (e ▸ hw)
    have hwq : w ∈ qs .ready := hready ▸ List.mem_cons_of_mem _ hw
    have hw0 := Machine.ne_zero (h.queues.member .ready w hwq)
    show (switchedVcpus s (s.current M.pcpu) v w).state = .ready
    by_cases hwc : w = s.current M.pcpu
    · exact absurd (hwc ▸ hwq) (hcfree (hwc ▸ hw0) .ready)
    · rw [switchedVcpus_of_ne hwv hwc]
      exact h.ready w hwq
  · intro w hw
    rw [Function.update_of_ne (by decide)]
    show (switchedVcpus s (s.current M.pcpu) v w).state = .suspended ↔ w ∈ qs .suspend
    by_cases hwv : w = v
    · rw [hwv, switchedVcpus_self]
      apply iff_of_false (by simp)
      intro hm
      cases h.queues.disjoint _ _ v hm hvq
    · by_cases hwc : w = s.current M.pcpu
      · have hc0 : s.current M.pcpu ≠ 0 := hwc ▸ Machine.ne_zero hw
        rw [hwc, switchedVcpus_current hc0 hcv]
        exact iff_of_false (by simp) (hcfree hc0 .suspend)
      · rw [switchedVcpus_of_ne hwv hwc]
        exact h.suspended w hw
  · intro _
    rw [switchedTo_current]
    exact ⟨hv, switchedVcpus_self s _ v⟩
  · intro w hw hr
    have hr : (switchedVcpus s (s.current M.pcpu) v w).state = .running := hr
    by_cases hwv : w = v
    · rw [hwv, switchedTo_current]
      exact ⟨rfl, hnull⟩
    · by_cases hwc : w = s.current M.pcpu
      · rw [hwc, switchedVcpus_current (hwc ▸ Machine.ne_zero hw) hcv] at hr
        cases hr
      · -- only the old current vCPU was running
        rw [switchedVcpus_of_ne hwv hwc] at hr
        exact absurd (h.running w hw hr).1.symm hwc
  · intro d hd
    have hd : d ∈ (nodeOf v, s.links) :: s.dels := hd
    rcases List.mem_cons.mp hd with rfl | hd
    · exact h.queues.linkedAt hvq
    · exact h.dels d hd

/-! ## A machine with two vCPUs -/

def exampleMachine : Machine where
  pcpu := 16384
  vcpus := [8192, 12288]
  pcpu_pos := by decide
  pcpu_fits := by decide
  vcpu_pos := by decide
  vcpu_fits := by decide
  vcpus_apart := by decide
  pcpu_apart := by decide

def blankSched : Sched where
  links := fun _ => ⟨0, 0⟩
  vcpus := fun _ => ⟨0, .offline, .zero, .zero, 0⟩
  current := fun _ => 0
  sysregs := .zero
  frame := .zero
  dels := []

def finish : EStateM.Result Fault Sched Unit → Sched
  | .ok _ s => s
  | .error _ s => s

theorem ok_finish {r : EStateM.Result Fault Sched Unit} (h : r matches .ok _ _) :
    r = .ok () (finish r) := by
  cases r with
  | ok a s => rfl
  | error e s => cases h

theorem fault_finish {r : EStateM.Result Fault Sched Unit} (h : r matches .error .nullDeref _) :
    r = .error .nullDeref (finish r) := by
  cases r with
  | ok a s => cases h
  | error e s =>
    cases e
    rfl

/-- The machine after `ops`. -/
def exampleSched (ops : List SchedOp) : Sched :=
  ops.foldl (fun s op => finish (runOp exampleMachine op s))
    (finish (schedInit exampleMachine id blankSched))

theorem exampleSched_initial : SchedInitial exampleMachine (exampleSched []) :=
  ⟨blankSched, id, rfl, ok_finish (by decide +kernel)⟩

/-- `pcpu_switch` with all registers zero. -/
def exampleSwitch : SchedOp := .switch .zero .zero

/-- An operation after `ops` that returns is a step. -/
theorem exampleSched_step (ops : List SchedOp) {op : SchedOp} (ht : op.Targets exampleMachine)
    (h : runOp exampleMachine op (exampleSched ops) matches .ok _ _) :
    SchedStep exampleMachine (exampleSched ops) op (exampleSched (ops ++ [op])) := by
  refine ⟨ht, (ok_finish h).trans ?_⟩
  unfold exampleSched
  rw [List.foldl_append]
  rfl

theorem exampleSched_start : SchedStep exampleMachine (exampleSched []) (.start 8192)
    (exampleSched [.start 8192]) :=
  exampleSched_step [] List.mem_cons_self (by decide +kernel)

theorem exampleSched_switch : SchedStep exampleMachine (exampleSched [.start 8192]) exampleSwitch
    (exampleSched [.start 8192, exampleSwitch]) :=
  exampleSched_step [.start 8192] trivial (by decide +kernel)

theorem exampleSched_hasReady : HasReady exampleMachine (exampleSched [.start 8192]) := by
  unfold HasReady
  decide +kernel

/-! ## Runs that unlink no unlinked node -/

/-- `pcpu_switch` is called only with a vCPU to switch to. -/
def Allowed (M : Machine) (s : Sched) : SchedOp → Prop
  | .switch _ _ => HasReady M s
  | _ => True

/-- No running vCPU is suspended or halted. -/
def SparesRunning (s : Sched) : SchedOp → Prop
  | .suspend v | .halt v => (s.vcpus v).state ≠ .running
  | _ => True

def SparingStep (M : Machine) (s : Sched) (op : SchedOp) (s' : Sched) : Prop :=
  Allowed M s op ∧ SparesRunning s op ∧ SchedStep M s op s'

theorem Queues.hasReady_iff (h : Queues M s.links qs) : HasReady M s ↔
    ∃ v rest, qs .ready = v :: rest := by
  have hring := h.ring .ready
  unfold HasReady
  constructor
  · intro hne
    cases hq : qs .ready with
    | nil =>
      rw [hq] at hring
      exact absurd hring.adj_nil.1 hne
    | cons v rest => exact ⟨v, rest, rfl⟩
  · rintro ⟨v, rest, hq⟩
    have hv := h.member .ready v (by rw [hq]; exact List.mem_cons_self)
    rw [hq, List.map_cons] at hring
    rw [hring.adj_cons.1]
    exact Machine.nodeOf_ne_head hv .ready

/-- The registers play no part. -/
theorem Sound.with_regs (h : Sound M s qs) (gpregs : Gpregs) (sysregs : SysregsEl1) :
    Sound M { s with frame := gpregs, sysregs := sysregs } qs :=
  ⟨h.queues, h.owner, h.ready, h.suspended, h.current, h.running, h.dels⟩

theorem runOp_switch (M : Machine) (s : Sched) (gpregs : Gpregs) (sysregs : SysregsEl1) :
    runOp M (.switch gpregs sysregs) s =
      pcpuSwitch M.pcpu { s with frame := gpregs, sysregs := sysregs } := rfl

/-- **Every operation that spares the running vCPU** returns and keeps `Sound`. -/
theorem Sound.step (h : Sound M s qs) {op : SchedOp} (ht : op.Targets M) (ha : Allowed M s op)
    (hs : SparesRunning s op) : ∃ s' qs', runOp M op s = .ok () s' ∧ Sound M s' qs' := by
  cases op with
  | start v =>
    by_cases hv : (s.vcpus v).state = .offline
    · obtain ⟨s', h1, h2, -⟩ := h.start ht hv
      exact ⟨s', _, h1, h2⟩
    · exact ⟨s, qs, vcpuStart_skip (Machine.ne_zero ht) hv, h⟩
  | suspend v => exact ⟨s, qs, vcpuSuspend_skip (Machine.ne_zero ht) hs, h⟩
  | resume v =>
    by_cases hv : (s.vcpus v).state = .suspended
    · obtain ⟨s', qs', h1, h2, -⟩ := h.resume ht hv
      exact ⟨s', qs', h1, h2⟩
    · exact ⟨s, qs, vcpuResume_skip (Machine.ne_zero ht) hv, h⟩
  | halt v => exact ⟨s, qs, vcpuHalt_skip (Machine.ne_zero ht) hs, h⟩
  | switch gpregs sysregs =>
    obtain ⟨v, rest, hready⟩ := h.queues.hasReady_iff.mp ha
    obtain ⟨L, h1, h2, -⟩ := (h.with_regs gpregs sysregs).switch hready
    exact ⟨_, _, h1, h2⟩

/-- An operation that does not, faults on the `NULL` links of the vCPU's node. -/
theorem Sound.unlinks_unlinked (h : Sound M s qs) {op : SchedOp} (ht : op.Targets M)
    (hs : ¬ SparesRunning s op) :
    ∃ s' d, runOp M op s = .error .nullDeref s' ∧ d ∈ s'.dels ∧ ¬ LinkedAt d.2 d.1 := by
  have hnull : ∀ v ∈ M.vcpus, (s.vcpus v).state = .running →
      listDel (nodeOf v) s.links = none ∧ ¬ LinkedAt s.links (nodeOf v) := by
    intro v hv hr
    have hlinks := (h.running v hv hr).2
    exact ⟨listDel_null (by rw [hlinks]), fun hl => hl.1 (by rw [hlinks])⟩
  cases op with
  | suspend v =>
    have hr : (s.vcpus v).state = .running := not_not.mp hs
    obtain ⟨s', h1, h2⟩ := vcpuSuspend_fault (Machine.ne_zero ht) hr (hnull v ht hr).1
    exact ⟨s', _, h1, h2 ▸ List.mem_cons_self, (hnull v ht hr).2⟩
  | halt v =>
    have hr : (s.vcpus v).state = .running := not_not.mp hs
    obtain ⟨s', h1, h2⟩ := vcpuHalt_fault (Machine.ne_zero ht) hr (hnull v ht hr).1
    exact ⟨s', _, h1, h2 ▸ List.mem_cons_self, (hnull v ht hr).2⟩
  | start v => exact absurd trivial hs
  | resume v => exact absurd trivial hs
  | switch gpregs sysregs => exact absurd trivial hs

theorem sparing_run_sound {s₀ : Sched} {ops : List SchedOp} (h0 : SchedInitial M s₀)
    (hrun : Runs (SparingStep M) s₀ ops s) : ∃ qs, Sound M s qs := by
  refine hrun.invariant (I := fun s => ∃ qs, Sound M s qs) ?_ ⟨_, (schedInitial_sound h0).1⟩
  rintro s op s' ⟨qs, h⟩ ⟨ha, hs, ht, he⟩
  obtain ⟨t, qs', h1, h2⟩ := h.step ht ha hs
  rw [he] at h1
  injection h1 with _ h1
  exact ⟨qs', h1 ▸ h2⟩

/-- **No unlinked node is unlinked, as long as running vCPUs are spared.**  In every run that
suspends and halts no running vCPU, every `list_del` was of a linked node; and the next operation
returns without unlinking an unlinked node exactly if it spares them too. -/
theorem list_del_linked_iff (M : Machine) (s₀ s : Sched) (ops : List SchedOp)
    (h0 : SchedInitial M s₀) (hrun : Runs (SparingStep M) s₀ ops s) :
    (∀ d ∈ s.dels, LinkedAt d.2 d.1) ∧
    ∀ op : SchedOp, op.Targets M → Allowed M s op →
      ((∃ s', runOp M op s = .ok () s' ∧ ∀ d ∈ s'.dels, LinkedAt d.2 d.1) ↔
        SparesRunning s op) := by
  obtain ⟨qs, h⟩ := sparing_run_sound h0 hrun
  refine ⟨h.dels, fun op ht ha => ⟨?_, fun hs => ?_⟩⟩
  · rintro ⟨s', he, -⟩
    by_contra hs
    obtain ⟨t, d, h1, -⟩ := h.unlinks_unlinked ht hs
    rw [he] at h1
    cases h1
  · obtain ⟨s', qs', h1, h2⟩ := h.step ht ha hs
    exact ⟨s', h1, h2.dels⟩

theorem list_del_linked_example :
    (exampleSched [.start 8192, exampleSwitch]).dels.length = 1 ∧
      ∀ d ∈ (exampleSched [.start 8192, exampleSwitch]).dels, LinkedAt d.2 d.1 :=
  ⟨by decide +kernel,
    (list_del_linked_iff exampleMachine _ _ [.start 8192, exampleSwitch] exampleSched_initial
      (.cons ⟨trivial, trivial, exampleSched_start⟩
        (.cons ⟨exampleSched_hasReady, trivial, exampleSched_switch⟩ (.nil _)))).1⟩

/-- Suspending the vCPU that `pcpu_switch` has just made current unlinks its unlinked node. -/
theorem suspend_unlinks_unlinked :
    ∃ s₀ s s', SchedInitial exampleMachine s₀ ∧
      Runs (fun s op s' => Allowed exampleMachine s op ∧ SchedStep exampleMachine s op s') s₀
        [.start 8192, exampleSwitch] s ∧
      runOp exampleMachine (.suspend 8192) s = .error .nullDeref s' ∧
        ∃ d ∈ s'.dels, ¬ LinkedAt d.2 d.1 := by
  have hruns : Runs (fun s op s' => Allowed exampleMachine s op ∧ SchedStep exampleMachine s op s')
    (exampleSched [])
      [.start 8192, exampleSwitch] (exampleSched [.start 8192, exampleSwitch]) :=
    .cons ⟨trivial, exampleSched_start⟩
      (.cons ⟨exampleSched_hasReady, exampleSched_switch⟩ (.nil _))
  refine ⟨_, _, _, exampleSched_initial, hruns, fault_finish (by decide +kernel), ?_⟩
  decide +kernel

/-! ## Runs that keep states and queues in step -/

/-- No running vCPU is suspended or halted, and `pcpu_switch` is called with no current vCPU and a
vCPU to switch to. -/
def KeepsStep (M : Machine) (s : Sched) : SchedOp → Prop
  | .suspend v | .halt v => (s.vcpus v).state ≠ .running
  | .switch _ _ => s.current M.pcpu = 0 ∧ HasReady M s
  | _ => True

def KeepingStep (M : Machine) (s : Sched) (op : SchedOp) (s' : Sched) : Prop :=
  KeepsStep M s op ∧ SchedStep M s op s'

/-- `Sound`, and no READY vCPU is missing from the ready list. -/
def Tracked (M : Machine) (s : Sched) (qs : Queue → List Nat) : Prop :=
  Sound M s qs ∧ ∀ v ∈ M.vcpus, (s.vcpus v).state = .ready → v ∈ qs .ready

theorem Tracked.consistent (h : Tracked M s qs) : Consistent M s qs :=
  ⟨h.1.queues, fun v hv => ⟨h.2 v hv, h.1.ready v⟩, h.1.suspended, fun v hv hr =>
    (h.1.running v hv hr).1⟩

/-- A vCPU made READY and queued keeps the READY vCPUs queued. -/
theorem Tracked.makeReady (h : Tracked M s qs) {qs' : Queue → List Nat} (hs : Sound M s' qs')
    (hready : qs' .ready = qs .ready ++ [v])
    (hvcpus : s'.vcpus = Function.update s.vcpus v { s.vcpus v with state := .ready }) :
    Tracked M s' qs' := by
  refine ⟨hs, ?_⟩
  intro w hw hr
  rw [hready, List.mem_append, List.mem_singleton]
  by_cases hwv : w = v
  · exact Or.inr hwv
  · rw [hvcpus, Function.update_of_ne hwv] at hr
    exact Or.inl (h.2 w hw hr)

theorem Tracked.step (h : Tracked M s qs) {op : SchedOp} (ht : op.Targets M)
    (hk : KeepsStep M s op) :
    ∃ s' qs', runOp M op s = .ok () s' ∧ Tracked M s' qs' := by
  cases op with
  | start v =>
    by_cases hv : (s.vcpus v).state = .offline
    · obtain ⟨s', h1, h2, -, h3⟩ := h.1.start ht hv
      exact ⟨s', _, h1, h.makeReady h2 (Function.update_self _ _ _) h3⟩
    · exact ⟨s, qs, vcpuStart_skip (Machine.ne_zero ht) hv, h⟩
  | suspend v => exact ⟨s, qs, vcpuSuspend_skip (Machine.ne_zero ht) hk, h⟩
  | resume v =>
    by_cases hv : (s.vcpus v).state = .suspended
    · obtain ⟨s', qs', h1, h2, h3, -, h4⟩ := h.1.resume ht hv
      exact ⟨s', qs', h1, h.makeReady h2 h3 h4⟩
    · exact ⟨s, qs, vcpuResume_skip (Machine.ne_zero ht) hv, h⟩
  | halt v => exact ⟨s, qs, vcpuHalt_skip (Machine.ne_zero ht) hk, h⟩
  | switch gpregs sysregs =>
    obtain ⟨hcur, hready⟩ := hk
    obtain ⟨v, rest, hq⟩ := h.1.queues.hasReady_iff.mp hready
    obtain ⟨L, h1, h2, -⟩ := (h.1.with_regs gpregs sysregs).switch hq
    refine ⟨_, _, h1, h2, ?_⟩
    intro w hw hr
    -- nobody was switched out
    have hr :
      (switchedVcpus { s with frame := gpregs, sysregs := sysregs } (s.current M.pcpu) v w).state =
        .ready := hr
    have hwv : w ≠ v := by
      rintro rfl
      rw [switchedVcpus_self] at hr
      cases hr
    rw [hcur, switchedVcpus_of_ne hwv (Machine.ne_zero hw)] at hr
    have hmem := h.2 w hw hr
    rw [hq] at hmem
    rw [Function.update_self]
    exact (List.mem_cons.mp hmem).resolve_left hwv

/-- A queue's head is linked. -/
theorem Queues.head_ne_null (h : Queues M s.links qs) (q : Queue) :
    s.links (M.head q) ≠ ⟨0, 0⟩ := by
  intro e
  have hl := ring_linkedAt (h.ring q) (h.nonzero q) List.mem_cons_self
  exact hl.1 (by rw [e])

/-- **Every other operation breaks something**: it faults, it leaves a READY vCPU on no list, or it
unlinks the head of the ready list. -/
theorem Tracked.breaks (h : Tracked M s qs) {op : SchedOp} (ht : op.Targets M)
    (hk : ¬ KeepsStep M s op)
    (he : runOp M op s = .ok () s') : ¬ ∃ qs', Consistent M s' qs' := by
  have hfault : ¬ SparesRunning s op → False := by
    intro hs
    obtain ⟨t, d, h1, -⟩ := h.1.unlinks_unlinked ht hs
    rw [he] at h1
    cases h1
  rintro ⟨qs', hc⟩
  cases op with
  | start v => exact hk trivial
  | suspend v => exact hfault hk
  | resume v => exact hk trivial
  | halt v => exact hfault hk
  | switch gpregs sysregs =>
    rw [runOp_switch] at he
    by_cases hready : HasReady M s
    · -- a vCPU was current: it is READY now, and its node is on no list
      have hcur : s.current M.pcpu ≠ 0 := fun e => hk ⟨e, hready⟩
      obtain ⟨hcv, hcr⟩ := h.1.current hcur
      obtain ⟨v, rest, hq⟩ := h.1.queues.hasReady_iff.mp hready
      obtain ⟨L, h1, -, hframe⟩ := (h.1.with_regs gpregs sysregs).switch hq
      rw [he] at h1
      have hs' := (EStateM.Result.ok.inj h1).2
      have hne : s.current M.pcpu ≠ v := by
        intro e
        rw [e, h.1.ready v (by rw [hq]; exact List.mem_cons_self)] at hcr
        cases hcr
      have hstate : (s'.vcpus (s.current M.pcpu)).state = .ready := by
        rw [hs']
        exact switchedVcpus_current hcur hne
      have hlinks : s'.links (nodeOf (s.current M.pcpu)) = ⟨0, 0⟩ := by
        rw [hs', ← (h.1.running _ hcv hcr).2]
        exact hframe _ hcv (h.1.unqueued hcv (by simp [hcr]) (by simp [hcr]))
      have hl := hc.queues.linkedAt ((hc.ready _ hcv).mp hstate)
      exact hl.1 (by rw [hlinks])
    · -- the ready list is empty
      have hnil : qs .ready = [] := by
        cases hq : qs .ready with
        | nil => rfl
        | cons v rest => exact absurd (h.1.queues.hasReady_iff.mpr ⟨v, rest, hq⟩) hready
      have hring := h.1.queues.ring .ready
      rw [hnil] at hring
      unfold pcpuSwitch at he
      rw [bind_run switchOut_run] at he
      obtain ⟨hnull, -⟩ := switchIn_empty (M.head .ready) rfl (M.head_ne_zero .ready) he
        hring.adj_nil.1 hring.adj_nil.2
      exact hc.queues.head_ne_null .ready hnull

theorem keeping_run_tracked {s₀ : Sched} {ops : List SchedOp} (h0 : SchedInitial M s₀)
    (hrun : Runs (KeepingStep M) s₀ ops s) : ∃ qs, Tracked M s qs := by
  obtain ⟨hsound, -, hoff⟩ := schedInitial_sound h0
  have hstart : Tracked M s₀ fun _ => [] := by
    refine ⟨hsound, ?_⟩
    intro v hv hr
    rw [hoff v hv] at hr
    cases hr
  refine hrun.invariant (I := fun s => ∃ qs, Tracked M s qs) ?_ ⟨_, hstart⟩
  rintro s op s' ⟨qs, h⟩ ⟨hk, ht, he⟩
  obtain ⟨t, qs', h1, h2⟩ := h.step ht hk
  rw [he] at h1
  exact ⟨qs', (EStateM.Result.ok.inj h1).2 ▸ h2⟩

/-- **States and queues stay in step, as long as nothing is switched out.**  In every run that keeps
to `KeepsStep` the states, the two lists and `current_vcpu` agree; and the next operation returns
with all of them in agreement exactly if it keeps to it too. -/
theorem sched_consistent_iff (M : Machine) (s₀ s : Sched) (ops : List SchedOp)
    (h0 : SchedInitial M s₀) (hrun : Runs (KeepingStep M) s₀ ops s) :
    (∃ qs, Consistent M s qs) ∧
    ∀ op : SchedOp, op.Targets M →
      ((∃ s', runOp M op s = .ok () s' ∧ ∃ qs, Consistent M s' qs) ↔ KeepsStep M s op) := by
  obtain ⟨qs, h⟩ := keeping_run_tracked h0 hrun
  refine ⟨⟨qs, h.consistent⟩, fun op ht => ⟨?_, fun hk => ?_⟩⟩
  · rintro ⟨s', he, hc⟩
    by_contra hk
    exact h.breaks ht hk he hc
  · obtain ⟨s', qs', h1, h2⟩ := h.step ht hk
    exact ⟨s', h1, qs', h2.consistent⟩

theorem sched_consistent_example :
    ∃ qs, Consistent exampleMachine (exampleSched [.start 8192, exampleSwitch]) qs :=
  (sched_consistent_iff exampleMachine _ _ [.start 8192, exampleSwitch] exampleSched_initial
    (.cons ⟨trivial, exampleSched_start⟩
      (.cons ⟨⟨by decide +kernel, exampleSched_hasReady⟩, exampleSched_switch⟩ (.nil _)))).1

/-- Two vCPUs are started and switched to one after the other: the first is READY and on no list. -/
theorem switch_loses_vcpu :
    ∃ s₀ s, SchedInitial exampleMachine s₀ ∧
      Runs (SchedStep exampleMachine) s₀ [.start 8192, .start 12288, exampleSwitch,
        exampleSwitch] s ∧
      ¬ ∃ qs, Consistent exampleMachine s qs := by
  have h8 : 8192 ∈ exampleMachine.vcpus := List.mem_cons_self
  have h12 : 12288 ∈ exampleMachine.vcpus := List.mem_cons_of_mem _ List.mem_cons_self
  have hrun : Runs (SchedStep exampleMachine) (exampleSched [])
      [.start 8192, .start 12288, exampleSwitch, exampleSwitch]
      (exampleSched [.start 8192, .start 12288, exampleSwitch, exampleSwitch]) :=
    .cons exampleSched_start (.cons (exampleSched_step [.start 8192] h12 (by decide +kernel))
      (.cons (exampleSched_step [.start 8192, .start 12288] trivial (by decide +kernel))
        (.cons (exampleSched_step [.start 8192, .start 12288,
          exampleSwitch] trivial (by decide +kernel)) (.nil _))))
  refine ⟨_, _, exampleSched_initial, hrun, ?_⟩
  rintro ⟨qs, hc⟩
  have hstate :
    ((exampleSched [.start 8192, .start 12288, exampleSwitch, exampleSwitch]).vcpus 8192).state =
      .ready := by decide +kernel
  have hlinks : ((exampleSched [.start 8192, .start 12288, exampleSwitch, exampleSwitch]).links
      (nodeOf 8192)).prev = 0 := by decide +kernel
  exact (hc.queues.linkedAt ((hc.ready 8192 h8).mp hstate)).1 hlinks

end ZHyper
