import ZHyper.Sched.Queues

/-!
# What the scheduler's functions do to the state

One lemma per function and case: the state it leaves, written out, given what it
finds.  The halves of `pcpu_switch` are `switchOut_run`, in which the outgoing vCPU
ends READY and is never queued, since `vcpu_save_context` has written its state
before it is tested, and `switchIn_run`.
-/

namespace ZHyper

open LowLevel

variable {s s' : Sched} {v pcpu : Nat} {L : Links}

/-! ## Accesses -/

theorem loadVcpu_run (hv : v ≠ 0) : loadVcpu v s = .ok (s.vcpus v) s := by
  unfold loadVcpu
  rw [if_neg hv]
  rfl

theorem modifyVcpu_run (hv : v ≠ 0) (f : Vcpu → Vcpu) :
    modifyVcpu v f s = .ok () { s with vcpus := Function.update s.vcpus v (f (s.vcpus v)) } := by
  unfold modifyVcpu
  rw [if_neg hv]
  rfl

theorem setState_run (hv : v ≠ 0) (state : VcpuState) :
    setState v state s =
      .ok () { s with vcpus := Function.update s.vcpus v { s.vcpus v with state } } :=
  modifyVcpu_run hv _

theorem onLinks_run {f : Links → Option Links} (h : f s.links = some L) :
    onLinks f s = .ok () { s with links := L } := by
  simp only [onLinks, h]

theorem listNext_run (hp : v ≠ 0) : listNext v s = .ok (s.links v).next s := by
  simp only [listNext, loadNext, if_neg hp]

theorem schedListDel_run (h : listDel v s.links = some L) :
    schedListDel v s = .ok () { s with links := L, dels := (v, s.links) :: s.dels } := by
  show onLinks (listDel v) { s with dels := (v, s.links) :: s.dels } = _
  exact onLinks_run h

theorem schedListDel_fault (h : listDel v s.links = none) :
    schedListDel v s = .error .nullDeref { s with dels := (v, s.links) :: s.dels } := by
  show onLinks (listDel v) { s with dels := (v, s.links) :: s.dels } = _
  simp only [onLinks, h]

/-! ## Contexts -/

/-- The vCPUs once `c` is saved; `0` is no vCPU. -/
def savedVcpus (s : Sched) (c : Nat) : Nat → Vcpu :=
  if c = 0 then s.vcpus
  else Function.update s.vcpus c
    { s.vcpus c with gpregs := s.frame, sysregsEl1 := s.sysregs, state := .ready }

theorem vcpuSaveContext_run (hv : v ≠ 0) :
    vcpuSaveContext v s = .ok () { s with vcpus := savedVcpus s v } := by
  have hget : (get : SchedM Sched) s = .ok s s := rfl
  unfold vcpuSaveContext
  rw [bind_run hget, bind_run (modifyVcpu_run hv _), bind_run (modifyVcpu_run hv _),
    setState_run hv]
  simp only [savedVcpus, if_neg hv, Function.update_self, Function.update_idem]

theorem vcpuRestoreContext_run (hv : v ≠ 0) :
    vcpuRestoreContext v s = .ok () { s with
      vcpus := Function.update s.vcpus v { s.vcpus v with state := .running }
      sysregs := (s.vcpus v).sysregsEl1
      frame := (s.vcpus v).gpregs } := by
  unfold vcpuRestoreContext
  rw [bind_run (setState_run hv _), bind_run (loadVcpu_run hv)]
  simp only [Function.update_self]
  rfl

theorem savedVcpus_self (hv : v ≠ 0) : (savedVcpus s v v).state = .ready := by
  simp only [savedVcpus, if_neg hv, Function.update_self]

theorem savedVcpus_of_ne {c : Nat} (hv : v ≠ c) : savedVcpus s c v = s.vcpus v := by
  unfold savedVcpus
  split
  · rfl
  · exact Function.update_of_ne hv _ _

theorem savedVcpus_pcpu (s : Sched) (c w : Nat) : (savedVcpus s c w).pcpu = (s.vcpus w).pcpu := by
  by_cases hw : w = c
  · unfold savedVcpus
    split
    · rfl
    · rw [hw, Function.update_self]
  · rw [savedVcpus_of_ne hw]

/-- The vCPUs once `c` is saved and `v` runs. -/
def switchedVcpus (s : Sched) (c v : Nat) : Nat → Vcpu :=
  Function.update (savedVcpus s c) v { savedVcpus s c v with state := .running }

theorem switchedVcpus_self (s : Sched) (c v : Nat) : (switchedVcpus s c v v).state = .running := by
  simp only [switchedVcpus, Function.update_self]

theorem switchedVcpus_current {c : Nat} (hc : c ≠ 0) (hcv : c ≠ v) :
    (switchedVcpus s c v c).state = .ready := by
  rw [switchedVcpus, Function.update_of_ne hcv, savedVcpus_self hc]

theorem switchedVcpus_of_ne {c w : Nat} (hwv : w ≠ v) (hwc : w ≠ c) :
    switchedVcpus s c v w = s.vcpus w := by
  rw [switchedVcpus, Function.update_of_ne hwv, savedVcpus_of_ne hwc]

theorem switchedVcpus_pcpu (s : Sched) (c v w : Nat) :
    (switchedVcpus s c v w).pcpu = (s.vcpus w).pcpu := by
  by_cases hw : w = v
  · rw [hw, switchedVcpus, Function.update_self]
    exact savedVcpus_pcpu s c v
  · rw [switchedVcpus, Function.update_of_ne hw, savedVcpus_pcpu]

/-! ## `pcpu_switch` -/

/-- The state after a switch to `v`, with `L` the links without its node. -/
def switchedTo (s : Sched) (pcpu v : Nat) (L : Links) : Sched where
  links := L
  vcpus := switchedVcpus s (s.current pcpu) v
  current := Function.update s.current pcpu v
  sysregs := (savedVcpus s (s.current pcpu) v).sysregsEl1
  frame := (savedVcpus s (s.current pcpu) v).gpregs
  dels := (nodeOf v, s.links) :: s.dels

theorem switchedTo_current (s : Sched) (pcpu v : Nat) (L : Links) :
    (switchedTo s pcpu v L).current pcpu = v := Function.update_self _ _ _

/-- **Whatever the current vCPU was, it is READY now and on no new list.** -/
theorem switchOut_run :
    switchOut pcpu s = .ok () { s with vcpus := savedVcpus s (s.current pcpu) } := by
  have hget : loadCurrent pcpu s = .ok (s.current pcpu) s := rfl
  unfold switchOut
  rw [bind_run hget]
  by_cases hc : s.current pcpu = 0
  · rw [if_pos hc, savedVcpus, if_pos hc]
    rfl
  · have hready := savedVcpus_self (s := s) hc
    rw [if_neg hc, bind_run (vcpuSaveContext_run hc), bind_run (loadVcpu_run hc), if_neg]
    · rfl
    · rw [hready]
      decide

theorem switchIn_run (head : Nat) {first : Nat} (hhead : readyVcpus pcpu = head) (h0 : head ≠ 0)
    (hfirst : (s.links head).next = first) (hf0 : first ≠ 0) (hv : listEntry first nodeOffset = v)
    (hv0 : v ≠ 0) (hdel : listDel (nodeOf v) s.links = some L) :
    switchIn pcpu s = .ok () { s with
      links := L
      vcpus := Function.update s.vcpus v { s.vcpus v with state := .running }
      current := Function.update s.current pcpu v
      sysregs := (s.vcpus v).sysregsEl1
      frame := (s.vcpus v).gpregs
      dels := (nodeOf v, s.links) :: s.dels } := by
  have hnext : listNext (readyVcpus pcpu) s = .ok first s := by
    rw [hhead, listNext_run h0, hfirst]
  have hstore : ∀ t : Sched, storeCurrent pcpu v t =
      .ok () { t with current := Function.update t.current pcpu v } := fun _ => rfl
  unfold switchIn
  rw [bind_run hnext, if_neg hf0, bind_run hnext]
  dsimp only
  rw [hv, bind_run (schedListDel_run hdel), bind_run (setState_run hv0 _), bind_run (hstore _),
    vcpuRestoreContext_run hv0]
  simp only [Function.update_self, Function.update_idem]

/-- **On an empty ready list** the switch takes the list head for the node of a vCPU: if it returns
at all, the head is unlinked and that vCPU is the current one. -/
theorem switchIn_empty (head : Nat) (hhead : readyVcpus pcpu = head) (h0 : head ≠ 0)
    (h : switchIn pcpu s = .ok () s') (hnext : (s.links head).next = head)
    (hprev : (s.links head).prev = head) :
    s'.links head = ⟨0, 0⟩ ∧ s'.current pcpu = listEntry head nodeOffset ∧
      listEntry head nodeOffset ≠ 0 := by
  have hlt : head < 2 ^ 64 := hhead ▸ Nat.mod_lt _ (by decide)
  have hnode : nodeOf (listEntry head nodeOffset) = head := by
    unfold nodeOf listEntry nodeOffset
    omega
  have hdel := listDel_eq h0 hprev hnext h0 h0
  by_cases hv : listEntry head nodeOffset = 0
  · -- the vCPU the code computes is `NULL`
    have hload : listNext (readyVcpus pcpu) s = .ok head s := by
      rw [hhead, listNext_run h0, hnext]
    rw [hv] at hnode
    unfold switchIn at h
    rw [bind_run hload, if_neg h0, bind_run hload] at h
    rw [hv, hnode, bind_run (schedListDel_run hdel)] at h
    cases h
  · have hdel' : listDel (nodeOf (listEntry head nodeOffset)) s.links =
        some (unlinkBetween s.links head head head 0) := by
      rw [hnode, hdel]
    rw [switchIn_run head hhead h0 hnext h0 rfl hv hdel'] at h
    rw [← (EStateM.Result.ok.inj h).2]
    exact ⟨unlinkBetween_self, Function.update_self _ _ _, hv⟩

/-! ## The other operations -/

theorem vcpuStart_run (hv : v ≠ 0) (hs : (s.vcpus v).state = .offline)
    (hadd : listAddTail (nodeOf v) (readyVcpus (s.vcpus v).pcpu) s.links = some L) :
    vcpuStart v s = .ok () { s with
      links := L
      vcpus := Function.update s.vcpus v { s.vcpus v with state := .ready } } := by
  unfold vcpuStart
  rw [bind_run (loadVcpu_run hv), if_neg (fun h => h hs), bind_run (setState_run hv _)]
  exact onLinks_run hadd

theorem vcpuStart_skip (hv : v ≠ 0) (hs : (s.vcpus v).state ≠ .offline) :
    vcpuStart v s = .ok () s := by
  unfold vcpuStart
  rw [bind_run (loadVcpu_run hv), if_pos hs]
  rfl

theorem vcpuResume_run (hv : v ≠ 0) (hs : (s.vcpus v).state = .suspended) {L' : Links}
    (hdel : listDel (nodeOf v) s.links = some L)
    (hadd : listAddTail (nodeOf v) (readyVcpus (s.vcpus v).pcpu) L = some L') :
    vcpuResume v s = .ok () { s with
      links := L'
      vcpus := Function.update s.vcpus v { s.vcpus v with state := .ready }
      dels := (nodeOf v, s.links) :: s.dels } := by
  have hdel' : schedListDel (nodeOf v)
      { s with vcpus := Function.update s.vcpus v { s.vcpus v with state := .ready } } = .ok () _ :=
    schedListDel_run hdel
  unfold vcpuResume
  rw [bind_run (loadVcpu_run hv), if_neg (fun h => h hs), bind_run (setState_run hv _),
    bind_run hdel']
  exact onLinks_run hadd

theorem vcpuResume_skip (hv : v ≠ 0) (hs : (s.vcpus v).state ≠ .suspended) :
    vcpuResume v s = .ok () s := by
  unfold vcpuResume
  rw [bind_run (loadVcpu_run hv), if_pos hs]
  rfl

theorem vcpuSuspend_skip (hv : v ≠ 0) (hs : (s.vcpus v).state ≠ .running) :
    vcpuSuspend v s = .ok () s := by
  unfold vcpuSuspend
  rw [bind_run (loadVcpu_run hv), if_pos hs]
  rfl

theorem vcpuHalt_skip (hv : v ≠ 0) (hs : (s.vcpus v).state ≠ .running) :
    vcpuHalt v s = .ok () s := by
  unfold vcpuHalt
  rw [bind_run (loadVcpu_run hv), if_pos hs]
  rfl

/-- Suspending a running vCPU whose node is on no list. -/
theorem vcpuSuspend_fault (hv : v ≠ 0) (hs : (s.vcpus v).state = .running)
    (hdel : listDel (nodeOf v) s.links = none) :
    ∃ s', vcpuSuspend v s = .error .nullDeref s' ∧ s'.dels = (nodeOf v, s.links) :: s.dels := by
  have hdel' : schedListDel (nodeOf v)
      { s with vcpus := Function.update s.vcpus v { s.vcpus v with state := .suspended } } =
        .error _ _ :=
    schedListDel_fault hdel
  unfold vcpuSuspend
  rw [bind_run (loadVcpu_run hv), if_neg (fun h => h hs), bind_run (setState_run hv _),
    bind_fault hdel']
  exact ⟨_, rfl, rfl⟩

/-- Halting one. -/
theorem vcpuHalt_fault (hv : v ≠ 0) (hs : (s.vcpus v).state = .running)
    (hdel : listDel (nodeOf v) s.links = none) :
    ∃ s', vcpuHalt v s = .error .nullDeref s' ∧ s'.dels = (nodeOf v, s.links) :: s.dels := by
  have hdel' : schedListDel (nodeOf v)
      { s with vcpus := Function.update s.vcpus v { s.vcpus v with state := .halted } } =
        .error _ _ :=
    schedListDel_fault hdel
  unfold vcpuHalt
  rw [bind_run (loadVcpu_run hv), if_neg (fun h => h hs), bind_run (setState_run hv _), hdel']
  exact ⟨_, rfl, rfl⟩

/-! ## On the queues of a machine -/

variable {M : Machine} {qs : Queue → List Nat}

/-- **`pcpu_switch`** with a vCPU on the ready list: the first one runs, and the list goes on with
the second. -/
theorem pcpuSwitch_run (h : Queues M s.links qs) {rest : List Nat}
    (hready : qs .ready = v :: rest) :
    ∃ L, pcpuSwitch M.pcpu s = .ok () (switchedTo s M.pcpu v L) ∧
      Queues M L (Function.update qs .ready rest) ∧ L (nodeOf v) = ⟨0, 0⟩ ∧
      ∀ w ∈ M.vcpus, (∀ q, w ∉ qs q) → L (nodeOf w) = s.links (nodeOf w) := by
  have hv : v ∈ M.vcpus := h.member .ready v (by rw [hready]; exact List.mem_cons_self)
  have hsplit : qs .ready = [] ++ v :: rest := hready
  obtain ⟨L, hdel, hqueues, hnull, hframe⟩ := h.del hsplit
  have hring := h.ring .ready
  rw [hready, List.map_cons] at hring
  refine ⟨L, ?_, hqueues, hnull, hframe⟩
  unfold pcpuSwitch
  rw [bind_run switchOut_run]
  exact switchIn_run (M.head .ready) rfl (M.head_ne_zero .ready) hring.adj_cons.1
    (Machine.nodeOf_ne_zero hv) (Machine.listEntry_nodeOf hv) (Machine.ne_zero hv) hdel

end ZHyper
