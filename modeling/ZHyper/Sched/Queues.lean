import ZHyper.Sched.Model

/-!
# The queues of a CPU

A `Machine` is a `struct pcpu` and the `struct vcpu`s that belong to it: separate C
objects, so their list heads and nodes are distinct addresses.  `Queues M L qs`: in
the links `L` the ready list and the suspend list of the CPU are rings through the
nodes of the vCPUs `qs .ready` and `qs .suspend`, and no vCPU is on both.

What the operations of `list.h` do to the queues is `Queues.addTail` and
`Queues.del`; what the functions of `vcpu.c` do to the state, given what they find
in the links, are the `_run` lemmas.
-/

namespace ZHyper

open LowLevel

structure Machine where
  pcpu : Nat
  vcpus : List Nat
  pcpu_pos : 0 < pcpu
  pcpu_fits : pcpu + pcpuSizeof < 2 ^ 64
  vcpu_pos : ∀ v ∈ vcpus, 0 < v
  vcpu_fits : ∀ v ∈ vcpus, v + vcpuSizeof < 2 ^ 64
  vcpus_apart : vcpus.Pairwise fun v w => v + vcpuSizeof ≤ w ∨ w + vcpuSizeof ≤ v
  pcpu_apart : ∀ v ∈ vcpus, v + vcpuSizeof ≤ pcpu ∨ pcpu + pcpuSizeof ≤ v

inductive Queue where
  | ready
  | suspend
deriving DecidableEq

namespace Machine

variable (M : Machine) {v w : Nat}

def head : Queue → Nat
  | .ready => readyVcpus M.pcpu
  | .suspend => suspendVcpus M.pcpu

theorem head_eq (q : Queue) :
    M.head q = M.pcpu + (match q with | .ready => 8 | .suspend => 24) := by
  have := M.pcpu_fits
  unfold pcpuSizeof at this
  cases q
  · exact Nat.mod_eq_of_lt (by omega)
  · exact Nat.mod_eq_of_lt (by omega)

theorem head_ne_zero (q : Queue) : M.head q ≠ 0 := by
  have := M.pcpu_pos
  rw [head_eq]
  omega

theorem head_injective {q q' : Queue} (h : M.head q = M.head q') : q = q' := by
  rw [head_eq, head_eq] at h
  cases q <;> cases q' <;> simp at h ⊢

variable {M}

theorem nodeOf_eq (hv : v ∈ M.vcpus) : nodeOf v = v + nodeOffset := by
  have := M.vcpu_fits v hv
  unfold vcpuSizeof at this
  exact Nat.mod_eq_of_lt (by unfold nodeOffset; omega)

theorem nodeOf_ne_zero (hv : v ∈ M.vcpus) : nodeOf v ≠ 0 := by
  rw [nodeOf_eq hv]
  exact Nat.succ_ne_zero _

theorem nodeOf_ne_head (hv : v ∈ M.vcpus) (q : Queue) : nodeOf v ≠ M.head q := by
  have := M.pcpu_apart v hv
  rw [nodeOf_eq hv, head_eq]
  unfold vcpuSizeof pcpuSizeof at this
  unfold nodeOffset
  cases q
  · dsimp only
    omega
  · dsimp only
    omega

theorem nodeOf_inj (hv : v ∈ M.vcpus) (hw : w ∈ M.vcpus) (h : nodeOf v = nodeOf w) : v = w := by
  rw [nodeOf_eq hv, nodeOf_eq hw] at h
  omega

theorem listEntry_nodeOf (hv : v ∈ M.vcpus) : listEntry (nodeOf v) nodeOffset = v := by
  have := M.vcpu_fits v hv
  unfold vcpuSizeof at this
  rw [nodeOf_eq hv]
  unfold listEntry nodeOffset
  omega

theorem ne_zero (hv : v ∈ M.vcpus) : v ≠ 0 := by
  have := M.vcpu_pos v hv
  omega

end Machine

structure Queues (M : Machine) (L : Links) (qs : Queue → List Nat) : Prop where
  ring : ∀ q, NodeRing L (M.head q) ((qs q).map nodeOf)
  member : ∀ q, ∀ v ∈ qs q, v ∈ M.vcpus
  disjoint : ∀ q q' v, v ∈ qs q → v ∈ qs q' → q = q'

namespace Queues

variable {M : Machine} {L L' : Links} {qs : Queue → List Nat} {q q' : Queue} {v w : Nat}

theorem nonzero (h : Queues M L qs) (q : Queue) : ∀ x ∈ M.head q :: (qs q).map nodeOf, x ≠ 0 := by
  intro x hx
  rcases List.mem_cons.mp hx with rfl | hx
  · exact M.head_ne_zero q
  · obtain ⟨v, hv, rfl⟩ := List.mem_map.mp hx
    exact Machine.nodeOf_ne_zero (h.member q v hv)

theorem nodeOf_mem (h : Queues M L qs) (hv : v ∈ M.vcpus) :
    nodeOf v ∈ M.head q :: (qs q).map nodeOf ↔ v ∈ qs q := by
  constructor
  · intro hm
    rcases List.mem_cons.mp hm with he | hm
    · exact absurd he (Machine.nodeOf_ne_head hv q)
    · obtain ⟨w, hw, he⟩ := List.mem_map.mp hm
      rwa [← Machine.nodeOf_inj (h.member q w hw) hv he]
  · intro hm
    exact List.mem_cons_of_mem _ (List.mem_map_of_mem hm)

theorem linkedAt (h : Queues M L qs) (hv : v ∈ qs q) : LinkedAt L (nodeOf v) :=
  ring_linkedAt (h.ring q) (h.nonzero q) ((h.nodeOf_mem (h.member q v hv)).mpr hv)

/-- The nodes of two queues are distinct. -/
theorem apart (h : Queues M L qs) (hq : q' ≠ q) {x : Nat}
    (hx : x ∈ M.head q' :: (qs q').map nodeOf) :
    x ∉ M.head q :: (qs q).map nodeOf := by
  rcases List.mem_cons.mp hx with rfl | hx
  · intro hm
    rcases List.mem_cons.mp hm with he | hm
    · exact hq (M.head_injective he)
    · obtain ⟨w, hw, he⟩ := List.mem_map.mp hm
      exact Machine.nodeOf_ne_head (h.member q w hw) q' he
  · obtain ⟨w, hw, rfl⟩ := List.mem_map.mp hx
    rw [h.nodeOf_mem (h.member q' w hw)]
    exact fun hm => hq (h.disjoint q' q w hw hm)

/-- **Queueing** a vCPU that is on no queue. -/
theorem addTail (h : Queues M L qs) (hv : v ∈ M.vcpus) (hn : ∀ q, v ∉ qs q) (q : Queue) :
    ∃ L', listAddTail (nodeOf v) (M.head q) L = some L' ∧
      Queues M L' (Function.update qs q (qs q ++ [v])) ∧
      ∀ w ∈ M.vcpus, w ≠ v → (∀ q, w ∉ qs q) → L' (nodeOf w) = L (nodeOf w) := by
  obtain ⟨L', he, hring, hframe⟩ := listAddTail_ring (h.ring q) (h.nonzero q)
    (Machine.nodeOf_ne_zero hv) (fun hm => hn q ((h.nodeOf_mem hv).mp hm))
  refine ⟨L', he, ⟨?_, ?_, ?_⟩, ?_⟩
  · intro q'
    by_cases hq : q' = q
    · subst hq
      rw [Function.update_self, List.map_append]
      exact hring
    · rw [Function.update_of_ne hq]
      refine (h.ring q').congr fun x hx => hframe x ?_
      rw [List.mem_cons, not_or]
      refine ⟨?_, h.apart hq hx⟩
      intro e
      rw [e] at hx
      exact hn q' ((h.nodeOf_mem hv).mp hx)
  · intro q' w hw
    by_cases hq : q' = q
    · subst hq
      rw [Function.update_self] at hw
      rcases List.mem_append.mp hw with hw | hw
      · exact h.member q' w hw
      · rw [List.mem_singleton.mp hw]
        exact hv
    · rw [Function.update_of_ne hq] at hw
      exact h.member q' w hw
  · intro q₁ q₂ w h1 h2
    have hold : ∀ q', w ∈ Function.update qs q (qs q ++ [v]) q' → w ∈ qs q' ∨ (w = v ∧ q' = q) := by
      intro q' hm
      by_cases hq : q' = q
      · subst hq
        rw [Function.update_self, List.mem_append, List.mem_singleton] at hm
        exact hm.imp id fun e => ⟨e, rfl⟩
      · rw [Function.update_of_ne hq] at hm
        exact Or.inl hm
    rcases hold q₁ h1 with h3 | ⟨e, e₁⟩
    · rcases hold q₂ h2 with h4 | ⟨e, -⟩
      · exact h.disjoint q₁ q₂ w h3 h4
      · exact absurd (e ▸ h3) (hn q₁)
    · rcases hold q₂ h2 with h4 | ⟨-, e₂⟩
      · exact absurd (e ▸ h4) (hn q₂)
      · rw [e₁, e₂]
  · intro w hw hne hnot
    apply hframe
    rw [List.mem_cons, not_or, h.nodeOf_mem hw]
    exact ⟨fun e => hne (Machine.nodeOf_inj hw hv e), hnot q⟩

/-- **Taking** a vCPU off its queue. -/
theorem del (h : Queues M L qs) {l₁ l₂ : List Nat} (hq : qs q = l₁ ++ v :: l₂) :
    ∃ L', listDel (nodeOf v) L = some L' ∧ Queues M L' (Function.update qs q (l₁ ++ l₂)) ∧
      L' (nodeOf v) = ⟨0, 0⟩ ∧ ∀ w ∈ M.vcpus, (∀ q, w ∉ qs q) → L' (nodeOf w) = L (nodeOf w) := by
  have hring := h.ring q
  have hz := h.nonzero q
  have hmap : (qs q).map nodeOf = l₁.map nodeOf ++ nodeOf v :: l₂.map nodeOf := by
    rw [hq, List.map_append, List.map_cons]
  rw [hmap] at hring hz
  obtain ⟨L', he, hring', hnull, hframe⟩ := listDel_ring hring hz
  rw [← hmap] at hframe
  have hsub : ∀ q', ∀ w ∈ Function.update qs q (l₁ ++ l₂) q', w ∈ qs q' := by
    intro q' w hw
    by_cases hqq : q' = q
    · subst hqq
      rw [Function.update_self] at hw
      rw [hq, List.mem_append, List.mem_cons]
      exact (List.mem_append.mp hw).imp id Or.inr
    · rwa [Function.update_of_ne hqq] at hw
  refine ⟨L', he, ⟨?_, fun q' w hw => h.member q' w (hsub q' w hw),
    fun q₁ q₂ w h1 h2 => h.disjoint q₁ q₂ w (hsub q₁ w h1) (hsub q₂ w h2)⟩, hnull, ?_⟩
  · intro q'
    by_cases hqq : q' = q
    · subst hqq
      rw [Function.update_self, List.map_append]
      exact hring'
    · rw [Function.update_of_ne hqq]
      exact (h.ring q').congr fun x hx => hframe x (h.apart hqq hx)
  · intro w hw hnot
    apply hframe
    rw [h.nodeOf_mem hw]
    exact hnot q

/-- A queue holds a vCPU once. -/
theorem nodup (h : Queues M L qs) (q : Queue) : (qs q).Nodup :=
  (List.nodup_cons.mp (h.ring q).nodup).2.of_map _

end Queues

end ZHyper
