import ZHyper.Timer.Model

/-!
# The timer list of a manager

`TimerList m w l`: in the world `w` the list of the manager `m` is a ring through the
nodes of the timers `l`, all of them active.  `startTimer_run` puts a fresh timer in
front of it, `createTimer_untouched` and every step that keeps off the list
(`Untouched`) leave it as it is.

`CallbackRun` is what a callback may do: anything off the list, and starting fresh
timers on it, any number and in any order.  `CallbackRun.timerList` says what that
comes to: the started timers stand in front of the list, the last one first.
-/

namespace ZHyper

open LowLevel

structure Manager where
  addr : Nat
  pos : 0 < addr
  fits : addr + managerSizeof ≤ 2 ^ 64

/-- The memory of a timer: a C object apart from the manager. -/
structure TimerBlock (m : Manager) (t : Nat) : Prop where
  pos : 0 < t
  fits : t + timerSizeof ≤ 2 ^ 64
  apart : t + timerSizeof ≤ m.addr ∨ m.addr + managerSizeof ≤ t

def Manager.list (m : Manager) : Nat := timerList m.addr

namespace TimerBlock

variable {m : Manager} {t u : Nat}

theorem list_eq (m : Manager) : m.list = m.addr + 16 := by
  have := m.fits
  unfold managerSizeof at this
  exact Nat.mod_eq_of_lt (by omega)

theorem list_ne_zero (m : Manager) : m.list ≠ 0 := by
  rw [list_eq]
  omega

theorem node_eq (ht : TimerBlock m t) : timerNode t = t + 40 := by
  have := ht.fits
  unfold timerSizeof at this
  exact Nat.mod_eq_of_lt (by unfold timerListOffset; omega)

theorem ne_zero (ht : TimerBlock m t) : t ≠ 0 := by
  have := ht.pos
  omega

theorem node_ne_zero (ht : TimerBlock m t) : timerNode t ≠ 0 := by
  rw [ht.node_eq]
  omega

theorem node_ne_list (ht : TimerBlock m t) : timerNode t ≠ m.list := by
  have := ht.apart
  unfold timerSizeof managerSizeof at this
  rw [ht.node_eq, list_eq]
  omega

theorem node_inj (ht : TimerBlock m t) (hu : TimerBlock m u) (h : timerNode t = timerNode u) :
    t = u := by
  rw [ht.node_eq, hu.node_eq] at h
  omega

theorem listEntry_node (ht : TimerBlock m t) : listEntry (timerNode t) timerListOffset = t := by
  have := ht.fits
  unfold timerSizeof at this
  rw [ht.node_eq]
  unfold listEntry timerListOffset
  omega

end TimerBlock

/-- What the interrupt reads of a timer. -/
def Timer.duty (t : Timer) : Bool × Bool × Nat × Nat :=
  (t.isActive, t.isPeriodic, t.callback, t.arg)

structure TimerList {ε : Type} (m : Manager) (w : TimerWorld ε) (l : List Nat) : Prop where
  ring : NodeRing w.links m.list (l.map timerNode)
  block : ∀ t ∈ l, TimerBlock m t
  active : ∀ t ∈ l, (w.timers t).isActive = true

/-- The list of `m` while `start_timer` is at it: the `prev` of the nodes `ps` and the `next` of the
nodes `ns` are still to be stored. -/
structure OpenList {ε : Type} (m : Manager) (ps ns : List Nat) (w : TimerWorld ε) (l : List Nat) :
    Prop where
  ring : RingBut ps ns w.links m.list (l.map timerNode)
  block : ∀ t ∈ l, TimerBlock m t
  active : ∀ t ∈ l, (w.timers t).isActive = true

variable {ε : Type} {config : TimerConfig} {m : Manager} {w w' : TimerWorld ε} {l l' : List Nat}
  {t u : Nat} {L : Links}

/-- `t` is on the list of `m`. -/
def Listed (m : Manager) (w : TimerWorld ε) (t : Nat) : Prop := ∃ l, TimerList m w l ∧ t ∈ l

/-- `t` can be started: it is not on the list. -/
structure Fresh (m : Manager) (w : TimerWorld ε) (t : Nat) : Prop where
  block : TimerBlock m t
  unlisted : ¬ Listed m w t

/-- A step that keeps off the list, its timers, and the trace. -/
structure Untouched (m : Manager) (w w' : TimerWorld ε) : Prop where
  log : w'.log = w.log
  head : w'.links m.list = w.links m.list
  node : ∀ t, Listed m w t → w'.links (timerNode t) = w.links (timerNode t)
  duty : ∀ t, Listed m w t → (w'.timers t).duty = (w.timers t).duty

/-! ## Accesses -/

theorem loadTimer_run (ht : t ≠ 0) : loadTimer t w = .ok (w.timers t) w := by
  unfold loadTimer
  rw [if_neg ht]
  rfl

theorem modifyTimer_run (ht : t ≠ 0) (f : Timer → Timer) :
    modifyTimer t f w =
      .ok () { w with timers := Function.update w.timers t (f (w.timers t)) } := by
  unfold modifyTimer
  rw [if_neg ht]
  rfl

theorem modifyManager_run (ht : t ≠ 0) (f : PercpuTimerManager → PercpuTimerManager) :
    modifyManager t f w =
      .ok () { w with managers := Function.update w.managers t (f (w.managers t)) } := by
  unfold modifyManager
  rw [if_neg ht]
  rfl

theorem timerLinks_run {f : Links → Option Links} (h : f w.links = some L) :
    TimerM.onLinks f w = .ok () { w with links := L } := by
  simp only [TimerM.onLinks, h]

theorem timerNext_run (ht : t ≠ 0) : TimerM.next t w = .ok (w.links t).next w := by
  simp only [TimerM.next, loadNext, if_neg ht]

theorem record_run (e : TimerEvent) : TimerM.record e w = .ok () { w with log := w.log ++ [e] } :=
  rfl

/-! ## The list -/

namespace OpenList

variable {ps ns : List Nat}

theorem of_timerList (h : TimerList m w l) : OpenList m ps ns w l :=
  ⟨.of_ring h.ring, h.block, h.active⟩

/-- A list without open fields. -/
theorem timerList (h : OpenList m [] [] w l) : TimerList m w l := ⟨h.ring.ring, h.block, h.active⟩

theorem nonzero (h : OpenList m ps ns w l) : ∀ x ∈ m.list :: l.map timerNode, x ≠ 0 := by
  intro x hx
  rcases List.mem_cons.mp hx with rfl | hx
  · exact TimerBlock.list_ne_zero m
  · obtain ⟨t, ht, rfl⟩ := List.mem_map.mp hx
    exact (h.block t ht).node_ne_zero

theorem nodup (h : OpenList m ps ns w l) : l.Nodup := by
  obtain ⟨C, hC, -⟩ := h.ring
  exact ((List.nodup_cons.mp hC.nodup).2).of_map timerNode

theorem congr (h : OpenList m ps ns w l) (hhead : w'.links m.list = w.links m.list)
    (hnode : ∀ t ∈ l, w'.links (timerNode t) = w.links (timerNode t))
    (hduty : ∀ t ∈ l, (w'.timers t).duty = (w.timers t).duty) : OpenList m ps ns w' l := by
  refine ⟨h.ring.congr ?_, h.block, ?_⟩
  · intro x hx
    rcases List.mem_cons.mp hx with rfl | hx
    · exact hhead
    · obtain ⟨t, ht, rfl⟩ := List.mem_map.mp hx
      exact hnode t ht
  · intro t ht
    rw [← h.active t ht]
    exact congrArg Prod.fst (hduty t ht)

end OpenList

namespace TimerList

/-- The list has no open fields. -/
theorem closed (h : TimerList m w l) : OpenList m [] [] w l := .of_timerList h

theorem nonzero (h : TimerList m w l) : ∀ x ∈ m.list :: l.map timerNode, x ≠ 0 := h.closed.nonzero

theorem node_mem (h : TimerList m w l) (ht : TimerBlock m t) :
    timerNode t ∈ m.list :: l.map timerNode ↔ t ∈ l := by
  constructor
  · intro hm
    rcases List.mem_cons.mp hm with he | hm
    · exact absurd he ht.node_ne_list
    · obtain ⟨u, hu, he⟩ := List.mem_map.mp hm
      rw [(h.block u hu).node_inj ht he] at hu
      exact hu
  · intro hm
    exact List.mem_cons_of_mem _ (List.mem_map_of_mem hm)

theorem nodup (h : TimerList m w l) : l.Nodup := h.closed.nodup

theorem map_entry (h : TimerList m w l) :
    (l.map timerNode).map (fun p => listEntry p timerListOffset) = l := by
  have hid : l.map (fun t => listEntry (timerNode t) timerListOffset) = l.map id :=
    List.map_congr_left fun t ht => (h.block t ht).listEntry_node
  rw [List.map_map]
  exact hid.trans (List.map_id l)

/-- The links determine the list. -/
theorem unique (h : TimerList m w l) (h' : TimerList m w l') : l = l' := by
  rw [← h.map_entry, ← h'.map_entry, h.ring.unique h'.ring]

theorem listed_iff (h : TimerList m w l) : Listed m w t ↔ t ∈ l := by
  constructor
  · rintro ⟨l', h', ht⟩
    rwa [h.unique h']
  · intro ht
    exact ⟨l, h, ht⟩

theorem fresh_iff (h : TimerList m w l) : Fresh m w t ↔ TimerBlock m t ∧ t ∉ l := by
  constructor
  · intro hf
    exact ⟨hf.block, fun ht => hf.unlisted (h.listed_iff.mpr ht)⟩
  · rintro ⟨hb, ht⟩
    exact ⟨hb, fun hl => ht (h.listed_iff.mp hl)⟩

/-- The list stands in every world that agrees with `w` on its nodes and its timers. -/
theorem congr (h : TimerList m w l) (hhead : w'.links m.list = w.links m.list)
    (hnode : ∀ t ∈ l, w'.links (timerNode t) = w.links (timerNode t))
    (hduty : ∀ t ∈ l, (w'.timers t).duty = (w.timers t).duty) : TimerList m w' l :=
  (h.closed.congr hhead hnode hduty).timerList

theorem same (h : TimerList m w l) (hlinks : w'.links = w.links) (htimers : w'.timers = w.timers) :
    TimerList m w' l :=
  h.congr (by rw [hlinks]) (fun t _ => by rw [hlinks]) fun t _ => by rw [htimers]

theorem untouched (h : TimerList m w l) (hu : Untouched m w w') : TimerList m w' l :=
  h.congr hu.head (fun t ht => hu.node t ⟨l, h, ht⟩) fun t ht => hu.duty t ⟨l, h, ht⟩

end TimerList

/-! ## Starting and creating timers -/

/-- `start_timer` called with `manager` acts on `m`: it is `m`, or `NULL` on the CPU of `m`. -/
def StartsOn (config : TimerConfig) (m : Manager) (manager : Nat) (w : TimerWorld ε) : Prop :=
  orPercpuTimerManager config manager w = .ok m.addr w

/-- The world after `start_timer`, with the links `L` that `list_add` leaves. -/
def startedWorld (m : Manager) (t : Nat) (L : Links) (w : TimerWorld ε) : TimerWorld ε :=
  { w with
    timers := Function.update w.timers t { w.timers t with isActive := true }
    managers := Function.update w.managers m.addr
      { w.managers m.addr with nrTimers := ((w.managers m.addr).nrTimers + 1) % 2 ^ 32 }
    log := w.log ++ [.start t]
    links := L }

theorem startTimer_eq {manager : Nat} (ht : t ≠ 0) (hm : StartsOn config m manager w)
    (hL : listAdd (timerNode t) (timerList m.addr) w.links = some L) :
    startTimer config t manager w = .ok 0 (startedWorld m t L w) := by
  have hm0 : m.addr ≠ 0 := Nat.ne_of_gt m.pos
  unfold startTimer
  rw [if_neg ht, bind_run hm, if_neg hm0, bind_run (modifyTimer_run ht _),
    bind_run (modifyManager_run hm0 _), bind_run (record_run _),
    bind_run (timerLinks_run (L := L) ?_)]
  · rfl
  · exact hL

/-- **`start_timer` puts a fresh timer in front of the list.** -/
theorem startTimer_run {manager : Nat} (h : TimerList m w l) (hf : Fresh m w t)
    (hm : StartsOn config m manager w) :
    ∃ L, startTimer config t manager w = .ok 0 (startedWorld m t L w) ∧
      TimerList m (startedWorld m t L w) (t :: l) ∧
      ∀ u ∈ l, ((startedWorld m t L w).timers u).duty = (w.timers u).duty := by
  obtain ⟨hb, hnl⟩ := h.fresh_iff.mp hf
  have hnode : timerNode t ∉ m.list :: l.map timerNode := fun hx => hnl ((h.node_mem hb).mp hx)
  obtain ⟨L, hadd, hring, -⟩ := listAdd_ring h.ring h.nonzero hb.node_ne_zero hnode
  have hother : ∀ u ∈ l, (startedWorld m t L w).timers u = w.timers u := by
    intro u hu
    exact Function.update_of_ne (ne_of_mem_of_not_mem hu hnl) _ _
  refine ⟨L, startTimer_eq hb.ne_zero hm hadd, ⟨hring, ?_, ?_⟩, ?_⟩
  · intro u hu
    rcases List.mem_cons.mp hu with rfl | hu
    · exact hb
    · exact h.block u hu
  · intro u hu
    rcases List.mem_cons.mp hu with rfl | hu
    · show (Function.update w.timers u { w.timers u with isActive := true } u).isActive = true
      rw [Function.update_self]
    · rw [hother u hu]
      exact h.active u hu
  · intro u hu
    rw [hother u hu]

/-- `percpu_timer_manager_init` writes the manager and the links, and leaves an empty list. -/
theorem percpuTimerManagerInit_writes (m : Manager) (w : TimerWorld ε) :
    ∃ L, percpuTimerManagerInit m.addr w = .ok () { w with
        managers := Function.update w.managers m.addr ⟨0, w.cntvctEl0⟩
        links := L } ∧
      NodeRing L m.list [] := by
  have hm0 : m.addr ≠ 0 := Nat.ne_of_gt m.pos
  obtain ⟨L, hinit, hring, -⟩ := listInit_ring (L := w.links) (TimerBlock.list_ne_zero m)
  have hget (v : TimerWorld ε) : (get : TimerM ε (TimerWorld ε)) v = .ok v v := rfl
  refine ⟨L, ?_, hring⟩
  unfold percpuTimerManagerInit
  rw [if_neg hm0]
  beta_reduce
  rw [bind_run (modifyManager_run hm0 _), bind_run (hget _), bind_run (modifyManager_run hm0 _),
    timerLinks_run (L := L) ?_]
  · simp only [Function.update_self, Function.update_idem]
  · exact hinit

theorem percpuTimerManagerInit_run (m : Manager) (w : TimerWorld ε) :
    ∃ w', percpuTimerManagerInit m.addr w = .ok () w' ∧ TimerList m w' [] ∧ w'.log = w.log ∧
      (w'.managers m.addr).nrTimers = 0 := by
  obtain ⟨L, hrun, hring⟩ := percpuTimerManagerInit_writes m w
  refine ⟨_, hrun, ⟨hring, by simp, by simp⟩, rfl, ?_⟩
  show (Function.update w.managers m.addr _ m.addr).nrTimers = 0
  rw [Function.update_self]

/-- The timer that `create_timer_*` fill in. -/
def createdTimer (isPeriodic : Bool) (intervalMs callback arg : Nat) : Timer :=
  ⟨intervalMs, isPeriodic, false, callback, arg, 0⟩

theorem createTimer_run (hf : TimerBlock m t) (isPeriodic : Bool) (intervalMs callback arg : Nat) :
    ∃ L, createTimer isPeriodic t intervalMs callback arg w = .ok t { w with
        timers := Function.update w.timers t (createdTimer isPeriodic intervalMs callback arg)
        links := L } ∧
      ∀ x, x ≠ timerNode t → L x = w.links x := by
  obtain ⟨L, hinit, -, hframe⟩ := listInit_ring (L := w.links) hf.node_ne_zero
  refine ⟨L, ?_, hframe⟩
  have ht := hf.ne_zero
  unfold createTimer
  rw [if_neg ht, bind_run (modifyTimer_run ht _), bind_run (modifyTimer_run ht _),
    bind_run (modifyTimer_run ht _), bind_run (modifyTimer_run ht _),
    bind_run (modifyTimer_run ht _), bind_run (modifyTimer_run ht _),
    bind_run (timerLinks_run (L := L) ?_)]
  · simp only [Function.update_self, Function.update_idem]
    rfl
  · exact hinit

/-- Filling in a block off the list leaves the list alone. -/
theorem createTimer_untouched {isPeriodic : Bool} {intervalMs callback arg : Nat} (hf : Fresh m w t)
    {r : Nat} (h : createTimer isPeriodic t intervalMs callback arg w = .ok r w') :
    Untouched m w w' ∧ w'.env = w.env := by
  obtain ⟨L, hrun, hframe⟩ := createTimer_run (w := w) hf.block isPeriodic intervalMs callback arg
  rw [hrun] at h
  cases h
  refine ⟨⟨rfl, hframe _ hf.block.node_ne_list.symm, fun u hu => hframe _ fun e => ?_, fun u hu =>
    ?_⟩, rfl⟩
  · obtain ⟨l, hl, hm⟩ := hu
    exact hf.unlisted ⟨l, hl, (hl.block u hm).node_inj hf.block e ▸ hm⟩
  · have hne : u ≠ t := fun e => hf.unlisted (e ▸ hu)
    show ((Function.update w.timers t _) u).duty = _
    rw [Function.update_of_ne hne]

/-! ## Callbacks -/

/-- What a callback does: it keeps off the list but for starting fresh timers on it. -/
inductive CallbackRun (config : TimerConfig) (m : Manager) : TimerWorld ε → TimerWorld ε →
    Prop where
  | done (w : TimerWorld ε) : CallbackRun config m w w
  | other {w w₁ w' : TimerWorld ε} :
      Untouched m w w₁ → CallbackRun config m w₁ w' → CallbackRun config m w w'
  | start {w w₁ w' : TimerWorld ε} (t : Nat) {manager : Nat} {r : Int} :
      Fresh m w t → StartsOn config m manager w → startTimer config t manager w = .ok r w₁ →
      CallbackRun config m w₁ w' → CallbackRun config m w w'

/-- **A callback leaves the list as it was, behind the timers it started**, the last one first. -/
theorem CallbackRun.timerList (hr : CallbackRun config m w w') (h : TimerList m w l) :
    ∃ new : List Nat, w'.log = w.log ++ new.map .start ∧ TimerList m w' (new.reverse ++ l) ∧
      ∀ u ∈ l, (w'.timers u).duty = (w.timers u).duty := by
  induction hr generalizing l with
  | done w => exact ⟨[], by simp, h, fun u _ => rfl⟩
  | other hu _ ih =>
    obtain ⟨new, hlog, hlist, hduty⟩ := ih (h.untouched hu)
    refine ⟨new, by rw [hlog, hu.log], hlist, ?_⟩
    intro u hm
    rw [hduty u hm]
    exact hu.duty u ⟨l, h, hm⟩
  | start t hf hm hs _ ih =>
    obtain ⟨L, hrun, hlist, hduty⟩ := startTimer_run h hf hm
    rw [hrun] at hs
    cases hs
    obtain ⟨new, hlog', hlist', hduty'⟩ := ih hlist
    refine ⟨t :: new, ?_, ?_, ?_⟩
    · rw [hlog']
      simp [startedWorld]
    · rw [List.reverse_cons, List.append_assoc]
      exact hlist'
    · intro u hu
      rw [hduty' u (List.mem_cons_of_mem _ hu), hduty u hu]

/-- A timer created in a fresh block and started, as callers of `timer.c` do. -/
theorem createTimer_startTimer_run {manager : Nat} (isPeriodic : Bool)
    (intervalMs callback arg : Nat) (h : TimerList m w l) (hb : TimerBlock m t) (ht : t ∉ l)
    (hm : ∀ v : TimerWorld ε, v.mpidrEl1 = w.mpidrEl1 → StartsOn config m manager v) :
    ∃ w', (createTimer isPeriodic t intervalMs callback arg >>= fun timer =>
        startTimer config timer manager) w = .ok 0 w' ∧
      CallbackRun config m w w' ∧ TimerList m w' (t :: l) ∧ w'.env = w.env := by
  obtain ⟨L, hcreate, -⟩ := createTimer_run (w := w) hb isPeriodic intervalMs callback arg
  obtain ⟨hu, henv⟩ := createTimer_untouched (h.fresh_iff.mpr ⟨hb, ht⟩) hcreate
  have h₁ := h.untouched hu
  have hf := h₁.fresh_iff.mpr ⟨hb, ht⟩
  obtain ⟨L', hstart, h₂, -⟩ := startTimer_run h₁ hf (hm _ rfl)
  refine ⟨_, ?_, .other hu (.start t hf (hm _ rfl) hstart (.done _)), h₂, henv⟩
  rw [bind_run hcreate]
  exact hstart

end ZHyper
