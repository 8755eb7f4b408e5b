import ZHyper.Timer.Runs

/-!
# `start_timer`, interrupted

`startAccess` are the loads and stores of `start_timer` one by one, and `startInterrupted` takes the
timer interrupt between two of them.  The callbacks keep off the timers (`QuietClient`).

While `start_timer` links the node in, the list is a ring some fields of which are still to be
stored (`OpenList`).  The interrupt takes its one-shot timers out of that ring
(`QuietClient.irq_run`), as long as the open fields belong to the new node and to the head.  Then
the rest of `start_timer` stores them.  What it stores as the `next` of the new node is the node it
loaded from the head at the beginning: if the interrupt comes before that store, and the node is the
one of a one-shot timer, the list leads to a freed timer (`start_survives_iff`).
-/

namespace ZHyper

open LowLevel

/-! ## The accesses -/

/-- What `start_timer` and `__list_add` keep in registers. -/
structure StartRegs where
  nrTimers : Nat
  next : Nat

section Accesses

variable {ε : Type}

/-- The `k`-th access of `start_timer` (after the eighth there are none), `node` being
`&timer->list` and `head` `&manager->timer_list`. -/
def startAccess (timer manager : Nat) (k : Nat) (r : StartRegs) : TimerM ε StartRegs :=
  let node := timerNode timer
  let head := timerList manager
  match k with
  | 0 => do
    modifyTimer timer fun t => { t with isActive := true }
    return r
  | 1 => do
    if manager = 0 then throw .nullDeref
    return { r with nrTimers := ((← get).managers manager).nrTimers }
  | 2 => do
    modifyManager manager fun g => { g with nrTimers := (r.nrTimers + 1) % 2 ^ 32 }
    TimerM.record (.start timer)
    return r
  | 3 => do
    let next ← TimerM.next head
    return { r with next }
  | 4 => do
    TimerM.onLinks (storePrev r.next node)
    return r
  | 5 => do
    TimerM.onLinks (storeNext node r.next)
    return r
  | 6 => do
    TimerM.onLinks (storePrev node head)
    return r
  | 7 => do
    TimerM.onLinks (storeNext head node)
    return r
  | _ => return r

/-- The next `n` accesses of `start_timer` when it has made `k`. -/
def runAccesses (timer manager : Nat) (k : Nat) : Nat → StartRegs → TimerM ε StartRegs
  | 0, r => return r
  | n + 1, r => do
    let r ← startAccess timer manager k r
    runAccesses timer manager (k + 1) n r

/-- `start_timer` with `timer_irq_handler` taken after `k` of its eight accesses, `irqArg` being the
manager of the interrupt. -/
def startInterrupted (callbacks : Nat → Nat → Nat → TimerM ε Unit) (free : Nat → TimerM ε Unit)
    (fuel irqArg : Nat) (config : TimerConfig) (timer manager k : Nat) : TimerM ε Int := do
  if timer = 0 then return -einval
  let manager ← orPercpuTimerManager config manager
  if manager = 0 then return -einval
  let regs ← runAccesses timer manager 0 k ⟨0, 0⟩
  let _ ← timerIrqHandler callbacks free fuel irqArg
  let _ ← runAccesses timer manager k (8 - k) regs
  return 0

end Accesses

/-! ## Callbacks that keep off the timers -/

/-- A step that leaves the head of the list, the timers `l` and the trace as they are. -/
structure KeepsOff {ε : Type} (m : Manager) (l : List Nat) (w w' : TimerWorld ε) : Prop where
  log : w'.log = w.log
  head : w'.links m.list = w.links m.list
  node : ∀ t ∈ l, w'.links (timerNode t) = w.links (timerNode t)
  duty : ∀ t ∈ l, (w'.timers t).duty = (w.timers t).duty

/-- The code that uses the timers of `m`, with callbacks that keep off them.  `inv` is what it keeps
about its own state and the timers it has: that they are live blocks of its heap, say. -/
structure QuietClient (ε : Type) (m : Manager) where
  callbacks : Nat → Nat → Nat → TimerM ε Unit
  free : Nat → TimerM ε Unit
  inv : ε → List Nat → Prop
  call_ok : ∀ w l t, inv w.env l → t ∈ l → (w.timers t).callback ≠ 0 →
    ∃ w', callbacks (w.timers t).callback t (w.timers t).arg w = .ok () w' ∧ KeepsOff m l w w' ∧
      inv w'.env l
  /-- What `free` does with the memory of the timer does not matter. -/
  free_ok : ∀ w l₁ l₂ t, inv w.env (l₁ ++ t :: l₂) →
    ∃ w', free t w = .ok () w' ∧ KeepsOff m (l₁ ++ l₂) w w' ∧ inv w'.env (l₁ ++ l₂)

section Quiet

variable {ε : Type} {m : Manager} (C : QuietClient ε m) {w w' : TimerWorld ε} {ps ns : List Nat}
  {front extra rest k₁ l₁ l₂ : List Nat} {t : Nat}

theorem OpenList.keepsOff {l l' : List Nat} (h : OpenList m ps ns w l) (hk : KeepsOff m l' w w')
    (hsub : ∀ t ∈ l, t ∈ l') : OpenList m ps ns w' l :=
  h.congr hk.head (fun t ht => hk.node t (hsub t ht)) fun t ht => hk.duty t (hsub t ht)

theorem QuietClient.call_run (ht : t ≠ 0) {l : List Nat} (hi : C.inv w.env l) (hm : t ∈ l) :
    ∃ w' evs, timerIrqCall C.callbacks t w = .ok () w' ∧ w'.log = w.log ++ evs ∧
      evs.filterMap TimerEvent.freed = [] ∧ w'.links m.list = w.links m.list ∧
      (∀ u ∈ l, w'.links (timerNode u) = w.links (timerNode u) ∧
        (w'.timers u).duty = (w.timers u).duty) ∧ C.inv w'.env l := by
  unfold timerIrqCall
  rw [bind_run (loadTimer_run ht)]
  by_cases hc : (w.timers t).callback = 0
  · rw [if_neg (not_not.mpr hc)]
    exact ⟨w, [], rfl, (List.append_nil _).symm, rfl, rfl, fun _ _ => ⟨rfl, rfl⟩, hi⟩
  · rw [if_pos hc, bind_run (record_run _)]
    obtain ⟨w', hrun, hk, hi'⟩ := C.call_ok
      { w with log := w.log ++ [.call t (w.timers t).callback (w.timers t).arg] } l t hi hm hc
    exact ⟨w', _, hrun, hk.log, rfl, hk.head, fun u hu => ⟨hk.node u hu, hk.duty u hu⟩, hi'⟩

/-- **One round of the walk** through a list that `start_timer` is at: a one-shot timer leaves
it. -/
theorem QuietClient.round_run (h : OpenList m ps ns w (l₁ ++ t :: l₂)) (hp : timerNode t ∉ ps)
    (hn : timerNode t ∉ ns) (hsub : ∀ u ∈ l₁, u ∈ k₁) (hk : (k₁ ++ t :: l₂).Nodup)
    (hi : C.inv w.env (k₁ ++ t :: l₂)) :
    ∃ w' evs, timerIrqBody C.callbacks C.free (timerNode t) w = .ok () w' ∧ w'.log = w.log ++ evs ∧
      evs.filterMap TimerEvent.freed = oneshots w [t] ∧
      OpenList m ps ns w' (l₁ ++ (periodics w [t] ++ l₂)) ∧
      C.inv w'.env (k₁ ++ (periodics w [t] ++ l₂)) ∧
      ∀ u ∈ k₁ ++ (periodics w [t] ++ l₂), (w'.timers u).duty = (w.timers u).duty := by
  have hb : TimerBlock m t := h.block t (by simp)
  have ht : t ∈ k₁ ++ t :: l₂ := by simp
  obtain ⟨w₁, evs₁, hcall, hlog₁, hfree₁, hhead₁, hsame₁, hi₁⟩ := C.call_run hb.ne_zero hi ht
  have hsub' : ∀ u ∈ l₁ ++ t :: l₂, u ∈ k₁ ++ t :: l₂ := by
    intro u hu
    exact List.mem_append.mpr ((List.mem_append.mp hu).imp_left (hsub u))
  have h₁ : OpenList m ps ns w₁ (l₁ ++ t :: l₂) :=
    h.congr hhead₁ (fun u hu => (hsame₁ u (hsub' u hu)).1) fun u hu => (hsame₁ u (hsub' u hu)).2
  have hper₁ : (w₁.timers t).isPeriodic = (w.timers t).isPeriodic := (duty_eq (hsame₁ t ht).2).1
  have hbody : timerIrqBody C.callbacks C.free (timerNode t) w = timerIrqReap C.free t w₁ := by
    unfold timerIrqBody
    rw [hb.listEntry_node, bind_run (loadTimer_run hb.ne_zero), if_pos (h.active t (by simp)),
      bind_run hcall]
  rw [hbody]
  by_cases hc : (w.timers t).isPeriodic = true
  · have hper : periodics w [t] = [t] := by simp [periodics, hc]
    have hone : oneshots w [t] = [] := by simp [oneshots, hc]
    rw [hper, hone]
    exact ⟨w₁, evs₁, timerIrqReap_periodic hb.ne_zero (hper₁.trans hc), hlog₁, hfree₁, h₁, hi₁,
      fun u hu => (hsame₁ u hu).2⟩
  · have hc : (w.timers t).isPeriodic = false := by simpa using hc
    have hper : periodics w [t] = [] := by simp [periodics, hc]
    have hone : oneshots w [t] = [t] := by simp [oneshots, hc]
    obtain ⟨L, hdel, hlist⟩ := h₁.reaped hp hn
    obtain ⟨w', hfree, hk', hi'⟩ := C.free_ok (reapedWorld t L w₁) k₁ l₂ t hi₁
    rw [hper, hone, List.nil_append, timerIrqReap_oneshot hb.ne_zero (hper₁.trans hc) hdel]
    refine ⟨w', evs₁ ++ [.unlink t, .free t], hfree, ?_, ?_, hlist.keepsOff hk' ?_, hi', ?_⟩
    · rw [hk'.log]
      show w₁.log ++ [.unlink t] ++ [.free t] = _
      rw [hlog₁]
      simp only [List.append_assoc, List.cons_append, List.nil_append]
    · rw [List.filterMap_append, hfree₁]
      rfl
    · intro u hu
      exact List.mem_append.mpr ((List.mem_append.mp hu).imp_left (hsub u))
    · intro u hu
      have hut : u ≠ t := by
        rintro rfl
        exact (List.nodup_cons.mp (List.nodup_middle.mp hk)).1 hu
      rw [hk'.duty u hu]
      show (Function.update w₁.timers t _ u).duty = _
      rw [Function.update_of_ne hut]
      exact (hsame₁ u
        (List.mem_append.mpr ((List.mem_append.mp hu).imp_right (List.mem_cons_of_mem _)))).2

/-- The walk that started in `w` is past the timers `done`, with `rest` still ahead.  `extra` are
the other timers of the client; those of them that are in the ring already are `front`. -/
structure Walked (C : QuietClient ε m) (ps ns front extra : List Nat) (w : TimerWorld ε)
    (done rest : List Nat) (w' : TimerWorld ε) : Prop where
  log : ∃ evs, w'.log = w.log ++ evs ∧ evs.filterMap TimerEvent.freed = oneshots w done
  list : OpenList m ps ns w' (front ++ periodics w done ++ rest)
  inv : C.inv w'.env (extra ++ periodics w done ++ rest)
  duty : ∀ u ∈ extra ++ periodics w done ++ rest, (w'.timers u).duty = (w.timers u).duty

namespace Walked

variable {C} {done : List Nat}

theorem next_node (h : Walked C ps ns front extra w done (t :: rest) w') (hn : timerNode t ∉ ns) :
    TimerBlock m t ∧ (w'.links (timerNode t)).next = posOf m rest := by
  refine ⟨h.list.block t (by simp), h.list.ring.next_eq ?_ hn fun N hN => ring_next_node hN⟩
  exact List.mem_cons_of_mem _ (List.mem_map_of_mem (by simp))

theorem round (h : Walked C ps ns front extra w done (t :: rest) w') (hp : timerNode t ∉ ps)
    (hn : timerNode t ∉ ns) (hsub : ∀ u ∈ front, u ∈ extra)
    (hnd : (extra ++ (done ++ t :: rest)).Nodup) :
    ∃ w₁, timerIrqBody C.callbacks C.free (timerNode t) w' = .ok () w₁ ∧
      Walked C ps ns front extra w (done ++ [t]) rest w₁ := by
  have ht : ∀ u ∈ [t], (w'.timers u).duty = (w.timers u).duty := by
    intro u hu
    exact h.duty u (by simp [List.mem_singleton.mp hu])
  have hper : periodics w (done ++ [t]) = periodics w done ++ periodics w [t] :=
    List.filter_append ..
  have hone : oneshots w (done ++ [t]) = oneshots w done ++ oneshots w [t] := List.filter_append ..
  have hsub' : ∀ u ∈ front ++ periodics w done, u ∈ extra ++ periodics w done := by
    intro u hu
    exact List.mem_append.mpr ((List.mem_append.mp hu).imp_left (hsub u))
  have hnd' : (extra ++ periodics w done ++ t :: rest).Nodup := by
    rw [List.append_assoc]
    exact hnd.sublist ((List.Sublist.refl extra).append (List.filter_sublist.append (.refl _)))
  obtain ⟨w₁, evs, hbody, hlog, hfreed, hlist, hinv, hduty⟩ :=
    C.round_run h.list hp hn hsub' hnd' h.inv
  rw [periodics_congr ht, ← List.append_assoc] at hlist hinv hduty
  rw [oneshots_congr ht] at hfreed
  rw [List.append_assoc front, ← hper] at hlist
  rw [List.append_assoc extra, ← hper] at hinv hduty
  refine ⟨w₁, hbody, ?_, hlist, hinv, ?_⟩
  · obtain ⟨evs₀, hlog₀, hfreed₀⟩ := h.log
    refine ⟨evs₀ ++ evs, ?_, ?_⟩
    · rw [hlog, hlog₀, List.append_assoc]
    · rw [List.filterMap_append, hfreed₀, hfreed, hone]
  · intro u hu
    rw [hduty u hu]
    apply h.duty u
    rw [hper] at hu
    simp only [List.mem_append, List.mem_cons] at hu ⊢
    rcases hu with (hu | hu | hu) | hu
    · exact .inl (.inl hu)
    · exact .inl (.inr hu)
    · exact .inr (.inl (List.mem_singleton.mp (List.mem_filter.mp hu).1))
    · exact .inr (.inr hu)

end Walked

/-- **The interrupt takes the one-shot timers `rest` out of a list that `start_timer` is at.** -/
theorem QuietClient.irq_run {fuel : Nat} (h : OpenList m ps ns w (front ++ rest))
    (hhead : (w.links m.list).next = posOf m rest)
    (hclosed : ∀ u ∈ rest, timerNode u ∉ ps ∧ timerNode u ∉ ns) (hsub : ∀ u ∈ front, u ∈ extra)
    (hnd : (extra ++ rest).Nodup) (hi : C.inv w.env (extra ++ rest)) (hf : rest.length < fuel) :
    ∃ w' evs, timerIrqHandler C.callbacks C.free fuel m.addr w = .ok 0 w' ∧ w'.log = w.log ++ evs ∧
      evs.filterMap TimerEvent.freed = oneshots w rest ∧
      OpenList m ps ns w' (front ++ periodics w rest) ∧
      ∀ u ∈ extra ++ periodics w rest, (w'.timers u).duty = (w.timers u).duty := by
  let J (r : List Nat) (v : TimerWorld ε) : Prop :=
    ∃ done, rest = done ++ r ∧ Walked C ps ns front extra w done r v
  have hstart : J rest (irqEntry w) := by
    have hnil : ∀ l : List Nat, l ++ periodics w [] = l := List.append_nil
    refine ⟨[], rfl, ⟨⟨[], (List.append_nil _).symm, rfl⟩, ?_, ?_, fun _ _ => rfl⟩⟩
    · rw [hnil]
      exact h.congr rfl (fun _ _ => rfl) fun _ _ => rfl
    · rw [hnil]
      exact hi
  have hmem : ∀ {done u r}, rest = done ++ u :: r → u ∈ rest := by
    intro done u r he
    simp [he]
  have hnext : ∀ u r v, J (u :: r) v → TimerBlock m u ∧
      (v.links (timerNode u)).next = posOf m r := by
    rintro u r v ⟨done, he, hw⟩
    exact hw.next_node (hclosed u (hmem he)).2
  have hround : ∀ u r v, J (u :: r) v →
      ∃ v', timerIrqBody C.callbacks C.free (timerNode u) v = .ok () v' ∧ J r v' := by
    rintro u r v ⟨done, he, hw⟩
    obtain ⟨hp, hn⟩ := hclosed u (hmem he)
    obtain ⟨v', hbody, hw'⟩ := hw.round hp hn hsub (he ▸ hnd)
    exact ⟨v', hbody, done ++ [u], by rw [he, List.append_assoc, List.singleton_append], hw'⟩
  obtain ⟨v, hloop, done, he, hw⟩ := timerIrqLoop_rule hnext hround hstart hf
  rw [List.append_nil] at he
  subst he
  obtain ⟨evs, hlog, hfreed⟩ := hw.log
  have hlist := hw.list
  have hduty := hw.duty
  rw [List.append_nil] at hlist hduty
  have hpos : posOf m rest ≠ 0 := by
    cases rest with
    | nil => exact TimerBlock.list_ne_zero m
    | cons u rest => exact (h.block u (by simp)).node_ne_zero
  refine ⟨irqExit v, evs, timerIrqHandler_ok_iff.mpr ⟨v, ?_, rfl, rfl⟩, hlog, hfreed,
    hlist.congr rfl (fun _ _ => rfl) fun _ _ => rfl, hduty⟩
  show (TimerM.next m.list >>= fun pos => TimerM.next pos >>= fun n =>
    listForEachSafe TimerM.next .endless
    m.list (timerIrqBody C.callbacks C.free) fuel pos n : TimerM ε Unit) (irqEntry w) = _
  have hentry : ((irqEntry w).links m.list).next = posOf m rest := hhead
  rw [bind_run (timerNext_run (TimerBlock.list_ne_zero m)), hentry, bind_run (timerNext_run hpos)]
  exact hloop

end Quiet

/-! ## The list while the timer is linked in -/

section Started

variable {ε : Type} {m : Manager} {w w₁ w' : TimerWorld ε} {l : List Nat} {t k n : Nat}
    {r : StartRegs}

/-- The nodes whose `prev` `start_timer` has still to store after `k` accesses. -/
def openPrev (t : Nat) : Nat → List Nat
  | 5 | 6 => [timerNode t]
  | _ => []

def openNext (m : Manager) (t : Nat) : Nat → List Nat
  | 5 => [timerNode t, m.list]
  | 6 | 7 => [m.list]
  | _ => []

/-- The timers of the ring after `k` accesses: the first store into a link brings `t` in. -/
def linkedTimers (t : Nat) (l : List Nat) : Nat → List Nat
  | 0 | 1 | 2 | 3 | 4 => l
  | _ => t :: l

/-- `start_timer` of `t` has made `k` accesses. -/
structure StartedTo (m : Manager) (t k : Nat) (l : List Nat) (w : TimerWorld ε) : Prop where
  block : TimerBlock m t
  fresh : t ∉ l
  active : k ≠ 0 → (w.timers t).isActive = true
  list : OpenList m (openPrev t k) (openNext m t k) w (linkedTimers t l k)

/-- What the next link store needs: the register holds the node that `t` is linked in before. -/
def NextLoaded (m : Manager) (k : Nat) (l : List Nat) (r : StartRegs) : Prop :=
  k = 4 ∨ k = 5 → r.next = posOf m l

/-- What accesses of `start_timer` keep. -/
structure StartKeeps (w w' : TimerWorld ε) : Prop where
  env : w'.env = w.env
  log : ∃ evs, w'.log = w.log ++ evs ∧ evs.filterMap TimerEvent.freed = []
  periodic : ∀ u, (w'.timers u).isPeriodic = (w.timers u).isPeriodic

theorem StartKeeps.refl (w : TimerWorld ε) : StartKeeps w w :=
  ⟨rfl, ⟨[], (List.append_nil _).symm, rfl⟩, fun _ => rfl⟩

theorem StartKeeps.trans (h : StartKeeps w w₁) (h' : StartKeeps w₁ w') : StartKeeps w w' := by
  obtain ⟨evs, hlog, hfreed⟩ := h.log
  obtain ⟨evs', hlog', hfreed'⟩ := h'.log
  refine ⟨h'.env.trans h.env, ⟨evs ++ evs', ?_, ?_⟩, fun u => (h'.periodic u).trans (h.periodic u)⟩
  · rw [hlog', hlog, List.append_assoc]
  · rw [List.filterMap_append, hfreed, hfreed']
    rfl

theorem startAccess_zero (ht : t ≠ 0) : startAccess t m.addr 0 r w =
    .ok r { w with timers := Function.update w.timers t { w.timers t with isActive := true } } :=
  bind_run (modifyTimer_run ht _)

theorem startAccess_one : startAccess t m.addr 1 r w =
    .ok { r with nrTimers := (w.managers m.addr).nrTimers } w := by
  unfold startAccess
  rw [if_neg (Nat.ne_of_gt m.pos)]
  rfl

theorem startAccess_two : startAccess t m.addr 2 r w = .ok r
    { w with
      managers := Function.update w.managers m.addr
        { w.managers m.addr with nrTimers := (r.nrTimers + 1) % 2 ^ 32 }
      log := w.log ++ [.start t] } :=
  bind_run (modifyManager_run (Nat.ne_of_gt m.pos) _)

theorem startAccess_three :
    startAccess t m.addr 3 r w = .ok { r with next := (w.links m.list).next } w :=
  bind_run (timerNext_run (TimerBlock.list_ne_zero m))

theorem startAccess_four (hr : r.next ≠ 0) : startAccess t m.addr 4 r w =
    .ok r { w with links := setPrev w.links r.next (timerNode t) } := by
  refine bind_run (timerLinks_run ?_)
  simp only [storePrev, if_neg hr]

theorem startAccess_five (ht : timerNode t ≠ 0) : startAccess t m.addr 5 r w =
    .ok r { w with links := setNext w.links (timerNode t) r.next } := by
  refine bind_run (timerLinks_run ?_)
  simp only [storeNext, if_neg ht]

theorem startAccess_six (ht : timerNode t ≠ 0) : startAccess t m.addr 6 r w =
    .ok r { w with links := setPrev w.links (timerNode t) m.list } := by
  refine bind_run (timerLinks_run ?_)
  simp only [storePrev, if_neg ht]
  rfl

theorem startAccess_seven : startAccess t m.addr 7 r w =
    .ok r { w with links := setNext w.links m.list (timerNode t) } := by
  have hhead : timerList m.addr ≠ 0 := TimerBlock.list_ne_zero m
  refine bind_run (timerLinks_run ?_)
  simp only [storeNext, if_neg hhead]
  rfl

theorem posOf_ne_zero_of_block (h : ∀ u ∈ l, TimerBlock m u) : posOf m l ≠ 0 := by
  cases l with
  | nil => exact TimerBlock.list_ne_zero m
  | cons u l => exact (h u List.mem_cons_self).node_ne_zero

namespace StartedTo

theorem start (h : TimerList m w l) (hb : TimerBlock m t) (ht : t ∉ l) : StartedTo m t 0 l w :=
  ⟨hb, ht, fun h0 => absurd rfl h0, h.closed⟩

theorem done (h : StartedTo m t 8 l w) : TimerList m w (t :: l) := h.list.timerList

/-- The links after the store into `next->prev`: the three others are open. -/
theorem open_ring {L : Links} (hr : NodeRing L m.list (l.map timerNode)) (hb : TimerBlock m t)
    (hbl : ∀ u ∈ l, TimerBlock m u) (ht : t ∉ l) :
    RingBut [timerNode t] [timerNode t, m.list] (setPrev L (posOf m l) (timerNode t)) m.list
      ((t :: l).map timerNode) := by
  have hnew : timerNode t ∉ m.list :: l.map timerNode := by
    intro hm
    rcases List.mem_cons.mp hm with he | hm
    · exact hb.node_ne_list he
    · obtain ⟨u, hu, he⟩ := List.mem_map.mp hm
      exact ht ((hbl u hu).node_inj hb he ▸ hu)
  have hins : RingBut [] [] (linkBetween L (timerNode t) m.list (posOf m l)) m.list
      ((t :: l).map timerNode) :=
    .of_ring (hr.insert (ring_next_list hr) hnew)
  exact hins.open_next.open_prev.open_next

/-- An access that stores no link and changes no timer but `t`. -/
theorem of_links (h : StartedTo m t k l w) (hk : k < 4) (hlinks : w'.links = w.links)
    (hactive : (w'.timers t).isActive = true) (hother : ∀ u, u ≠ t → w'.timers u = w.timers u) :
    StartedTo m t (k + 1) l w' := by
  have hne : ∀ u ∈ l, u ≠ t := fun u hu => ne_of_mem_of_not_mem hu h.fresh
  have hlist : OpenList m [] [] w l := by
    match k, hk, h.list with
    | 0, _, hl | 1, _, hl | 2, _, hl | 3, _, hl => exact hl
  have hlist' : OpenList m [] [] w' l :=
    hlist.congr (by rw [hlinks]) (fun u _ => by rw [hlinks]) fun u hu => by rw [hother u (hne u hu)]
  refine ⟨h.block, h.fresh, fun _ => hactive, ?_⟩
  match k, hk with
  | 0, _ | 1, _ | 2, _ | 3, _ => exact hlist'

/-- A store into a link. -/
theorem of_list (h : StartedTo m t k l w) (hk : 4 ≤ k) {L : Links}
    (hlist : RingBut (openPrev t (k + 1)) (openNext m t (k + 1)) L m.list
      ((t :: l).map timerNode)) :
    StartedTo m t (k + 1) l { w with links := L } ∧ StartKeeps w { w with links := L } := by
  have hact : (w.timers t).isActive = true := h.active (by omega)
  obtain ⟨j, rfl⟩ : ∃ j, k = j + 4 := ⟨k - 4, by omega⟩
  have hlinked : linkedTimers t l (j + 4 + 1) = t :: l := rfl
  have hold : ∀ u ∈ l, TimerBlock m u ∧ (w.timers u).isActive = true := by
    have hmem : ∀ u ∈ l, u ∈ linkedTimers t l (j + 4) := by
      intro u hu
      cases j with
      | zero => exact hu
      | succ j => exact List.mem_cons_of_mem _ hu
    intro u hu
    exact ⟨h.list.block u (hmem u hu), h.list.active u (hmem u hu)⟩
  refine ⟨⟨h.block, h.fresh, fun _ => hact, ?_⟩, rfl, ⟨[], (List.append_nil _).symm, rfl⟩, fun _ =>
    rfl⟩
  rw [hlinked]
  refine ⟨hlist, ?_, ?_⟩
  · intro u hu
    rcases List.mem_cons.mp hu with rfl | hu
    · exact h.block
    · exact (hold u hu).1
  · intro u hu
    rcases List.mem_cons.mp hu with rfl | hu
    · exact hact
    · exact (hold u hu).2

/-- **One access.** -/
theorem access (h : StartedTo m t k l w) (hn : NextLoaded m k l r) :
    ∃ r' w', startAccess t m.addr k r w = .ok r' w' ∧ StartedTo m t (k + 1) l w' ∧ StartKeeps w w' ∧
      NextLoaded m (k + 1) l r' ∧ (k < 7 → (w'.links m.list).next = (w.links m.list).next) := by
  have ht0 := h.block.ne_zero
  have hnode := h.block.node_ne_zero
  have hnl := h.block.node_ne_list
  match k, h, hn with
  | 0, h, _ =>
    refine ⟨r, _, startAccess_zero ht0, h.of_links (by decide) rfl ?_ ?_,
      ⟨rfl, ⟨[], (List.append_nil _).symm, rfl⟩, ?_⟩,
      fun hk => by omega, fun _ => rfl⟩
    · show (Function.update w.timers t _ t).isActive = true
      rw [Function.update_self]
    · intro u hu
      exact Function.update_of_ne hu _ _
    · intro u
      show (Function.update w.timers t _ u).isPeriodic = _
      by_cases hu : u = t
      · rw [hu, Function.update_self]
      · rw [Function.update_of_ne hu]
  | 1, h, _ =>
    exact ⟨_, w, startAccess_one, h.of_links (by decide) rfl (h.active (by decide)) fun _ _ =>
      rfl, .refl w,
      fun hk => by omega, fun _ => rfl⟩
  | 2, h, _ =>
    exact ⟨r, _, startAccess_two, h.of_links (by decide) rfl (h.active (by decide)) fun _ _ => rfl,
      ⟨rfl, ⟨[.start t], rfl, rfl⟩, fun _ => rfl⟩, fun hk => by omega, fun _ => rfl⟩
  | 3, h, _ =>
    have hclosed : TimerList m w l := h.list.timerList
    refine ⟨_, w, startAccess_three, h.of_links (by decide) rfl (h.active (by decide)) fun _ _ =>
      rfl, .refl w, ?_, fun _ => rfl⟩
    intro _
    exact next_list hclosed
  | 4, h, hn =>
    have hclosed : TimerList m w l := h.list.timerList
    have hnext : r.next = posOf m l := hn (.inl rfl)
    have hpos : r.next ≠ 0 := hnext ▸ posOf_ne_zero_of_block hclosed.block
    have hring := open_ring hclosed.ring h.block hclosed.block h.fresh
    rw [← hnext] at hring
    obtain ⟨h', hkeep⟩ := h.of_list (by decide) hring
    refine ⟨r, _, startAccess_four hpos, h', hkeep, fun _ => hnext, ?_⟩
    intro _
    exact setPrev_next _ _ _
  | 5, h, hn =>
    have hring : RingBut [timerNode t] [timerNode t, m.list] w.links m.list
        ((t :: l).map timerNode) := h.list.ring
    have hnext : r.next = posOf m l := hn (.inr rfl)
    have hvalue : ∀ N, NodeRing N m.list (([] ++ t :: l).map timerNode) →
        (N (timerNode t)).next = r.next :=
      fun N hN => (ring_next_node hN).trans hnext.symm
    obtain ⟨h', hkeep⟩ := h.of_list (by decide) (hring.store_next hvalue)
    refine ⟨r, _, startAccess_five hnode, h', hkeep, fun hk => by omega, ?_⟩
    intro _
    show (setNext w.links (timerNode t) r.next m.list).next = _
    rw [setNext_next, if_neg hnl.symm]
  | 6, h, _ =>
    have hring : RingBut [timerNode t] [m.list] w.links m.list ((t :: l).map timerNode) :=
      h.list.ring
    obtain ⟨h', hkeep⟩ := h.of_list (by decide) (hring.store_prev fun N hN => hN.adj_cons.2)
    refine ⟨r, _, startAccess_six hnode, h', hkeep, fun hk => by omega, ?_⟩
    intro _
    exact setPrev_next _ _ _
  | 7, h, _ =>
    have hring : RingBut [] [m.list] w.links m.list ((t :: l).map timerNode) := h.list.ring
    obtain ⟨h', hkeep⟩ := h.of_list (by decide) (hring.store_next fun N hN => hN.adj_cons.1)
    exact ⟨r, _, startAccess_seven, h', hkeep, fun hk => by omega, fun hk => by omega⟩
  | k + 8, h, _ =>
    exact ⟨r, w, rfl, ⟨h.block, h.fresh, fun _ => h.active (by omega), h.list⟩, .refl w,
      fun hk => by omega, fun hk => by omega⟩

/-- The next `n` accesses. -/
theorem run (h : StartedTo m t k l w) (hn : NextLoaded m k l r) :
    ∃ r' w', runAccesses t m.addr k n r w = .ok r' w' ∧ StartedTo m t (k + n) l w' ∧
      StartKeeps w w' ∧
      NextLoaded m (k + n) l r' ∧ (k + n < 8 → (w'.links m.list).next = (w.links m.list).next) := by
  induction n generalizing k r w with
  | zero => exact ⟨r, w, rfl, h, .refl w, hn, fun _ => rfl⟩
  | succ n ih =>
    obtain ⟨r₁, w₁, hrun, h₁, hkeep, hn₁, hhead⟩ := h.access hn
    obtain ⟨r', w', hrest, h', hkeep', hn', hhead'⟩ := ih h₁ hn₁
    have hk : k + (n + 1) = k + 1 + n := by omega
    rw [hk]
    refine ⟨r', w', ?_, h', hkeep.trans hkeep', hn', ?_⟩
    · rw [runAccesses, bind_run hrun]
      exact hrest
    · intro hlt
      rw [hhead' hlt, hhead (by omega)]

end StartedTo

theorem linkedTimers_append (t : Nat) (l : List Nat) (k : Nat) :
    linkedTimers t l k = linkedTimers t [] k ++ l := by
  match k with
  | 0 | 1 | 2 | 3 | 4 => rfl
  | k + 5 => rfl

theorem openPrev_or (t k : Nat) : openPrev t k = [timerNode t] ∨ openPrev t k = [] := by
  unfold openPrev
  split <;> simp

theorem openNext_sub (m : Manager) (t k : Nat) : ∀ x ∈ openNext m t k, x = timerNode t ∨
    x = m.list := by
  unfold openNext
  split <;> simp

/-- The interrupt after `k` accesses. -/
theorem StartedTo.irq (h : StartedTo m t k l w) (C : QuietClient ε m) {fuel : Nat}
    (hhead : (w.links m.list).next = posOf m l) (hbl : ∀ u ∈ l, TimerBlock m u) (hnd : l.Nodup)
    (hi : C.inv w.env (t :: l)) (hf : l.length < fuel) :
    ∃ w' evs, timerIrqHandler C.callbacks C.free fuel m.addr w = .ok 0 w' ∧ w'.log = w.log ++ evs ∧
      evs.filterMap TimerEvent.freed = oneshots w l ∧ StartedTo m t k (periodics w l) w' := by
  have hlist := h.list
  rw [linkedTimers_append] at hlist
  have hclosed : ∀ u ∈ l, timerNode u ∉ openPrev t k ∧ timerNode u ∉ openNext m t k := by
    intro u hu
    have hut : timerNode u ≠ timerNode t := fun e => h.fresh ((hbl u hu).node_inj h.block e ▸ hu)
    constructor
    · rcases openPrev_or t k with e | e
      · rw [e]
        simpa using hut
      · rw [e]
        exact List.not_mem_nil
    · intro hm
      rcases openNext_sub m t k _ hm with e | e
      · exact hut e
      · exact (hbl u hu).node_ne_list e
  have hsub : ∀ u ∈ linkedTimers t [] k, u ∈ [t] := by
    intro u hu
    match k, hu with
    | k + 5, hu => exact hu
  have hnd' : ([t] ++ l).Nodup := List.nodup_cons.mpr ⟨h.fresh, hnd⟩
  obtain ⟨w', evs, hrun, hlog, hfreed, hlist', hduty⟩ :=
    C.irq_run hlist hhead hclosed hsub hnd' hi hf
  refine ⟨w', evs, hrun, hlog, hfreed, ⟨h.block, ?_, ?_, ?_⟩⟩
  · exact fun hm => h.fresh (List.mem_filter.mp hm).1
  · intro hk
    rw [← h.active hk]
    exact congrArg Prod.fst (hduty t (by simp))
  · rw [linkedTimers_append]
    exact hlist'

/-- The link stores, whatever the interrupt has left of the list. -/
theorem runAccesses_stores (hb : TimerBlock m t) (hr : r.next ≠ 0) (hk : k = 4 ∨ k = 5) :
    ∃ w', runAccesses t m.addr k (8 - k) r w = .ok r w' ∧ w'.log = w.log ∧
      (w'.links m.list).next = timerNode t ∧ (w'.links (timerNode t)).next = r.next := by
  have hnode := hb.node_ne_zero
  have hnl := hb.node_ne_list
  have hlast : ∀ v : TimerWorld ε, ∃ w', runAccesses t m.addr 5 3 r v = .ok r w' ∧ w'.log = v.log ∧
      (w'.links m.list).next = timerNode t ∧ (w'.links (timerNode t)).next = r.next := by
    intro v
    let L := setNext (setPrev (setNext v.links (timerNode t) r.next) (timerNode t) m.list) m.list
      (timerNode t)
    refine ⟨{ v with links := L }, ?_, rfl, ?_, ?_⟩
    · rw [runAccesses, bind_run (startAccess_five hnode), runAccesses,
        bind_run (startAccess_six hnode), runAccesses, bind_run startAccess_seven]
      rfl
    · simp [L]
    · simp [L, hnl]
  rcases hk with rfl | rfl
  · obtain ⟨w', hrun, hlog, hrest⟩ := hlast { w with links := setPrev w.links r.next (timerNode t) }
    refine ⟨w', ?_, hlog, hrest⟩
    show runAccesses t m.addr 4 4 r w = _
    rw [runAccesses, bind_run (startAccess_four hr)]
    exact hrun
  · exact hlast w

/-- A list whose head leads to `t`, and `t` to `u`, holds `u`. -/
theorem TimerList.mem_second {u : Nat} (h : TimerList m w l) (ht : TimerBlock m t)
    (hu : TimerBlock m u) (hhead : (w.links m.list).next = timerNode t)
    (hnode : (w.links (timerNode t)).next = timerNode u) :
    u ∈ l := by
  rw [next_list h] at hhead
  cases l with
  | nil => exact absurd hhead.symm ht.node_ne_list
  | cons x l =>
    have hx : x = t := (h.block x List.mem_cons_self).node_inj ht hhead
    subst hx
    have h₀ : TimerList m w ([] ++ x :: l) := h
    rw [next_node h₀] at hnode
    cases l with
    | nil => exact absurd hnode.symm hu.node_ne_list
    | cons y l =>
      have hy : y = u := (h.block y (by simp)).node_inj hu hnode
      simp [hy]

end Started

/-! ## Every interruption point -/

section Survives

variable {ε : Type} {config : TimerConfig} {m : Manager} {w w' : TimerWorld ε} {l : List Nat}
  {manager t k fuel : Nat}

/-- Once `start_timer` of `t` and the interrupt are through, the list is well formed; it holds `t`,
if `t` is not a one-shot timer that has fired, and the periodic timers of `l`, each once, and no
freed timer. -/
def StartSurvives (m : Manager) (w : TimerWorld ε) (l : List Nat) (t : Nat) (w' : TimerWorld ε) :
    Prop :=
  ∃ evs l', w'.log = w.log ++ evs ∧ TimerList m w' l' ∧ l'.Nodup ∧
    (t ∈ l' ∨ (w.timers t).isPeriodic = false ∧ .free t ∈ evs) ∧
    (∀ u ∈ l, (w.timers u).isPeriodic = true → u ∈ l') ∧ ∀ u, .free u ∈ evs → u ∉ l'

theorem mem_freed {evs : List TimerEvent} : .free t ∈ evs ↔ t ∈ evs.filterMap TimerEvent.freed := by
  rw [List.mem_filterMap]
  constructor
  · intro h
    exact ⟨_, h, rfl⟩
  · rintro ⟨e, he, hfreed⟩
    cases e with
    | free u =>
      cases hfreed
      exact he
    | call t callback arg => cases hfreed
    | start t => cases hfreed
    | unlink t => cases hfreed

/-- Uninterrupted, the accesses are `start_timer`. -/
theorem startTimer_accesses (h : TimerList m w l) (hf : Fresh m w t)
    (hm : StartsOn config m manager w) :
    ∃ r w', startTimer config t manager w = .ok 0 w' ∧
      runAccesses t m.addr 0 8 ⟨0, 0⟩ w = .ok r w' := by
  obtain ⟨hb, hnl⟩ := h.fresh_iff.mp hf
  have hnode := hb.node_ne_zero
  have hhead : timerList m.addr ≠ 0 := TimerBlock.list_ne_zero m
  have hnext : (w.links m.list).next ≠ 0 := next_list h ▸ posOf_ne_zero_of_block h.block
  have hadd : listAdd (timerNode t) (timerList m.addr) w.links =
      some (linkBetween w.links (timerNode t) m.list (w.links m.list).next) := by
    rw [listAdd, loadNext, if_neg hhead]
    exact listAddBetween_eq hnode hhead hnext
  refine ⟨⟨(w.managers m.addr).nrTimers, (w.links m.list).next⟩, _,
    startTimer_eq hb.ne_zero hm hadd, ?_⟩
  rw [runAccesses, bind_run (startAccess_zero hb.ne_zero), runAccesses, bind_run startAccess_one,
    runAccesses, bind_run startAccess_two, runAccesses, bind_run startAccess_three, runAccesses,
    bind_run (startAccess_four hnext), runAccesses, bind_run (startAccess_five hnode), runAccesses,
    bind_run (startAccess_six hnode), runAccesses, bind_run startAccess_seven, runAccesses]
  dsimp only [startedWorld, linkBetween]
  rfl

theorem startInterrupted_run {callbacks : Nat → Nat → Nat → TimerM ε Unit}
    {free : Nat → TimerM ε Unit} {r r' : StartRegs} {w₁ w₂ : TimerWorld ε} {i : Int} (ht : t ≠ 0)
    (hm : StartsOn config m manager w) (hbefore : runAccesses t m.addr 0 k ⟨0, 0⟩ w = .ok r w₁)
    (hirq : timerIrqHandler callbacks free fuel m.addr w₁ = .ok i w₂)
    (hafter : runAccesses t m.addr k (8 - k) r w₂ = .ok r' w') :
    startInterrupted callbacks free fuel m.addr config t manager k w = .ok 0 w' := by
  unfold startInterrupted
  rw [if_neg ht, bind_run hm, if_neg (Nat.ne_of_gt m.pos), bind_run hbefore, bind_run hirq,
    bind_run hafter]
  rfl

/-- The list after an interrupt that took the one-shot timers of `l`. -/
theorem startSurvives_of_periodics {evs : List TimerEvent} (hlog : w'.log = w.log ++ evs)
    (hfreed : evs.filterMap TimerEvent.freed = oneshots w l) (ht : t ∉ l)
    (hlist : TimerList m w' (t :: periodics w l)) : StartSurvives m w l t w' := by
  refine ⟨evs, _, hlog, hlist, hlist.nodup, .inl List.mem_cons_self, ?_, ?_⟩
  · intro u hu hp
    exact List.mem_cons_of_mem _ (List.mem_filter.mpr ⟨hu, hp⟩)
  · intro u hu hm
    rw [mem_freed, hfreed] at hu
    obtain ⟨hul, hone⟩ := List.mem_filter.mp hu
    rcases List.mem_cons.mp hm with rfl | hm
    · exact ht hul
    · simp [(List.mem_filter.mp hm).2] at hone

/-- After the last access the interrupt serves `t` too. -/
theorem startSurvives_of_served {evs : List TimerEvent} (hlog : w'.log = w.log ++ evs)
    (hfreed : evs.filterMap TimerEvent.freed = oneshots w (t :: l))
    (hlist : TimerList m w' (periodics w (t :: l))) : StartSurvives m w l t w' := by
  refine ⟨evs, _, hlog, hlist, hlist.nodup, ?_, ?_, ?_⟩
  · by_cases hp : (w.timers t).isPeriodic = true
    · exact .inl (List.mem_filter.mpr ⟨List.mem_cons_self, hp⟩)
    · refine .inr ⟨by simpa using hp, ?_⟩
      rw [mem_freed, hfreed]
      exact List.mem_filter.mpr ⟨List.mem_cons_self, by simpa using hp⟩
  · intro u hu hp
    exact List.mem_filter.mpr ⟨List.mem_cons_of_mem _ hu, hp⟩
  · intro u hu hm
    rw [mem_freed, hfreed] at hu
    simpa [(List.mem_filter.mp hm).2] using (List.mem_filter.mp hu).2

/-- The interrupt comes after the load of `head->next` and before the store of `node->next`. -/
def NextInHand (k : Nat) : Prop := k = 4 ∨ k = 5

instance (k : Nat) : Decidable (NextInHand k) := inferInstanceAs (Decidable (_ ∨ _))

/-- **The interrupted `start_timer` loses the list** if it still has to store the `next` that it
loaded and that is the node of a one-shot timer. -/
theorem start_loses_list (C : QuietClient ε m) {u : Nat} (h : TimerList m w (u :: l))
    (hf : Fresh m w t) (hm : StartsOn config m manager w) (hi : C.inv w.env (t :: u :: l))
    (hk : NextInHand k) (hu : (w.timers u).isPeriodic = false) (hfuel : (u :: l).length < fuel) :
    ∃ w', startInterrupted C.callbacks C.free fuel m.addr config t manager k w = .ok 0 w' ∧
      ¬ StartSurvives m w (u :: l) t w' := by
  obtain ⟨hb, hnl⟩ := h.fresh_iff.mp hf
  have hbu : TimerBlock m u := h.block u List.mem_cons_self
  have hload : NextLoaded m 0 (u :: l) ⟨0, 0⟩ := by
    intro h0
    omega
  obtain ⟨r, w₁, hbefore, h₁, hkeep, hn, hhead⟩ := (StartedTo.start h hb hnl).run (n := k) hload
  rw [Nat.zero_add] at h₁ hn hhead
  have hnext : r.next = timerNode u := hn hk
  have hlt : k < 8 := by
    unfold NextInHand at hk
    omega
  obtain ⟨w₂, evs, hirq, hlog₂, hfreed, -⟩ :=
    h₁.irq C (by rw [hhead hlt]; exact next_list h) h.block h.nodup
    (hkeep.env ▸ hi) hfuel
  obtain ⟨w', hafter, hlog', hhead', hnode'⟩ :=
    runAccesses_stores (w := w₂) hb (hnext ▸ hbu.node_ne_zero) hk
  refine ⟨w', startInterrupted_run hb.ne_zero hm hbefore hirq hafter, ?_⟩
  rintro ⟨evs', l', hlog, hlist, -, -, -, hno⟩
  -- the trace tells that `u` has been freed
  obtain ⟨evs₀, hlog₀, -⟩ := hkeep.log
  have hevs : evs' = evs₀ ++ evs := by
    rw [hlog', hlog₂, hlog₀, List.append_assoc] at hlog
    exact (List.append_cancel_left hlog).symm
  have hufreed : TimerEvent.free u ∈ evs' := by
    rw [hevs]
    apply List.mem_append_right
    rw [mem_freed, hfreed]
    exact List.mem_filter.mpr ⟨List.mem_cons_self, by simp [hkeep.periodic u, hu]⟩
  exact hno u hufreed (hlist.mem_second hb hbu hhead' (hnode'.trans hnext))

/-- Elsewhere, and if the first timer stays, it keeps the list. -/
theorem start_keeps_list (C : QuietClient ε m) (h : TimerList m w l) (hf : Fresh m w t)
    (hm : StartsOn config m manager w) (hi : C.inv w.env (t :: l))
    (hk : NextInHand k → posOf m (periodics w l) = posOf m l) (hfuel : l.length + 1 < fuel) :
    ∃ w', startInterrupted C.callbacks C.free fuel m.addr config t manager k w = .ok 0 w' ∧
      StartSurvives m w l t w' := by
  obtain ⟨hb, hnl⟩ := h.fresh_iff.mp hf
  have hload : NextLoaded m 0 l ⟨0, 0⟩ := by
    intro h0
    omega
  obtain ⟨r, w₁, hbefore, h₁, hkeep, hn, hhead⟩ := (StartedTo.start h hb hnl).run (n := k) hload
  rw [Nat.zero_add] at h₁ hn hhead
  obtain ⟨evs₀, hlog₀, hfreed₀⟩ := hkeep.log
  have hper : ∀ l', periodics w₁ l' = periodics w l' := by
    intro l'
    exact List.filter_congr fun u _ => by rw [hkeep.periodic u]
  have hone : ∀ l', oneshots w₁ l' = oneshots w l' := by
    intro l'
    exact List.filter_congr fun u _ => by rw [hkeep.periodic u]
  by_cases hlt : k < 8
  · obtain ⟨w₂, evs, hirq, hlog₂, hfreed, h₂⟩ :=
      h₁.irq C (by rw [hhead hlt]; exact next_list h) h.block h.nodup
      (hkeep.env ▸ hi) (Nat.lt_of_succ_lt hfuel)
    rw [hper] at h₂
    have hload₂ : NextLoaded m k (periodics w l) r := fun hc => (hn hc).trans (hk hc).symm
    obtain ⟨r', w', hafter, h', hkeep', -, -⟩ := h₂.run (n := 8 - k) hload₂
    obtain ⟨evs₁, hlog₁, hfreed₁⟩ := hkeep'.log
    rw [Nat.add_sub_of_le (Nat.le_of_lt hlt)] at h'
    have hlog : w'.log = w.log ++ (evs₀ ++ evs ++ evs₁) := by
      rw [hlog₁, hlog₂, hlog₀]
      simp only [List.append_assoc]
    have hfreed' : (evs₀ ++ evs ++ evs₁).filterMap TimerEvent.freed = oneshots w l := by
      rw [List.filterMap_append, List.filterMap_append, hfreed₀, hfreed, hfreed₁, hone]
      simp
    exact ⟨w', startInterrupted_run hb.ne_zero hm hbefore hirq hafter,
      startSurvives_of_periodics hlog hfreed' hnl h'.done⟩
  · obtain ⟨k, rfl⟩ : ∃ j, k = j + 8 := ⟨k - 8, by omega⟩
    have hlist₁ : TimerList m w₁ (t :: l) := h₁.list.timerList
    have hlist₀ : OpenList m [] [] w₁ ([] ++ t :: l) := hlist₁.closed
    have hi₁ : C.inv w₁.env ([] ++ t :: l) := hkeep.env ▸ hi
    obtain ⟨w₂, evs, hirq, hlog₂, hfreed, hlist₂, -⟩ := C.irq_run hlist₀ (next_list hlist₁)
      (fun _ _ => ⟨List.not_mem_nil, List.not_mem_nil⟩) (fun _ hu => hu) hlist₁.nodup hi₁ hfuel
    have hafter : runAccesses t m.addr (k + 8) (8 - (k + 8)) r w₂ = .ok r w₂ := by
      rw [show 8 - (k + 8) = 0 by omega]
      rfl
    have hlist₂ := hlist₂.timerList
    rw [hper] at hlist₂
    have hlog : w₂.log = w.log ++ (evs₀ ++ evs) := by
      rw [hlog₂, hlog₀, List.append_assoc]
    have hfreed' : (evs₀ ++ evs).filterMap TimerEvent.freed = oneshots w (t :: l) := by
      rw [List.filterMap_append, hfreed₀, hfreed, hone, List.nil_append]
    exact ⟨w₂, startInterrupted_run hb.ne_zero hm hbefore hirq hafter,
      startSurvives_of_served hlog hfreed' hlist₂⟩

/-- **`start_timer` survives the interrupt** if and only if the interrupt does not come while the
`next` of the head is in hand, or the list is empty, or its first timer is periodic. -/
theorem start_survives_iff (C : QuietClient ε m) (h : TimerList m w l) (hf : Fresh m w t)
    (hm : StartsOn config m manager w) (hi : C.inv w.env (t :: l)) (k : Nat)
    (hfuel : l.length + 1 < fuel) :
    ∃ w', startInterrupted C.callbacks C.free fuel m.addr config t manager k w = .ok 0 w' ∧
      (StartSurvives m w l t w' ↔ ¬ NextInHand k ∨
        ∀ u ∈ l.head?, (w.timers u).isPeriodic = true) := by
  by_cases hgood : ¬ NextInHand k ∨ ∀ u ∈ l.head?, (w.timers u).isPeriodic = true
  · have hfirst : NextInHand k → posOf m (periodics w l) = posOf m l := by
      intro hk
      have hhead := hgood.resolve_left (not_not.mpr hk)
      cases l with
      | nil => rfl
      | cons u l =>
        have hu : (w.timers u).isPeriodic = true := hhead u rfl
        have hper : periodics w (u :: l) = u :: periodics w l := List.filter_cons_of_pos hu
        rw [hper]
        rfl
    obtain ⟨w', hrun, hs⟩ := start_keeps_list C h hf hm hi hfirst hfuel
    exact ⟨w', hrun, fun _ => hgood, fun _ => hs⟩
  · have hk : NextInHand k := by
      by_contra hk
      exact hgood (.inl hk)
    cases l with
    | nil => exact absurd (.inr fun u hu => by cases hu) hgood
    | cons u l =>
      have hu : (w.timers u).isPeriodic = false := by
        by_contra hp
        refine hgood (.inr ?_)
        rintro v hv
        cases hv
        simpa using hp
      obtain ⟨w', hrun, hs⟩ := start_loses_list C h hf hm hi hk hu (Nat.lt_of_succ_lt hfuel)
      exact ⟨w', hrun, fun h' => absurd h' hs, fun h' => absurd h' hgood⟩

end Survives

/-! ## Two interrupted starts -/

/-- Callbacks and a `free` that do nothing. -/
def idleClient : QuietClient Nat exampleManager where
  callbacks _ _ _ := pure ()
  free _ := pure ()
  inv _ _ := True
  call_ok w _ _ _ _ _ := ⟨w, rfl, ⟨rfl, rfl, fun _ _ => rfl, fun _ _ => rfl⟩, trivial⟩
  free_ok w _ _ _ _ := ⟨w, rfl, ⟨rfl, rfl, fun _ _ => rfl, fun _ _ => rfl⟩, trivial⟩

/-- The one-shot timer 24640 is the first on the list, and 24704 is not on it. -/
theorem exampleTwo_list :
    TimerList exampleManager exampleTwo [24640, 24576] ∧ Fresh exampleManager exampleTwo 24704 := by
  have hinv : TimerInv exampleClient exampleTwo :=
    exampleTwo_reached.invariant (fun _ _ _ => TimerInv.step) exampleReady_inv
  have hlist : TimerList exampleManager exampleTwo [24640, 24576] := hinv.list
  have hblock : TimerBlock exampleManager 24704 := ⟨by decide, by decide, .inr (by decide)⟩
  exact ⟨hlist, hlist.fresh_iff.mpr ⟨hblock, by decide⟩⟩

/-- Between the stores of the two links of the new node. -/
theorem start_survives_example :
    ∃ w', startInterrupted idleClient.callbacks idleClient.free 4 20480 exampleConfig 24704 20480 6
      exampleTwo =
        .ok 0 w' ∧ StartSurvives exampleManager exampleTwo [24640, 24576] 24704 w' := by
  obtain ⟨w', hrun, hiff⟩ := start_survives_iff idleClient exampleTwo_list.1 exampleTwo_list.2
    (show StartsOn exampleConfig exampleManager 20480 exampleTwo from rfl) trivial 6
    (show [24640, 24576].length + 1 < 4 by decide)
  exact ⟨w', hrun, hiff.mpr (.inl (by decide))⟩

/-- **The interrupt comes right after `head->next` is loaded**: the one-shot timer it frees is
linked in again. -/
theorem start_links_freed :
    TimerList exampleManager exampleTwo [24640, 24576] ∧ Fresh exampleManager exampleTwo 24704 ∧
      ∃ w', startInterrupted idleClient.callbacks idleClient.free 4 20480 exampleConfig 24704 20480
        4
          exampleTwo = .ok 0 w' ∧
        ¬ StartSurvives exampleManager exampleTwo [24640, 24576] 24704 w' := by
  obtain ⟨hlist, hfresh⟩ := exampleTwo_list
  exact ⟨hlist, hfresh, start_loses_list idleClient hlist hfresh
    (show StartsOn exampleConfig exampleManager 20480 exampleTwo from rfl) trivial (.inl rfl) rfl
      (by decide)⟩

end ZHyper
