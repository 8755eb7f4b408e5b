import ZHyper.Heap.Sections
import ZHyper.Timer.Runs

/-!
# One heap for the mainline and the timer interrupt

The environment of the timers is the heap here, and `free` in the interrupt is `miniheap_free` on it
(`heapFree`).  `callInterrupted` takes the interrupt between two accesses of a `malloc` or a `free`
of the mainline, which nothing masks.

The interrupt frees the one-shot timers of the list one by one, so what every `free` of one of them
keeps holds after it (`timerIrqHandler_frees`).  With `Waiting` for what is kept, every call that is
interrupted outside its critical sections completes, and with it a run of the whole system keeps the
heap (`heap_survives_irq`).
-/

namespace ZHyper

open LowLevel LowLevel.Prog

/-! ## The heap under the interrupt -/

/-- `p` on the heap; `live` is what it does to the allocations. -/
def onHeap {α : Type} (p : Prog α) (live : α → List Alloc → List Alloc) : TimerM HeapSys α :=
  fun w =>
  match p.exec w.env.mem with
  | .ret x mem => .ok x { w with env := ⟨mem, live x w.env.live⟩ }
  | .panic _ mem => .error .panic { w with env := ⟨mem, w.env.live⟩ }
  | .diverge mem => .error .endless { w with env := ⟨mem, w.env.live⟩ }

def heapFree (heap t : Nat) : TimerM HeapSys Unit := onHeap (free heap t) fun _ => dropLive t

/-- The first `k` accesses of a call. -/
def callAccesses (heap : Nat) (c : HeapCall) (k : Nat) : TimerM HeapSys (Prog Nat) := fun w =>
  let r := (c.prog heap).after k w.env.mem
  .ok r.1 { w with env := ⟨r.2, w.env.live⟩ }

/-- A call with `timer_irq_handler` taken after `k` of its accesses. -/
def callInterrupted (callbacks : Nat → Nat → Nat → TimerM HeapSys Unit) (fuel heap manager : Nat)
    (c : HeapCall) (k : Nat) : TimerM HeapSys Nat := do
  let rest ← callAccesses heap c k
  let _ ← timerIrqHandler callbacks (heapFree heap) fuel manager
  onHeap rest fun x l => c.live x l

/-- The callbacks of the timers of `m` keep off the list and the heap. -/
def QuietCallbacks (m : Manager) (callbacks : Nat → Nat → Nat → TimerM HeapSys Unit) : Prop :=
  ∀ w l t, TimerList m w l → t ∈ l → (w.timers t).callback ≠ 0 →
    ∃ w', callbacks (w.timers t).callback t (w.timers t).arg w = .ok () w' ∧ Untouched m w w' ∧
      w'.env = w.env

/-- What is live when the timers `ts` have been freed. -/
def dropTimers (ts : List Nat) (live : List Alloc) : List Alloc := live.filter fun a => a.ptr ∉ ts

theorem mem_dropTimers {ts : List Nat} {live : List Alloc} {a : Alloc} :
    a ∈ dropTimers ts live ↔ a ∈ live ∧ a.ptr ∉ ts := by
  simp only [dropTimers, List.mem_filter, decide_eq_true_eq]

theorem dropTimers_nil (live : List Alloc) : dropTimers [] live = live :=
  List.filter_eq_self.mpr fun a _ => by simp

theorem dropTimers_singleton (t : Nat) (live : List Alloc) :
    dropTimers [t] live = dropLive t live := by
  unfold dropTimers dropLive
  simp only [List.mem_singleton, ne_eq]

theorem dropTimers_append (ts ts' : List Nat) (live : List Alloc) :
    dropTimers (ts ++ ts') live = dropTimers ts' (dropTimers ts live) := by
  unfold dropTimers
  rw [List.filter_filter]
  apply List.filter_congr
  intro a _
  simp only [List.mem_append, not_or, Bool.decide_and, Bool.and_comm]

section

variable {m : Manager} {callbacks : Nat → Nat → Nat → TimerM HeapSys Unit} {heap : Nat}
  {P : HeapSys → Prop} {w w' : TimerWorld HeapSys} {l front rest : List Nat} {t : Nat}

theorem onHeap_run {α : Type} {p : Prog α} {f : α → List Alloc → List Alloc} {x : α} {mem : Mem}
    (h : p.exec w.env.mem = .ret x mem) :
    onHeap p f w = .ok x { w with env := ⟨mem, f x w.env.live⟩ } := by
  unfold onHeap
  rw [h]

theorem heapFree_run {mem : Mem} (h : (free heap t).exec w.env.mem = .ret () mem) :
    heapFree heap t w = .ok () { w with env := ⟨mem, dropLive t w.env.live⟩ } := onHeap_run h

theorem timerIrqCall_quiet (hq : QuietCallbacks m callbacks) (h : TimerList m w l) (ht : t ∈ l) :
    ∃ w', timerIrqCall callbacks t w = .ok () w' ∧ TimerList m w' l ∧
      (∀ u ∈ l, (w'.timers u).duty = (w.timers u).duty) ∧ w'.env = w.env := by
  unfold timerIrqCall
  rw [bind_run (loadTimer_run (h.block t ht).ne_zero)]
  by_cases hc : (w.timers t).callback = 0
  · rw [if_neg (not_not.mpr hc)]
    exact ⟨w, rfl, h, fun _ _ => rfl, rfl⟩
  · rw [if_pos hc, bind_run (record_run _)]
    have hrec : TimerList m
        { w with log := w.log ++ [.call t (w.timers t).callback (w.timers t).arg] } l :=
          h.same rfl rfl
    obtain ⟨w', hrun, hu, henv⟩ := hq _ l t hrec ht hc
    exact ⟨w', hrun, hrec.untouched hu, fun u hu' => hu.duty u ⟨l, hrec, hu'⟩, henv⟩

/-- What every `free` of a timer in `ts` keeps. -/
def FreesKeep (heap : Nat) (P : HeapSys → Prop) (ts : List Nat) : Prop :=
  ∀ s a, P s → a ∈ s.live → a.ptr ∈ ts →
    ∃ mem, (free heap a.ptr).exec s.mem = .ret () mem ∧ P ⟨mem, dropLive a.ptr s.live⟩

/-- **One round of the walk**: a one-shot timer is freed. -/
theorem timerIrqBody_frees (hq : QuietCallbacks m callbacks)
    (h : TimerList m w (front ++ t :: rest)) (hlive : ∃ a ∈ w.env.live, a.ptr = t)
    (hfree : FreesKeep heap P (oneshots w [t])) (hP : P w.env) :
    ∃ w', timerIrqBody callbacks (heapFree heap) (timerNode t) w = .ok () w' ∧
      TimerList m w' (front ++ (periodics w [t] ++ rest)) ∧
      (∀ u ∈ front ++ (periodics w [t] ++ rest), (w'.timers u).duty = (w.timers u).duty) ∧
      w'.env.live = dropTimers (oneshots w [t]) w.env.live ∧ P w'.env := by
  have ht : t ∈ front ++ t :: rest := by simp
  have hb : TimerBlock m t := h.block t ht
  obtain ⟨w₁, hcall, h₁, hduty₁, henv₁⟩ := timerIrqCall_quiet hq h ht
  have hper₁ : (w₁.timers t).isPeriodic = (w.timers t).isPeriodic := (duty_eq (hduty₁ t ht)).1
  have hbody : timerIrqBody callbacks (heapFree heap) (timerNode t) w =
      timerIrqReap (heapFree heap) t w₁ := by
    unfold timerIrqBody
    rw [hb.listEntry_node, bind_run (loadTimer_run hb.ne_zero), if_pos (h.active t ht),
      bind_run hcall]
  rw [hbody]
  cases hc : (w.timers t).isPeriodic with
  | true =>
    have hper : periodics w [t] = [t] := by simp [periodics, hc]
    have hone : oneshots w [t] = [] := by simp [oneshots, hc]
    rw [hper, hone, timerIrqReap_periodic hb.ne_zero (hper₁.trans hc)]
    refine ⟨w₁, rfl, h₁, hduty₁, ?_, henv₁ ▸ hP⟩
    rw [henv₁]
    exact (dropTimers_nil _).symm
  | false =>
    have hper : periodics w [t] = [] := by simp [periodics, hc]
    have hone : oneshots w [t] = [t] := by simp [oneshots, hc]
    obtain ⟨L, hdel, hlist⟩ := reapedWorld_timerList h₁
    obtain ⟨a, ha, rfl⟩ := hlive
    obtain ⟨mem, hrun, hP'⟩ := hfree w.env a hP ha (by simp [hone])
    have hrun : (free heap a.ptr).exec (reapedWorld a.ptr L w₁).env.mem = .ret () mem :=
      henv₁ ▸ hrun
    rw [hper, hone, List.nil_append, timerIrqReap_oneshot hb.ne_zero (hper₁.trans hc) hdel,
      heapFree_run hrun]
    have hlive₁ : (reapedWorld a.ptr L w₁).env.live = w.env.live := congrArg HeapSys.live henv₁
    rw [hlive₁]
    refine ⟨_, rfl, hlist.same rfl rfl, ?_, ?_, hP'⟩
    · intro u hu
      have hne : u ≠ a.ptr := by
        rintro rfl
        exact (List.nodup_cons.mp (List.nodup_middle.mp h.nodup)).1 hu
      show (Function.update w₁.timers a.ptr _ u).duty = _
      rw [Function.update_of_ne hne]
      apply hduty₁ u
      exact List.mem_append.mpr ((List.mem_append.mp hu).imp_right (List.mem_cons_of_mem _))
    · exact (dropTimers_singleton a.ptr w.env.live).symm

/-- The walk that started in `w` is past the timers `done`, with `rest` still ahead. -/
structure Freeing (m : Manager) (P : HeapSys → Prop) (w : TimerWorld HeapSys) (done rest : List Nat)
    (w' : TimerWorld HeapSys) : Prop where
  list : TimerList m w' (periodics w done ++ rest)
  duty : ∀ u ∈ periodics w done ++ rest, (w'.timers u).duty = (w.timers u).duty
  live : w'.env.live = dropTimers (oneshots w done) w.env.live
  kept : P w'.env

theorem Freeing.round {done : List Nat} (hq : QuietCallbacks m callbacks)
    (h : Freeing m P w done (t :: rest) w') (hnd : (done ++ t :: rest).Nodup)
    (hlive : ∃ a ∈ w.env.live, a.ptr = t)
    (hfree : FreesKeep heap P (oneshots w (done ++ t :: rest))) :
    ∃ w₁, timerIrqBody callbacks (heapFree heap) (timerNode t) w' = .ok () w₁ ∧
      Freeing m P w (done ++ [t]) rest w₁ := by
  have ht : ∀ u ∈ [t], (w'.timers u).duty = (w.timers u).duty := by
    intro u hu
    exact h.duty u (by simp [List.mem_singleton.mp hu])
  have hper : periodics w (done ++ [t]) = periodics w done ++ periodics w [t] :=
    List.filter_append ..
  have hone : oneshots w (done ++ [t]) = oneshots w done ++ oneshots w [t] := List.filter_append ..
  -- `t` is not among the timers that are gone
  have hlive' : ∃ a ∈ w'.env.live, a.ptr = t := by
    obtain ⟨a, ha, rfl⟩ := hlive
    refine ⟨a, ?_, rfl⟩
    rw [h.live]
    refine mem_dropTimers.mpr ⟨ha, fun hm => ?_⟩
    have hdone := (List.mem_filter.mp hm).1
    exact (List.nodup_cons.mp (List.nodup_middle.mp hnd)).1 (List.mem_append_left _ hdone)
  have hfree' : FreesKeep heap P (oneshots w' [t]) := by
    rw [oneshots_congr ht]
    intro s a hs ha hm
    refine hfree s a hs ha (List.mem_filter.mpr ⟨?_, (List.mem_filter.mp hm).2⟩)
    exact List.mem_append_right _
      (List.mem_cons.mpr (.inl (List.mem_singleton.mp (List.mem_filter.mp hm).1)))
  obtain ⟨w₁, hbody, hlist, hduty, hdrop, hP⟩ := timerIrqBody_frees hq h.list hlive' hfree' h.kept
  rw [periodics_congr ht, ← List.append_assoc, ← hper] at hlist hduty
  refine ⟨w₁, hbody, hlist, ?_, ?_, hP⟩
  · intro u hu
    rw [hduty u hu]
    apply h.duty u
    rw [hper] at hu
    simp only [List.mem_append, List.mem_cons] at hu ⊢
    rcases hu with (hu | hu) | hu
    · exact .inl hu
    · exact .inr (.inl (List.mem_singleton.mp (List.mem_filter.mp hu).1))
    · exact .inr (.inr hu)
  · rw [hdrop, h.live, oneshots_congr ht, hone, dropTimers_append]

/-- **The interrupt frees the one-shot timers**, and what every such `free` keeps is kept. -/
theorem timerIrqHandler_frees {fuel : Nat} (hq : QuietCallbacks m callbacks) (h : TimerList m w l)
    (hlive : ∀ t ∈ l, ∃ a ∈ w.env.live, a.ptr = t) (hfree : FreesKeep heap P (oneshots w l))
    (hP : P w.env) (hf : l.length < fuel) :
    ∃ w', timerIrqHandler callbacks (heapFree heap) fuel m.addr w = .ok 0 w' ∧
      TimerList m w' (periodics w l) ∧ w'.env.live = dropTimers (oneshots w l) w.env.live ∧
        P w'.env := by
  let J (r : List Nat) (v : TimerWorld HeapSys) : Prop :=
    ∃ done, l = done ++ r ∧ Freeing m P w done r v
  have hentry : TimerList m (irqEntry w) l := h.same rfl rfl
  have hstart : J l (irqEntry w) := by
    refine ⟨[], rfl, hentry, fun _ _ => rfl, ?_, hP⟩
    exact (dropTimers_nil _).symm
  have hnext : ∀ u r v, J (u :: r) v → TimerBlock m u ∧
      (v.links (timerNode u)).next = posOf m r := by
    rintro u r v ⟨done, -, hv⟩
    exact ⟨hv.list.block u (by simp), next_node hv.list⟩
  have hround : ∀ u r v, J (u :: r) v →
      ∃ v', timerIrqBody callbacks (heapFree heap) (timerNode u) v = .ok () v' ∧ J r v' := by
    rintro u r v ⟨done, he, hv⟩
    obtain ⟨v', hbody, hv'⟩ := hv.round hq (he ▸ h.nodup) (hlive u (by simp [he])) (he ▸ hfree)
    exact ⟨v', hbody, done ++ [u], by rw [he, List.append_assoc, List.singleton_append], hv'⟩
  obtain ⟨v, hloop, done, he, hv⟩ := timerIrqLoop_rule hnext hround hstart hf
  rw [List.append_nil] at he
  subst he
  have hlist := hv.list
  rw [List.append_nil] at hlist
  refine ⟨irqExit v, timerIrqHandler_ok_iff.mpr ⟨v, ?_, rfl, rfl⟩, hlist.same rfl rfl, hv.live,
    hv.kept⟩
  rw [timerIrqLoop_eq _ _ _ hentry]
  exact hloop

end

/-! ## The system -/

/-- The pointer that the program passes to the heap. -/
def HeapEvent.pointer : HeapEvent → Nat
  | .malloc _ => 0
  | .free p => p
  | .write p _ _ => p

/-- What the mainline may do to the heap.  A timer that is started belongs to the list: it is the
interrupt that frees it. -/
def Permitted (m : Manager) (w : TimerWorld HeapSys) (e : HeapEvent) : Prop :=
  Admissible w.env e ∧ ¬ Listed m w e.pointer

inductive SharedAct where
  | heap (e : HeapEvent)
  /-- a call with the interrupt after `k` of its accesses -/
  | interrupted (c : HeapCall) (k : Nat)
  | start (t : Nat)
  | irq
  | other
deriving DecidableEq

/-- A step of the program with the heap of `R`, the timers of `m`, and `callbacks`. -/
inductive SharedStep (R : Region) (config : TimerConfig) (m : Manager)
    (callbacks : Nat → Nat → Nat → TimerM HeapSys Unit) :
    TimerWorld HeapSys → SharedAct → TimerWorld HeapSys → Prop where
  | heap {w : TimerWorld HeapSys} {e : HeapEvent} {s : HeapSys} : Permitted m w e →
    HeapStep R.heap w.env e s →
      SharedStep R config m callbacks w (.heap e) { w with env := s }
  | interrupted {w w' : TimerWorld HeapSys} {c : HeapCall} {k fuel x : Nat} :
    Permitted m w c.event →
      callInterrupted callbacks fuel R.heap m.addr c k w = .ok x w' →
      SharedStep R config m callbacks w (.interrupted c k) w'
  /-- `start_timer` of a timer in a block of the heap -/
  | start {w w' : TimerWorld HeapSys} {t manager : Nat} {r : Int} : Fresh m w t →
      (∃ a ∈ w.env.live, a.ptr = t) → StartsOn config m manager w →
        startTimer config t manager w = .ok r w' →
      SharedStep R config m callbacks w (.start t) w'
  | irq {w w' : TimerWorld HeapSys} {fuel : Nat} {r : Int} :
      timerIrqHandler callbacks (heapFree R.heap) fuel m.addr w = .ok r w' →
      SharedStep R config m callbacks w .irq w'
  /-- the rest of the program, `create_timer_*` among it -/
  | other {w w' : TimerWorld HeapSys} : Untouched m w w' → w'.env = w.env →
      SharedStep R config m callbacks w .other w'

/-- An interrupted call is outside its critical sections, or the interrupt finds no one-shot
timer. -/
def SharedAct.Clear (R : Region) (m : Manager) (w : TimerWorld HeapSys) : SharedAct → Prop
  | interrupted c k =>
    Outside R.heap c w.env.mem k ∨ ∀ t, Listed m w t → (w.timers t).isPeriodic = true
  | _ => True

/-- A step that is clear. -/
def ClearStep (R : Region) (config : TimerConfig) (m : Manager)
    (callbacks : Nat → Nat → Nat → TimerM HeapSys Unit) (w : TimerWorld HeapSys) (a : SharedAct)
    (w' : TimerWorld HeapSys) : Prop :=
  SharedStep R config m callbacks w a w' ∧ a.Clear R m w

/-- The heap is good, and the timers `l` on the list are blocks of it. -/
structure SharedInv (R : Region) (m : Manager) (w : TimerWorld HeapSys) (l : List Nat) : Prop where
  heap : ∃ free, HeapInv R w.env.mem w.env.live free
  list : TimerList m w l
  live : ∀ t ∈ l, ∃ a ∈ w.env.live, a.ptr = t

section

variable {R : Region} {config : TimerConfig} {m : Manager}
    {callbacks : Nat → Nat → Nat → TimerM HeapSys Unit}
  {w w' w₀ : TimerWorld HeapSys} {l : List Nat} {c : HeapCall} {k fuel fuel' x : Nat}
    {a : SharedAct}

theorem callInterrupted_ok_iff : callInterrupted callbacks fuel R.heap m.addr c k w = .ok x w' ↔
    ∃ w₁, timerIrqHandler callbacks (heapFree R.heap) fuel m.addr
        { w with env := ⟨((c.prog R.heap).after k w.env.mem).2, w.env.live⟩ } = .ok 0 w₁ ∧
      onHeap ((c.prog R.heap).after k w.env.mem).1 (fun x l => c.live x l) w₁ = .ok x w' := by
  unfold callInterrupted
  rw [bind_run (show callAccesses R.heap c k w = .ok _ _ from rfl), bind_ok_iff]
  constructor
  · rintro ⟨r, w₁, hirq, hrest⟩
    obtain ⟨-, -, rfl, -⟩ := timerIrqHandler_ok_iff.mp hirq
    exact ⟨w₁, hirq, hrest⟩
  · rintro ⟨w₁, hirq, hrest⟩
    exact ⟨0, w₁, hirq, hrest⟩

theorem callInterrupted_mono (hf : fuel ≤ fuel')
    (h : callInterrupted callbacks fuel R.heap m.addr c k w = .ok x w') :
    callInterrupted callbacks fuel' R.heap m.addr c k w = .ok x w' := by
  obtain ⟨w₁, hirq, hrest⟩ := callInterrupted_ok_iff.mp h
  exact callInterrupted_ok_iff.mpr ⟨w₁, timerIrqHandler_mono hf hirq, hrest⟩

/-- The call is not the `free` of a timer on the list. -/
theorem Permitted.ne_free (h : Permitted m w c.event) (hl : TimerList m w l) {t : Nat}
    (ht : t ∈ l) :
    c ≠ .free t := by
  rintro rfl
  exact h.2 ⟨l, hl, ht⟩

/-- Something that lets the call complete holds where it is interrupted, and the interrupt keeps
it. -/
theorem SharedInv.resumes (h : SharedInv R m w l) (hsize : R.size < 2 ^ 32)
    (hc : Permitted m w c.event) (hclear : (SharedAct.interrupted c k).Clear R m w) :
    ∃ P : HeapSys → Prop, P ⟨((c.prog R.heap).after k w.env.mem).2, w.env.live⟩ ∧
      FreesKeep R.heap P (oneshots w l) ∧
      ∀ s, P s → Completes R c ((c.prog R.heap).after k w.env.mem).1 s := by
  obtain ⟨free, hinv⟩ := h.heap
  rcases hclear with hout | hper
  · refine ⟨Waiting R c _, hinv.waiting_of_outside hsize hc.1 hout, ?_, fun s hs => hs.completes⟩
    intro s a hs ha hm
    exact hs.after_free hsize ha (hc.ne_free h.list (List.mem_filter.mp hm).1)
  · refine ⟨fun s => s = ⟨_, w.env.live⟩, rfl, ?_, ?_⟩
    · intro s a _ _ hm
      rw [oneshots_eq_nil fun t ht => hper t ⟨l, h.list, ht⟩] at hm
      cases hm
    · rintro s rfl
      obtain ⟨x, m', free', hexec, h'⟩ := hinv.completes hsize hc.1
      exact ⟨x, m', free', (exec_after (c.prog R.heap) k w.env.mem).trans hexec, h'⟩

/-- The timers that stay are still live when the others have been freed. -/
theorem SharedInv.periodics_live (h : SharedInv R m w l) {t : Nat} (ht : t ∈ periodics w l) :
    ∃ a ∈ dropTimers (oneshots w l) w.env.live, a.ptr = t := by
  obtain ⟨htl, hper⟩ := List.mem_filter.mp ht
  obtain ⟨a, ha, rfl⟩ := h.live t htl
  refine ⟨a, mem_dropTimers.mpr ⟨ha, fun hone => ?_⟩, rfl⟩
  have hper : (w.timers a.ptr).isPeriodic = true := hper
  have hnot := (List.mem_filter.mp hone).2
  rw [hper] at hnot
  cases hnot

/-- **An interrupted call completes**, and the heap is good. -/
theorem SharedInv.interrupted (h : SharedInv R m w l) (hsize : R.size < 2 ^ 32)
    (hq : QuietCallbacks m callbacks) (hc : Permitted m w c.event)
    (hclear : (SharedAct.interrupted c k).Clear R m w) (hf : l.length < fuel) :
    ∃ x w', callInterrupted callbacks fuel R.heap m.addr c k w = .ok x w' ∧
      SharedInv R m w' (periodics w l) := by
  obtain ⟨P, hP, hfree, hgo⟩ := h.resumes hsize hc hclear
  have hlist : TimerList m
      ({ w with env := ⟨((c.prog R.heap).after k w.env.mem).2, w.env.live⟩ } :
        TimerWorld HeapSys) l :=
    h.list.same rfl rfl
  obtain ⟨w₁, hirq, hlist₁, hlive₁, hP₁⟩ := timerIrqHandler_frees hq hlist h.live hfree hP hf
  obtain ⟨x, m', free', hexec, h'⟩ := hgo _ hP₁
  have hrest : onHeap ((c.prog R.heap).after k w.env.mem).1 (fun x l => c.live x l) w₁ =
      .ok x { w₁ with env := ⟨m', c.live x w₁.env.live⟩ } := by
    unfold onHeap
    rw [hexec]
  refine ⟨x, _, callInterrupted_ok_iff.mpr ⟨w₁, hirq, hrest⟩, ⟨free', h'⟩, hlist₁.same rfl rfl, ?_⟩
  · intro t ht
    obtain ⟨a, ha, rfl⟩ := h.periodics_live ht
    exact ⟨a, HeapCall.mem_live (hlive₁ ▸ ha) (hc.ne_free h.list (List.mem_filter.mp ht).1), rfl⟩

theorem SharedInv.irq (h : SharedInv R m w l) (hsize : R.size < 2 ^ 32)
    (hq : QuietCallbacks m callbacks)
    (hf : l.length < fuel) : ∃ w', timerIrqHandler callbacks (heapFree R.heap) fuel m.addr w =
      .ok 0 w' ∧
      SharedInv R m w' (periodics w l) := by
  have hfree : FreesKeep R.heap (fun s => ∃ free, HeapInv R s.mem s.live free) (oneshots w l) := by
    rintro s a ⟨free, hs⟩ ha -
    obtain ⟨_, m', hexec, h'⟩ := wp_exec (miniheapFree_wp hs hsize ha)
    exact ⟨m', hexec, h'⟩
  obtain ⟨w', hirq, hlist, hlive, hheap⟩ := timerIrqHandler_frees hq h.list h.live hfree h.heap hf
  exact ⟨w', hirq, hheap, hlist, fun t ht => hlive ▸ h.periodics_live ht⟩

theorem SharedInv.heapStep {e : HeapEvent} {s : HeapSys} (h : SharedInv R m w l)
    (hsize : R.size < 2 ^ 32) (he : Permitted m w e) (hs : HeapStep R.heap w.env e s) :
      SharedInv R m { w with env := s } l := by
  refine ⟨heapStep_inv hsize h.heap hs, h.list.same rfl rfl, ?_⟩
  intro t ht
  obtain ⟨a, ha, rfl⟩ := h.live t ht
  refine ⟨a, (payload_step hsize h.heap hs ha ?_).1, rfl⟩
  rintro rfl
  exact he.2 ⟨l, h.list, ht⟩

/-- **Every clear step keeps the heap good.** -/
theorem SharedInv.step (hsize : R.size < 2 ^ 32) (hq : QuietCallbacks m callbacks)
    (h : ∃ l, SharedInv R m w l) (hs : ClearStep R config m callbacks w a w') :
      ∃ l, SharedInv R m w' l := by
  obtain ⟨l, h⟩ := h
  obtain ⟨hs, hclear⟩ := hs
  cases hs with
  | heap he hs => exact ⟨l, h.heapStep hsize he hs⟩
  | @interrupted _ c k fuel x hc hrun =>
    have hf : l.length < max fuel (l.length + 1) := by omega
    obtain ⟨x', w₁, hrun', h'⟩ := h.interrupted hsize hq hc hclear hf
    rw [callInterrupted_mono (Nat.le_max_left _ _) hrun] at hrun'
    cases hrun'
    exact ⟨_, h'⟩
  | start hfresh hlive hm hrun =>
    obtain ⟨L, hstart, hlist, -⟩ := startTimer_run h.list hfresh hm
    rw [hstart] at hrun
    cases hrun
    refine ⟨_ :: l, h.heap, hlist, ?_⟩
    intro u hu
    rcases List.mem_cons.mp hu with rfl | hu
    · exact hlive
    · exact h.live u hu
  | @irq _ fuel r hrun =>
    have hf : l.length < max fuel (l.length + 1) := by omega
    obtain ⟨w₁, hrun', h'⟩ := h.irq hsize hq hf
    rw [timerIrqHandler_mono (Nat.le_max_left _ _) hrun] at hrun'
    cases hrun'
    exact ⟨_, h'⟩
  | other hu henv => exact ⟨l, henv ▸ h.heap, h.list.untouched hu, henv ▸ h.live⟩

/-- **A `free` that is interrupted between its load and its store of `free_bytes`** loses what the
interrupt frees. -/
theorem SharedInv.loses (h : SharedInv R m w l) (hsize : R.size < 2 ^ 32)
    (hq : QuietCallbacks m callbacks) {a : Alloc} (ha : a ∈ w.env.live)
    (hc : Permitted m w (.free a.ptr)) {t : Nat} (hone : oneshots w l = [t]) :
    ∃ x w', callInterrupted callbacks (l.length + 1) R.heap m.addr (.free a.ptr)
        (HeapCall.listSteps R.heap (.free a.ptr) w.env.mem + 1) w = .ok x w' ∧
      ∀ free, ¬ HeapInv R w'.env.mem w'.env.live free := by
  obtain ⟨free, hinv⟩ := h.heap
  have htl : t ∈ l := (List.mem_filter.mp (hone ▸ List.mem_singleton_self t : t ∈ oneshots w l)).1
  obtain ⟨b, hb, rfl⟩ := h.live t htl
  have hne : b.ptr ≠ a.ptr := by
    intro he
    exact hc.2 ⟨l, h.list, he ▸ htl⟩
  obtain ⟨q, mk, m₁, m₂, hafter, hfreeRun, hrest, hbad⟩ := hinv.lost_update hsize ha hb hne
  -- the interrupt finds the heap in `mk` and leaves it in `m₁`
  have hfree : FreesKeep R.heap (fun s => s = ⟨mk, w.env.live⟩ ∨
    s = ⟨m₁, dropLive b.ptr w.env.live⟩)
      (oneshots w l) := by
    rw [hone]
    rintro s d (rfl | rfl) hd ht
    · rw [List.mem_singleton.mp ht]
      exact ⟨m₁, hfreeRun, .inr rfl⟩
    · exact absurd (List.mem_singleton.mp ht) (mem_dropLive.mp hd).2
  have hlist : TimerList m ({ w with env := ⟨mk, w.env.live⟩ } : TimerWorld HeapSys) l :=
    h.list.same rfl rfl
  obtain ⟨w₁, hirq, -, hlive₁, hheap₁⟩ :=
    timerIrqHandler_frees hq hlist h.live hfree (.inl rfl) (Nat.lt_succ_self _)
  have hlive₁ : w₁.env.live = dropLive b.ptr w.env.live := by
    rw [hlive₁, ← dropTimers_singleton, ← hone]
    rfl
  have henv : w₁.env = ⟨m₁, dropLive b.ptr w.env.live⟩ := by
    apply hheap₁.resolve_left
    intro he
    have hmem : b ∈ w₁.env.live := he ▸ hb
    rw [hlive₁] at hmem
    exact (mem_dropLive.mp hmem).2 rfl
  refine ⟨0, { w₁ with env := ⟨m₂, dropLive a.ptr w₁.env.live⟩ },
    callInterrupted_ok_iff.mpr ⟨w₁, ?_, ?_⟩, ?_⟩
  · rw [hafter]
    exact hirq
  · rw [hafter]
    unfold onHeap
    rw [henv, hrest]
    rfl
  · intro free'
    rw [hlive₁]
    exact hbad free'

/-- **The heap survives interrupts that are clear.**  In every run of such steps the heap is good,
and every call the mainline may make then, interrupted at a clear point, completes and leaves a good
heap. -/
theorem heap_survives_irq {acts : List SharedAct} (hsize : R.size < 2 ^ 32)
    (hq : QuietCallbacks m callbacks) (hheap : HeapInitial R w₀.env) (hlist : TimerList m w₀ [])
    (hrun : Runs (ClearStep R config m callbacks) w₀ acts w) :
    (∃ free, HeapInv R w.env.mem w.env.live free) ∧
      ∀ c k, Permitted m w c.event → (SharedAct.interrupted c k).Clear R m w →
        ∃ w', SharedStep R config m callbacks w (.interrupted c k) w' ∧
          ∃ free, HeapInv R w'.env.mem w'.env.live free := by
  have hstart : ∃ l, SharedInv R m w₀ l :=
    ⟨[], heapInitial_inv hsize hheap, hlist, fun _ ht => absurd ht List.not_mem_nil⟩
  obtain ⟨l, h⟩ := hrun.invariant (fun _ _ _ hi hs => SharedInv.step hsize hq hi hs) hstart
  refine ⟨h.heap, ?_⟩
  intro c k hc hclear
  obtain ⟨x, w', hcall, h'⟩ := h.interrupted hsize hq hc hclear (Nat.lt_succ_self _)
  exact ⟨w', .interrupted hc hcall, h'.heap⟩

end

/-! ## Two interrupted frees -/

def idleCallbacks (_ _ _ : Nat) : TimerM HeapSys Unit := pure ()

theorem idleCallbacks_quiet (m : Manager) : QuietCallbacks m idleCallbacks :=
  fun w _ _ _ _ _ => ⟨w, rfl, ⟨rfl, rfl, fun _ _ => rfl, fun _ _ => rfl⟩, rfl⟩

/-- The timers of `exampleReady` over a heap. -/
def sharedReady (s : HeapSys) : TimerWorld HeapSys :=
  { exampleReady with env := s }

/-- A one-shot timer at 4192 and another allocation at 4112. -/
def sharedActs : List SharedAct := [.heap (.malloc 56), .heap (.malloc 56), .start 4192]

theorem sharedReady_reached : ∃ s₀ w free, HeapInitial exampleRegion s₀ ∧
    TimerList exampleManager (sharedReady s₀) [] ∧
    Runs (ClearStep exampleRegion exampleConfig exampleManager idleCallbacks)
    (sharedReady s₀) sharedActs w ∧
    HeapInv exampleRegion w.env.mem w.env.live free ∧ w.env.live = [⟨4192, 56⟩, ⟨4112, 56⟩] ∧
    TimerList exampleManager w [4192] ∧ (w.timers 4192).isPeriodic = false := by
  have hready : ∀ s, TimerList exampleManager (sharedReady s) [] := fun s =>
    ⟨exampleReady_inv.list.ring, fun _ ht => absurd ht List.not_mem_nil, fun _ ht =>
      absurd ht List.not_mem_nil⟩
  have hnull : ∀ w : TimerWorld HeapSys, ¬ Listed exampleManager w 0 := by
    rintro w ⟨l, hl, h0⟩
    exact absurd (hl.block 0 h0).pos (by decide)
  obtain ⟨_, m₀, hinit, rfl, h₀⟩ := wp_exec (miniheapInit_wp exampleRegion (by decide) fun _ => 0)
  have h₀ : HeapInv exampleRegion m₀ [] ([] ++ ⟨4096, 4096⟩ :: []) := h₀
  obtain ⟨p₁, m₁, hm₁, rfl, -, h₁⟩ :=
    wp_exec (miniheapAlloc_fit (n := 56) (k := 56) h₀ (by decide) (by decide)
    (by decide) (fun _ hc => by cases hc) (by decide) (by decide))
  have h₁ : HeapInv exampleRegion m₁ [⟨4112, 56⟩] ([] ++ ⟨4176, 4016⟩ :: []) := h₁
  obtain ⟨p₂, m₂, hm₂, rfl, -, h₂⟩ :=
    wp_exec (miniheapAlloc_fit (n := 56) (k := 56) h₁ (by decide) (by decide)
    (by decide) (fun _ hc => by cases hc) (by decide) (by decide))
  have hstep₁ : HeapStep 64 ⟨m₀, []⟩ (.malloc 56) ⟨m₁, [⟨4112, 56⟩]⟩ :=
    .malloc (n := 56) (p := 4112) (s := ⟨m₀, []⟩) (by simp [Admissible]) hm₁
  have hstep₂ : HeapStep 64 ⟨m₁, [⟨4112, 56⟩]⟩ (.malloc 56) ⟨m₂, [⟨4192, 56⟩, ⟨4112, 56⟩]⟩ :=
    .malloc (n := 56) (p := 4192) (s := ⟨m₁, [⟨4112, 56⟩]⟩) (by simp [Admissible]) hm₂
  have hblock : TimerBlock exampleManager 4192 := ⟨by decide, by decide, .inl (by decide)⟩
  have hfresh := (hready ⟨m₂, [⟨4192, 56⟩, ⟨4112, 56⟩]⟩).fresh_iff.mpr ⟨hblock, List.not_mem_nil⟩
  have hon : StartsOn exampleConfig exampleManager 20480
      (sharedReady ⟨m₂, [⟨4192, 56⟩, ⟨4112, 56⟩]⟩) := rfl
  obtain ⟨L, hrun, hlist, -⟩ := startTimer_run (hready _) hfresh hon
  refine ⟨⟨m₀, []⟩, _, _, ⟨rfl, _, hinit⟩, hready _, ?_, h₂, rfl, hlist, ?_⟩
  · refine .cons ⟨.heap ⟨by simp [Admissible], hnull _⟩ hstep₁, trivial⟩ ?_
    refine .cons ⟨.heap ⟨by simp [Admissible], hnull _⟩ hstep₂, trivial⟩ ?_
    exact .single ⟨.start hfresh ⟨⟨4192, 56⟩, List.mem_cons_self, rfl⟩ hon hrun, trivial⟩
  · rfl

/-- 4112 is not the timer's block, so the code outside may free it. -/
theorem permitted_free {w : TimerWorld HeapSys} (hlive : w.env.live = [⟨4192, 56⟩, ⟨4112, 56⟩])
    (hlist : TimerList exampleManager w [4192]) : Permitted exampleManager w (.free 4112) := by
  refine ⟨.inr ⟨⟨4112, 56⟩, by simp [hlive], rfl⟩, fun hl => ?_⟩
  exact absurd (hlist.listed_iff.mp hl) (by decide)

/-- `free(4112)`, interrupted before it loads `free_list`. -/
theorem heap_survives_irq_example : ∃ s₀ w w', HeapInitial exampleRegion s₀ ∧
    Runs (ClearStep exampleRegion exampleConfig exampleManager idleCallbacks)
      (sharedReady s₀) sharedActs w ∧
    SharedStep exampleRegion exampleConfig exampleManager idleCallbacks w
      (.interrupted (.free 4112) 1) w' ∧
    ∃ free, HeapInv exampleRegion w'.env.mem w'.env.live free := by
  obtain ⟨s₀, w, free, hinit, hready, hrun, h, hlive, hlist, -⟩ := sharedReady_reached
  have hfree := permitted_free hlive hlist
  obtain ⟨-, hcalls⟩ :=
    heap_survives_irq (by decide) (idleCallbacks_quiet exampleManager) hinit hready hrun
  obtain ⟨w', hstep, hgood⟩ := hcalls (.free 4112) 1 hfree (.inl (.inl (by decide)))
  exact ⟨s₀, w, w', hinit, hrun, hstep, hgood⟩

/-- **`free(4112)`, interrupted between its load and its store of `free_bytes`**: the bytes of the
one-shot timer that the interrupt frees are lost. -/
theorem interrupted_free_loses : ∃ s₀ w w' k, HeapInitial exampleRegion s₀ ∧
    TimerList exampleManager (sharedReady s₀) [] ∧
    Runs (SharedStep exampleRegion exampleConfig exampleManager idleCallbacks)
    (sharedReady s₀) sharedActs w ∧
    SharedStep exampleRegion exampleConfig exampleManager idleCallbacks w
    (.interrupted (.free 4112) k) w' ∧
    ∀ free, ¬ HeapInv exampleRegion w'.env.mem w'.env.live free := by
  obtain ⟨s₀, w, free, hinit, hready, hrun, h, hlive, hlist, hone⟩ := sharedReady_reached
  have hfree := permitted_free hlive hlist
  have hb : (⟨4192, 56⟩ : Alloc) ∈ w.env.live := by simp [hlive]
  have hones : oneshots w [4192] = [4192] := by simp [oneshots, hone]
  have hinv : SharedInv exampleRegion exampleManager w [4192] :=
    ⟨⟨free, h⟩, hlist, fun t ht => ⟨_, hb, (List.mem_singleton.mp ht).symm⟩⟩
  obtain ⟨x, w', hcall, hbad⟩ := hinv.loses (by decide) (idleCallbacks_quiet exampleManager)
    (a := ⟨4112, 56⟩) (by simp [hlive]) hfree hones
  exact ⟨s₀, w, w', _, hinit, hready, hrun.mono fun _ _ _ hs => hs.1, .interrupted hfree hcall,
    hbad⟩

end ZHyper
