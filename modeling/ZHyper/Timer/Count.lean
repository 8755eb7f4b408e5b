import ZHyper.Timer.Restart

/-!
# What `nr_timers` counts

`start_timer` increments `nr_timers`, and nothing decrements it: it is the number of
`start_timer` calls (`Counted`), modulo the width of the field, and not the number of
timers on the list, which one-shot timers leave in the interrupt.  The two agree as
long as no interrupt finds a one-shot timer on the list (`nr_timers_counts_iff`).
-/

namespace ZHyper

open LowLevel

variable {ε : Type} {config : TimerConfig} {m : Manager} {w w' : TimerWorld ε} {l : List Nat}
    {t : Nat}

/-- `manager->nr_timers` -/
def nrTimers (m : Manager) (w : TimerWorld ε) : Nat := (w.managers m.addr).nrTimers

def startCount (evs : List TimerEvent) : Nat := (evs.filterMap TimerEvent.started).length

def Counted (m : Manager) (w : TimerWorld ε) : Prop := nrTimers m w = startCount w.log % 2 ^ 32

theorem startCount_append (evs evs' : List TimerEvent) :
    startCount (evs ++ evs') = startCount evs + startCount evs' := by
  simp [startCount]

theorem Counted.of_eq (h : Counted m w) (hn : nrTimers m w' = nrTimers m w)
    (hl : startCount w'.log = startCount w.log) : Counted m w' := by
  unfold Counted
  rw [hn, hl]
  exact h

/-! ## What the functions keep -/

section Keeps

/-- A change of the world that leaves the count and the starts in the trace. -/
theorem keeps_counted {g : TimerWorld ε → TimerWorld ε} (hn : ∀ w, nrTimers m (g w) = nrTimers m w)
    (hl : ∀ w, startCount (g w).log = startCount w.log) :
      Keeps (Counted m) (modify g : TimerM ε Unit) :=
  .modify fun w h => h.of_eq (hn w) (hl w)

theorem loadTimer_keeps (t : Nat) : Keeps (Counted m) (loadTimer t : TimerM ε Timer) :=
  .ite (.bind (.throw _) fun _ => .bind .get fun _ => .pure _) (.bind .get fun _ => .pure _)

theorem modifyTimer_keeps (t : Nat) (f : Timer → Timer) :
    Keeps (Counted m) (modifyTimer t f : TimerM ε Unit) := by
  have hset : Keeps (Counted m) (modify fun w : TimerWorld ε =>
      { w with timers := Function.update w.timers t (f (w.timers t)) } : TimerM ε Unit) :=
    keeps_counted (fun _ => rfl) fun _ => rfl
  exact .ite (.bind (.throw _) fun _ => hset) hset

theorem timerLinks_keeps (f : Links → Option Links) :
    Keeps (Counted m) (TimerM.onLinks f : TimerM ε Unit) := by
  intro w a w' h hrun
  unfold TimerM.onLinks at hrun
  split at hrun
  · cases hrun
    exact h.of_eq rfl rfl
  · cases hrun

theorem timerNext_keeps (p : Nat) : Keeps (Counted m) (TimerM.next p : TimerM ε Nat) := by
  intro w a w' h hrun
  unfold TimerM.next at hrun
  split at hrun
  · cases hrun
    exact h
  · cases hrun

theorem record_keeps {e : TimerEvent} (he : e.started = none) :
    Keeps (Counted m) (TimerM.record e : TimerM ε Unit) := by
  refine keeps_counted (fun _ => rfl) ?_
  intro w
  rw [startCount_append]
  simp [startCount, he]

theorem createTimer_keeps (isPeriodic : Bool) (block intervalMs callback arg : Nat) :
    Keeps (Counted m) (createTimer isPeriodic block intervalMs callback arg : TimerM ε Nat) := by
  refine .ite (.pure 0) ?_
  refine .bind (modifyTimer_keeps _ _) fun _ => .bind (modifyTimer_keeps _ _) fun _ => ?_
  refine .bind (modifyTimer_keeps _ _) fun _ => .bind (modifyTimer_keeps _ _) fun _ => ?_
  refine .bind (modifyTimer_keeps _ _) fun _ => .bind (modifyTimer_keeps _ _) fun _ => ?_
  exact .bind (timerLinks_keeps _) fun _ => .pure block

/-- **`start_timer` on `m` counts the timer it records.** -/
theorem startTimer_counted {manager : Nat} {r : Int} (h : Counted m w)
    (hm : StartsOn config m manager w) (hrun : startTimer config t manager w = .ok r w') :
    Counted m w' := by
  have hm0 : m.addr ≠ 0 := Nat.ne_of_gt m.pos
  unfold startTimer at hrun
  split at hrun
  · cases hrun
    exact h
  · next ht =>
    rw [bind_run hm, if_neg hm0, bind_run (modifyTimer_run ht _),
      bind_run (modifyManager_run hm0 _), bind_run (record_run _)] at hrun
    obtain ⟨_, w₁, hlinks, hret⟩ := bind_ok_iff.mp hrun
    cases hret
    refine timerLinks_keeps _ _ _ _ ?_ hlinks
    show (Function.update w.managers m.addr _ m.addr).nrTimers =
      startCount (w.log ++ [.start t]) % 2 ^ 32
    rw [Function.update_self, startCount_append]
    show (nrTimers m w + 1) % 2 ^ 32 = (startCount w.log + 1) % 2 ^ 32
    rw [h, Nat.mod_add_mod]

end Keeps

/-! ## Callbacks -/

/-- What code outside `timer.c` may do to the counter: start timers on `m`. -/
inductive StartsOnly (config : TimerConfig) (m : Manager) : TimerWorld ε → TimerWorld ε → Prop where
  | done (w : TimerWorld ε) : StartsOnly config m w w
  | other {w w₁ w' : TimerWorld ε} : w₁.managers m.addr = w.managers m.addr → w₁.log = w.log →
      StartsOnly config m w₁ w' → StartsOnly config m w w'
  | start {w w₁ w' : TimerWorld ε} {t manager : Nat} {r : Int} : StartsOn config m manager w →
      startTimer config t manager w = .ok r w₁ → StartsOnly config m w₁ w' →
        StartsOnly config m w w'

theorem StartsOnly.counted (hs : StartsOnly config m w w') (h : Counted m w) : Counted m w' := by
  induction hs with
  | done w => exact h
  | other hm hl _ ih =>
    refine ih (h.of_eq ?_ (by rw [hl]))
    unfold nrTimers
    rw [hm]
  | start hm hrun _ ih => exact ih (startTimer_counted h hm hrun)

/-- Callbacks and `free` leave the counter to `start_timer`. -/
structure KeepsCount (C : TimerClient ε config m) : Prop where
  call : ∀ f t a w w', C.callbacks f t a w = .ok () w' → StartsOnly config m w w'
  free : ∀ t w w', C.free t w = .ok () w' → StartsOnly config m w w'

section Irq

variable {C : TimerClient ε config m} (hC : KeepsCount C)

include hC in
theorem timerIrqBody_keeps (pos : Nat) :
    Keeps (Counted m) (timerIrqBody C.callbacks C.free pos) := by
  have hcall : ∀ f t a, Keeps (Counted m) (C.callbacks f t a) :=
    fun f t a w _ w' h hrun => (hC.call f t a w w' hrun).counted h
  have hfree : ∀ t, Keeps (Counted m) (C.free t) :=
    fun t w _ w' h hrun => (hC.free t w w' hrun).counted h
  have hreap : ∀ t, Keeps (Counted m) (timerIrqReap C.free t) := by
    intro t
    refine .bind (loadTimer_keeps t) fun _ => .ite ?_ (.pure ())
    refine .bind (modifyTimer_keeps _ _) fun _ => .bind (record_keeps rfl) fun _ => ?_
    exact .bind (timerLinks_keeps _) fun _ => .bind (record_keeps rfl) fun _ => hfree t
  refine .bind (loadTimer_keeps _) fun _ => .ite (.bind ?_ fun _ => hreap _) (.pure ())
  exact .bind (loadTimer_keeps _) fun _ =>
    .ite (.bind (record_keeps rfl) fun _ => hcall _ _ _) (.pure ())

include hC in
theorem timerIrqHandler_keeps (fuel : Nat) :
    Keeps (Counted m) (timerIrqHandler C.callbacks C.free fuel m.addr) := by
  intro w r w' h hrun
  obtain ⟨w₁, hloop, -, rfl⟩ := timerIrqHandler_ok_iff.mp hrun
  have hentry : Counted m (irqEntry w) := h.of_eq rfl rfl
  have hkeeps : Keeps (Counted m) (timerIrqLoop C.callbacks C.free fuel m.addr) :=
    .bind (timerNext_keeps _) fun pos => .bind (timerNext_keeps pos) fun n =>
      listForEachSafe_keeps timerNext_keeps (timerIrqBody_keeps hC) fuel pos n
  exact (hkeeps _ _ _ hentry hloop).of_eq rfl rfl

end Irq

/-! ## Runs -/

/-- Without unlinked timers every start is still on the list. -/
theorem replay_length {evs : List TimerEvent} (h : evs.filterMap TimerEvent.unlinked = [])
    (l : List Nat) :
    (replay l evs).length = l.length + startCount evs := by
  induction evs generalizing l with
  | nil => rfl
  | cons e evs ih =>
    cases e with
    | start t =>
      have := ih h (t :: l)
      show (replay (t :: l) evs).length = l.length + (startCount evs + 1)
      rw [List.length_cons] at this
      omega
    | unlink t => cases h
    | call t callback arg => exact ih h l
    | free t => exact ih h l

/-- A step in which nothing but `timer.c` writes the counter. -/
def CountStep (C : TimerClient ε config m) (w : TimerWorld ε) (a : TimerAct) (w' : TimerWorld ε) :
    Prop :=
  TimerStep C w a w' ∧ (a = .other → w'.managers m.addr = w.managers m.addr)

/-- Such a step that, if it is an interrupt, finds no one-shot timer on the list. -/
def PeriodicStep (C : TimerClient ε config m) (w : TimerWorld ε) (a : TimerAct)
    (w' : TimerWorld ε) : Prop :=
  CountStep C w a w' ∧ (a = .irq → ∀ t, Listed m w t → (w.timers t).isPeriodic = true)

theorem Counted.step {C : TimerClient ε config m} (hC : KeepsCount C) {a : TimerAct}
    (h : Counted m w)
    (hs : CountStep C w a w') : Counted m w' := by
  obtain ⟨hs, hother⟩ := hs
  cases hs with
  | createPeriodic hf hc => exact createTimer_keeps _ _ _ _ _ _ _ _ h hc
  | createOneshot hf hc => exact createTimer_keeps _ _ _ _ _ _ _ _ h hc
  | start hf hm hs hi => exact startTimer_counted h hm hs
  | irq hr => exact timerIrqHandler_keeps hC _ _ _ _ h hr
  | other hu hi =>
    refine h.of_eq ?_ (by rw [hu.log])
    unfold nrTimers
    rw [hother rfl]

/-- Nothing has left the list. -/
structure CountInv (C : TimerClient ε config m) (w : TimerWorld ε) : Prop where
  inv : TimerInv C w
  counted : Counted m w
  kept : w.log.filterMap TimerEvent.unlinked = []

theorem CountInv.nrTimers_eq {C : TimerClient ε config m} (h : CountInv C w) :
    nrTimers m w = (replay [] w.log).length % 2 ^ 32 := by
  rw [replay_length h.kept, List.length_nil, Nat.zero_add]
  exact h.counted

theorem CountInv.step {C : TimerClient ε config m} (hC : KeepsCount C) {a : TimerAct}
    (h : CountInv C w)
    (hs : PeriodicStep C w a w') : CountInv C w' := by
  obtain ⟨hs, hper⟩ := hs
  refine ⟨h.inv.step hs.1, h.counted.step hC hs, ?_⟩
  cases hs.1 with
  | createPeriodic hf hc =>
    rw [(createTimer_untouched hf hc).1.log]
    exact h.kept
  | createOneshot hf hc =>
    rw [(createTimer_untouched hf hc).1.log]
    exact h.kept
  | start hf hm hstart hi =>
    obtain ⟨L, hrun, -⟩ := startTimer_run h.inv.list hf hm
    rw [hrun] at hstart
    cases hstart
    show (w.log ++ [_]).filterMap TimerEvent.unlinked = []
    rw [List.filterMap_append, h.kept]
    rfl
  | irq hr =>
    obtain ⟨evs, hd, -⟩ := h.inv.irq_delivered hr
    rw [hd.log, List.filterMap_append, h.kept, hd.unlinks, List.nil_append]
    exact oneshots_eq_nil fun t ht => hper rfl t (h.inv.list.listed_iff.mpr ht)
  | other hu hi =>
    rw [hu.log]
    exact h.kept

theorem CountInv.init {C : TimerClient ε config m} {w₀ : TimerWorld ε} (hlog : w₀.log = [])
    (h : percpuTimerManagerInit m.addr w₀ = .ok () w) (hi : C.Holds w) : CountInv C w := by
  obtain ⟨w', hrun, -, hlog', hzero⟩ := percpuTimerManagerInit_run m w₀
  rw [h] at hrun
  cases hrun
  refine ⟨.init hlog h hi, ?_, by rw [hlog', hlog]; rfl⟩
  unfold Counted
  rw [hlog', hlog]
  exact hzero

/-- An interrupt keeps the count right if and only if no one-shot timer is on the list. -/
theorem CountInv.irq_iff {C : TimerClient ε config m} (hC : KeepsCount C) (h : CountInv C w)
    (hl : (replay [] w.log).length < 2 ^ 32) {fuel : Nat} {r : Int} {l' : List Nat}
    (hr : timerIrqHandler C.callbacks C.free fuel m.addr w = .ok r w') (hl' : TimerList m w' l') :
    nrTimers m w' = l'.length % 2 ^ 32 ↔ ∀ t ∈ replay [] w.log, (w.timers t).isPeriodic = true := by
  obtain ⟨evs, hd, -⟩ := h.inv.irq_delivered hr
  have hlist := hd.list
  rw [List.nil_append, List.append_nil] at hlist
  have hlen : l'.length = startCount evs + (periodics w (replay [] w.log)).length := by
    rw [hl'.unique hlist, List.length_append]
    simp only [newTimers, startCount, List.length_reverse]
  have hcount : nrTimers m w' = ((replay [] w.log).length + startCount evs) % 2 ^ 32 := by
    rw [timerIrqHandler_keeps hC fuel w r w' h.counted hr, hd.log, startCount_append,
      replay_length h.kept, List.length_nil, Nat.zero_add]
  have hle : (periodics w (replay [] w.log)).length ≤ (replay [] w.log).length :=
    List.length_filter_le _ _
  have hall : (periodics w (replay [] w.log)).length = (replay [] w.log).length ↔
      ∀ t ∈ replay [] w.log, (w.timers t).isPeriodic = true := List.length_filter_eq_length_iff
  rw [hcount, hlen, ← hall]
  omega

/-- **In every run whose interrupts find no one-shot timer on the list**, `nr_timers` is the number
of timers on the list, as far as the field can hold it.  An interrupt that finds one ends that. -/
theorem nr_timers_counts_iff (C : TimerClient ε config m) (hC : KeepsCount C) {w₀ w₁ : TimerWorld ε}
    {acts : List TimerAct} (hlog : w₀.log = [])
    (hinit : percpuTimerManagerInit m.addr w₀ = .ok () w₁) (hinv : C.Holds w₁)
    (hruns : Runs (PeriodicStep C) w₁ acts w) :
    ∃ l, TimerList m w l ∧ (l.length < 2 ^ 32 → nrTimers m w = l.length ∧
      ∀ fuel r w' l', timerIrqHandler C.callbacks C.free fuel m.addr w = .ok r w' →
        TimerList m w' l' →
        (nrTimers m w' = l'.length % 2 ^ 32 ↔ ∀ t ∈ l, (w.timers t).isPeriodic = true)) := by
  have h : CountInv C w := hruns.invariant (fun _ _ _ h hs => h.step hC hs) (.init hlog hinit hinv)
  refine ⟨replay [] w.log, h.inv.list, fun hl => ⟨?_, fun fuel r w' l' hr hl' => ?_⟩⟩
  · rw [h.nrTimers_eq]
    exact Nat.mod_eq_of_lt hl
  · exact h.irq_iff hC hl hr hl'

/-! ## Two runs -/

/-- A client whose callbacks do nothing to the timers. -/
def quietClient : TimerClient Nat exampleConfig exampleManager where
  callbacks _ _ _ := pure ()
  free _ := pure ()
  inv _ _ := True
  call_ok w _ _ _ _ _ _ := ⟨w, rfl, .done w, fun _ _ => trivial⟩
  free_ok w _ _ _ _ _ _ _ := ⟨w, rfl, ⟨rfl, rfl, fun _ _ => rfl, fun _ _ => rfl⟩, trivial⟩

theorem quietClient_keepsCount : KeepsCount quietClient := by
  constructor
  · intro f t a w w' h
    cases h
    exact .done w
  · intro t w w' h
    cases h
    exact .done w

/-- The interrupt with the periodic timer of `restartBoot` on the list. -/
def periodicServed : TimerWorld Nat :=
  endWorld (timerIrqHandler quietClient.callbacks quietClient.free 2 20480 restartOne)

theorem nr_timers_counts_example :
    Runs (PeriodicStep quietClient) restartReady [.start, .irq] periodicServed ∧
      ∃ l, TimerList exampleManager periodicServed l ∧
        (l.length < 2 ^ 32 → nrTimers exampleManager periodicServed = l.length) := by
  have hlog : restartBoot.log = [] := rfl
  have hinit : percpuTimerManagerInit exampleManager.addr restartBoot = .ok () restartReady := rfl
  have hholds : quietClient.Holds restartReady := fun _ _ => trivial
  obtain ⟨hstart, hinv⟩ :=
    (TimerInv.init hlog hinit hholds).start_step 24576 20480 (exampleBlock (.inl rfl))
    (show 24576 ∉ replay [] [] by decide) rfl trivial
  have hlist : TimerList exampleManager restartOne [24576] := hinv.list
  have hruns : Runs (PeriodicStep quietClient) restartReady [.start, .irq] periodicServed := by
    have hirq :
      timerIrqHandler quietClient.callbacks quietClient.free 2 exampleManager.addr restartOne =
        .ok 0 periodicServed := rfl
    refine .cons ⟨⟨hstart, by simp⟩, by simp⟩ (.single ⟨⟨.irq hirq, by simp⟩, ?_⟩)
    intro _ t ht
    rw [List.mem_singleton.mp (hlist.listed_iff.mp ht)]
    rfl
  obtain ⟨l, hl, h⟩ :=
    nr_timers_counts_iff quietClient quietClient_keepsCount hlog hinit hholds hruns
  exact ⟨hruns, l, hl, fun hlt => (h hlt).1⟩

/-- The interrupt with a periodic and a one-shot timer on the list. -/
def oneshotServed : TimerWorld Nat :=
  endWorld (timerIrqHandler quietClient.callbacks quietClient.free 3 20480 exampleTwo)

/-- **After an interrupt that served a one-shot timer, one timer is on the list and two are
counted.** -/
theorem nr_timers_overcounts :
    KeepsCount quietClient ∧ exampleBoot.log = [] ∧
      percpuTimerManagerInit exampleManager.addr exampleBoot = .ok () exampleReady ∧
      Runs (CountStep quietClient) exampleReady [.start, .start, .irq] oneshotServed ∧
      TimerList exampleManager oneshotServed [24576] ∧
      nrTimers exampleManager oneshotServed = 2 := by
  have hlog : exampleBoot.log = [] := rfl
  have hinit : percpuTimerManagerInit exampleManager.addr exampleBoot = .ok () exampleReady := rfl
  have hready : TimerInv quietClient exampleReady := .init hlog hinit fun _ _ => trivial
  obtain ⟨hone, hinv₁⟩ := hready.start_step 24576 20480 (exampleBlock (.inl rfl))
    (show 24576 ∉ replay [] [] by decide) rfl trivial
  obtain ⟨htwo, hinv₂⟩ := hinv₁.start_step 24640 0 (exampleBlock (.inr rfl))
    (show 24640 ∉ replay [] [.start 24576] by decide) rfl trivial
  have hirq :
    timerIrqHandler quietClient.callbacks quietClient.free 3 exampleManager.addr exampleTwo =
      .ok 0 oneshotServed := rfl
  have hlist := (hinv₂.irq hirq).list
  have hreplay : replay [] oneshotServed.log = [24576] := by decide +kernel
  rw [hreplay] at hlist
  refine ⟨quietClient_keepsCount, hlog, hinit, ?_, hlist, by decide +kernel⟩
  exact .cons ⟨hone, by simp⟩ (.cons ⟨htwo, by simp⟩ (.single ⟨.irq hirq, by simp⟩))

end ZHyper
