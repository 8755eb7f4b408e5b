import ZHyper.Timer.Count

/-!
# When timers fire

The interrupt calls every timer on the list, and nothing reads `interval_ms`: a one-shot timer fires
at the next expiry of the hardware timer, a periodic one at every expiry.  The expiries after the
first are 1000 ms apart.  So no timer fires early as long as one-shot timers are started no later
than their interval before the next expiry, and the intervals of periodic timers are at most 1000 ms
(`timer_never_early`).

`Timed` is the world with its clock, which counts the ticks of the hardware timer, and with what the
callbacks are to be measured by: when each timer was started and called last.
-/

namespace ZHyper

open LowLevel

structure Timed (ε : Type) where
  world : TimerWorld ε
  now : Nat
  /-- when the hardware timer expires -/
  deadline : Nat
  /-- when a timer was last started -/
  begun : Nat → Nat
  /-- `interval_ms` of a timer when it was last started -/
  interval : Nat → Nat
  /-- when the callback of a timer was last called -/
  called : Nat → Option Nat

section

variable {ε : Type} {config : TimerConfig} {m : Manager}

/-- The ticks of `k` milliseconds, as `set_percpu_timer` counts them. -/
def Timed.ms (s : Timed ε) (k : Nat) : Nat := s.world.cntfrqEl0 / 1000 * k

/-- What has happened from `s` to `s'`. -/
def Timed.events (s s' : Timed ε) : List TimerEvent := s'.world.log.drop s.world.log.length

def calledTimers (evs : List TimerEvent) : List Nat :=
  (evs.filterMap TimerEvent.called).map Prod.fst

/-- The world becomes `w'` at once, with the next expiry at `deadline`. -/
def Timed.after (s : Timed ε) (w' : TimerWorld ε) (deadline : Nat) : Timed ε :=
  let evs := w'.log.drop s.world.log.length
  { world := w'
    now := s.now
    deadline
    begun := fun t => if .start t ∈ evs then s.now else s.begun t
    interval := fun t => if .start t ∈ evs then (w'.timers t).intervalMs else s.interval t
    called := fun t => if t ∈ calledTimers evs then some s.now else s.called t }

/-- After `plat_timer_init`. -/
def Timed.init (w : TimerWorld ε) : Timed ε :=
  ⟨w, 0, w.cnthpTvalEl2, fun _ => 0, fun _ => 0, fun _ => none⟩

/-- Time passes up to the expiry; the program takes a step; or, at the expiry, the interrupt is
served and programs the next one.  `CNTFRQ_EL0` keeps its value. -/
inductive TimedStep (C : TimerClient ε config m) : Timed ε → Option TimerAct → Timed ε → Prop where
  | pass {s : Timed ε} {d : Nat} : s.now + d ≤ s.deadline →
    TimedStep C s none { s with now := s.now + d }
  | act {s : Timed ε} {a : TimerAct} {w' : TimerWorld ε} : a ≠ .irq → TimerStep C s.world a w' →
      w'.cntfrqEl0 = s.world.cntfrqEl0 → TimedStep C s (some a) (s.after w' s.deadline)
  | irq {s : Timed ε} {w' : TimerWorld ε} : s.now = s.deadline → TimerStep C s.world .irq w' →
      w'.cntfrqEl0 = s.world.cntfrqEl0 →
        TimedStep C s (some .irq) (s.after w' (s.now + w'.cnthpTvalEl2))

/-- **No callback comes early**: those of one-shot timers not before `interval_ms` after their
start, those of periodic timers not before `interval_ms` after the last one. -/
def OnTime (s s' : Timed ε) : Prop :=
  ∀ t ∈ calledTimers (s.events s'),
    ((s.world.timers t).isPeriodic = false → s.begun t + s.ms (s.interval t) ≤ s.now) ∧
      ((s.world.timers t).isPeriodic = true → ∀ p, s.called t = some p →
        p + s.ms (s.interval t) ≤ s.now)

/-- A timer that is started with a callback is one-shot with time enough to the next expiry, or
periodic with no more than 1000 ms. -/
def InTime (s s' : Timed ε) : Prop :=
  ∀ t, .start t ∈ s.events s' → (s'.world.timers t).callback ≠ 0 →
    ((s'.world.timers t).isPeriodic = false →
      s'.now + s'.ms (s'.world.timers t).intervalMs ≤ s'.deadline) ∧
      ((s'.world.timers t).isPeriodic = true → (s'.world.timers t).intervalMs ≤ 1000)

def InTimeStep (C : TimerClient ε config m) (s : Timed ε) (a : Option TimerAct) (s' : Timed ε) :
    Prop :=
  TimedStep C s a s' ∧ InTime s s'

/-! ## The invariant -/

/-- What the clock owes the timers on the list. -/
structure ClockInv (C : TimerClient ε config m) (s : Timed ε) : Prop where
  inv : TimerInv C s.world
  freq : s.world.cntfrqEl0 < 2 ^ 64
  now : s.now ≤ s.deadline
  called : ∀ t p, s.called t = some p → p + s.ms 1000 ≤ s.deadline
  oneshot : ∀ t ∈ replay [] s.world.log, (s.world.timers t).callback ≠ 0 →
    (s.world.timers t).isPeriodic = false →
    s.begun t + s.ms (s.interval t) ≤ s.deadline
  periodic : ∀ t ∈ replay [] s.world.log, (s.world.timers t).callback ≠ 0 →
    (s.world.timers t).isPeriodic = true →
    s.interval t ≤ 1000

variable {C : TimerClient ε config m} {s s' : Timed ε} {w' : TimerWorld ε} {evs : List TimerEvent}
    {d : Nat}

theorem events_after (hlog : w'.log = s.world.log ++ evs) : s.events (s.after w' d) = evs := by
  show w'.log.drop s.world.log.length = evs
  rw [hlog, List.drop_left]

theorem mem_newTimers {t : Nat} : t ∈ newTimers evs ↔ .start t ∈ evs := by
  unfold newTimers
  rw [List.mem_reverse, List.mem_filterMap]
  constructor
  · rintro ⟨e, he, hs⟩
    cases e with
    | start u => exact Option.some.inj hs ▸ he
    | call u c a => cases hs
    | unlink u => cases hs
    | free u => cases hs
  · intro h
    exact ⟨_, h, rfl⟩

/-- A step whose starts are in time, and that leaves the other timers as they were. -/
theorem ClockInv.after (h : ClockInv C s) (hlog : w'.log = s.world.log ++ evs)
    (hinv : TimerInv C w') (hfreq : w'.cntfrqEl0 = s.world.cntfrqEl0) (hd : s.deadline ≤ d)
    (hcalls : calledTimers evs ≠ [] → s.now + s.ms 1000 ≤ d)
    (hold : ∀ t ∈ replay [] w'.log, .start t ∉ evs →
      t ∈ replay [] s.world.log ∧ (w'.timers t).duty = (s.world.timers t).duty)
    (hin : InTime s (s.after w' d)) : ClockInv C (s.after w' d) := by
  have hevs := events_after (d := d) hlog
  have hms : (s.after w' d).ms = s.ms := by
    unfold Timed.ms
    rw [show (s.after w' d).world = w' from rfl, hfreq]
  have hdrop : w'.log.drop s.world.log.length = evs := hevs
  unfold InTime at hin
  rw [hevs, hms] at hin
  refine ⟨hinv, by
    show w'.cntfrqEl0 < _; rw [hfreq]; exact h.freq, Nat.le_trans h.now hd, ?_, ?_, ?_⟩
  · intro t p hp
    rw [hms]
    change (if t ∈ calledTimers (w'.log.drop s.world.log.length) then some s.now else s.called t) =
      some p at hp
    rw [hdrop] at hp
    show p + s.ms 1000 ≤ d
    split at hp
    · next ht =>
      cases hp
      exact hcalls (List.ne_nil_of_mem ht)
    · exact Nat.le_trans (h.called t p hp) hd
  · intro t ht hc hone
    rw [hms]
    show (if .start t ∈ w'.log.drop s.world.log.length then s.now else s.begun t) +
      s.ms (if .start t ∈ w'.log.drop s.world.log.length then (w'.timers t).intervalMs
        else s.interval t) ≤ d
    rw [hdrop]
    by_cases hstart : .start t ∈ evs
    · rw [if_pos hstart, if_pos hstart]
      exact (hin t hstart hc).1 hone
    · obtain ⟨hl, hduty⟩ := hold t ht hstart
      obtain ⟨hp, hcb, -⟩ := duty_eq hduty
      rw [if_neg hstart, if_neg hstart]
      exact Nat.le_trans (h.oneshot t hl (hcb ▸ hc) (hp ▸ hone)) hd
  · intro t ht hc hper
    show (if .start t ∈ w'.log.drop s.world.log.length then (w'.timers t).intervalMs
      else s.interval t) ≤ 1000
    rw [hdrop]
    by_cases hstart : .start t ∈ evs
    · rw [if_pos hstart]
      exact (hin t hstart hc).2 hper
    · obtain ⟨hl, hduty⟩ := hold t ht hstart
      obtain ⟨hp, hcb, -⟩ := duty_eq hduty
      rw [if_neg hstart]
      exact h.periodic t hl (hcb ▸ hc) (hp ▸ hper)

/-- A step that keeps off the list. -/
theorem ClockInv.untouched (h : ClockInv C s) (hu : Untouched m s.world w') (hi : C.Holds w')
    (hfreq : w'.cntfrqEl0 = s.world.cntfrqEl0) (hin : InTime s (s.after w' s.deadline)) :
    ClockInv C (s.after w' s.deadline) := by
  have hlog : w'.log = s.world.log ++ [] := by rw [hu.log, List.append_nil]
  refine h.after hlog (h.inv.untouched hu hi) hfreq (Nat.le_refl _)
    (fun hne => absurd rfl hne) ?_ hin
  intro t ht _
  rw [hu.log] at ht
  exact ⟨ht, hu.duty t (h.inv.list.listed_iff.mpr ht)⟩

theorem ClockInv.act {a : TimerAct} (h : ClockInv C s) (ha : a ≠ .irq)
    (hs : TimerStep C s.world a w') (hfreq : w'.cntfrqEl0 = s.world.cntfrqEl0)
    (hin : InTime s (s.after w' s.deadline)) :
    ClockInv C (s.after w' s.deadline) := by
  have hinv := h.inv.step hs
  cases hs with
  | createPeriodic hf hc => exact h.untouched (createTimer_untouched hf hc).1 hinv.holds hfreq hin
  | createOneshot hf hc => exact h.untouched (createTimer_untouched hf hc).1 hinv.holds hfreq hin
  | irq hr => exact absurd rfl ha
  | other hu hi => exact h.untouched hu hi hfreq hin
  | @start _ t _ _ hf hm hstart hi =>
    obtain ⟨L, hrun, -, hduty⟩ := startTimer_run h.inv.list hf hm
    rw [hrun] at hstart
    cases hstart
    have hlog : (startedWorld m t L s.world).log = s.world.log ++ [.start t] := rfl
    refine h.after hlog hinv hfreq (Nat.le_refl _) (fun hne => absurd rfl hne) ?_ hin
    intro u hu hnew
    rw [hlog, replay_append] at hu
    rcases List.mem_cons.mp hu with rfl | hu
    · exact absurd List.mem_cons_self hnew
    · exact ⟨hu, hduty u hu⟩

/-- The interrupt programs the next expiry 1000 ms ahead. -/
theorem irq_tval {fuel : Nat} {r : Int} {w : TimerWorld ε} (h : w.cntfrqEl0 < 2 ^ 64)
    (hfreq : w'.cntfrqEl0 = w.cntfrqEl0)
    (hr : timerIrqHandler C.callbacks C.free fuel m.addr w = .ok r w') :
      w'.cnthpTvalEl2 = w.cntfrqEl0 / 1000 * 1000 := by
  obtain ⟨w₁, -, -, rfl⟩ := timerIrqHandler_ok_iff.mp hr
  have hf : w₁.cntfrqEl0 = w.cntfrqEl0 := hfreq
  show w₁.cntfrqEl0 / 1000 * 1000 % 2 ^ 64 = _
  rw [hf]
  exact Nat.mod_eq_of_lt (by omega)

theorem ClockInv.irq (h : ClockInv C s) (hnow : s.now = s.deadline)
    (hs : TimerStep C s.world .irq w') (hfreq : w'.cntfrqEl0 = s.world.cntfrqEl0)
    (hin : InTime s (s.after w' (s.now + w'.cnthpTvalEl2))) :
    ClockInv C (s.after w' (s.now + w'.cnthpTvalEl2)) := by
  have hinv := h.inv.step hs
  cases hs with
  | irq hr =>
    obtain ⟨evs, hd, -⟩ := h.inv.irq_delivered hr
    have htval := irq_tval h.freq hfreq hr
    refine h.after hd.log hinv hfreq (by omega) (fun _ => ?_) ?_ hin
    · rw [htval]
      exact Nat.le_refl _
    · intro t ht hnew
      have hhist := hd.history
      rw [List.nil_append, List.append_nil, List.nil_append] at hhist
      rw [hd.log, replay_append, hhist] at ht
      have hper := (List.mem_append.mp ht).resolve_left (mt mem_newTimers.mp hnew)
      have hduty := hd.duty t
      rw [List.nil_append] at hduty
      rw [List.append_nil] at hper hduty
      exact ⟨(List.mem_filter.mp hper).1, hduty hper⟩

theorem ClockInv.step {a : Option TimerAct} (h : ClockInv C s) (hs : InTimeStep C s a s') :
    ClockInv C s' := by
  obtain ⟨hs, hin⟩ := hs
  cases hs with
  | pass hle => exact ⟨h.inv, h.freq, hle, h.called, h.oneshot, h.periodic⟩
  | act ha hstep hfreq => exact h.act ha hstep hfreq hin
  | irq hnow hstep hfreq => exact h.irq hnow hstep hfreq hin

/-- An interrupt is on time when the clock owes its timers nothing. -/
theorem ClockInv.onTime (h : ClockInv C s) (hs : TimedStep C s (some .irq) s') : OnTime s s' := by
  cases hs with
  | act ha => exact absurd rfl ha
  | irq hnow hstep hfreq =>
    cases hstep with
    | irq hr =>
      obtain ⟨evs, hd, -⟩ := h.inv.irq_delivered hr
      intro t ht
      rw [events_after hd.log, calledTimers, hd.calls] at ht
      obtain ⟨c, hc, rfl⟩ := List.mem_map.mp ht
      obtain ⟨t, hmem, rfl⟩ := List.mem_map.mp hc
      obtain ⟨hl, hcb⟩ := List.mem_filter.mp hmem
      have hcallback : (s.world.timers t).callback ≠ 0 := of_decide_eq_true hcb
      rw [hnow]
      refine ⟨h.oneshot t hl hcallback, ?_⟩
      intro hper p hp
      have hlast := h.called t p hp
      have hinterval := h.periodic t hl hcallback hper
      have hms : s.ms (s.interval t) ≤ s.ms 1000 := Nat.mul_le_mul_left _ hinterval
      exact Nat.le_trans (Nat.add_le_add_left hms p) hlast

/-! ## Boot -/

/-- `plat_timer_init` leaves the list empty. -/
theorem platTimerInit_ready {w₀ w₁ : TimerWorld ε} {intervalMs : Nat} (hlog : w₀.log = [])
    (hm : getPercpuTimerManager config w₀ = .ok m.addr w₀)
    (h : platTimerInit config intervalMs w₀ = .ok () w₁)
    (hi : C.Holds w₁) : TimerInv C w₁ ∧ w₁.log = [] := by
  have hget : (get : TimerM ε (TimerWorld ε)) w₀ = .ok w₀ w₀ := rfl
  obtain ⟨w, hinit, hlist, hlog', -⟩ := percpuTimerManagerInit_run m w₀
  unfold platTimerInit at h
  rw [bind_run hget, bind_run hm, if_neg (Nat.ne_of_gt m.pos)] at h
  beta_reduce at h
  rw [bind_run hinit] at h
  cases h
  rw [hlog] at hlog'
  refine ⟨⟨?_, hi⟩, hlog'⟩
  show TimerList m _ (replay [] w.log)
  rw [hlog']
  exact hlist.same rfl rfl

theorem ClockInv.init {w : TimerWorld ε} (h : TimerInv C w) (hlog : w.log = [])
    (hfreq : w.cntfrqEl0 < 2 ^ 64) :
    ClockInv C (Timed.init w) := by
  have hempty : ∀ t, t ∉ replay [] (Timed.init w).world.log := by
    intro t ht
    change t ∈ replay [] w.log at ht
    rw [hlog] at ht
    cases ht
  exact ⟨h, hfreq, Nat.zero_le _, (fun t p hp => nomatch hp), fun t ht => absurd ht (hempty t),
    fun t ht => absurd ht (hempty t)⟩

end

/-- **In every run whose timers are started in time, no callback comes early.** -/
theorem timer_never_early {ε : Type} {config : TimerConfig} {m : Manager}
    (C : TimerClient ε config m) {w₀ w₁ : TimerWorld ε} {intervalMs : Nat}
    {acts : List (Option TimerAct)} {s s' : Timed ε} (hlog : w₀.log = [])
    (hm : getPercpuTimerManager config w₀ = .ok m.addr w₀)
    (hinit : platTimerInit config intervalMs w₀ = .ok () w₁) (hinv : C.Holds w₁)
    (hfreq : w₁.cntfrqEl0 < 2 ^ 64) (hruns : Runs (InTimeStep C) (Timed.init w₁) acts s)
    (hirq : TimedStep C s (some .irq) s') : OnTime s s' := by
  obtain ⟨hready, hlog₁⟩ := platTimerInit_ready hlog hm hinit hinv
  have h : ClockInv C s := hruns.invariant (fun _ _ _ h hs => h.step hs) (.init hready hlog₁ hfreq)
  exact h.onTime hirq

/-! ## A one-shot timer of 1000 ms -/

def earlyReady (intervalMs : Nat) : TimerWorld Nat :=
  endWorld (platTimerInit exampleConfig intervalMs exampleBoot)

def earlyOne (intervalMs : Nat) : TimerWorld Nat :=
  endWorld (startTimer exampleConfig 24640 20480 (earlyReady intervalMs))

def earlyServed (intervalMs : Nat) : TimerWorld Nat :=
  endWorld (timerIrqHandler quietClient.callbacks quietClient.free 2 20480 (earlyOne intervalMs))

/-- The timer is started as soon as the hardware timer runs. -/
def earlyStarted (intervalMs : Nat) : Timed Nat :=
  (Timed.init (earlyReady intervalMs)).after (earlyOne intervalMs)
    (earlyReady intervalMs).cnthpTvalEl2

/-- The first expiry, before the interrupt. -/
def earlyExpired (intervalMs : Nat) : Timed Nat :=
  { earlyStarted intervalMs with now := 0 + (earlyReady intervalMs).cnthpTvalEl2 }

def earlyFired (intervalMs : Nat) : Timed Nat :=
  (earlyExpired intervalMs).after (earlyServed intervalMs)
    ((earlyExpired intervalMs).now + (earlyServed intervalMs).cnthpTvalEl2)

theorem early_steps {intervalMs : Nat}
    (hinit : platTimerInit exampleConfig intervalMs exampleBoot = .ok () (earlyReady intervalMs))
    (hirq : timerIrqHandler quietClient.callbacks quietClient.free 2 20480 (earlyOne intervalMs) =
      .ok 0 (earlyServed intervalMs))
    (hfreq : (earlyServed intervalMs).cntfrqEl0 = (earlyOne intervalMs).cntfrqEl0) :
    TimedStep quietClient (Timed.init (earlyReady intervalMs)) (some .start)
      (earlyStarted intervalMs) ∧
      TimedStep quietClient (earlyStarted intervalMs) none (earlyExpired intervalMs) ∧
      TimedStep quietClient (earlyExpired intervalMs) (some .irq) (earlyFired intervalMs) := by
  have hready :=
    platTimerInit_ready (m := exampleManager) (C := quietClient) rfl rfl hinit fun _ _ => trivial
  obtain ⟨hstart, -⟩ := hready.1.start_step 24640 20480 (exampleBlock (.inr rfl))
    (show 24640 ∉ replay [] (earlyReady intervalMs).log by rw [hready.2]; decide) rfl trivial
  refine ⟨.act (by decide) hstart rfl, .pass (Nat.le_of_eq (Nat.zero_add _)), ?_⟩
  exact .irq (Nat.zero_add _) (.irq hirq) hfreq

/-- Started 1000 ms before the first expiry, it fires on time. -/
theorem timer_never_early_example :
    Runs (InTimeStep quietClient) (Timed.init (earlyReady 1000)) [some .start, none]
      (earlyExpired 1000) ∧
      TimedStep quietClient (earlyExpired 1000) (some .irq) (earlyFired 1000) ∧
      OnTime (earlyExpired 1000) (earlyFired 1000) := by
  have hinit : platTimerInit exampleConfig 1000 exampleBoot = .ok () (earlyReady 1000) := rfl
  obtain ⟨hstart, hpass, hirq⟩ := early_steps hinit rfl rfl
  have hin : InTime (Timed.init (earlyReady 1000)) (earlyStarted 1000) := by
    intro t ht _
    have hevs : (Timed.init (earlyReady 1000)).events (earlyStarted 1000) = [.start 24640] := rfl
    rw [hevs, List.mem_singleton, TimerEvent.start.injEq] at ht
    rw [ht]
    decide +kernel
  have hquiet : InTime (earlyStarted 1000) (earlyExpired 1000) := by
    intro t ht
    cases ht
  have hruns : Runs (InTimeStep quietClient) (Timed.init (earlyReady 1000)) [some .start, none]
      (earlyExpired 1000) :=
    .cons ⟨hstart, hin⟩ (.single ⟨hpass, hquiet⟩)
  exact ⟨hruns, hirq,
    timer_never_early quietClient rfl (m := exampleManager) rfl hinit (fun _ _ => trivial)
      (by decide +kernel) hruns hirq⟩

/-- **Started 10 ms before the first expiry, it fires after 10 ms.** -/
theorem timer_fires_early :
    exampleBoot.log = [] ∧ getPercpuTimerManager exampleConfig exampleBoot =
      .ok exampleManager.addr exampleBoot ∧
      platTimerInit exampleConfig 10 exampleBoot = .ok () (earlyReady 10) ∧
      Runs (TimedStep quietClient) (Timed.init (earlyReady 10)) [some .start, none]
      (earlyExpired 10) ∧
      TimedStep quietClient (earlyExpired 10) (some .irq) (earlyFired 10) ∧
      ¬ OnTime (earlyExpired 10) (earlyFired 10) := by
  have hinit : platTimerInit exampleConfig 10 exampleBoot = .ok () (earlyReady 10) := rfl
  obtain ⟨hstart, hpass, hirq⟩ := early_steps hinit rfl rfl
  refine ⟨rfl, rfl, hinit, .cons hstart (.single hpass), hirq, ?_⟩
  intro h
  have hcalled : 24640 ∈ calledTimers ((earlyExpired 10).events (earlyFired 10)) := by
    decide +kernel
  have hlate := (h 24640 hcalled).1 (by decide +kernel)
  revert hlate
  decide +kernel

end ZHyper
