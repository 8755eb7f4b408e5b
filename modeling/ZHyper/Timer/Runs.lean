import ZHyper.Timer.Irq
import ZHyper.Lib.Runs

/-!
# Timer interrupts in every run

A run of a timer manager: from `percpu_timer_manager_init`, timers are created and
started, interrupts are taken, and the rest of the program runs in between, in any
order and number.  In every world that is reached the list of the manager holds the
timers that `replay` makes of the history, the one started last at the front, and the
next interrupt is exact (`timer_irq_exact`).
-/

namespace ZHyper

open LowLevel

variable {ε : Type} {config : TimerConfig} {m : Manager} {w w' : TimerWorld ε} {l : List Nat}
  {evs : List TimerEvent}

/-- The world in which the loop of `timer_irq_handler` starts. -/
def irqEntry (w : TimerWorld ε) : TimerWorld ε :=
  { w with cnthpCtlEl2 := 0, cnthpTvalEl2 := 0, gCounter := (w.gCounter + 1) % 2 ^ 64 }

/-- The world that `set_percpu_timer(1000)` leaves. -/
def irqExit (w : TimerWorld ε) : TimerWorld ε :=
  { w with cnthpTvalEl2 := w.cntfrqEl0 / 1000 * 1000 % 2 ^ 64, cnthpCtlEl2 := 1 }

/-- **Exact delivery**, from `w` with the timers `l` on the list to `w'`. -/
structure IrqExact (C : TimerClient ε config m) (w : TimerWorld ε) (l : List Nat)
    (w' : TimerWorld ε) : Prop where
  /-- No timer is on the list twice: each of the lists below has no duplicates. -/
  once : l.Nodup
  delivered : ∃ evs, w'.log = w.log ++ evs ∧
    -- the callbacks called, in the order of the list, and no others
    evs.filterMap TimerEvent.called = callsOf w l ∧
    evs.filterMap TimerEvent.unlinked = oneshots w l ∧
    evs.filterMap TimerEvent.freed = oneshots w l ∧
    TimerList m w' (newTimers evs ++ periodics w l) ∧
    -- the callbacks and `free`, in the order of `evs`, make the world afterwards, `env` and all
    ∃ w₁, TimersServed C (irqEntry w) evs w₁ ∧ w' = irqExit w₁
  /-- The timers that stay are as they were. -/
  duty : ∀ t ∈ periodics w l, (w'.timers t).duty = (w.timers t).duty

theorem Delivered.irqExact {C : TimerClient ε config m} {w₁ : TimerWorld ε}
    (h : Delivered m w [] l [] evs (irqExit w₁)) (hl : TimerList m w l)
    (hs : TimersServed C (irqEntry w) evs w₁) : IrqExact C w l (irqExit w₁) := by
  have hlist := h.list
  have hduty := h.duty
  rw [List.nil_append, List.append_nil] at hlist hduty
  exact ⟨hl.nodup, ⟨evs, h.log, h.calls, h.unlinks, h.frees, hlist, w₁, hs, rfl⟩, hduty⟩

/-- The walk starts at the first timer. -/
theorem timerIrqLoop_eq (callbacks : Nat → Nat → Nat → TimerM ε Unit) (free : Nat → TimerM ε Unit)
    (fuel : Nat) (h : TimerList m w l) :
    timerIrqLoop callbacks free fuel m.addr w =
      listForEachSafe TimerM.next .endless m.list (timerIrqBody callbacks free) fuel
        (posOf m l) (w.links (posOf m l)).next w := by
  have h₀ : TimerList m w ([] ++ l) := h
  show (TimerM.next m.list >>= fun pos => TimerM.next pos >>= fun n =>
    listForEachSafe TimerM.next .endless m.list (timerIrqBody callbacks free) fuel pos n) w = _
  rw [bind_run (timerNext_run (TimerBlock.list_ne_zero m)), next_list h,
    bind_run (timerNext_run (posOf_ne_zero h₀))]

theorem timerIrqLoop_run (C : TimerClient ε config m) {fuel : Nat} (h : TimerList m w l)
    (hi : C.Holds w) (hf : l.length < fuel) :
    ∃ evs w', timerIrqLoop C.callbacks C.free fuel m.addr w = .ok () w' ∧
      Delivered m w [] l [] evs w' ∧ C.Holds w' ∧ TimersServed C w evs w' := by
  have h₀ : TimerList m w ([] ++ l) := h
  obtain ⟨evs, w', hloop, hd, hi'⟩ := timerIrqLoop_delivered C h₀ hi hf
  refine ⟨evs, w', ?_, hd, hi'⟩
  rw [timerIrqLoop_eq _ _ _ h]
  exact hloop

theorem timerIrqHandler_ok_iff {callbacks : Nat → Nat → Nat → TimerM ε Unit}
    {free : Nat → TimerM ε Unit} {fuel : Nat} {r : Int} :
    timerIrqHandler callbacks free fuel m.addr w = .ok r w' ↔
      ∃ w₁, timerIrqLoop callbacks free fuel m.addr (irqEntry w) = .ok () w₁ ∧ r = 0 ∧
        w' = irqExit w₁ := by
  have hrun : timerIrqHandler callbacks free fuel m.addr w =
      (timerIrqLoop callbacks free fuel m.addr >>= fun _ => setPercpuTimer 1000 >>= fun _ =>
        pure 0 :
        TimerM ε Int) (irqEntry w) := by
    unfold timerIrqHandler
    rw [if_pos (Nat.ne_of_gt m.pos)]
    rfl
  rw [hrun, bind_ok_iff]
  constructor
  · rintro ⟨_, w₁, hloop, h⟩
    injection h with hr hw
    exact ⟨w₁, hloop, hr.symm, hw.symm⟩
  · rintro ⟨w₁, hloop, rfl, rfl⟩
    exact ⟨(), w₁, hloop, rfl⟩

theorem timerIrqHandler_delivered (C : TimerClient ε config m) {fuel : Nat} (h : TimerList m w l)
    (hi : C.Holds w) (hf : l.length < fuel) :
    ∃ evs w₁, timerIrqHandler C.callbacks C.free fuel m.addr w = .ok 0 (irqExit w₁) ∧
      Delivered m w [] l [] evs (irqExit w₁) ∧ C.Holds (irqExit w₁) ∧
      TimersServed C (irqEntry w) evs w₁ := by
  have h₀ : TimerList m (irqEntry w) l := h.same rfl rfl
  obtain ⟨evs, w₁, hloop, hd, hi₁, hs⟩ := timerIrqLoop_run C h₀ (h₀.holds (hi l h)) hf
  have hlist : TimerList m (irqExit w₁) _ := hd.list.same rfl rfl
  refine ⟨evs, w₁, timerIrqHandler_ok_iff.mpr ⟨w₁, hloop, rfl, rfl⟩, ?_, ?_, hs⟩
  · exact ⟨hd.log, hd.calls, hd.unlinks, hd.frees, hlist, hd.history, hd.duty⟩
  · exact hlist.holds (hi₁ _ hd.list)

/-- The bound of the loop does not matter to an interrupt that returns. -/
theorem timerIrqHandler_mono {callbacks : Nat → Nat → Nat → TimerM ε Unit}
    {free : Nat → TimerM ε Unit} {fuel fuel' : Nat} {r : Int} (hf : fuel ≤ fuel')
    (h : timerIrqHandler callbacks free fuel m.addr w = .ok r w') :
    timerIrqHandler callbacks free fuel' m.addr w = .ok r w' := by
  obtain ⟨w₁, hloop, hr, hw⟩ := timerIrqHandler_ok_iff.mp h
  refine timerIrqHandler_ok_iff.mpr ⟨w₁, ?_, hr, hw⟩
  obtain ⟨pos, w₂, hpos, hloop⟩ := bind_ok_iff.mp hloop
  obtain ⟨n, w₃, hn, hloop⟩ := bind_ok_iff.mp hloop
  exact bind_ok_iff.mpr ⟨pos, w₂, hpos, bind_ok_iff.mpr ⟨n, w₃, hn, listForEachSafe_mono hf hloop⟩⟩

/-! ## Runs -/

inductive TimerAct where
  | create
  | start
  | irq
  | other
deriving DecidableEq

/-- A step of the program that uses the timers of `m`. -/
inductive TimerStep (C : TimerClient ε config m) : TimerWorld ε → TimerAct → TimerWorld ε →
    Prop where
  /-- `create_timer_periodic` in a block of the heap -/
  | createPeriodic {w w' : TimerWorld ε} {block intervalMs callback arg r : Nat} : Fresh m w block →
      createTimerPeriodic block intervalMs callback arg w = .ok r w' → TimerStep C w .create w'
  | createOneshot {w w' : TimerWorld ε} {block intervalMs callback arg r : Nat} : Fresh m w block →
      createTimerOneshot block intervalMs callback arg w = .ok r w' → TimerStep C w .create w'
  /-- `start_timer` of a timer that is not on the list -/
  | start {w w' : TimerWorld ε} {t manager : Nat} {r : Int} : Fresh m w t →
    StartsOn config m manager w →
      startTimer config t manager w = .ok r w' → C.Holds w' → TimerStep C w .start w'
  | irq {w w' : TimerWorld ε} {fuel : Nat} {r : Int} :
      timerIrqHandler C.callbacks C.free fuel m.addr w = .ok r w' → TimerStep C w .irq w'
  /-- the rest of the program, which keeps off the list -/
  | other {w w' : TimerWorld ε} : Untouched m w w' → C.Holds w' → TimerStep C w .other w'

/-- The list is what the history makes of it. -/
structure TimerInv (C : TimerClient ε config m) (w : TimerWorld ε) : Prop where
  list : TimerList m w (replay [] w.log)
  holds : C.Holds w

namespace TimerInv

variable {C : TimerClient ε config m}

theorem init {w₀ : TimerWorld ε} (hlog : w₀.log = [])
    (h : percpuTimerManagerInit m.addr w₀ = .ok () w) (hi : C.Holds w) : TimerInv C w := by
  obtain ⟨w', hrun, hlist, hlog', -⟩ := percpuTimerManagerInit_run m w₀
  rw [h] at hrun
  cases hrun
  refine ⟨?_, hi⟩
  rw [hlog', hlog]
  exact hlist

theorem untouched (h : TimerInv C w) (hu : Untouched m w w') (hi : C.Holds w') : TimerInv C w' := by
  refine ⟨?_, hi⟩
  rw [hu.log]
  exact h.list.untouched hu

theorem create {isPeriodic : Bool} {block intervalMs callback arg r : Nat} (h : TimerInv C w)
    (hf : Fresh m w block)
    (hc : createTimer isPeriodic block intervalMs callback arg w = .ok r w') :
    TimerInv C w' := by
  obtain ⟨hu, henv⟩ := createTimer_untouched hf hc
  refine h.untouched hu ((h.list.untouched hu).holds ?_)
  rw [henv]
  exact h.holds _ h.list

theorem start {t manager : Nat} {r : Int} (h : TimerInv C w) (hf : Fresh m w t)
    (hm : StartsOn config m manager w) (hs : startTimer config t manager w = .ok r w')
    (hi : C.Holds w') : TimerInv C w' := by
  obtain ⟨L, hrun, hlist, -⟩ := startTimer_run h.list hf hm
  rw [hrun] at hs
  cases hs
  refine ⟨?_, hi⟩
  show TimerList m _ (replay [] (w.log ++ [_]))
  rw [replay_append]
  exact hlist

theorem irq_delivered {fuel : Nat} {r : Int} (h : TimerInv C w)
    (hr : timerIrqHandler C.callbacks C.free fuel m.addr w = .ok r w') :
    ∃ evs, Delivered m w [] (replay [] w.log) [] evs w' ∧ C.Holds w' := by
  obtain ⟨evs, w₁, hrun, hd, hi, -⟩ := timerIrqHandler_delivered C h.list h.holds
    (Nat.lt_of_succ_le (Nat.le_max_right fuel _))
  rw [timerIrqHandler_mono (Nat.le_max_left fuel _) hr] at hrun
  cases hrun
  exact ⟨evs, hd, hi⟩

theorem irq {fuel : Nat} {r : Int} (h : TimerInv C w)
    (hr : timerIrqHandler C.callbacks C.free fuel m.addr w = .ok r w') : TimerInv C w' := by
  obtain ⟨evs, hd, hi⟩ := h.irq_delivered hr
  have hhist := hd.history
  rw [List.nil_append, List.append_nil] at hhist
  refine ⟨?_, hi⟩
  rw [hd.log, replay_append, hhist]
  exact hd.list

theorem step {a : TimerAct} (h : TimerInv C w) (hs : TimerStep C w a w') : TimerInv C w' := by
  cases hs with
  | createPeriodic hf hc => exact h.create hf hc
  | createOneshot hf hc => exact h.create hf hc
  | start hf hm hs hi => exact h.start hf hm hs hi
  | irq hr => exact h.irq hr
  | other hu hi => exact h.untouched hu hi

end TimerInv

/-- **In every run the list is well formed, the timer started last at its front, and the next
interrupt returns and is exact.** -/
theorem timer_irq_exact (C : TimerClient ε config m) {w₀ w₁ : TimerWorld ε} {acts : List TimerAct}
    (hlog : w₀.log = []) (hinit : percpuTimerManagerInit m.addr w₀ = .ok () w₁) (hinv : C.Holds w₁)
    (hruns : Runs (TimerStep C) w₁ acts w) :
    TimerList m w (replay [] w.log) ∧
      ∀ fuel, (replay [] w.log).length < fuel →
        ∃ w', timerIrqHandler C.callbacks C.free fuel m.addr w = .ok 0 w' ∧
          IrqExact C w (replay [] w.log) w' := by
  have h : TimerInv C w := hruns.invariant (fun _ _ _ => TimerInv.step) (.init hlog hinit hinv)
  refine ⟨h.list, ?_⟩
  intro fuel hf
  obtain ⟨evs, w₁, hrun, hd, -, hs⟩ := timerIrqHandler_delivered C h.list h.holds hf
  exact ⟨irqExit w₁, hrun, hd.irqExact h.list hs⟩

/-! ## A client -/

def exampleManager : Manager := ⟨20480, by decide, by decide⟩

def exampleConfig : TimerConfig := ⟨1, 20480⟩

/-- Take the next block of a heap that only grows, and start a one-shot timer in it. -/
def exampleCallback : TimerM Nat Unit := do
  let block := (← get).env
  if block + 64 ≤ 2 ^ 64 then
    modify fun w => { w with env := block + 64 }
    let timer ← createTimerOneshot block 1000 0 0
    let _ ← startTimer exampleConfig timer 20480

/-- The blocks of the timers on the list are in use. -/
def ExampleInv (env : Nat) (l : List Nat) : Prop := 24576 ≤ env ∧ ∀ t ∈ l, t < env

theorem exampleCallback_ok {w : TimerWorld Nat} {l : List Nat} (h : TimerList exampleManager w l)
    (hi : ExampleInv w.env l) :
    ∃ w' l', exampleCallback w = .ok () w' ∧ CallbackRun exampleConfig exampleManager w w' ∧
      TimerList exampleManager w' l' ∧ ExampleInv w'.env l' := by
  obtain ⟨hge, hlt⟩ := hi
  by_cases hfits : w.env + 64 ≤ 2 ^ 64
  · have hb : TimerBlock exampleManager w.env := by
      refine ⟨by omega, ?_, .inr ?_⟩
      · unfold timerSizeof
        omega
      · show 20480 + managerSizeof ≤ w.env
        unfold managerSizeof
        omega
    have hnl : w.env ∉ l := fun hm => Nat.lt_irrefl _ (hlt _ hm)
    have hu : Untouched exampleManager w { w with env := w.env + 64 } :=
      ⟨rfl, rfl, fun _ _ => rfl, fun _ _ => rfl⟩
    have hm : ∀ v : TimerWorld Nat, v.mpidrEl1 = w.mpidrEl1 →
        StartsOn exampleConfig exampleManager 20480 v := fun _ _ => rfl
    obtain ⟨w', hrun, hcb, hlist, henv⟩ :=
      createTimer_startTimer_run false 1000 0 0 (h.untouched hu) hb hnl hm
    obtain ⟨timer, w₁, hcreate, hstart⟩ := bind_ok_iff.mp hrun
    refine ⟨w', _, ?_, .other hu hcb, hlist, ?_⟩
    · show (if w.env + 64 ≤ 2 ^ 64 then _ else pure () : TimerM Nat Unit) w = _
      rw [if_pos hfits]
      exact bind_ok_iff.mpr ⟨(), _, rfl, bind_ok_iff.mpr ⟨timer, w₁, hcreate,
        bind_ok_iff.mpr ⟨0, w', hstart, rfl⟩⟩⟩
    · rw [henv]
      refine ⟨by show 24576 ≤ w.env + 64; omega, ?_⟩
      intro t ht
      show t < w.env + 64
      rcases List.mem_cons.mp ht with rfl | ht
      · omega
      · have := hlt t ht
        omega
  · refine ⟨w, l, ?_, .done w, h, hge, hlt⟩
    show (if w.env + 64 ≤ 2 ^ 64 then _ else pure () : TimerM Nat Unit) w = _
    rw [if_neg hfits]
    rfl

/-- Every callback pointer stands for `exampleCallback`, and nothing freed is used again. -/
def exampleClient : TimerClient Nat exampleConfig exampleManager where
  callbacks _ _ _ := exampleCallback
  free _ := pure ()
  inv := ExampleInv
  call_ok w l t h hi _ _ := by
    obtain ⟨w', l', hrun, hcb, hlist, hinv⟩ := exampleCallback_ok h hi
    refine ⟨w', hrun, hcb, ?_⟩
    intro l'' h''
    rwa [h''.unique hlist]
  free_ok w l₁ l₂ t h hi _ _ := by
    refine ⟨w, rfl, ⟨rfl, rfl, fun _ _ => rfl, fun _ _ => rfl⟩, hi.1, fun u hu => hi.2 u ?_⟩
    exact List.mem_append.mpr ((List.mem_append.mp hu).imp_right (List.mem_cons_of_mem _))

/-- The world a computation ends in. -/
def endWorld {α : Type} : EStateM.Result TimerFault (TimerWorld ε) α → TimerWorld ε
  | .ok _ w => w
  | .error _ w => w

/-- A periodic timer at 24576 and a one-shot timer at 24640, both with a callback. -/
def exampleBoot : TimerWorld Nat where
  links _ := ⟨0, 0⟩
  timers t := createdTimer (t = 24576) 1000 7 t
  managers _ := ⟨0, 0⟩
  gCounter := 0
  cnthpCtlEl2 := 0
  cnthpTvalEl2 := 0
  cntfrqEl0 := 62500000
  cntvctEl0 := 0
  mpidrEl1 := 0
  env := 24704
  log := []

def exampleReady : TimerWorld Nat := endWorld (percpuTimerManagerInit 20480 exampleBoot)

def exampleOne : TimerWorld Nat := endWorld (startTimer exampleConfig 24576 20480 exampleReady)

/-- Both timers started, the second one with `NULL` for the manager. -/
def exampleTwo : TimerWorld Nat := endWorld (startTimer exampleConfig 24640 0 exampleOne)

theorem exampleBlock {t : Nat} (ht : t = 24576 ∨ t = 24640) : TimerBlock exampleManager t := by
  rcases ht with rfl | rfl
  · exact ⟨by decide, by decide, .inr (by decide)⟩
  · exact ⟨by decide, by decide, .inr (by decide)⟩

theorem exampleInit_inv {w₀ : TimerWorld Nat} (hlog : w₀.log = [])
    (hi : ExampleInv (endWorld (percpuTimerManagerInit 20480 w₀)).env []) :
    TimerInv exampleClient (endWorld (percpuTimerManagerInit 20480 w₀)) := by
  obtain ⟨w', hrun, hlist, -⟩ := percpuTimerManagerInit_run exampleManager w₀
  have hw : endWorld (percpuTimerManagerInit 20480 w₀) = w' := congrArg endWorld hrun
  rw [hw] at hi ⊢
  exact .init hlog hrun (hlist.holds hi)

theorem exampleReady_inv : TimerInv exampleClient exampleReady :=
  exampleInit_inv rfl ⟨by decide, by decide⟩

/-- A timer off the list is started in a step. -/
theorem TimerInv.start_step {C : TimerClient ε config m} (h : TimerInv C w) (t manager : Nat)
    (hb : TimerBlock m t) (ht : t ∉ replay [] w.log) (hm : StartsOn config m manager w)
    (hi : C.inv w.env (t :: replay [] w.log)) :
    TimerStep C w .start (endWorld (startTimer config t manager w)) ∧
      TimerInv C (endWorld (startTimer config t manager w)) := by
  have hf := h.list.fresh_iff.mpr ⟨hb, ht⟩
  obtain ⟨L, hrun, hlist, -⟩ := startTimer_run h.list hf hm
  have hholds : C.Holds (startedWorld m t L w) := hlist.holds hi
  rw [hrun]
  exact ⟨.start hf hm hrun hholds, h.start hf hm hrun hholds⟩

theorem exampleTwo_reached :
    Runs (TimerStep exampleClient) exampleReady [.start, .start] exampleTwo := by
  obtain ⟨hone, hinv⟩ := exampleReady_inv.start_step 24576 20480 (exampleBlock (.inl rfl))
    (show 24576 ∉ replay [] [] by decide) rfl ⟨by decide, by decide⟩
  obtain ⟨htwo, -⟩ := hinv.start_step 24640 0 (exampleBlock (.inr rfl))
    (show 24640 ∉ replay [] [.start 24576] by decide) rfl ⟨by decide, by decide⟩
  exact .cons hone (.single htwo)

theorem timer_irq_exact_example :
    ∃ w', timerIrqHandler exampleClient.callbacks exampleClient.free 3 20480 exampleTwo = .ok 0 w' ∧
      IrqExact exampleClient exampleTwo [24640, 24576] w' := by
  have hlog : exampleBoot.log = [] := rfl
  have hinit : percpuTimerManagerInit exampleManager.addr exampleBoot = .ok () exampleReady := rfl
  exact (timer_irq_exact exampleClient hlog hinit exampleReady_inv.holds exampleTwo_reached).2 3
    (by decide)

end ZHyper
