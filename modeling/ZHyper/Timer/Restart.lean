import ZHyper.Timer.Runs

/-!
# Starting a timer that is already started

`start_timer` links the node of the timer without looking at `is_active`.  Started
while it is on the list, a timer leaves no list: the nodes behind the head no longer
come back to it (`startTimer_listed`), and the walk of `timer_irq_handler` may go on
for ever (`restart_never_returns`).  As long as no timer is started while it is on the
list, the list is well formed and the walk takes one round for each timer on it
(`timer_walk_ends_iff`).
-/

namespace ZHyper

open LowLevel

variable {ε : Type} {config : TimerConfig} {m : Manager} {w w' : TimerWorld ε}
  {front rest l : List Nat} {t : Nat}

/-- **`start_timer` of a timer on the list leaves no list.** -/
theorem startTimer_listed {manager : Nat} (h : TimerList m w l) (ht : t ∈ l)
    (hm : StartsOn config m manager w) :
    ∃ w', startTimer config t manager w = .ok 0 w' ∧ ∀ l', ¬ TimerList m w' l' := by
  obtain ⟨l₁, l₂, rfl⟩ := List.append_of_mem ht
  have hring := h.ring
  have hz := h.nonzero
  rw [List.map_append, List.map_cons] at hring hz
  obtain ⟨L, hadd, hno⟩ := listAdd_relink hring hz
  refine ⟨startedWorld m t L w, startTimer_eq (h.block t ht).ne_zero hm hadd, ?_⟩
  intro l' h'
  exact hno _ h'.ring

/-- `start_timer` keeps the list well formed if and only if the timer is not on it. -/
theorem startTimer_keeps_iff {manager : Nat} (h : TimerList m w l) (hb : TimerBlock m t)
    (hm : StartsOn config m manager w) :
    ∃ w', startTimer config t manager w = .ok 0 w' ∧ ((∃ l', TimerList m w' l') ↔ t ∉ l) := by
  by_cases ht : t ∈ l
  · obtain ⟨w', hrun, hno⟩ := startTimer_listed h ht hm
    refine ⟨w', hrun, ?_⟩
    constructor
    · rintro ⟨l', h'⟩
      exact absurd h' (hno l')
    · intro hn
      exact absurd ht hn
  · obtain ⟨L, hrun, hlist, -⟩ := startTimer_run h (h.fresh_iff.mpr ⟨hb, ht⟩) hm
    exact ⟨_, hrun, fun _ => ht, fun _ => ⟨_, hlist⟩⟩

/-! ## The number of rounds -/

/-- A walk with fewer rounds than timers ahead does not come to its end. -/
theorem timerIrqLoop_short (C : TimerClient ε config m) {fuel : Nat}
    (h : TimerList m w (front ++ rest)) (hi : C.Holds w) (hf : fuel ≤ rest.length) :
    ∃ w', listForEachSafe TimerM.next .endless m.list (timerIrqBody C.callbacks C.free) fuel
      (posOf m rest) (w.links (posOf m rest)).next w = .error .endless w' := by
  induction fuel generalizing front rest w with
  | zero => exact ⟨w, rfl⟩
  | succ k ih =>
    cases rest with
    | nil => simp at hf
    | cons t rest =>
      have hpos : posOf m (t :: rest) ≠ m.list := (h.block t (by simp)).node_ne_list
      have hnext : (w.links (posOf m (t :: rest))).next = posOf m rest := next_node h
      obtain ⟨evs, w₁, hbody, hd, hinv, -⟩ := timerIrqBody_delivered C h hi
      have hround : timerIrqBody C.callbacks C.free (posOf m (t :: rest)) w = .ok () w₁ := hbody
      have hlist : TimerList m w₁ (newTimers evs ++ (front ++ periodics w [t]) ++ rest) := by
        simpa only [List.append_assoc] using hd.list
      obtain ⟨w', hloop⟩ := ih hlist hinv (Nat.le_of_succ_le_succ hf)
      refine ⟨w', ?_⟩
      rw [listForEachSafe, if_neg hpos, hnext, bind_run hround,
        bind_run (timerNext_run (posOf_ne_zero hlist))]
      exact hloop

/-- The interrupt returns if and only if its walk has a round for each timer, and one to see the
end. -/
theorem timerIrqHandler_returns_iff (C : TimerClient ε config m) (h : TimerList m w l)
    (hi : C.Holds w) (fuel : Nat) :
    (∃ r w', timerIrqHandler C.callbacks C.free fuel m.addr w = .ok r w') ↔ l.length < fuel := by
  constructor
  · rintro ⟨r, w', hrun⟩
    by_contra hf
    obtain ⟨w₁, hloop, -, -⟩ := timerIrqHandler_ok_iff.mp hrun
    have h₀ : TimerList m (irqEntry w) l := h.same rfl rfl
    have h₁ : TimerList m (irqEntry w) ([] ++ l) := h₀
    obtain ⟨w₂, hshort⟩ := timerIrqLoop_short C h₁ (h₀.holds (hi l h)) (Nat.le_of_not_lt hf)
    rw [timerIrqLoop_eq _ _ _ h₀, hshort] at hloop
    cases hloop
  · intro hf
    obtain ⟨evs, w₁, hrun, -⟩ := timerIrqHandler_delivered C h hi hf
    exact ⟨0, irqExit w₁, hrun⟩

/-- **In every run in which no timer is started while it is on the list**, the list is well formed
and holds each timer at most once, and the walk of the interrupt takes one round for each of
them.  In every world such a run reaches, the next start keeps the list if and only if the
timer is not on it. -/
theorem timer_walk_ends_iff (C : TimerClient ε config m) {w₀ w₁ : TimerWorld ε}
    {acts : List TimerAct} (hlog : w₀.log = [])
    (hinit : percpuTimerManagerInit m.addr w₀ = .ok () w₁) (hinv : C.Holds w₁)
    (hruns : Runs (TimerStep C) w₁ acts w) :
    ∃ l, TimerList m w l ∧ l.Nodup ∧
      (∀ fuel, (∃ r w', timerIrqHandler C.callbacks C.free fuel m.addr w = .ok r w') ↔
        l.length < fuel) ∧
      ∀ t manager, TimerBlock m t → StartsOn config m manager w →
        ∃ w', startTimer config t manager w = .ok 0 w' ∧ ((∃ l', TimerList m w' l') ↔ t ∉ l) := by
  have h : TimerInv C w := hruns.invariant (fun _ _ _ => TimerInv.step) (.init hlog hinit hinv)
  refine ⟨replay [] w.log, h.list, h.list.nodup, timerIrqHandler_returns_iff C h.list h.holds, ?_⟩
  intro t manager hb hm
  exact startTimer_keeps_iff h.list hb hm

/-- Two timers on the list: the walk takes two rounds, and a third to see the end. -/
theorem timer_walk_ends_example :
    ∃ l, TimerList exampleManager exampleTwo l ∧ l.Nodup ∧
      (∃ r w', timerIrqHandler exampleClient.callbacks exampleClient.free 3 20480 exampleTwo =
        .ok r w') ∧
      ¬ ∃ r w', timerIrqHandler exampleClient.callbacks exampleClient.free 2 20480 exampleTwo =
        .ok r w' := by
  have hlog : exampleBoot.log = [] := rfl
  have hinit : percpuTimerManagerInit exampleManager.addr exampleBoot = .ok () exampleReady := rfl
  obtain ⟨l, hlist, hnodup, hreturns, -⟩ :=
    timer_walk_ends_iff exampleClient hlog hinit exampleReady_inv.holds exampleTwo_reached
  have hinv := exampleTwo_reached.invariant (fun _ _ _ => TimerInv.step) exampleReady_inv
  have hlen : l.length = 2 := by
    rw [hlist.unique hinv.list]
    rfl
  refine ⟨l, hlist, hnodup, (hreturns 3).mpr (by omega), ?_⟩
  intro h
  have := (hreturns 2).mp h
  omega

/-! ## A timer started twice -/

/-- The calls of the users of a timer list: those of `TimerStep`, and `start_timer` of a timer that
is on the list. -/
inductive TimerCall (C : TimerClient ε config m) : TimerWorld ε → TimerAct → TimerWorld ε →
    Prop where
  | step {w w' : TimerWorld ε} {a : TimerAct} : TimerStep C w a w' → TimerCall C w a w'
  | restart {w w' : TimerWorld ε} {t manager : Nat} {r : Int} : Listed m w t →
    StartsOn config m manager w →
      startTimer config t manager w = .ok r w' → C.Holds w' → TimerCall C w .start w'

/-- A walk that stands on a periodic timer without a callback whose node points at itself stays. -/
theorem timerIrqLoop_selfLinked {callbacks : Nat → Nat → Nat → TimerM ε Unit}
    {free : Nat → TimerM ε Unit} (hb : TimerBlock m t)
    (hself : (w.links (timerNode t)).next = timerNode t) (hcb : (w.timers t).callback = 0)
    (hper : (w.timers t).isPeriodic = true) (fuel : Nat) :
    listForEachSafe TimerM.next .endless m.list (timerIrqBody callbacks free) fuel
      (timerNode t) (timerNode t) w = .error .endless w := by
  have hload : loadTimer t w = .ok (w.timers t) w := loadTimer_run hb.ne_zero
  have hcall : timerIrqCall callbacks t w = .ok () w := by
    unfold timerIrqCall
    rw [bind_run hload, if_neg (not_not.mpr hcb)]
    rfl
  have hreap : timerIrqReap free t w = .ok () w := by
    unfold timerIrqReap
    rw [bind_run hload, hper]
    rfl
  have hbody : timerIrqBody callbacks free (timerNode t) w = .ok () w := by
    unfold timerIrqBody
    rw [hb.listEntry_node, bind_run hload]
    split
    · rw [bind_run hcall]
      exact hreap
    · rfl
  induction fuel with
  | zero => rfl
  | succ k ih =>
    rw [listForEachSafe, if_neg hb.node_ne_list, bind_run hbody,
      bind_run (timerNext_run hb.node_ne_zero), hself]
    exact ih

/-- A periodic timer without a callback at 24576. -/
def restartBoot : TimerWorld Nat :=
  { exampleBoot with timers := fun _ => createdTimer true 1000 0 0 }

def restartReady : TimerWorld Nat := endWorld (percpuTimerManagerInit 20480 restartBoot)

def restartOne : TimerWorld Nat := endWorld (startTimer exampleConfig 24576 20480 restartReady)

def restartTwo : TimerWorld Nat := endWorld (startTimer exampleConfig 24576 20480 restartOne)

theorem restartTwo_reached :
    Runs (TimerCall exampleClient) restartReady [.start, .start] restartTwo ∧
      ∀ l, ¬ TimerList exampleManager restartTwo l := by
  have hready : TimerInv exampleClient restartReady := exampleInit_inv rfl ⟨by decide, by decide⟩
  obtain ⟨hone, hinv⟩ := hready.start_step 24576 20480 (exampleBlock (.inl rfl))
    (show 24576 ∉ replay [] [] by decide) rfl ⟨by decide, by decide⟩
  have hlist : TimerList exampleManager restartOne [24576] := hinv.list
  have hm : StartsOn exampleConfig exampleManager 20480 restartOne := rfl
  obtain ⟨w', hrun, hno⟩ := startTimer_listed hlist List.mem_cons_self hm
  have hw : restartTwo = w' := congrArg endWorld hrun
  rw [hw]
  have hholds : exampleClient.Holds w' := fun l h => absurd h (hno l)
  refine ⟨.cons (.step hone) (.single (.restart ⟨_, hlist, List.mem_cons_self⟩ hm hrun hholds)),
    hno⟩

/-- **Two starts of one periodic timer, and the interrupt never returns.** -/
theorem restart_never_returns :
    percpuTimerManagerInit exampleManager.addr restartBoot = .ok () restartReady ∧
      restartBoot.log = [] ∧
      Runs (TimerCall exampleClient) restartReady [.start, .start] restartTwo ∧
      (∀ l, ¬ TimerList exampleManager restartTwo l) ∧
      ∀ fuel r w', timerIrqHandler exampleClient.callbacks exampleClient.free fuel
      exampleManager.addr
        restartTwo ≠ .ok r w' := by
  refine ⟨rfl, rfl, restartTwo_reached.1, restartTwo_reached.2, ?_⟩
  intro fuel r w' hrun
  obtain ⟨w₁, hloop, -, -⟩ := timerIrqHandler_ok_iff.mp hrun
  have hstart : timerIrqLoop exampleClient.callbacks exampleClient.free fuel exampleManager.addr
      (irqEntry restartTwo) = listForEachSafe TimerM.next .endless exampleManager.list
        (timerIrqBody exampleClient.callbacks exampleClient.free) fuel (timerNode 24576)
          (timerNode 24576)
        (irqEntry restartTwo) := rfl
  rw [hstart, timerIrqLoop_selfLinked (exampleBlock (.inl rfl)) rfl rfl rfl] at hloop
  cases hloop

end ZHyper
