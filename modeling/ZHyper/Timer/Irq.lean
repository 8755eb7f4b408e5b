import ZHyper.Timer.Ops

/-!
# The timer interrupt delivers exactly

`TimerClient` is the code that uses the timers: its callbacks and `free`, with what they
keep.  `Delivered m w front done rest evs w'` says what has happened once the loop of
`timer_irq_handler` is past the timers `done`, with `front` already behind them and
`rest` still ahead: `evs` is what it did, and the list holds the timers started
meanwhile, then `front`, then the periodic ones of `done`, then `rest`.

One round of the loop is `timerIrqBody_delivered`; the loop is the induction over
`rest` (`timerIrqLoop_delivered`), carried by `Delivered.trans`.  The successor is
read before the callback runs, and neither a callback nor `free` changes which timer
stands behind the one that is being served; new timers come in front of all of them.
-/

namespace ZHyper

open LowLevel

/-! ## Events -/

namespace TimerEvent

def called : TimerEvent → Option (Nat × Nat × Nat)
  | call t callback arg => some (t, callback, arg)
  | _ => none

def started : TimerEvent → Option Nat
  | start t => some t
  | _ => none

def unlinked : TimerEvent → Option Nat
  | unlink t => some t
  | _ => none

def freed : TimerEvent → Option Nat
  | free t => some t
  | _ => none

/-- What an event does to a list of timers: a started timer comes to its front. -/
def apply (l : List Nat) : TimerEvent → List Nat
  | start t => t :: l
  | unlink t => l.erase t
  | _ => l

end TimerEvent

/-- The timers on the list after the events `evs`, if they were `l` before. -/
def replay (l : List Nat) (evs : List TimerEvent) : List Nat := evs.foldl TimerEvent.apply l

theorem replay_append (l : List Nat) (evs evs' : List TimerEvent) :
    replay l (evs ++ evs') = replay (replay l evs) evs' := List.foldl_append

theorem replay_starts (l new : List Nat) : replay l (new.map .start) = new.reverse ++ l := by
  induction new generalizing l with
  | nil => rfl
  | cons t new ih =>
    rw [List.reverse_cons, List.append_assoc]
    exact ih (t :: l)

/-! ## What an interrupt delivers -/

section Delivered

variable {ε : Type} {m : Manager} {w w₁ w' : TimerWorld ε} {front done done' rest l : List Nat}
  {evs evs' : List TimerEvent} {t : Nat}

/-- The calls that the timers `l` ask for. -/
def callsOf (w : TimerWorld ε) (l : List Nat) : List (Nat × Nat × Nat) :=
  (l.filter fun t => (w.timers t).callback ≠ 0).map fun t =>
    (t, (w.timers t).callback, (w.timers t).arg)

def periodics (w : TimerWorld ε) (l : List Nat) : List Nat :=
  l.filter fun t => (w.timers t).isPeriodic

def oneshots (w : TimerWorld ε) (l : List Nat) : List Nat :=
  l.filter fun t => !(w.timers t).isPeriodic

/-- The timers that `evs` started, the last one first. -/
def newTimers (evs : List TimerEvent) : List Nat := (evs.filterMap TimerEvent.started).reverse

structure Delivered (m : Manager) (w : TimerWorld ε) (front done rest : List Nat)
    (evs : List TimerEvent) (w' : TimerWorld ε) : Prop where
  log : w'.log = w.log ++ evs
  calls : evs.filterMap TimerEvent.called = callsOf w done
  unlinks : evs.filterMap TimerEvent.unlinked = oneshots w done
  frees : evs.filterMap TimerEvent.freed = oneshots w done
  list : TimerList m w' (newTimers evs ++ (front ++ (periodics w done ++ rest)))
  history : replay (front ++ (done ++ rest)) evs = newTimers evs ++
    (front ++ (periodics w done ++ rest))
  duty : ∀ t ∈ front ++ (periodics w done ++ rest), (w'.timers t).duty = (w.timers t).duty

theorem duty_eq (h : (w'.timers t).duty = (w.timers t).duty) :
    (w'.timers t).isPeriodic = (w.timers t).isPeriodic ∧
      (w'.timers t).callback = (w.timers t).callback ∧
      (w'.timers t).arg = (w.timers t).arg := by
  simp only [Timer.duty, Prod.mk.injEq] at h
  exact h.2

theorem callsOf_congr (h : ∀ t ∈ l, (w'.timers t).duty = (w.timers t).duty) :
    callsOf w' l = callsOf w l := by
  have hf : l.filter (fun t => decide ((w'.timers t).callback ≠ 0)) =
      l.filter fun t => decide ((w.timers t).callback ≠ 0) := by
    apply List.filter_congr
    intro t ht
    rw [(duty_eq (h t ht)).2.1]
  unfold callsOf
  rw [hf]
  apply List.map_congr_left
  intro t ht
  have hd := duty_eq (h t (List.mem_filter.mp ht).1)
  rw [hd.2.1, hd.2.2]

theorem periodics_congr (h : ∀ t ∈ l, (w'.timers t).duty = (w.timers t).duty) :
    periodics w' l = periodics w l := by
  apply List.filter_congr
  intro t ht
  rw [(duty_eq (h t ht)).1]

theorem oneshots_congr (h : ∀ t ∈ l, (w'.timers t).duty = (w.timers t).duty) :
    oneshots w' l = oneshots w l := by
  apply List.filter_congr
  intro t ht
  rw [(duty_eq (h t ht)).1]

theorem oneshots_eq_nil (h : ∀ t ∈ l, (w.timers t).isPeriodic = true) : oneshots w l = [] := by
  apply List.filter_eq_nil_iff.mpr
  intro t ht
  rw [h t ht]
  decide

theorem Delivered.nil (h : TimerList m w (front ++ rest)) : Delivered m w front [] rest [] w :=
  ⟨(List.append_nil _).symm, rfl, rfl, rfl, h, rfl, fun _ _ => rfl⟩

/-- First the timers `done`, then the timers `done'`. -/
theorem Delivered.trans (h : Delivered m w front done (done' ++ rest) evs w₁)
    (h' : Delivered m w₁ (newTimers evs ++ (front ++ periodics w done)) done' rest evs' w') :
    Delivered m w front (done ++ done') rest (evs ++ evs') w' := by
  have hd : ∀ t ∈ done', (w₁.timers t).duty = (w.timers t).duty := by
    intro t ht
    exact h.duty t (by simp [ht])
  have hnew : newTimers (evs ++ evs') = newTimers evs' ++ newTimers evs := by
    simp [newTimers]
  have hper : periodics w (done ++ done') = periodics w done ++ periodics w₁ done' := by
    rw [periodics_congr hd]
    simp [periodics]
  refine ⟨?_, ?_, ?_, ?_, ?_, ?_, ?_⟩
  · rw [h'.log, h.log, List.append_assoc]
  · rw [List.filterMap_append, h.calls, h'.calls, callsOf_congr hd]
    simp [callsOf]
  · rw [List.filterMap_append, h.unlinks, h'.unlinks, oneshots_congr hd]
    simp [oneshots]
  · rw [List.filterMap_append, h.frees, h'.frees, oneshots_congr hd]
    simp [oneshots]
  · have hl := h'.list
    rw [hnew, hper]
    simpa only [List.append_assoc] using hl
  · have hl := h'.history
    have hl₁ := h.history
    rw [hnew, hper, replay_append]
    simp only [List.append_assoc] at hl hl₁ ⊢
    rw [hl₁, hl]
  · intro t ht
    rw [hper] at ht
    have hmem : t ∈ newTimers evs ++ (front ++ periodics w done) ++
        (periodics w₁ done' ++ rest) := by
      simp only [List.mem_append] at ht ⊢
      tauto
    rw [h'.duty t hmem]
    apply h.duty t
    simp only [List.mem_append] at ht ⊢
    rcases ht with ht | (ht | ht) | ht
    · exact .inl ht
    · exact .inr (.inl ht)
    · exact .inr (.inr (.inl (List.mem_filter.mp ht).1))
    · exact .inr (.inr (.inr ht))

end Delivered

/-! ## Clients -/

/-- The code that uses the timers of `m`.  `inv` is what it keeps about its own state and the
timers on the list: that they are live blocks of its heap, say. -/
structure TimerClient (ε : Type) (config : TimerConfig) (m : Manager) where
  callbacks : Nat → Nat → Nat → TimerM ε Unit
  free : Nat → TimerM ε Unit
  inv : ε → List Nat → Prop
  /-- A callback returns, and all it does to the list is to start fresh timers. -/
  call_ok : ∀ w l t, TimerList m w l → inv w.env l → t ∈ l → (w.timers t).callback ≠ 0 →
    ∃ w', callbacks (w.timers t).callback t (w.timers t).arg w = .ok () w' ∧
      CallbackRun config m w w' ∧ ∀ l', TimerList m w' l' → inv w'.env l'
  /-- `free` of a timer that is off the list keeps off the list. -/
  free_ok : ∀ w l₁ l₂ t, TimerList m w (l₁ ++ l₂) → inv w.env (l₁ ++ t :: l₂) → TimerBlock m t →
    t ∉ l₁ ++ l₂ → ∃ w', free t w = .ok () w' ∧ Untouched m w w' ∧ inv w'.env (l₁ ++ l₂)

section Client

variable {ε : Type} {config : TimerConfig} {m : Manager} (C : TimerClient ε config m)
  {w w' : TimerWorld ε} {front rest l l₁ l₂ new : List Nat} {t : Nat}

/-- What the client keeps holds in `w`. -/
def TimerClient.Holds (w : TimerWorld ε) : Prop := ∀ l, TimerList m w l → C.inv w.env l

variable {C} in
theorem TimerList.holds (h : TimerList m w l) (hi : C.inv w.env l) : C.Holds w := by
  intro l' h'
  rwa [← h.unique h']

def callEvents (w : TimerWorld ε) (t : Nat) : List TimerEvent :=
  if (w.timers t).callback = 0 then [] else [.call t (w.timers t).callback (w.timers t).arg]

def reapEvents (w : TimerWorld ε) (t : Nat) : List TimerEvent :=
  if (w.timers t).isPeriodic then [] else [.unlink t, .free t]

/-- What the round of a timer does, `new` being the timers its callback starts. -/
def roundEvents (w : TimerWorld ε) (t : Nat) (new : List Nat) : List TimerEvent :=
  callEvents w t ++ (new.map .start ++ reapEvents w t)

theorem roundEvents_called (w : TimerWorld ε) (t : Nat) (new : List Nat) :
    (roundEvents w t new).filterMap TimerEvent.called = callsOf w [t] := by
  unfold roundEvents callEvents reapEvents callsOf
  split <;> split <;> simp [List.filterMap_cons, List.filterMap_map, Function.comp_def,
    TimerEvent.called, *]

theorem roundEvents_unlinked (w : TimerWorld ε) (t : Nat) (new : List Nat) :
    (roundEvents w t new).filterMap TimerEvent.unlinked = oneshots w [t] := by
  unfold roundEvents callEvents reapEvents oneshots
  split <;> split <;> simp [List.filterMap_cons, List.filterMap_map, Function.comp_def,
    TimerEvent.unlinked, *]

theorem roundEvents_freed (w : TimerWorld ε) (t : Nat) (new : List Nat) :
    (roundEvents w t new).filterMap TimerEvent.freed = oneshots w [t] := by
  unfold roundEvents callEvents reapEvents oneshots
  split <;> split <;> simp [List.filterMap_cons, List.filterMap_map, Function.comp_def,
    TimerEvent.freed, *]

theorem roundEvents_newTimers (w : TimerWorld ε) (t : Nat) (new : List Nat) :
    newTimers (roundEvents w t new) = new.reverse := by
  unfold newTimers roundEvents callEvents reapEvents
  split <;> split <;> simp [List.filterMap_cons, List.filterMap_map, Function.comp_def,
    TimerEvent.started]

theorem replay_roundEvents (hnd : (new.reverse ++ l₁ ++ t :: l₂).Nodup) :
    replay (l₁ ++ t :: l₂) (roundEvents w t new) = new.reverse ++
      (l₁ ++ (periodics w [t] ++ l₂)) := by
  have hcall : replay (l₁ ++ t :: l₂) (callEvents w t) = l₁ ++ t :: l₂ := by
    unfold callEvents
    split
    · rfl
    · rfl
  have ht : t ∉ new.reverse ++ l₁ := by
    have := (List.nodup_cons.mp (List.nodup_middle.mp hnd)).1
    exact fun hm => this (List.mem_append_left _ hm)
  unfold roundEvents
  rw [replay_append, hcall, replay_append, replay_starts, ← List.append_assoc, ← List.append_assoc]
  unfold reapEvents
  split
  · next hp =>
    have hper : periodics w [t] = [t] := by simp [periodics, hp]
    rw [hper]
    rfl
  · next hp =>
    have hper : periodics w [t] = [] := by simp [periodics, hp]
    show (new.reverse ++ l₁ ++ t :: l₂).erase t = _
    rw [hper, List.erase_append_right _ ht, List.erase_cons_head, List.nil_append]

/-- The links and the timer once `t` is off the list. -/
def reapedWorld (t : Nat) (L : Links) (w : TimerWorld ε) : TimerWorld ε :=
  { w with
    timers := Function.update w.timers t { w.timers t with isActive := false }
    log := w.log ++ [.unlink t] ++ [.free t]
    links := L }

/-- The callbacks and `free` make `w'` of `w`, in the order of `evs`: each runs in the world that
the one before it left, and between two of them there is nothing but the flag and the links of the
timer that is freed. -/
inductive TimersServed (C : TimerClient ε config m) :
    TimerWorld ε → List TimerEvent → TimerWorld ε → Prop where
  | nil {w : TimerWorld ε} : TimersServed C w [] w
  | call {w v w' : TimerWorld ε} {t callback arg : Nat} {new : List Nat} {evs : List TimerEvent} :
      C.callbacks callback t arg { w with log := w.log ++ [.call t callback arg] } = .ok () v →
      v.log = w.log ++ [.call t callback arg] ++ new.map .start → TimersServed C v evs w' →
      TimersServed C w (.call t callback arg :: (new.map .start ++ evs)) w'
  | free {w v w' : TimerWorld ε} {t : Nat} {L : Links} {evs : List TimerEvent} :
      listDel (timerNode t) w.links = some L → C.free t (reapedWorld t L w) = .ok () v →
      v.log = w.log ++ [.unlink t] ++ [.free t] → TimersServed C v evs w' →
      TimersServed C w (.unlink t :: .free t :: evs) w'

variable {C} in
theorem TimersServed.trans {w₁ : TimerWorld ε} {evs evs' : List TimerEvent}
    (h : TimersServed C w evs w₁)
    (h' : TimersServed C w₁ evs' w') : TimersServed C w (evs ++ evs') w' := by
  induction h with
  | nil => exact h'
  | call hcall hlog _ ih =>
    rw [List.cons_append, List.append_assoc]
    exact .call hcall hlog (ih h')
  | free hdel hfree hlog _ ih => exact .free hdel hfree hlog (ih h')

variable {C} in
/-- The history says what was served. -/
theorem TimersServed.log_eq {evs : List TimerEvent} (h : TimersServed C w evs w') :
    w'.log = w.log ++ evs := by
  induction h with
  | nil => exact (List.append_nil _).symm
  | call _ hlog _ ih =>
    rw [ih, hlog]
    simp
  | free _ _ hlog _ ih =>
    rw [ih, hlog]
    simp

theorem timerIrqCall_run (h : TimerList m w l) (hi : C.Holds w) (ht : t ∈ l) :
    ∃ w', ∃ new : List Nat, timerIrqCall C.callbacks t w = .ok () w' ∧
      TimersServed C w (callEvents w t ++ new.map .start) w' ∧ TimerList m w' (new.reverse ++ l) ∧
      C.Holds w' ∧ ∀ u ∈ l, (w'.timers u).duty = (w.timers u).duty := by
  unfold timerIrqCall callEvents
  rw [bind_run (loadTimer_run (h.block t ht).ne_zero)]
  by_cases hc : (w.timers t).callback = 0
  · rw [if_neg (not_not.mpr hc), if_pos hc]
    exact ⟨w, [], rfl, .nil, h, hi, fun _ _ => rfl⟩
  · rw [if_pos hc, if_neg hc, bind_run (record_run _)]
    have hrec : TimerList m
        { w with log := w.log ++ [.call t (w.timers t).callback (w.timers t).arg] } l :=
          h.same rfl rfl
    obtain ⟨w', hrun, hcb, hinv⟩ := C.call_ok _ l t hrec (hi l h) ht hc
    obtain ⟨new, hlog, hlist, hduty⟩ := hcb.timerList hrec
    have hserved := TimersServed.call (C := C) hrun hlog .nil
    rw [List.append_nil] at hserved
    exact ⟨w', new, hrun, hserved, hlist, hinv, hduty⟩

/-- `list_del` of a listed timer none of whose fields is open. -/
theorem OpenList.reaped {ps ns : List Nat} (h : OpenList m ps ns w (l₁ ++ t :: l₂))
    (hp : timerNode t ∉ ps)
    (hn : timerNode t ∉ ns) : ∃ L, listDel (timerNode t) w.links = some L ∧
      OpenList m ps ns (reapedWorld t L w) (l₁ ++ l₂) := by
  have hmap : (l₁ ++ t :: l₂).map timerNode = l₁.map timerNode ++ timerNode t ::
      l₂.map timerNode := by
    rw [List.map_append, List.map_cons]
  have hring := h.ring
  have hz := h.nonzero
  rw [hmap] at hring hz
  obtain ⟨L, hdel, hring'⟩ := listDel_ringBut hring hz hp hn
  have hnd := List.nodup_middle.mp h.nodup
  refine ⟨L, hdel, ⟨?_, fun u hu => h.block u ?_, fun u hu => ?_⟩⟩
  · rw [List.map_append]
    exact hring'
  · exact List.mem_append.mpr ((List.mem_append.mp hu).imp_right (List.mem_cons_of_mem _))
  · have hne : u ≠ t := fun e => (List.nodup_cons.mp hnd).1 (e ▸ hu)
    show (Function.update w.timers t _ u).isActive = true
    rw [Function.update_of_ne hne]
    exact h.active u
      (List.mem_append.mpr ((List.mem_append.mp hu).imp_right (List.mem_cons_of_mem _)))

theorem reapedWorld_timerList (h : TimerList m w (l₁ ++ t :: l₂)) :
    ∃ L, listDel (timerNode t) w.links = some L ∧ TimerList m (reapedWorld t L w) (l₁ ++ l₂) := by
  obtain ⟨L, hdel, hlist⟩ := h.closed.reaped List.not_mem_nil List.not_mem_nil
  exact ⟨L, hdel, hlist.timerList⟩

/-- `timer_irq_handler` on a one-shot timer, up to its `free`. -/
theorem timerIrqReap_oneshot {free : Nat → TimerM ε Unit} {L : Links} (ht : t ≠ 0)
    (hp : (w.timers t).isPeriodic = false) (hdel : listDel (timerNode t) w.links = some L) :
    timerIrqReap free t w = free t (reapedWorld t L w) := by
  unfold timerIrqReap
  rw [bind_run (loadTimer_run ht), if_pos (by simp [hp]), bind_run (modifyTimer_run ht _),
    bind_run (record_run _), bind_run (timerLinks_run (L := L) ?_), bind_run (record_run _)]
  · rfl
  · exact hdel

theorem timerIrqReap_periodic {free : Nat → TimerM ε Unit} (ht : t ≠ 0)
    (hp : (w.timers t).isPeriodic = true) : timerIrqReap free t w = .ok () w := by
  unfold timerIrqReap
  rw [bind_run (loadTimer_run ht), if_neg (by simp [hp])]
  rfl

theorem timerIrqReap_run (h : TimerList m w (l₁ ++ t :: l₂)) (hi : C.Holds w) :
    ∃ w', timerIrqReap C.free t w = .ok () w' ∧ TimersServed C w (reapEvents w t) w' ∧
      TimerList m w' (l₁ ++ (periodics w [t] ++ l₂)) ∧ C.Holds w' ∧
      ∀ u ∈ l₁ ++ (periodics w [t] ++ l₂), (w'.timers u).duty = (w.timers u).duty := by
  have hb : TimerBlock m t := h.block t (by simp)
  unfold reapEvents
  by_cases hp : (w.timers t).isPeriodic = true
  · have hper : periodics w [t] = [t] := by simp [periodics, hp]
    rw [timerIrqReap_periodic hb.ne_zero hp, if_pos hp, hper]
    exact ⟨w, rfl, .nil, h, hi, fun _ _ => rfl⟩
  · have hper : periodics w [t] = [] := by simp [periodics, hp]
    obtain ⟨L, hdel, hlist⟩ := reapedWorld_timerList h
    have htl : t ∉ l₁ ++ l₂ := (List.nodup_cons.mp (List.nodup_middle.mp h.nodup)).1
    obtain ⟨w', hfree, hu, hinv⟩ := C.free_ok (reapedWorld t L w) l₁ l₂ t hlist (hi _ h) hb htl
    rw [timerIrqReap_oneshot hb.ne_zero (by simpa using hp) hdel, if_neg hp, hper, List.nil_append]
    refine ⟨w', hfree, .free hdel hfree hu.log .nil, hlist.untouched hu,
      (hlist.untouched hu).holds hinv, ?_⟩
    intro u hm
    rw [hu.duty u ⟨_, hlist, hm⟩]
    show (Function.update w.timers t _ u).duty = _
    rw [Function.update_of_ne (ne_of_mem_of_not_mem hm htl)]

/-! ## The loop -/

/-- Where the walk stands when the timers `rest` are still ahead. -/
def posOf (m : Manager) : List Nat → Nat
  | [] => m.list
  | t :: _ => timerNode t

/-- **The rule of the walk.**  `J rest` is what holds when the timers `rest` are still ahead. -/
theorem timerIrqLoop_rule {callbacks : Nat → Nat → Nat → TimerM ε Unit} {free : Nat → TimerM ε Unit}
    {J : List Nat → TimerWorld ε → Prop}
    (hnext : ∀ u rest w, J (u :: rest) w → TimerBlock m u ∧
      (w.links (timerNode u)).next = posOf m rest)
    (hround : ∀ u rest w, J (u :: rest) w →
      ∃ w', timerIrqBody callbacks free (timerNode u) w = .ok () w' ∧ J rest w')
    {fuel : Nat} (h : J rest w) (hf : rest.length < fuel) :
    ∃ w', listForEachSafe TimerM.next .endless m.list (timerIrqBody callbacks free) fuel
      (posOf m rest) (w.links (posOf m rest)).next w = .ok () w' ∧ J [] w' := by
  induction rest generalizing w fuel with
  | nil =>
    obtain ⟨k, rfl⟩ : ∃ k, fuel = k + 1 := ⟨fuel - 1, by omega⟩
    refine ⟨w, ?_, h⟩
    rw [listForEachSafe, posOf, if_pos rfl]
    rfl
  | cons t rest ih =>
    obtain ⟨k, rfl⟩ : ∃ k, fuel = k + 1 := ⟨fuel - 1, by omega⟩
    obtain ⟨hb, hn⟩ := hnext t rest w h
    have hpos : posOf m (t :: rest) ≠ m.list := hb.node_ne_list
    have hn : (w.links (posOf m (t :: rest))).next = posOf m rest := hn
    obtain ⟨w₁, hbody, h₁⟩ := hround t rest w h
    have hbody : timerIrqBody callbacks free (posOf m (t :: rest)) w = .ok () w₁ := hbody
    have hpos' : posOf m rest ≠ 0 := by
      cases rest with
      | nil => exact TimerBlock.list_ne_zero m
      | cons u rest => exact (hnext u rest w₁ h₁).1.node_ne_zero
    obtain ⟨w', hloop, h'⟩ := ih h₁ (Nat.lt_of_succ_lt_succ hf)
    refine ⟨w', ?_, h'⟩
    rw [listForEachSafe, if_neg hpos, hn, bind_run hbody, bind_run (timerNext_run hpos')]
    exact hloop

theorem posOf_ne_zero (h : TimerList m w (front ++ rest)) : posOf m rest ≠ 0 := by
  cases rest with
  | nil => exact TimerBlock.list_ne_zero m
  | cons t rest => exact (h.block t (by simp)).node_ne_zero

theorem ring_next_list {N : Links} (hr : NodeRing N m.list (rest.map timerNode)) :
    (N m.list).next = posOf m rest := by
  cases rest with
  | nil => exact hr.adj_nil.1
  | cons t rest => exact hr.adj_cons.1

theorem ring_next_node {N : Links} (hr : NodeRing N m.list ((front ++ t :: rest).map timerNode)) :
    (N (timerNode t)).next = posOf m rest := by
  rw [List.map_append, List.map_cons] at hr
  have hrot := hr.rotate
  cases rest with
  | nil => exact hrot.adj_cons.1
  | cons u rest => exact hrot.adj_cons.1

theorem next_list (h : TimerList m w rest) : (w.links m.list).next = posOf m rest :=
  ring_next_list h.ring

theorem next_node (h : TimerList m w (front ++ t :: rest)) :
    (w.links (timerNode t)).next = posOf m rest := ring_next_node h.ring

/-- **One round of the loop**: the timer it stands on is served, and nothing ahead of it moves. -/
theorem timerIrqBody_delivered (h : TimerList m w (front ++ t :: rest)) (hi : C.Holds w) :
    ∃ evs w', timerIrqBody C.callbacks C.free (timerNode t) w = .ok () w' ∧
      Delivered m w front [t] rest evs w' ∧ C.Holds w' ∧ TimersServed C w evs w' := by
  have ht : t ∈ front ++ t :: rest := by simp
  have hb : TimerBlock m t := h.block t ht
  obtain ⟨w₁, new, hcall, hserved₁, hlist₁, hinv₁, hduty₁⟩ := timerIrqCall_run C h hi ht
  rw [← List.append_assoc] at hlist₁
  obtain ⟨w', hreap, hserved, hlist, hinv, hduty⟩ := timerIrqReap_run C hlist₁ hinv₁
  have hd := duty_eq (hduty₁ t ht)
  have hper : periodics w₁ [t] = periodics w [t] :=
    periodics_congr fun u hu => hduty₁ u (List.mem_singleton.mp hu ▸ ht)
  have hreapE : reapEvents w₁ t = reapEvents w t := by simp only [reapEvents, hd.1]
  rw [hper, List.append_assoc] at hlist hduty
  have hround : TimersServed C w (roundEvents w t new) w' := by
    have := hserved₁.trans hserved
    rwa [hreapE, List.append_assoc] at this
  refine ⟨roundEvents w t new, w', ?_, ⟨hround.log_eq, roundEvents_called w t new,
    roundEvents_unlinked w t new, roundEvents_freed w t new, ?_, ?_, ?_⟩, hinv, hround⟩
  · unfold timerIrqBody
    rw [hb.listEntry_node, bind_run (loadTimer_run hb.ne_zero), if_pos (h.active t ht),
      bind_run hcall]
    exact hreap
  · rw [roundEvents_newTimers]
    exact hlist
  · rw [roundEvents_newTimers]
    exact replay_roundEvents hlist₁.nodup
  · intro u hu
    rw [hduty u (List.mem_append_right _ hu)]
    apply hduty₁ u
    rcases List.mem_append.mp hu with hu | hu
    · exact List.mem_append_left _ hu
    · apply List.mem_append_right
      rcases List.mem_append.mp hu with hu | hu
      · exact List.mem_cons.mpr (.inl (List.mem_singleton.mp (List.mem_filter.mp hu).1))
      · exact List.mem_cons_of_mem _ hu

/-- **The loop serves the timers ahead of it**, given a round for each and one to see the end. -/
theorem timerIrqLoop_delivered {fuel : Nat} (h : TimerList m w (front ++ rest)) (hi : C.Holds w)
    (hf : rest.length < fuel) :
    ∃ evs w', listForEachSafe TimerM.next .endless m.list (timerIrqBody C.callbacks C.free) fuel
        (posOf m rest) (w.links (posOf m rest)).next w = .ok () w' ∧
      Delivered m w front rest [] evs w' ∧ C.Holds w' ∧ TimersServed C w evs w' := by
  let J (r : List Nat) (v : TimerWorld ε) : Prop :=
    ∃ done evs, rest = done ++ r ∧ Delivered m w front done r evs v ∧ C.Holds v ∧
      TimersServed C w evs v
  -- what the rounds leave before `r` is the `front` of the rounds to come
  have hlist : ∀ {done r evs v}, Delivered m w front done r evs v →
      TimerList m v (newTimers evs ++ (front ++ periodics w done) ++ r) := by
    intro done r evs v hd
    simpa only [List.append_assoc] using hd.list
  have hnext : ∀ u r v, J (u :: r) v →
      TimerBlock m u ∧ (v.links (timerNode u)).next = posOf m r := by
    rintro u r v ⟨done, evs, -, hd, -⟩
    exact ⟨(hlist hd).block u (by simp), next_node (hlist hd)⟩
  have hround : ∀ u r v, J (u :: r) v →
      ∃ v', timerIrqBody C.callbacks C.free (timerNode u) v = .ok () v' ∧ J r v' := by
    rintro u r v ⟨done, evs, he, hd, hv, hs⟩
    obtain ⟨evs', v', hbody, hd', hv', hs'⟩ := timerIrqBody_delivered C (hlist hd) hv
    refine ⟨v', hbody, done ++ [u], evs ++ evs', ?_, hd.trans hd', hv', hs.trans hs'⟩
    rw [he, List.append_assoc, List.singleton_append]
  obtain ⟨w', hloop, done, evs, he, hd, hi'⟩ :=
    timerIrqLoop_rule (J := J) hnext hround ⟨[], [], rfl, .nil h, hi, .nil⟩ hf
  rw [List.append_nil] at he
  subst he
  exact ⟨evs, w', hloop, hd, hi'⟩

end Client

end ZHyper
