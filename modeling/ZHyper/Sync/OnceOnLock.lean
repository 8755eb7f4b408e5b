import ZHyper.Sync.RunOnce
import ZHyper.Sync.TicketRuns

/-!
# `run_once` on the ticket lock

`run_once` with `spin_lock` and `spin_unlock` as the instructions of the ticket lock: a CPU that has
come to one of them is in the routine until it returns, and any CPU may take its next step at any
time.  These runs are runs of `run_once` over a lock that is taken and given back in one step, with
the same events, so that they have the properties of its traces (`run_once_on_ticket_lock`).
-/

namespace ZHyper

open LowLevel

/-! ## The system -/

/-- The flag and the CPUs of `run_once`, and the machine of `once->lock`. -/
structure OnceOnLock (C : Type) where
  flag : Int
  cpu : C → Option OnceProg
  lock : Multicore 32 C Bool LockOp

/-- `ONCE_INITIALIZER`, and no CPU in `run_once`. -/
def OnceOnLock.init {C : Type} : OnceOnLock C := ⟨0, fun _ => none, .init 0 false⟩

section steps
variable {C : Type} [DecidableEq C]

/-- A step of a CPU: an action of `run_once` while it is not in the lock's routines, the call or the
return of one of these, or an instruction there. -/
inductive OnceOnLockStep (s : OnceOnLock C) : Option (C × OnceEvent) → OnceOnLock C → Prop where
  | own {c : C} {e : OnceEvent} {t : OnceState C} : s.lock.running c = none →
      e ≠ .lock → e ≠ .unlock → OnceStep ⟨s.flag, none, s.cpu⟩ (c, e) t →
      OnceOnLockStep s (some (c, e)) { s with flag := t.flag, cpu := t.cpu }
  | lockCall {c : C} {k : OnceProg} {m : Multicore 32 C Bool LockOp} : s.cpu c = some (.lock k) →
      MachineStep spinRoutines lockClient s.lock (.call c .lock) m →
        OnceOnLockStep s none { s with lock := m }
  | lockRet {c : C} {k : OnceProg} {m : Multicore 32 C Bool LockOp} : s.cpu c = some (.lock k) →
      s.lock.running c = some .lock → MachineStep spinRoutines lockClient s.lock (.ret c true) m →
      OnceOnLockStep s (some (c, .lock))
      { s with lock := m, cpu := Function.update s.cpu c (some k) }
  | unlockCall {c : C} {k : OnceProg} {m : Multicore 32 C Bool LockOp} :
    s.cpu c = some (.unlock k) →
      MachineStep spinRoutines lockClient s.lock (.call c .unlock) m →
      OnceOnLockStep s (some (c, .unlock))
      { s with lock := m, cpu := Function.update s.cpu c (some k) }
  | unlockRet {c : C} {m : Multicore 32 C Bool LockOp} : s.lock.running c = some .unlock →
      MachineStep spinRoutines lockClient s.lock (.ret c true) m →
        OnceOnLockStep s none { s with lock := m }
  | spin {e : MachineEvent C LockOp Bool} {m : Multicore 32 C Bool LockOp} : e.visible = none →
      MachineStep spinRoutines lockClient s.lock e m → OnceOnLockStep s none { s with lock := m }

/-! ## The refinement -/

/-- Whoever has the lock is outside its routines and has not called `spin_unlock`. -/
structure OnceSim (p : OnceOnLock C) (o : OnceState C) : Prop where
  flag : o.flag = p.flag
  cpu : o.cpu = p.cpu
  spins : ∃ a, Spins p.lock a
  lock (c : C) : o.lock = some c ↔ p.lock.running c = none ∧ p.lock.mode c = true

variable {p p' : OnceOnLock C} {o o' : OnceState C} {c d : C} {e : OnceEvent}

omit [DecidableEq C] in
theorem onceSim_init : OnceSim (.init : OnceOnLock C) .init where
  flag := rfl
  cpu := rfl
  spins := ⟨_, spins_init rfl⟩
  lock c := ⟨nofun, fun h => by cases h.2⟩

omit [DecidableEq C] in
/-- While a CPU returns from `spin_lock` no other has the lock. -/
theorem Spins.lock_free {s : Multicore 32 C Bool LockOp} {a : FifoLock C} (h : Spins s a)
    (hrun : s.running c = some .lock) (hpc : (s.core c).pc = spinLockAsm.length) :
      ¬ HasLock s d := by
  intro hd
  have hnote : spinLockNote s.word a c (s.core c) := h.note hrun
  unfold spinLockNote at hnote
  rw [hpc] at hnote
  have hdc : d = c := Option.some.inj ((h.shape.ok.head (h.holds hd)).symm.trans hnote.2)
  have hholds := h.holds hd
  rw [hdc, hnote.1] at hholds
  exact hholds

/-- An action that does not touch the lock does not read it either. -/
theorem OnceStep.frame {flag : Int} {lock lock' : Option C} {cpu : C → Option OnceProg}
    {t : OnceState C} (h : OnceStep ⟨flag, lock, cpu⟩ (c, e) t) (hl : e ≠ .lock)
    (hu : e ≠ .unlock) :
    OnceStep ⟨flag, lock', cpu⟩ (c, e) ⟨t.flag, lock', t.cpu⟩ := by
  cases h with
  | enter h => exact .enter h
  | readFlag h => exact .readFlag (s := ⟨flag, lock', cpu⟩) h
  | setFlag h => exact .setFlag (s := ⟨flag, lock', cpu⟩) h
  | lock => exact absurd rfl hl
  | unlock => exact absurd rfl hu
  | call h => exact .call (s := ⟨flag, lock', cpu⟩) h
  | funcReturn h => exact .funcReturn (s := ⟨flag, lock', cpu⟩) h
  | ret h => exact .ret (s := ⟨flag, lock', cpu⟩) h

variable [Fintype C]

theorem OnceSim.step (hC : Fintype.card C ≤ 2 ^ 16) {ev : Option (C × OnceEvent)} (h : OnceSim p o)
    (hs : OnceOnLockStep p ev p') :
    ∃ fs o', Runs OnceStep o fs o' ∧ fs.filterMap some = ev.toList ∧ OnceSim p' o' := by
  obtain ⟨a, hspins⟩ := h.spins
  have hnext : ∀ {m : Multicore 32 C Bool LockOp} {e : MachineEvent C LockOp Bool},
      MachineStep spinRoutines lockClient p.lock e m → ∃ a', Spins m a' := by
    intro m e hm
    obtain ⟨a', -, -, hspins', -⟩ := hspins.step hC hm
    exact ⟨a', hspins'⟩
  obtain ⟨flag, lock, cpu⟩ := o
  obtain rfl : flag = p.flag := h.flag
  obtain rfl : cpu = p.cpu := h.cpu
  cases hs with
  | own hrun hl hu hstep =>
    exact ⟨_, _, .single (hstep.frame hl hu), rfl, rfl, rfl, ⟨a, hspins⟩, h.lock⟩
  | @lockCall c k m hcpu hm =>
    refine ⟨[], _, .nil _, rfl, rfl, rfl, hnext hm, fun d => ?_⟩
    cases hm with
    | call hrun hmay =>
      have hmode : ¬ p.lock.mode c = true := fun hm => nomatch hmay.mpr hm
      by_cases hdc : d = c
      · subst hdc
        refine iff_of_false (fun hl => hmode ((h.lock d).mp hl).2) fun hd => ?_
        cases (Function.update_self d _ p.lock.running).symm.trans hd.1
      · show lock = some d ↔ Function.update p.lock.running c _ d = none ∧ p.lock.mode d = true
        rw [Function.update_of_ne hdc]
        exact h.lock d
  | @lockRet c k m hcpu hrun hm =>
    have hspins' := hnext hm
    cases hm with
    | ret hrun' hpc _ =>
      obtain rfl := Option.some.inj (hrun'.symm.trans hrun)
      have hfree : lock = none := Option.eq_none_iff_forall_ne_some.mpr fun d hd =>
        hspins.lock_free hrun hpc (Or.inl ((h.lock d).mp hd))
      subst hfree
      refine ⟨[(c, .lock)], _, .single (.lock hcpu rfl), rfl, rfl, rfl, hspins', fun d => ?_⟩
      show some c = some d ↔
        Function.update p.lock.running c none d = none ∧ Function.update p.lock.mode c true d = true
      by_cases hdc : d = c
      · subst hdc
        simp
      · rw [Function.update_of_ne hdc, Function.update_of_ne hdc, ← h.lock d]
        exact iff_of_false (fun hcd => hdc (Option.some.inj hcd).symm) nofun
  | @unlockCall c k m hcpu hm =>
    have hspins' := hnext hm
    cases hm with
    | call hrun hmay =>
      have hlock : lock = some c := (h.lock c).mpr ⟨hrun, hmay.mp rfl⟩
      refine ⟨[(c, .unlock)], _, .single (.unlock hcpu), rfl, rfl, rfl, hspins', fun d =>
        iff_of_false nofun ?_⟩
      rintro ⟨hd, hmode⟩
      by_cases hdc : d = c
      · subst hdc
        cases (Function.update_self d _ p.lock.running).symm.trans hd
      · have hlock' : lock = some d :=
          (h.lock d).mpr ⟨(Function.update_of_ne hdc _ p.lock.running).symm.trans hd, hmode⟩
        exact hdc (Option.some.inj (hlock'.symm.trans hlock))
  | @unlockRet c m hrun hm =>
    have hspins' := hnext hm
    cases hm with
    | ret hrun' _ _ =>
      obtain rfl := Option.some.inj (hrun'.symm.trans hrun)
      refine ⟨[], _, .nil _, rfl, rfl, rfl, hspins', fun d => ?_⟩
      show lock = some d ↔
        Function.update p.lock.running c none d = none ∧
          Function.update p.lock.mode c false d = true
      by_cases hdc : d = c
      · subst hdc
        refine iff_of_false (fun hl => ?_) fun hd => ?_
        · cases hrun.symm.trans ((h.lock d).mp hl).1
        · cases (Function.update_self d _ p.lock.mode).symm.trans hd.2
      · rw [Function.update_of_ne hdc, Function.update_of_ne hdc]
        exact h.lock d
  | @spin e m he hm =>
    obtain ⟨hrunning, hmode⟩ := hm.hidden he
    refine ⟨[], _, .nil _, rfl, rfl, rfl, hnext hm, fun d => ?_⟩
    rw [hrunning, hmode]
    exact h.lock d

/-- The system runs as if the lock were taken and given back in one step, -/
theorem once_refines (hC : Fintype.card C ≤ 2 ^ 16) {es : List (Option (C × OnceEvent))}
    (h : Runs OnceOnLockStep .init es p) : ∃ o, Runs OnceStep .init (es.filterMap id) o ∧
      OnceSim p o := by
  obtain ⟨fs, o, hfs, hvis, hsim⟩ : ∃ fs o, Runs OnceStep .init fs o ∧
    fs.filterMap some = es.filterMap id ∧
      OnceSim p o := h.simulate (fun _ _ _ _ hsim hs => hsim.step hC hs) onceSim_init
  rw [List.filterMap_some] at hvis
  rw [← hvis]
  exact ⟨o, hfs, hsim⟩

/-- A CPU that comes to `spin_unlock` has the lock. -/
theorem once_unlock_holds (hC : Fintype.card C ≤ 2 ^ 16) {es : List (Option (C × OnceEvent))}
    (h : Runs OnceOnLockStep .init es p) {k : OnceProg} (hc : p.cpu c = some (.unlock k)) :
      HasLock p.lock c := by
  obtain ⟨o, hruns, hsim⟩ := once_refines hC h
  obtain ⟨q, hq, hcode⟩ := onceStep_points (p := OncePoints.init) hruns
  have hinv := onceInv_of_runs hq
  have hcpu : q.code.cpu c = some (.unlock k) := by
    rw [hcode, hsim.cpu]
    exact hc
  obtain ⟨pc, hpc, hunlock⟩ := OncePoints.pc_of_code hcpu
  have hholds : pc.Holds := by
    cases pc with
    | unlock => trivial
    | entry | lock | recheck | call | running | setFlag | ret => cases hunlock
  have hlock : o.lock = some c := by
    rw [← hcode]
    exact hinv.holder c pc hpc hholds
  exact Or.inl ((hsim.lock c).mp hlock)

/-- **`run_once` on the ticket lock.**  However the instructions of the lock are interleaved, the
events of the CPUs in `run_once` have what every trace over a lock taken in one step has, and only
the CPU that has the lock comes to give it back. -/
theorem run_once_on_ticket_lock (hC : Fintype.card C ≤ 2 ^ 16) {es : List (Option (C × OnceEvent))}
    (h : Runs OnceOnLockStep .init es p) :
    SucceedsOnce (es.filterMap id) ∧ CallsApart (es.filterMap id) ∧
      NoCallAfterSuccess (es.filterMap id) ∧
      ReturnsAfterSuccess (es.filterMap id) ∧ ReturnsOwnFailure (es.filterMap id) ∧
      RetriesFailure (es.filterMap id) ∧ ∀ c k, p.cpu c = some (.unlock k) → HasLock p.lock c := by
  obtain ⟨o, hruns, -⟩ := once_refines hC h
  exact ⟨succeedsOnce_of_runs hruns, callsApart_of_runs hruns, noCallAfterSuccess_of_runs hruns,
    returnsAfterSuccess_of_runs hruns, returnsOwnFailure_of_runs hruns,
      retriesFailure_of_runs hruns,
    fun c k => once_unlock_holds hC h⟩

end steps

/-! ## Two CPUs -/

/-- The routines of the lock run on by themselves. -/
theorem OnceOnLockStep.spins {C : Type} [DecidableEq C] (p : OnceOnLock C)
    {m m' : Multicore 32 C Bool LockOp} {es : List (MachineEvent C LockOp Bool)}
    (h : Runs (MachineStep spinRoutines lockClient) m es m') (hes : ∀ e ∈ es, e.visible = none) :
    Runs OnceOnLockStep { p with lock := m } (es.map fun _ => none) { p with lock := m' } := by
  induction h with
  | nil m => exact .nil _
  | cons h1 _ ih =>
    exact .cons (.spin (s := { p with lock := _ }) (hes _ List.mem_cons_self) h1)
      (ih fun e he => hes e (List.mem_cons_of_mem _ he))

theorem spinGo_hidden (c : Bool) (n : Nat) : ∀ e ∈ spinGo c n, e.visible = none := by
  intro e he
  rw [List.eq_of_mem_replicate he]
  rfl

/-- Instructions of the lock's routines. -/
def onceSpins (n : Nat) : List (Option (Bool × OnceEvent)) := List.replicate n none

/-- CPU `true` takes the lock, and CPU `false` waits for it. -/
def onceWaitEvents : List (Option (Bool × OnceEvent)) :=
  [some (true, .enter), some (true, .readFlag 0)] ++ onceSpins 8 ++ [some (true, .lock),
    some (false, .enter), some (false, .readFlag 0)] ++ onceSpins 13

/-- CPU `true` calls `func`, which succeeds, and gives the lock back; CPU `false` takes it and finds
the flag set. -/
def onceDoneEvents : List (Option (Bool × OnceEvent)) :=
  [some (true, .readFlag 0), some (true, .call), some (true, .funcReturn 0),
    some (true, .setFlag 1),
    some (true, .unlock)] ++ onceSpins 4 ++ [some (true, .ret 0)] ++ onceSpins 4 ++
    [some (false, .lock), some (false, .readFlag 1), some (false, .unlock)] ++ onceSpins 4 ++
      [some (false, .ret 0)]

/-- The instructions of both CPUs in the lock's routines: `true` takes the lock, `false` waits,
`true` gives it back, `false` takes it and gives it back. -/
theorem spinRelay_run : ∃ m₁ m₂ m₃ m₄ m₅ : Multicore 32 Bool Bool LockOp,
    Runs (MachineStep spinRoutines lockClient)
      ((Multicore.init 0 false).start spinRoutines true .lock)
      (spinGo true 7) m₁ ∧ (m₁.core true).pc = 12 ∧
    Runs (MachineStep spinRoutines lockClient)
      ((m₁.finish true true).start spinRoutines false .lock)
      (spinGo false 12) m₂ ∧
    Runs (MachineStep spinRoutines lockClient) (m₂.start spinRoutines true .unlock)
      (spinGo true 3) m₃ ∧
    (m₃.core true).pc = 3 ∧
    Runs (MachineStep spinRoutines lockClient) (m₃.finish true false) (spinGo false 4) m₄ ∧
    (m₄.core false).pc = 12 ∧
    Runs (MachineStep spinRoutines lockClient)
    ((m₄.finish false true).start spinRoutines false .unlock)
      (spinGo false 3) m₅ ∧ (m₅.core false).pc = 3 :=
  ⟨_, _, _, _, _,
    .cons (.exec rfl rfl rfl) <| .cons (.exec rfl rfl rfl) <| .cons (.exec rfl rfl rfl) <|
    .cons (.exec rfl rfl rfl) <| .cons (.exec rfl rfl rfl) <| .cons (.exec rfl rfl rfl) <|
    .single (.exec rfl rfl rfl), rfl,
    .cons (.exec rfl rfl rfl) <| .cons (.exec rfl rfl rfl) <| .cons (.exec rfl rfl rfl) <|
    .cons (.exec rfl rfl rfl) <| .cons (.exec rfl rfl rfl) <| .cons (.exec rfl rfl rfl) <|
    .cons (.exec rfl rfl rfl) <| .cons (.exec rfl rfl rfl) <| .cons (.exec rfl rfl rfl) <|
    .cons (.exec rfl rfl rfl) <| .cons (.exec rfl rfl rfl) <| .single (.exec rfl rfl rfl),
    .cons (.exec rfl rfl rfl) <| .cons (.exec rfl rfl rfl) <| .single (.exec rfl rfl rfl), rfl,
    .cons (.exec rfl rfl rfl) <| .cons (.exec rfl rfl rfl) <| .cons (.exec rfl rfl rfl) <|
    .single (.exec rfl rfl rfl), rfl,
    .cons (.exec rfl rfl rfl) <| .cons (.exec rfl rfl rfl) <| .single (.exec rfl rfl rfl), rfl⟩

theorem onceSpins_run (flag : Int) (cpu : Bool → Option OnceProg)
    {m m' : Multicore 32 Bool Bool LockOp} {c : Bool} {n : Nat}
    (h : Runs (MachineStep spinRoutines lockClient) m (spinGo c n) m') :
    Runs OnceOnLockStep ⟨flag, cpu, m⟩ (onceSpins n) ⟨flag, cpu, m'⟩ := by
  have hspins := OnceOnLockStep.spins ⟨flag, cpu, m⟩ h (spinGo_hidden c n)
  rwa [spinGo, List.map_replicate] at hspins

theorem onceTwo_run : ∃ p : OnceOnLock Bool,
    Runs OnceOnLockStep .init (onceWaitEvents ++ onceDoneEvents) p := by
  obtain ⟨m₁, m₂, m₃, m₄, m₅, h₁, hpc₁, h₂, h₃, hpc₃, h₄, hpc₄, h₅, hpc₅⟩ := spinRelay_run
  obtain ⟨hr₁, ho₁⟩ := h₁.hidden (spinGo_hidden _ _)
  obtain ⟨hr₂, ho₂⟩ := h₂.hidden (spinGo_hidden _ _)
  obtain ⟨hr₃, ho₃⟩ := h₃.hidden (spinGo_hidden _ _)
  obtain ⟨hr₄, ho₄⟩ := h₄.hidden (spinGo_hidden _ _)
  obtain ⟨hr₅, ho₅⟩ := h₅.hidden (spinGo_hidden _ _)
  obtain ⟨cpu₁, ha, ht₁, hf₁⟩ : ∃ cpu, Runs OnceOnLockStep (.init : OnceOnLock Bool)
      [some (true, .enter), some (true, .readFlag 0), none]
      ⟨0, cpu, (Multicore.init 0 false).start spinRoutines true .lock⟩ ∧
      cpu true = some (.lock .afterLock) ∧ cpu false = none :=
    ⟨_, .cons (.own rfl nofun nofun (.enter rfl)) <| .cons (.own rfl nofun nofun (.readFlag rfl)) <|
      .single (.lockCall rfl (.call rfl ⟨nofun, nofun⟩)), rfl, rfl⟩
  have hrun₁ : m₁.running true = some .lock := congrFun hr₁ true
  have hidle₁ : m₁.running false = none := congrFun hr₁ false
  have hmay₁ : ¬ m₁.mode false = true := by
    rw [ho₁]
    exact Bool.false_ne_true
  obtain ⟨cpu₂, hb, ht₂, hf₂⟩ : ∃ cpu, Runs OnceOnLockStep (⟨0, cpu₁, m₁⟩ : OnceOnLock Bool)
      [some (true, .lock), some (false, .enter), some (false, .readFlag 0), none]
      ⟨0, cpu, (m₁.finish true true).start spinRoutines false .lock⟩ ∧
      cpu true = some .afterLock ∧ cpu false = some (.lock .afterLock) :=
    ⟨_, .cons (.lockRet ht₁ hrun₁ (.ret hrun₁ hpc₁ rfl)) <|
      .cons (.own hidle₁ nofun nofun (.enter hf₁)) <|
        .cons (.own hidle₁ nofun nofun (.readFlag rfl)) <|
      .single (.lockCall rfl (.call hidle₁ (iff_of_false nofun hmay₁))), rfl, rfl⟩
  have hidle₂ : m₂.running true = none := congrFun hr₂ true
  have hrun₂ : m₂.running false = some .lock := congrFun hr₂ false
  have hmode₂ : m₂.mode true = true := congrFun ho₂ true
  obtain ⟨cpu₃, hc, ht₃, hf₃⟩ : ∃ cpu, Runs OnceOnLockStep (⟨0, cpu₂, m₂⟩ : OnceOnLock Bool)
      [some (true, .readFlag 0), some (true, .call), some (true, .funcReturn 0),
        some (true, .setFlag 1),
        some (true, .unlock)] ⟨1, cpu, m₂.start spinRoutines true .unlock⟩ ∧
      cpu true = some (.ret 0) ∧ cpu false = some (.lock .afterLock) :=
    ⟨_, .cons (.own hidle₂ nofun nofun (.readFlag ht₂)) <|
      .cons (.own hidle₂ nofun nofun (.call rfl)) <|
      .cons (.own hidle₂ nofun nofun (.funcReturn rfl)) <|
        .cons (.own hidle₂ nofun nofun (.setFlag rfl)) <|
      .single (.unlockCall rfl (.call hidle₂ (iff_of_true rfl hmode₂))), rfl, hf₂⟩
  have hrun₃ : m₃.running true = some .unlock := congrFun hr₃ true
  have hrun₃' : m₃.running false = some .lock := (congrFun hr₃ false).trans hrun₂
  obtain ⟨cpu₄, hd, hf₄⟩ : ∃ cpu, Runs OnceOnLockStep (⟨1, cpu₃, m₃⟩ : OnceOnLock Bool)
      [none, some (true, .ret 0)] ⟨1, cpu, m₃.finish true false⟩ ∧
        cpu false = some (.lock .afterLock) :=
    ⟨_, .cons (.unlockRet hrun₃ (.ret hrun₃ hpc₃ rfl)) <|
      .single (.own (t := ⟨1, none, _⟩) rfl nofun nofun (.ret ht₃)), hf₃⟩
  have hrun₄ : m₄.running false = some .lock := (congrFun hr₄ false).trans hrun₃'
  obtain ⟨cpu₅, he, hf₅⟩ : ∃ cpu, Runs OnceOnLockStep (⟨1, cpu₄, m₄⟩ : OnceOnLock Bool)
      [some (false, .lock), some (false, .readFlag 1), some (false, .unlock)]
      ⟨1, cpu, (m₄.finish false true).start spinRoutines false .unlock⟩ ∧
        cpu false = some (.ret 0) :=
    ⟨_, .cons (.lockRet hf₄ hrun₄ (.ret hrun₄ hpc₄ rfl)) <|
      .cons (.own rfl nofun nofun (.readFlag rfl)) <|
      .single (.unlockCall rfl (.call rfl (iff_of_true rfl rfl))), rfl⟩
  have hrun₅ : m₅.running false = some .unlock := congrFun hr₅ false
  obtain ⟨p, hf⟩ : ∃ p, Runs OnceOnLockStep (⟨1, cpu₅, m₅⟩ : OnceOnLock Bool)
      [none, some (false, .ret 0)] p :=
    ⟨_, .cons (.unlockRet hrun₅ (.ret hrun₅ hpc₅ rfl)) <| .single (.own rfl nofun nofun (.ret hf₅))⟩
  refine ⟨p, ?_⟩
  exact (ha.append <| (onceSpins_run 0 cpu₁ h₁).append <| hb.append <|
    (onceSpins_run 0 cpu₂ h₂).append <|
    hc.append <| (onceSpins_run 1 cpu₃ h₃).append <| hd.append <|
      (onceSpins_run 1 cpu₄ h₄).append <|
    he.append <| (onceSpins_run 1 cpu₅ h₅).append hf)

/-- Each of the two CPUs returns 0, and `func` has been called once. -/
theorem run_once_on_ticket_lock_call : ∃ p : OnceOnLock Bool,
    Runs OnceOnLockStep .init (onceWaitEvents ++ onceDoneEvents) p ∧
    SucceedsOnce ((onceWaitEvents ++ onceDoneEvents).filterMap id) ∧
    ReturnsAfterSuccess ((onceWaitEvents ++ onceDoneEvents).filterMap id) := by
  obtain ⟨p, h⟩ := onceTwo_run
  obtain ⟨honce, -, -, hreturns, -⟩ := run_once_on_ticket_lock (by decide) h
  exact ⟨p, h, honce, hreturns⟩

end ZHyper
