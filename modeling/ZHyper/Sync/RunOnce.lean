import Mathlib.Data.List.Basic
import Mathlib.Logic.Function.Basic
import ZHyper.Lib.Faulting
import ZHyper.Lib.Runs

/-!
# `run_once`

`run_once` as a program of atomic actions (`runOnce`), and any number of CPUs that call it on one
`once_flag_t`: in each step one CPU performs its next action.  The lock is held by one CPU at a
time and `func` returns any value.

A CPU is always at one of eight points of the function (`OncePc`); the interleavings of the
programs are runs of the points (`onceStep_points`), and the invariant (`OnceInv`) is about the
points and the events so far.  The properties of a trace of events, and that every trace has
them, end the file:

    Runs OnceStep OnceState.init es s → es has them                  (run_once_succeeds_once)
-/

namespace ZHyper

open LowLevel

/-! ## The function -/

/-- A program over a `once_flag_t` and its function. -/
inductive OnceProg where
  /-- `atomic_read(&once->flag)` -/
  | readFlag (k : Int → OnceProg)
  /-- `atomic_set(&once->flag, v)` -/
  | setFlag (v : Int) (k : OnceProg)
  /-- `spin_lock(&once->lock)` -/
  | lock (k : OnceProg)
  /-- `spin_unlock(&once->lock)` -/
  | unlock (k : OnceProg)
  /-- `func()` -/
  | call (k : Int → OnceProg)
  /-- `func()` has started and has not returned. -/
  | running (k : Int → OnceProg)
  | ret (r : Int)

namespace OnceProg

/-- `run_once`, from the return of `func` on. -/
def afterCall (ret : Int) : OnceProg :=
  if ret = 0 then .setFlag 1 (.unlock (.ret ret)) else .unlock (.ret ret)

/-- `run_once`, with the lock held. -/
def afterLock : OnceProg :=
  .readFlag fun flag => if flag = 0 then .call afterCall else .unlock (.ret 0)

/-- `run_once(once, func)` -/
def runOnce : OnceProg :=
  .readFlag fun flag => if flag = 0 then .lock afterLock else .ret 0

/-! ## One CPU -/

section alone

variable {φ σ : Type} (flag : σ → Int) (setFlag : Int → σ → σ) (func : EStateM φ σ Int)

/-- A program that no other CPU runs into, the flag being a part of the state. -/
def alone : OnceProg → EStateM φ σ Int
  | .readFlag k => do
    let s ← get
    alone (k (flag s))
  | .setFlag v k => do
    modify (setFlag v)
    alone k
  | .lock k => alone k
  | .unlock k => alone k
  | .call k => do
    let ret ← func
    alone (k ret)
  | .running k => do
    let ret ← func
    alone (k ret)
  | .ret r => pure r

variable {flag setFlag func} {s s' : σ}

/-- The first `run_once` calls `func`. -/
theorem alone_first (h : flag s = 0) :
    alone flag setFlag func .runOnce s = alone flag setFlag func (.call .afterCall) s := by
  have hread : alone flag setFlag func .runOnce s =
      alone flag setFlag func (if flag s = 0 then .lock .afterLock else .ret 0) s := rfl
  have hlocked : alone flag setFlag func (.lock .afterLock) s =
      alone flag setFlag func (if flag s = 0 then .call .afterCall else .unlock (.ret 0)) s := rfl
  rw [hread, if_pos h, hlocked, if_pos h]

/-- A success sets the flag. -/
theorem alone_success (h : func s = .ok 0 s') :
    alone flag setFlag func (.call .afterCall) s = .ok 0 (setFlag 1 s') := by
  rw [alone, bind_run h]
  rfl

/-- With the flag set nothing is called. -/
theorem alone_again (h : flag s ≠ 0) : alone flag setFlag func .runOnce s = .ok 0 s := by
  have hread : alone flag setFlag func .runOnce s =
      alone flag setFlag func (if flag s = 0 then .lock .afterLock else .ret 0) s := rfl
  rw [hread, if_neg h]
  rfl

end alone

end OnceProg

/-! ## Interleavings -/

inductive OnceEvent where
  | enter
  | readFlag (v : Int)
  | setFlag (v : Int)
  | lock
  | unlock
  | call
  | funcReturn (r : Int)
  | ret (r : Int)
deriving DecidableEq

/-- A `once_flag_t`, and where each CPU is in `run_once`. -/
structure OnceState (C : Type) where
  flag : Int
  lock : Option C
  cpu : C → Option OnceProg

/-- `ONCE_INITIALIZER`, and no CPU in `run_once`. -/
def OnceState.init {C : Type} : OnceState C := ⟨0, none, fun _ => none⟩

section Steps
variable {C : Type} [DecidableEq C]

/-- CPU `c` goes on with `p`. -/
def OnceState.goto (s : OnceState C) (c : C) (p : Option OnceProg) : OnceState C :=
  { s with cpu := Function.update s.cpu c p }

/-- One atomic action of one CPU. -/
inductive OnceStep : OnceState C → C × OnceEvent → OnceState C → Prop where
  | enter {s : OnceState C} {c : C} : s.cpu c = none →
    OnceStep s (c, .enter) (s.goto c (some .runOnce))
  | readFlag {s : OnceState C} {c : C} {k : Int → OnceProg} : s.cpu c = some (.readFlag k) →
      OnceStep s (c, .readFlag s.flag) (s.goto c (some (k s.flag)))
  | setFlag {s : OnceState C} {c : C} {v : Int} {k : OnceProg} : s.cpu c = some (.setFlag v k) →
      OnceStep s (c, .setFlag v) ({ s with flag := v }.goto c (some k))
  | lock {s : OnceState C} {c : C} {k : OnceProg} : s.cpu c = some (.lock k) → s.lock = none →
      OnceStep s (c, .lock) ({ s with lock := some c }.goto c (some k))
  | unlock {s : OnceState C} {c : C} {k : OnceProg} : s.cpu c = some (.unlock k) →
      OnceStep s (c, .unlock) ({ s with lock := none }.goto c (some k))
  | call {s : OnceState C} {c : C} {k : Int → OnceProg} : s.cpu c = some (.call k) →
      OnceStep s (c, .call) (s.goto c (some (.running k)))
  /-- `func` returns any value. -/
  | funcReturn {s : OnceState C} {c : C} {k : Int → OnceProg} {r : Int} :
    s.cpu c = some (.running k) →
      OnceStep s (c, .funcReturn r) (s.goto c (some (k r)))
  | ret {s : OnceState C} {c : C} {r : Int} : s.cpu c = some (.ret r) →
      OnceStep s (c, .ret r) (s.goto c none)

end Steps

/-! ## The points of the function -/

inductive OncePc where
  | entry
  | lock
  | recheck
  | call
  | running
  | setFlag
  | unlock (r : Int)
  | ret (r : Int)
deriving DecidableEq

/-- What is left of `run_once` at a point. -/
def OncePc.code : OncePc → OnceProg
  | entry => .runOnce
  | lock => .lock .afterLock
  | recheck => .afterLock
  | call => .call .afterCall
  | running => .running .afterCall
  | setFlag => .setFlag 1 (.unlock (.ret 0))
  | unlock r => .unlock (.ret r)
  | ret r => .ret r

/-- The points at which the lock is held. -/
def OncePc.Holds : OncePc → Prop
  | entry | lock | ret _ => False
  | recheck | call | running | setFlag | unlock _ => True

/-- A `once_flag_t` and the point at which each CPU is. -/
structure OncePoints (C : Type) where
  flag : Int
  lock : Option C
  pc : C → Option OncePc

def OncePoints.init {C : Type} : OncePoints C := ⟨0, none, fun _ => none⟩

def OncePoints.code {C : Type} (p : OncePoints C) : OnceState C :=
  ⟨p.flag, p.lock, fun c => (p.pc c).map OncePc.code⟩

section Points
variable {C : Type} [DecidableEq C]

def OncePoints.goto (p : OncePoints C) (c : C) (q : Option OncePc) : OncePoints C :=
  { p with pc := Function.update p.pc c q }

inductive PointStep : OncePoints C → C × OnceEvent → OncePoints C → Prop where
  | enter {p : OncePoints C} {c : C} : p.pc c = none →
    PointStep p (c, .enter) (p.goto c (some .entry))
  | readUnset {p : OncePoints C} {c : C} : p.pc c = some .entry → p.flag = 0 →
      PointStep p (c, .readFlag p.flag) (p.goto c (some .lock))
  | readSet {p : OncePoints C} {c : C} : p.pc c = some .entry → p.flag ≠ 0 →
      PointStep p (c, .readFlag p.flag) (p.goto c (some (.ret 0)))
  | lock {p : OncePoints C} {c : C} : p.pc c = some .lock → p.lock = none →
      PointStep p (c, .lock) ({ p with lock := some c }.goto c (some .recheck))
  | recheckUnset {p : OncePoints C} {c : C} : p.pc c = some .recheck → p.flag = 0 →
      PointStep p (c, .readFlag p.flag) (p.goto c (some .call))
  | recheckSet {p : OncePoints C} {c : C} : p.pc c = some .recheck → p.flag ≠ 0 →
      PointStep p (c, .readFlag p.flag) (p.goto c (some (.unlock 0)))
  | call {p : OncePoints C} {c : C} : p.pc c = some .call →
    PointStep p (c, .call) (p.goto c (some .running))
  | succeed {p : OncePoints C} {c : C} : p.pc c = some .running →
      PointStep p (c, .funcReturn 0) (p.goto c (some .setFlag))
  | fail {p : OncePoints C} {c : C} {r : Int} : p.pc c = some .running → r ≠ 0 →
      PointStep p (c, .funcReturn r) (p.goto c (some (.unlock r)))
  | setFlag {p : OncePoints C} {c : C} : p.pc c = some .setFlag →
      PointStep p (c, .setFlag 1) ({ p with flag := 1 }.goto c (some (.unlock 0)))
  | unlock {p : OncePoints C} {c : C} {r : Int} : p.pc c = some (.unlock r) →
      PointStep p (c, .unlock) ({ p with lock := none }.goto c (some (.ret r)))
  | ret {p : OncePoints C} {c : C} {r : Int} : p.pc c = some (.ret r) →
      PointStep p (c, .ret r) (p.goto c none)

variable {p p' : OncePoints C} {c d : C} {q : OncePc} {e : C × OnceEvent}
    {es : List (C × OnceEvent)}

theorem OncePoints.code_goto (p : OncePoints C) (c : C) (q : Option OncePc) :
    (p.goto c q).code = p.code.goto c (q.map OncePc.code) := by
  unfold OncePoints.code OncePoints.goto OnceState.goto
  congr 1
  funext d
  by_cases h : d = c
  · subst h
    simp
  · simp [Function.update_of_ne h]

omit [DecidableEq C] in
theorem OncePoints.pc_of_code {k : OnceProg} (h : p.code.cpu c = some k) :
    ∃ q, p.pc c = some q ∧ q.code = k := by
  simpa [OncePoints.code, Option.map_eq_some_iff] using h

/-- A step of the programs is a step of the points. -/
theorem onceStep_point {s' : OnceState C} (h : OnceStep p.code e s') :
    ∃ p', PointStep p e p' ∧ p'.code = s' := by
  cases h with
  | @enter c hc =>
    have hc' : p.pc c = none := by simpa [OncePoints.code] using hc
    exact ⟨_, .enter hc', p.code_goto c _⟩
  | @readFlag c k hc =>
    obtain ⟨q, hq, hk⟩ := OncePoints.pc_of_code hc
    show ∃ p', PointStep p (c, .readFlag p.flag) p' ∧ p'.code = p.code.goto c (some (k p.flag))
    by_cases hf : p.flag = 0
    · cases q with
      | entry =>
        cases hk
        dsimp only
        rw [if_pos hf]
        exact ⟨_, .readUnset hq hf, p.code_goto c _⟩
      | recheck =>
        cases hk
        dsimp only
        rw [if_pos hf]
        exact ⟨_, .recheckUnset hq hf, p.code_goto c _⟩
      | lock | call | running | setFlag | unlock | ret => cases hk
    · cases q with
      | entry =>
        cases hk
        dsimp only
        rw [if_neg hf]
        exact ⟨_, .readSet hq hf, p.code_goto c _⟩
      | recheck =>
        cases hk
        dsimp only
        rw [if_neg hf]
        exact ⟨_, .recheckSet hq hf, p.code_goto c _⟩
      | lock | call | running | setFlag | unlock | ret => cases hk
  | @setFlag c v k hc =>
    obtain ⟨q, hq, hk⟩ := OncePoints.pc_of_code hc
    cases q with
    | setFlag =>
      cases hk
      exact ⟨_, .setFlag hq, OncePoints.code_goto _ c _⟩
    | entry | lock | recheck | call | running | unlock | ret => cases hk
  | @lock c k hc hl =>
    obtain ⟨q, hq, hk⟩ := OncePoints.pc_of_code hc
    cases q with
    | lock =>
      cases hk
      exact ⟨_, .lock hq hl, OncePoints.code_goto _ c _⟩
    | entry | recheck | call | running | setFlag | unlock | ret => cases hk
  | @unlock c k hc =>
    obtain ⟨q, hq, hk⟩ := OncePoints.pc_of_code hc
    cases q with
    | unlock r =>
      cases hk
      exact ⟨_, .unlock hq, OncePoints.code_goto _ c _⟩
    | entry | lock | recheck | call | running | setFlag | ret => cases hk
  | @call c k hc =>
    obtain ⟨q, hq, hk⟩ := OncePoints.pc_of_code hc
    cases q with
    | call =>
      cases hk
      exact ⟨_, .call hq, p.code_goto c _⟩
    | entry | lock | recheck | running | setFlag | unlock | ret => cases hk
  | @funcReturn c k r hc =>
    obtain ⟨q, hq, hk⟩ := OncePoints.pc_of_code hc
    cases q with
    | running =>
      cases hk
      by_cases hr : r = 0
      · subst hr
        exact ⟨_, .succeed hq, p.code_goto c _⟩
      · refine ⟨_, .fail hq hr, (p.code_goto c _).trans ?_⟩
        rw [OnceProg.afterCall, if_neg hr]
        rfl
    | entry | lock | recheck | call | setFlag | unlock | ret => cases hk
  | @ret c r hc =>
    obtain ⟨q, hq, hk⟩ := OncePoints.pc_of_code hc
    cases q with
    | ret r =>
      cases hk
      exact ⟨_, .ret hq, p.code_goto c _⟩
    | entry | lock | recheck | call | running | setFlag | unlock => cases hk

/-- The runs of the programs are runs of the points. -/
theorem onceStep_points {s' : OnceState C} (h : Runs OnceStep p.code es s') :
    ∃ p', Runs PointStep p es p' ∧ p'.code = s' := by
  generalize hs : p.code = s at h
  induction h generalizing p with
  | nil s => exact ⟨p, .nil p, hs⟩
  | cons hstep _ ih =>
    subst hs
    obtain ⟨p₁, hp₁, hcode⟩ := onceStep_point hstep
    obtain ⟨p', hp', hend⟩ := ih hcode
    exact ⟨p', .cons hp₁ hp', hend⟩

/-! ## The invariant -/

@[simp] theorem OncePoints.goto_self {q : Option OncePc} : (p.goto c q).pc c = q := by
  simp [OncePoints.goto]

theorem OncePoints.goto_of_ne {q : Option OncePc} (h : d ≠ c) : (p.goto c q).pc d = p.pc d := by
  simp [OncePoints.goto, Function.update_of_ne h]

/-- A call of `func` has returned `0`. -/
def Succeeded {C : Type} (es : List (C × OnceEvent)) : Prop := ∃ c, (c, .funcReturn 0) ∈ es

/-- The points that a CPU reaches only after a success. -/
def OncePc.Done : OncePc → Prop
  | setFlag => True
  | unlock r | ret r => r = 0
  | entry | lock | recheck | call | running => False

/-- The points that a CPU leaves for a call of `func`. -/
def OncePc.Calls : OncePc → Prop
  | call | running => True
  | entry | lock | recheck | setFlag | unlock _ | ret _ => False

/-- What holds of the events so far and of the points. -/
structure OnceInv (es : List (C × OnceEvent)) (p : OncePoints C) : Prop where
  holder : ∀ c q, p.pc c = some q → q.Holds → p.lock = some c
  fresh : ∀ c q, p.pc c = some q → q.Calls → ¬ Succeeded es
  done : ∀ c q, p.pc c = some q → q.Done → Succeeded es
  flag : p.flag ≠ 0 → Succeeded es
  setting : Succeeded es → p.flag ≠ 0 ∨ ∃ c, p.pc c = some .setFlag
  once : es.countP (fun e => e.2 = .funcReturn 0) ≤ 1

omit [DecidableEq C] in
theorem OnceInv.init : OnceInv [] (OncePoints.init (C := C)) where
  holder c q h := by cases h
  fresh c q h := by cases h
  done c q h := by cases h
  flag h := absurd rfl h
  setting h := by
    obtain ⟨c, h⟩ := h
    simp at h
  once := by simp

omit [DecidableEq C] in
theorem succeeded_snoc {ev : OnceEvent} (hev : ev ≠ .funcReturn 0) : Succeeded (es ++ [(c, ev)]) ↔
    Succeeded es := by
  unfold Succeeded
  simp [Ne.symm hev]

/-- A step of `c` that is no success: what is left to show of the point it goes to. -/
theorem OnceInv.move (hinv : OnceInv es p) {ev : OnceEvent} (hev : ev ≠ .funcReturn 0) {flag : Int}
    {lock : Option C} {q' : Option OncePc} (hholds : ∀ q, q' = some q → q.Holds → lock = some c)
    (hlock : ∀ d q, d ≠ c → p.pc d = some q → q.Holds → lock = p.lock)
    (hcalls : ∀ q, q' = some q → q.Calls → ¬ Succeeded es)
    (hdone : ∀ q, q' = some q → q.Done → Succeeded es) (hflag : flag ≠ 0 → Succeeded es)
    (hset : flag ≠ 0 ∨ flag = p.flag ∧ p.pc c ≠ some .setFlag) :
    OnceInv (es ++ [(c, ev)]) ({ p with flag := flag, lock := lock }.goto c q') where
  holder d q hd hq := by
    by_cases hdc : d = c
    · subst hdc
      exact hholds q (by simpa using hd) hq
    · rw [OncePoints.goto_of_ne hdc] at hd
      exact (hlock d q hdc hd hq).trans (hinv.holder d q hd hq)
  fresh d q hd hq := by
    rw [succeeded_snoc hev]
    by_cases hdc : d = c
    · subst hdc
      exact hcalls q (by simpa using hd) hq
    · rw [OncePoints.goto_of_ne hdc] at hd
      exact hinv.fresh d q hd hq
  done d q hd hq := by
    rw [succeeded_snoc hev]
    by_cases hdc : d = c
    · subst hdc
      exact hdone q (by simpa using hd) hq
    · rw [OncePoints.goto_of_ne hdc] at hd
      exact hinv.done d q hd hq
  flag h := (succeeded_snoc hev).mpr (hflag h)
  setting h := by
    rcases hset with hset | ⟨hset, hc⟩
    · exact .inl hset
    · rcases hinv.setting ((succeeded_snoc hev).mp h) with hf | ⟨d, hd⟩
      · left
        show flag ≠ 0
        rwa [hset]
      · right
        have hdc : d ≠ c := by
          rintro rfl
          exact hc hd
        exact ⟨d, by rwa [OncePoints.goto_of_ne hdc]⟩
  once := by
    rw [List.countP_append]
    simpa [hev] using hinv.once

/-- `func` returns `0`: no other CPU is at a point of the lock, and none has succeeded before. -/
theorem OnceInv.succeed (hinv : OnceInv es p) (hc : p.pc c = some .running) :
    OnceInv (es ++ [(c, .funcReturn 0)]) (p.goto c (some .setFlag)) := by
  have hsucceeded : Succeeded (es ++ [(c, .funcReturn 0)]) := ⟨c, by simp⟩
  have hlock : p.lock = some c := hinv.holder c _ hc trivial
  have hnone : es.countP (fun e => e.2 = .funcReturn 0) = 0 := by
    rw [List.countP_eq_zero]
    rintro ⟨d, ev⟩ hd he
    have hev : ev = .funcReturn 0 := by simpa using he
    subst hev
    exact hinv.fresh c _ hc trivial ⟨d, hd⟩
  refine ⟨?_, ?_, fun d q hd hq => hsucceeded, fun _ => hsucceeded, ?_, ?_⟩
  · intro d q hd hq
    by_cases hdc : d = c
    · subst hdc
      exact hlock
    · rw [OncePoints.goto_of_ne hdc] at hd
      exact hinv.holder d q hd hq
  · intro d q hd hq
    by_cases hdc : d = c
    · subst hdc
      rw [OncePoints.goto_self] at hd
      cases hd
      exact hq.elim
    · rw [OncePoints.goto_of_ne hdc] at hd
      -- `d` would hold the lock that `c` holds
      have hholds : q.Holds := by
        cases q <;> first | exact hq.elim | trivial
      have := hinv.holder d q hd hholds
      rw [hlock] at this
      exact absurd (Option.some.inj this).symm hdc
  · intro _
    exact .inr ⟨c, OncePoints.goto_self⟩
  · rw [List.countP_append, hnone]
    simp

theorem OnceInv.step (hinv : OnceInv es p) (h : PointStep p e p') : OnceInv (es ++ [e]) p' := by
  -- a CPU that holds the lock is alone at the points of the lock
  have halone : ∀ c, p.lock = some c → ∀ d q, d ≠ c → p.pc d = some q → q.Holds → False := by
    intro c hc d q hdc hd hq
    have hlock := hinv.holder d q hd hq
    rw [hc] at hlock
    exact hdc (Option.some.inj hlock).symm
  cases h with
  | enter hc =>
    exact hinv.move (by simp) (by simp [OncePc.Holds]) (fun _ _ _ _ _ => rfl)
      (by simp [OncePc.Calls])
      (by simp [OncePc.Done]) hinv.flag (.inr ⟨rfl, by simp [hc]⟩)
  | readUnset hc hf =>
    exact hinv.move (by simp) (by simp [OncePc.Holds]) (fun _ _ _ _ _ => rfl)
      (by simp [OncePc.Calls])
      (by simp [OncePc.Done]) hinv.flag (.inr ⟨rfl, by simp [hc]⟩)
  | readSet hc hf =>
    exact hinv.move (by simp) (by simp [OncePc.Holds]) (fun _ _ _ _ _ => rfl)
      (by simp [OncePc.Calls])
      (fun _ _ _ => hinv.flag hf) hinv.flag (.inr ⟨rfl, by simp [hc]⟩)
  | lock hc hl =>
    refine hinv.move (by simp) (fun _ _ _ => rfl) ?_ (by simp [OncePc.Calls])
      (by simp [OncePc.Done]) hinv.flag (.inr ⟨rfl, by simp [hc]⟩)
    intro d q _ hd hq
    have hlock := hinv.holder d q hd hq
    rw [hl] at hlock
    exact absurd hlock (by simp)
  | recheckUnset hc hf =>
    have hlock := hinv.holder _ _ hc trivial
    refine hinv.move (by simp) (fun _ _ _ => hlock) (fun _ _ _ _ _ => rfl) ?_
      (by simp [OncePc.Done]) hinv.flag (.inr ⟨rfl, by simp [hc]⟩)
    intro _ _ _ hs
    -- the CPU of an earlier success would be about to set the flag, with the lock
    rcases hinv.setting hs with hset | ⟨d, hd⟩
    · exact hset hf
    · refine halone _ hlock d _ ?_ hd trivial
      rintro rfl
      rw [hc] at hd
      cases hd
  | recheckSet hc hf =>
    exact hinv.move (by simp) (fun _ _ _ => hinv.holder _ _ hc trivial) (fun _ _ _ _ _ => rfl)
      (by simp [OncePc.Calls]) (fun _ _ _ => hinv.flag hf) hinv.flag (.inr ⟨rfl, by simp [hc]⟩)
  | call hc =>
    exact hinv.move (by simp) (fun _ _ _ => hinv.holder _ _ hc trivial) (fun _ _ _ _ _ => rfl)
      (fun _ _ _ => hinv.fresh _ _ hc trivial) (by simp [OncePc.Done]) hinv.flag
        (.inr ⟨rfl, by simp [hc]⟩)
  | succeed hc => exact hinv.succeed hc
  | fail hc hr =>
    exact hinv.move (by simpa using hr) (fun _ _ _ => hinv.holder _ _ hc trivial)
      (fun _ _ _ _ _ => rfl)
      (by simp [OncePc.Calls]) (by simp [OncePc.Done, hr]) hinv.flag (.inr ⟨rfl, by simp [hc]⟩)
  | setFlag hc =>
    have hdone := hinv.done _ _ hc trivial
    exact hinv.move (by simp) (fun _ _ _ => hinv.holder _ _ hc trivial) (fun _ _ _ _ _ => rfl)
      (by simp [OncePc.Calls]) (fun _ _ _ => hdone) (fun _ => hdone) (.inl (by decide))
  | unlock hc =>
    have hlock := hinv.holder _ _ hc trivial
    refine hinv.move (by simp) (by simp [OncePc.Holds])
      (fun d q hdc hd hq => (halone _ hlock d q hdc hd hq).elim)
      (by simp [OncePc.Calls]) ?_ hinv.flag (.inr ⟨rfl, by simp [hc]⟩)
    intro q hq hdone
    cases hq
    exact hinv.done _ _ hc hdone
  | ret hc =>
    exact hinv.move (by simp) (by simp) (fun _ _ _ _ _ => rfl) (by simp) (by simp) hinv.flag
      (.inr ⟨rfl, by simp [hc]⟩)

theorem onceInv_of_runs (h : Runs PointStep OncePoints.init es p) : OnceInv es p := by
  exact h.trace (fun _ _ _ _ hinv hstep => hinv.step hstep) OnceInv.init

/-! ## One CPU between two events -/

theorem PointStep.other {ev : OnceEvent} (h : PointStep p (d, ev) p') (hcd : c ≠ d) :
    p'.pc c = p.pc c := by
  cases h <;> exact OncePoints.goto_of_ne hcd

/-- The next event of a CPU in `func` is its return, -/
theorem PointStep.of_running {ev : OnceEvent} (h : PointStep p (c, ev) p')
    (hc : p.pc c = some .running) :
    ∃ r, ev = .funcReturn r := by
  cases h with
  | succeed => exact ⟨0, rfl⟩
  | @fail _ r => exact ⟨r, rfl⟩
  | enter h' | readUnset h' | readSet h' | lock h' | recheckUnset h' | recheckSet h' | call h'
  | setFlag h' | unlock h' | ret h' =>
    exact nomatch hc.symm.trans h'

/-- that of one that is to unlock leads to its return, -/
theorem PointStep.of_unlock {ev : OnceEvent} {r : Int} (h : PointStep p (c, ev) p')
    (hc : p.pc c = some (.unlock r)) :
    p'.pc c = some (.ret r) := by
  cases h with
  | unlock h' =>
    cases hc.symm.trans h'
    exact OncePoints.goto_self
  | enter h' | readUnset h' | readSet h' | lock h' | recheckUnset h' | recheckSet h' | call h'
  | succeed h' | fail h'
  | setFlag h' | ret h' => exact nomatch hc.symm.trans h'

/-- which is all that is left there; -/
theorem PointStep.of_ret {ev : OnceEvent} {r : Int} (h : PointStep p (c, ev) p')
    (hc : p.pc c = some (.ret r)) :
    ev = .ret r := by
  cases h with
  | ret h' =>
    cases hc.symm.trans h'
    rfl
  | enter h' | readUnset h' | readSet h' | lock h' | recheckUnset h' | recheckSet h' | call h'
  | succeed h' | fail h'
  | setFlag h' | unlock h' => exact nomatch hc.symm.trans h'

/-- and as long as the flag is not set, a CPU before its call goes on to it. -/
theorem PointStep.of_unset {ev : OnceEvent} (h : PointStep p (c, ev) p') (hflag : p.flag = 0)
    (hc : p.pc c = some .entry ∨ p.pc c = some .lock ∨ p.pc c = some .recheck ∨
      p.pc c = some .call) :
    ev = .call ∨ p'.pc c = some .entry ∨ p'.pc c = some .lock ∨ p'.pc c = some .recheck ∨
      p'.pc c = some .call := by
  cases h with
  | readUnset => exact .inr (.inr (.inl OncePoints.goto_self))
  | lock => exact .inr (.inr (.inr (.inl OncePoints.goto_self)))
  | recheckUnset => exact .inr (.inr (.inr (.inr OncePoints.goto_self)))
  | call => exact .inl rfl
  | readSet _ hset | recheckSet _ hset => exact absurd hflag hset
  | enter h' | succeed h' | fail h' | setFlag h' | unlock h' | ret h' => simp [h'] at hc

/-- A CPU in `func` stays there until it returns. -/
theorem running_until {mid : List (C × OnceEvent)} (h : Runs PointStep p mid p')
    (hc : p.pc c = some .running) :
    p'.pc c = some .running ∨ ∃ r, (c, .funcReturn r) ∈ mid := by
  refine h.trace (I := fun mid p => p.pc c = some .running ∨ ∃ r, (c, .funcReturn r) ∈ mid) ?_
    (.inl hc)
  rintro es p ⟨d, ev⟩ p' (hp | ⟨r, hr⟩) hstep
  · by_cases hcd : c = d
    · subst hcd
      obtain ⟨r, rfl⟩ := hstep.of_running hp
      exact .inr ⟨r, List.mem_append_right _ List.mem_cons_self⟩
    · exact .inl ((hstep.other hcd).trans hp)
  · exact .inr ⟨r, List.mem_append_left _ hr⟩

/-- A CPU whose call failed unlocks and returns. -/
theorem failed_until {mid : List (C × OnceEvent)} {r : Int} (h : Runs PointStep p mid p')
    (hc : p.pc c = some (.unlock r)) :
    p'.pc c = some (.unlock r) ∨ p'.pc c = some (.ret r) ∨ ∃ r', (c, .ret r') ∈ mid := by
  refine h.trace (I := fun mid p =>
    p.pc c = some (.unlock r) ∨ p.pc c = some (.ret r) ∨ ∃ r', (c, .ret r') ∈ mid) ?_ (.inl hc)
  rintro es p ⟨d, ev⟩ p' (hp | hp | ⟨r', hr'⟩) hstep
  · by_cases hcd : c = d
    · subst hcd
      exact .inr (.inl (hstep.of_unlock hp))
    · exact .inl ((hstep.other hcd).trans hp)
  · by_cases hcd : c = d
    · subst hcd
      obtain rfl := hstep.of_ret hp
      exact .inr (.inr ⟨r, List.mem_append_right _ List.mem_cons_self⟩)
    · exact .inr (.inl ((hstep.other hcd).trans hp))
  · exact .inr (.inr ⟨r', List.mem_append_left _ hr'⟩)

/-- Until a success, a CPU that entered is on its way to its call of `func` or has made it. -/
theorem calls_until {pre mid : List (C × OnceEvent)} (hinv : OnceInv (pre ++ [(c, .enter)]) p)
    (h : Runs PointStep p mid p') (hc : p.pc c = some .entry) :
    Succeeded (pre ++ (c, .enter) :: mid) ∨ (c, .call) ∈ mid ∨
      p'.pc c = some .entry ∨ p'.pc c = some .lock ∨ p'.pc c = some .recheck ∨
        p'.pc c = some .call := by
  have hI := h.trace (I := fun mid p => OnceInv (pre ++ (c, .enter) :: mid) p ∧
    (Succeeded (pre ++ (c, .enter) :: mid) ∨ (c, .call) ∈ mid ∨
      p.pc c = some .entry ∨ p.pc c = some .lock ∨ p.pc c = some .recheck ∨ p.pc c = some .call)) ?_
    ⟨hinv, .inr (.inr (.inl hc))⟩
  · exact hI.2
  · rintro es p ⟨d, ev⟩ p' ⟨hinv, hp⟩ hstep
    have hinv' : OnceInv (pre ++ (c, .enter) :: (es ++ [(d, ev)])) p' := by
      simpa using hinv.step hstep
    have hmono : Succeeded (pre ++ (c, .enter) :: es) →
        Succeeded (pre ++ (c, .enter) :: (es ++ [(d, ev)])) := by
      rintro ⟨x, hx⟩
      refine ⟨x, ?_⟩
      rw [← List.cons_append, ← List.append_assoc]
      exact List.mem_append_left _ hx
    refine ⟨hinv', ?_⟩
    rcases hp with hs | hcall | hp
    · exact .inl (hmono hs)
    · exact .inr (.inl (List.mem_append_left _ hcall))
    · by_cases hcd : c = d
      · subst hcd
        by_cases hflag : p.flag = 0
        · rcases hstep.of_unset hflag hp with rfl | hp
          · exact .inr (.inl (List.mem_append_right _ List.mem_cons_self))
          · exact .inr (.inr hp)
        · exact .inl (hmono (hinv.flag hflag))
      · rw [hstep.other hcd]
        exact .inr (.inr hp)

end Points

/-! ## What every trace has -/

section Traces
variable {C : Type}

/-- At most one call of `func` returns `0`. -/
def SucceedsOnce (es : List (C × OnceEvent)) : Prop :=
  es.countP (fun e => e.2 = .funcReturn 0) ≤ 1

/-- Between two calls of `func` the first one returns. -/
def CallsApart (es : List (C × OnceEvent)) : Prop :=
  ∀ pre c mid d post, es = pre ++ (c, .call) :: (mid ++ (d, .call) :: post) →
    ∃ r, (c, .funcReturn r) ∈ mid

/-- After a success `func` is not called again. -/
def NoCallAfterSuccess (es : List (C × OnceEvent)) : Prop :=
  ∀ pre c post, es = pre ++ (c, .funcReturn 0) :: post → ∀ d, (d, .call) ∉ post

/-- A `run_once` that returns `0` returns after a success. -/
def ReturnsAfterSuccess (es : List (C × OnceEvent)) : Prop :=
  ∀ pre c post, es = pre ++ (c, .ret 0) :: post → Succeeded pre

/-- After its own failed call, until it returns, a CPU only unlocks and returns that failure. -/
def ReturnsOwnFailure (es : List (C × OnceEvent)) : Prop :=
  ∀ pre c r mid e post, es = pre ++ (c, .funcReturn r) :: (mid ++ (c, e) :: post) → r ≠ 0 →
    (∀ r', (c, .ret r') ∉ mid) → e = .unlock ∨ e = .ret r

/-- A `run_once` that returns before any success has called `func` itself. -/
def RetriesFailure (es : List (C × OnceEvent)) : Prop :=
  ∀ pre c mid r post, es = pre ++ (c, .enter) :: (mid ++ (c, .ret r) :: post) →
    (∀ r', (c, .ret r') ∉ mid) →
    ¬ Succeeded (pre ++ (c, .enter) :: mid) → (c, .call) ∈ mid

end Traces

section Theorems
variable {C : Type} [DecidableEq C] {p p' : OncePoints C} {c : C} {es : List (C × OnceEvent)}

/-- A run cut at an event: the points before it and after it. -/
theorem points_at {s : OnceState C} {pre post : List (C × OnceEvent)} {e : C × OnceEvent}
    (h : Runs OnceStep OnceState.init (pre ++ e :: post) s) :
    ∃ p₁ p₂ p₃, OnceInv pre p₁ ∧ PointStep p₁ e p₂ ∧ Runs PointStep p₂ post p₃ ∧ p₃.code = s := by
  obtain ⟨p₃, hp, hcode⟩ := onceStep_points (p := OncePoints.init) h
  obtain ⟨p₁, hpre, hpost⟩ := hp.split
  cases hpost with
  | cons hstep hpost => exact ⟨p₁, _, p₃, onceInv_of_runs hpre, hstep, hpost, hcode⟩

theorem succeedsOnce_of_runs {s : OnceState C} (h : Runs OnceStep OnceState.init es s) :
    SucceedsOnce es := by
  obtain ⟨p, hp, -⟩ := onceStep_points (p := OncePoints.init) h
  exact (onceInv_of_runs hp).once

theorem callsApart_of_runs {s : OnceState C} (h : Runs OnceStep OnceState.init es s) :
    CallsApart es := by
  rintro pre c mid d post rfl
  obtain ⟨p₁, p₂, p₃, hinv, hcall, hrest, -⟩ := points_at h
  obtain ⟨p₄, hmid, hpost⟩ := hrest.split
  cases hpost with
  | cons hcall' _ =>
    have hinv' := hmid.history (I := OnceInv) (fun _ _ _ _ hinv hstep => hinv.step hstep)
      (hinv.step hcall)
    have hrunning : p₂.pc c = some .running := by
      cases hcall
      exact OncePoints.goto_self
    have hd : p₄.pc d = some .call := by
      cases hcall'
      assumption
    refine (running_until hmid hrunning).resolve_left ?_
    intro hc
    -- both would hold the lock
    have hlock := hinv'.holder c _ hc trivial
    rw [hinv'.holder d _ hd trivial] at hlock
    cases hlock
    rw [hc] at hd
    cases hd

theorem noCallAfterSuccess_of_runs {s : OnceState C} (h : Runs OnceStep OnceState.init es s) :
    NoCallAfterSuccess es := by
  rintro pre c post rfl d hd
  obtain ⟨mid, post, rfl⟩ := List.append_of_mem hd
  rw [← List.cons_append, ← List.append_assoc] at h
  obtain ⟨p₁, _, _, hinv, hcall, -, -⟩ := points_at h
  have hp : p₁.pc d = some .call := by
    cases hcall
    assumption
  exact hinv.fresh d _ hp trivial ⟨c, by simp⟩

theorem returnsAfterSuccess_of_runs {s : OnceState C} (h : Runs OnceStep OnceState.init es s) :
    ReturnsAfterSuccess es := by
  rintro pre c post rfl
  obtain ⟨p₁, _, _, hinv, hret, -, -⟩ := points_at h
  have hp : p₁.pc c = some (.ret 0) := by
    cases hret
    assumption
  exact hinv.done c _ hp rfl

/-- Where a CPU is after its own failed call. -/
theorem points_after_failure {s : OnceState C} {pre mid : List (C × OnceEvent)} {r : Int}
    (h : Runs OnceStep OnceState.init (pre ++ (c, .funcReturn r) :: mid) s) (hr : r ≠ 0)
    (hmid : ∀ r', (c, .ret r') ∉ mid) : s.cpu c = some (.unlock (.ret r)) ∨
      s.cpu c = some (.ret r) := by
  obtain ⟨p₁, p₂, p₃, -, hfail, hrest, rfl⟩ := points_at h
  have hunlock : p₂.pc c = some (.unlock r) := by
    cases hfail with
    | succeed => exact absurd rfl hr
    | fail => exact OncePoints.goto_self
  rcases failed_until hrest hunlock with hc | hc | ⟨r', hr'⟩
  · left
    simp [OncePoints.code, hc, OncePc.code]
  · right
    simp [OncePoints.code, hc, OncePc.code]
  · exact absurd hr' (hmid r')

/-- The next event of a CPU is the one that its program stands before. -/
theorem OnceStep.of_unlock {s s' : OnceState C} {ev : OnceEvent} {k : OnceProg}
    (h : OnceStep s (c, ev) s')
    (hc : s.cpu c = some (.unlock k)) : ev = .unlock := by
  cases h with
  | unlock => rfl
  | enter h' | readFlag h' | setFlag h' | lock h' | call h' | funcReturn h' | ret h' =>
    exact nomatch hc.symm.trans h'

theorem OnceStep.of_ret {s s' : OnceState C} {ev : OnceEvent} {r : Int} (h : OnceStep s (c, ev) s')
    (hc : s.cpu c = some (.ret r)) : ev = .ret r := by
  cases h with
  | ret h' =>
    cases hc.symm.trans h'
    rfl
  | enter h' | readFlag h' | setFlag h' | lock h' | unlock h' | call h' | funcReturn h' =>
    exact nomatch hc.symm.trans h'

theorem returnsOwnFailure_of_runs {s : OnceState C} (h : Runs OnceStep OnceState.init es s) :
    ReturnsOwnFailure es := by
  rintro pre c r mid e post rfl hr hmid
  rw [← List.cons_append, ← List.append_assoc] at h
  obtain ⟨s₁, hpre, hpost⟩ := h.split
  cases hpost with
  | cons hstep _ =>
    rcases points_after_failure hpre hr hmid with hc | hc
    · exact .inl (hstep.of_unlock hc)
    · exact .inr (hstep.of_ret hc)

theorem retriesFailure_of_runs {s : OnceState C} (h : Runs OnceStep OnceState.init es s) :
    RetriesFailure es := by
  rintro pre c mid r post rfl hmid hnot
  obtain ⟨p₁, p₂, p₃, hinv, henter, hrest, -⟩ := points_at h
  obtain ⟨p₄, hmid, hpost⟩ := hrest.split
  have hentry : p₂.pc c = some .entry := by
    cases henter
    exact OncePoints.goto_self
  cases hpost with
  | cons hret _ =>
    have hp : p₄.pc c = some (.ret r) := by
      cases hret
      assumption
    rcases calls_until (hinv.step henter) hmid hentry with hs | hcall | hp'
    · exact absurd hs hnot
    · exact hcall
    · simp [hp] at hp'

/-- **`run_once` runs its function to success at most once and nobody returns early**, for any
number of CPUs and calls.  A CPU whose own call failed can always go on to return that failure. -/
theorem run_once_succeeds_once {s : OnceState C} (h : Runs OnceStep OnceState.init es s) :
    SucceedsOnce es ∧ CallsApart es ∧ NoCallAfterSuccess es ∧ ReturnsAfterSuccess es ∧
      ReturnsOwnFailure es ∧
    RetriesFailure es ∧
    ∀ pre c r mid, es = pre ++ (c, .funcReturn r) :: mid → r ≠ 0 → (∀ r', (c, .ret r') ∉ mid) →
      (∃ t, Runs OnceStep s [(c, .unlock), (c, .ret r)] t) ∨
        ∃ t, Runs OnceStep s [(c, .ret r)] t := by
  refine ⟨succeedsOnce_of_runs h, callsApart_of_runs h, noCallAfterSuccess_of_runs h,
    returnsAfterSuccess_of_runs h,
    returnsOwnFailure_of_runs h, retriesFailure_of_runs h, ?_⟩
  rintro pre c r mid rfl hr hmid
  rcases points_after_failure h hr hmid with hc | hc
  · left
    exact ⟨_, .cons (.unlock hc) (.single (.ret (by simp [OnceState.goto])))⟩
  · right
    exact ⟨_, .single (.ret hc)⟩

end Theorems

/-- Two CPUs read the flag; the first one's `func` fails, the second one's succeeds, and the first
one comes back and returns `0` without the lock. -/
def exampleOnceTrace : List (Bool × OnceEvent) :=
  [(false, .enter), (true, .enter), (false, .readFlag 0), (true, .readFlag 0), (false, .lock),
    (false, .readFlag 0),
   (false, .call), (false, .funcReturn (-1)), (false, .unlock), (true, .lock), (false, .ret (-1)),
   (true, .readFlag 0), (true, .call), (true, .funcReturn 0), (true, .setFlag 1), (false, .enter),
   (false, .readFlag 1), (false, .ret 0), (true, .unlock), (true, .ret 0)]

theorem exampleOnceTrace_runs : ∃ s, Runs OnceStep OnceState.init exampleOnceTrace s :=
  ⟨_, .cons (.enter rfl) <| .cons (.enter rfl) <| .cons (.readFlag rfl) <| .cons (.readFlag rfl) <|
    .cons (.lock rfl rfl) <| .cons (.readFlag rfl) <| .cons (.call rfl) <|
      .cons (.funcReturn rfl) <|
    .cons (.unlock rfl) <| .cons (.lock rfl rfl) <| .cons (.ret rfl) <| .cons (.readFlag rfl) <|
    .cons (.call rfl) <| .cons (.funcReturn rfl) <| .cons (.setFlag rfl) <| .cons (.enter rfl) <|
    .cons (.readFlag rfl) <| .cons (.ret rfl) <| .cons (.unlock rfl) <| .single (.ret rfl)⟩

theorem run_once_succeeds_once_example :
    ∃ s, Runs OnceStep OnceState.init exampleOnceTrace s ∧ SucceedsOnce exampleOnceTrace ∧
      NoCallAfterSuccess exampleOnceTrace ∧ RetriesFailure exampleOnceTrace := by
  obtain ⟨s, h⟩ := exampleOnceTrace_runs
  obtain ⟨honce, -, hcalls, -, -, hretries, -⟩ := run_once_succeeds_once h
  exact ⟨s, h, honce, hcalls, hretries⟩

end ZHyper
