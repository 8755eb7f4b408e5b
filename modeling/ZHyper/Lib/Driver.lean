import ZHyper.Lib.Runs
import Mathlib.Data.List.Flatten

/-!
# Drivers and their devices

A device is a state behind registers, and takes steps of its own.  A routine of its driver is a list
of accesses; a `wait` reads a register again until the value lets it through.  Handlers interrupt
between any two accesses and call routines themselves, up to any depth: `context` has the call under
way at each level, 0 the code that was interrupted first.

What one access finds the next need not find: `bad_le` bounds how often, by the interrupts in
between.  `storesAt_eq` says that a level's stores are still those of its calls, one after another.
-/

namespace LowLevel

variable {σ A V δ ο : Type}

structure Device (σ A V δ : Type) where
  read : A → σ → V × σ
  write : A → V → σ → σ
  step : σ → δ → σ → Prop

inductive RegOp (A V : Type) where
  | wait (a : A) (busy : V → Bool)
  | store (a : A) (v : V)
  | load (a : A)

namespace RegOp

def passes (D : Device σ A V δ) (s : σ) : RegOp A V → Bool
  | wait a busy => !busy (D.read a s).1
  | _ => true

def value (D : Device σ A V δ) (s : σ) : RegOp A V → Option V
  | load a => some (D.read a s).1
  | _ => none

def effect (D : Device σ A V δ) (s : σ) : RegOp A V → σ
  | wait a _ => (D.read a s).2
  | store a v => D.write a v s
  | load a => (D.read a s).2

def stored : RegOp A V → Option (A × V)
  | store a v => some (a, v)
  | _ => none

end RegOp

/-- A routine under way: what is left of it, and what it has loaded. -/
structure RoutineCall (ο A V : Type) where
  op : ο
  rest : List (RegOp A V)
  value : Option V

/-- The call after its first access, `i`. -/
def RoutineCall.next (k : RoutineCall ο A V) (D : Device σ A V δ) (s : σ) (i : RegOp A V)
    (is : List (RegOp A V)) :
    RoutineCall ο A V :=
  if i.passes D s then { k with rest := is, value := (i.value D s).or k.value } else k

structure Driven (σ ο A V : Type) where
  device : σ
  level : Nat
  context : Nat → Option (RoutineCall ο A V)

def Driven.init (s : σ) : Driven σ ο A V := ⟨s, 0, fun _ => none⟩

/-- The current level's call. -/
def Driven.setCall (s : Driven σ ο A V) (k : Option (RoutineCall ο A V)) : Driven σ ο A V :=
  { s with context := Function.update s.context s.level k }

inductive DrivenEvent (ο A V δ : Type) where
  | call (level : Nat) (op : ο)
  | exec (level : Nat) (i : RegOp A V)
  | ret (level : Nat) (op : ο) (value : Option V)
  /-- The call that is interrupted. -/
  | irq (k : Option (RoutineCall ο A V))
  | eret
  | dev (d : δ)

/-- `allows` says which routines are called at which level. -/
inductive DrivenStep (D : Device σ A V δ) (code : ο → List (RegOp A V)) (allows : Nat → ο → Prop) :
    Driven σ ο A V → DrivenEvent ο A V δ → Driven σ ο A V → Prop where
  | call {s : Driven σ ο A V} {op : ο} : s.context s.level = none → allows s.level op →
      DrivenStep D code allows s (.call s.level op) (s.setCall (some ⟨op, code op, none⟩))
  | exec {s : Driven σ ο A V} {k : RoutineCall ο A V} {i : RegOp A V} {is : List (RegOp A V)} :
      s.context s.level = some k → k.rest = i :: is →
      DrivenStep D code allows s (.exec s.level i)
        { s.setCall (some (k.next D s.device i is)) with device := i.effect D s.device }
  | ret {s : Driven σ ο A V} {k : RoutineCall ο A V} : s.context s.level = some k → k.rest = [] →
      DrivenStep D code allows s (.ret s.level k.op k.value) (s.setCall none)
  | irq {s : Driven σ ο A V} :
      DrivenStep D code allows s (.irq (s.context s.level)) { s with level := s.level + 1 }
  | eret {s : Driven σ ο A V} {l : Nat} : s.level = l + 1 → s.context s.level = none →
      DrivenStep D code allows s .eret { s with level := l }
  | dev {s : Driven σ ο A V} {d : δ} {u : σ} : D.step s.device d u →
      DrivenStep D code allows s (.dev d) { s with device := u }

namespace Driven

variable (s : Driven σ ο A V) (k : Option (RoutineCall ο A V))

@[simp] theorem setCall_device : (s.setCall k).device = s.device := rfl
@[simp] theorem setCall_level : (s.setCall k).level = s.level := rfl
@[simp] theorem setCall_same : (s.setCall k).context s.level = k := Function.update_self ..

theorem setCall_ne {n : Nat} (h : n ≠ s.level) : (s.setCall k).context n = s.context n :=
  Function.update_of_ne h ..

end Driven

/-! ## What a level stores -/

namespace DrivenEvent

def storedAt (n : Nat) : DrivenEvent ο A V δ → Option (A × V)
  | exec m i => if m = n then i.stored else none
  | _ => none

def returnedAt (n : Nat) : DrivenEvent ο A V δ → Option ο
  | ret m op _ => if m = n then some op else none
  | _ => none

end DrivenEvent

def storesOf (is : List (RegOp A V)) : List (A × V) := is.filterMap RegOp.stored

def storesAt (n : Nat) (es : List (DrivenEvent ο A V δ)) : List (A × V) :=
  es.filterMap (DrivenEvent.storedAt n)

def returnsAt (n : Nat) (es : List (DrivenEvent ο A V δ)) : List ο :=
  es.filterMap (DrivenEvent.returnedAt n)

variable {D : Device σ A V δ} {code : ο → List (RegOp A V)} {allows : Nat → ο → Prop}
    {s t : Driven σ ο A V}
  {k : RoutineCall ο A V} {i : RegOp A V} {is : List (RegOp A V)} {u : σ}
  {e : DrivenEvent ο A V δ} {es : List (DrivenEvent ο A V δ)} {n : Nat}

theorem RoutineCall.next_op : (k.next D u i is).op = k.op := by
  unfold next
  split <;> rfl

theorem RoutineCall.next_pass (h : i.passes D u = true) :
    k.next D u i is = { k with rest := is, value := (i.value D u).or k.value } := if_pos h

theorem RoutineCall.next_wait (h : i.passes D u = false) : k.next D u i is = k :=
  if_neg (by simp [h])

/-- What waits stores nothing. -/
theorem RegOp.stored_of_waits (h : i.passes D u = false) : i.stored = none := by
  cases i with
  | wait a busy => rfl
  | store a v => cases h
  | load a => rfl

/-- The part of the call of level `n` that is done; between calls there is none. -/
def Done (code : ο → List (RegOp A V)) (s : Driven σ ο A V) (n : Nat) (done : List (RegOp A V)) :
    Prop :=
  match s.context n with
  | none => done = []
  | some k => code k.op = done ++ k.rest

theorem Done.congr {done : List (RegOp A V)} (h : Done code s n done)
    (hn : t.context n = s.context n) :
    Done code t n done := by
  unfold Done at h ⊢
  rwa [hn]

theorem done_none {done : List (RegOp A V)} (hn : s.context n = none) : Done code s n done ↔
    done = [] := by
  unfold Done
  rw [hn]

theorem done_some {done : List (RegOp A V)} (hn : s.context n = some k) :
    Done code s n done ↔ code k.op = done ++ k.rest := by
  unfold Done
  rw [hn]

/-- The part that is done after one more access. -/
theorem Done.exec {done : List (RegOp A V)} (hk : s.context s.level = some k)
    (hi : k.rest = i :: is)
    (h : Done code s s.level done) : ∃ done', storesOf done' = storesOf done ++ i.stored.toList ∧
      Done code { s.setCall (some (k.next D s.device i is)) with device := i.effect D s.device }
        s.level done' := by
  rw [done_some hk, hi] at h
  cases hpass : i.passes D s.device with
  | true =>
    refine ⟨done ++ [i], ?_, (done_some (Driven.setCall_same ..)).mpr ?_⟩
    · unfold storesOf
      rw [List.filterMap_append]
      cases hi : i.stored <;> simp [hi]
    · rw [RoutineCall.next_pass hpass, List.append_assoc]
      exact h
  | false =>
    refine ⟨done, by
      simp [RegOp.stored_of_waits hpass], (done_some (Driven.setCall_same ..)).mpr ?_⟩
    rw [RoutineCall.next_wait hpass, hi]
    exact h

/-- The stores of level `n` are those of its calls. -/
def StoresOfCalls (code : ο → List (RegOp A V)) (n : Nat) (es : List (DrivenEvent ο A V δ))
    (s : Driven σ ο A V) :
    Prop :=
  ∃ done, storesAt n es = (returnsAt n es).flatMap (fun op => storesOf (code op)) ++ storesOf done ∧
    Done code s n done

theorem StoresOfCalls.step {past : List (DrivenEvent ο A V δ)} (h : StoresOfCalls code n past s)
    (hs : DrivenStep D code allows s e t) : StoresOfCalls code n (past ++ [e]) t := by
  obtain ⟨done, hstores, hdone⟩ := h
  have hquiet (h1 : e.storedAt n = none) (h2 : e.returnedAt n = none) : storesAt n (past ++ [e]) =
      (returnsAt n (past ++ [e])).flatMap (fun op => storesOf (code op)) ++ storesOf done := by
    unfold storesAt returnsAt at hstores ⊢
    simp [h1, h2, hstores]
  have hother (h1 : e.storedAt n = none) (h2 : e.returnedAt n = none)
    (hn : t.context n = s.context n) :
      StoresOfCalls code n (past ++ [e]) t := ⟨done, hquiet h1 h2, hdone.congr hn⟩
  cases hs with
  | @call op hc _ =>
    by_cases hn : n = s.level
    · subst hn
      refine ⟨done, hquiet rfl rfl, (done_some (Driven.setCall_same ..)).mpr ?_⟩
      rw [(done_none hc).mp hdone]
      rfl
    · exact hother rfl rfl (s.setCall_ne _ hn)
  | @exec k i is hk hi =>
    by_cases hn : n = s.level
    · subst hn
      obtain ⟨done', hdone', hnext⟩ := hdone.exec (D := D) hk hi
      refine ⟨done', ?_, hnext⟩
      unfold storesAt returnsAt at hstores ⊢
      rw [hdone', List.filterMap_append, List.filterMap_append, hstores]
      cases hi : i.stored <;> simp [DrivenEvent.storedAt, DrivenEvent.returnedAt, hi]
    · exact hother (if_neg (Ne.symm hn)) rfl (s.setCall_ne _ hn)
  | @ret k hk hrest =>
    by_cases hn : n = s.level
    · subst hn
      rw [done_some hk, hrest, List.append_nil] at hdone
      refine ⟨[], ?_, (done_none (Driven.setCall_same ..)).mpr rfl⟩
      unfold storesAt returnsAt at hstores ⊢
      simp [DrivenEvent.storedAt, DrivenEvent.returnedAt, hstores, hdone, storesOf]
    · exact hother rfl (if_neg (Ne.symm hn)) (s.setCall_ne _ hn)
  | irq => exact hother rfl rfl rfl
  | eret => exact hother rfl rfl rfl
  | dev => exact hother rfl rfl rfl

/-- **A level's stores are those of the calls it has made**, and of the part that is done of the
call under way. -/
theorem storesAt_eq {u : σ} (h : Runs (DrivenStep D code allows) (.init u) es t) (n : Nat) :
    StoresOfCalls code n es t :=
  h.trace (fun _ _ _ _ h hs => h.step hs) ⟨[], rfl, rfl⟩

/-- What is left of a call is an end of its routine. -/
theorem rest_suffix {u : σ} (h : Runs (DrivenStep D code allows) (.init u) es t)
    (hk : t.context n = some k) :
    k.rest <:+ code k.op := by
  obtain ⟨done, -, hdone⟩ := storesAt_eq h n
  exact ⟨done, ((done_some hk).mp hdone).symm⟩

/-- A level runs what it may call. -/
theorem allowed {u : σ} (h : Runs (DrivenStep D code allows) (.init u) es t) :
    ∀ n k, t.context n = some k → allows n k.op := by
  refine h.invariant (I := fun s => ∀ n k, s.context n = some k → allows n k.op) ?_
    (fun _ _ h => by cases h)
  intro s e t hs hstep n k hk
  have hset (k' : RoutineCall ο A V) (hop : allows s.level k'.op)
      (hk : (s.setCall (some k')).context n = some k) : allows n k.op := by
    by_cases hn : n = s.level
    · subst hn
      rw [Driven.setCall_same] at hk
      cases hk
      exact hop
    · rw [s.setCall_ne _ hn] at hk
      exact hs n k hk
  cases hstep with
  | call _ hop => exact hset _ hop hk
  | @exec k' i is hk' hi =>
    refine hset _ ?_ hk
    rw [RoutineCall.next_op]
    exact hs _ _ hk'
  | ret hk' hrest =>
    by_cases hn : n = s.level
    · subst hn
      rw [Driven.setCall_same] at hk
      cases hk
    · rw [s.setCall_ne _ hn] at hk
      exact hs n k hk
  | irq => exact hs n k hk
  | eret => exact hs n k hk
  | dev => exact hs n k hk

/-- A call that is neither interrupted nor over goes on, or the device moves. -/
theorem call_step (hk : s.context s.level = some k) (hs : DrivenStep D code allows s e t)
    (hirq : ∀ k, e ≠ .irq k) (hret : ∀ n op v, e ≠ .ret n op v) : t.level = s.level ∧
    ((∃ i is, k.rest = i :: is ∧ e = .exec s.level i ∧
      t.context s.level = some (k.next D s.device i is) ∧
      t.device = i.effect D s.device) ∨
    ∃ d, e = .dev d ∧ D.step s.device d t.device ∧ t.context s.level = some k) := by
  cases hs with
  | call hc _ => rw [hk] at hc; cases hc
  | @exec k' i is hk' hi =>
    obtain rfl := Option.some.inj (hk.symm.trans hk')
    exact ⟨rfl, Or.inl ⟨i, is, hi, rfl, Driven.setCall_same .., rfl⟩⟩
  | ret _ _ => exact absurd rfl (hret _ _ _)
  | irq => exact absurd rfl (hirq _)
  | eret _ hc => rw [hk] at hc; cases hc
  | @dev d v hd => exact ⟨rfl, Or.inr ⟨d, rfl, hd, hk⟩⟩

/-- Without interrupts the level does not rise. -/
theorem level_of_quiet (h : Runs (DrivenStep D code allows) s es t)
    (hirq : ∀ k, DrivenEvent.irq k ∉ es) :
    t.level ≤ s.level ∧ ∀ n i, DrivenEvent.exec n i ∈ es → n ≤ s.level := by
  induction h with
  | nil s => exact ⟨Nat.le_refl _, nofun⟩
  | @cons s t u e es h1 _ ih =>
    obtain ⟨hlevel, hexec⟩ := ih fun k hk => hirq k (List.mem_cons_of_mem _ hk)
    have hstep : t.level ≤ s.level ∧ ∀ n i, DrivenEvent.exec n i = e → n ≤ s.level := by
      cases h1 with
      | exec =>
        refine ⟨Nat.le_refl _, fun n i he => ?_⟩
        cases he
        exact Nat.le_refl _
      | eret hl _ => exact ⟨hl ▸ Nat.le_succ _, nofun⟩
      | irq => exact absurd List.mem_cons_self (hirq _)
      | call => exact ⟨Nat.le_refl _, nofun⟩
      | ret => exact ⟨Nat.le_refl _, nofun⟩
      | dev => exact ⟨Nat.le_refl _, nofun⟩
    refine ⟨Nat.le_trans hlevel hstep.1, fun n i hmem => ?_⟩
    rcases List.mem_cons.mp hmem with he | hmem
    · exact hstep.2 n i he
    · exact Nat.le_trans (hexec n i hmem) hstep.1

/-! ## Checks that interrupts outdate -/

/-- The calls under the current one that are `armed`. -/
def armedBelow (armed : RoutineCall ο A V → Bool) (s : Driven σ ο A V) : Nat :=
  (List.range s.level).countP fun n => (s.context n).any armed

def DrivenEvent.interrupts (armed : RoutineCall ο A V → Bool) : DrivenEvent ο A V δ → Bool
  | irq k => k.any armed
  | _ => false

/-- A call is `armed` from a check that the device is `ready` on; what it does then is `bad` if the
device is not. -/
structure Checked (D : Device σ A V δ) (code : ο → List (RegOp A V))
    (armed : RoutineCall ο A V → Bool)
    (ready : σ → Bool) (bad : σ → Nat) : Prop where
  start (op : ο) : armed ⟨op, code op, none⟩ = false
  arms {k : RoutineCall ο A V} {i : RegOp A V} {is : List (RegOp A V)} {s : σ} :
    i :: is <:+ code k.op →
    k.rest = i :: is → armed (k.next D s i is) = true → ready (i.effect D s) = true
  exec {k : RoutineCall ο A V} {i : RegOp A V} {is : List (RegOp A V)} {s : σ} :
    i :: is <:+ code k.op →
    k.rest = i :: is → bad (i.effect D s) ≤ bad s + (armed k && !ready s).toNat
  dev {s s' : σ} {d : δ} : D.step s d s' → bad s' ≤ bad s ∧ (ready s = true → ready s' = true)

/-- What is bad so far or may become so without another interrupt. -/
def risk (armed : RoutineCall ο A V → Bool) (ready : σ → Bool) (bad : σ → Nat)
    (s : Driven σ ο A V) : Nat :=
  bad s.device + armedBelow armed s + ((s.context s.level).any armed && !ready s.device).toNat

variable {armed : RoutineCall ο A V → Bool} {ready : σ → Bool} {bad : σ → Nat}

theorem armedBelow_setCall (armed : RoutineCall ο A V → Bool) (s : Driven σ ο A V)
    (k : Option (RoutineCall ο A V)) :
    armedBelow armed (s.setCall k) = armedBelow armed s := by
  unfold armedBelow
  refine List.countP_congr fun n hn => ?_
  have hlt : n < s.level := List.mem_range.mp hn
  rw [s.setCall_ne k (Nat.ne_of_lt hlt)]

theorem armedBelow_irq (s : Driven σ ο A V) : armedBelow armed { s with level := s.level + 1 } =
    armedBelow armed s + ((s.context s.level).any armed).toNat := by
  unfold armedBelow
  dsimp only
  rw [List.range_succ, List.countP_append, List.countP_singleton]
  cases (s.context s.level).any armed <;> rfl

theorem risk_step (hD : Checked D code armed ready bad) (hs : DrivenStep D code allows s e t)
    (hrest : ∀ k, s.context s.level = some k → k.rest <:+ code k.op)
    (habove : s.context (s.level + 1) = none) :
    risk armed ready bad t ≤ risk armed ready bad s + (e.interrupts armed).toNat := by
  cases hs with
  | @call op hc _ =>
    unfold risk
    rw [armedBelow_setCall]
    simp [hD.start op]
    omega
  | @exec k i is hk hi =>
    have hsuffix : i :: is <:+ code k.op := hi ▸ hrest k hk
    have hbad := hD.exec (s := s.device) hsuffix hi
    have hset := armedBelow_setCall armed s (some (k.next D s.device i is))
    have harms : (armed (k.next D s.device i is) && !ready (i.effect D s.device)) = false := by
      cases h : armed (k.next D s.device i is) with
      | false => rfl
      | true => rw [hD.arms hsuffix hi h]; rfl
    unfold risk armedBelow at *
    simp only [Driven.setCall_level, Driven.setCall_same, Option.any_some, harms, hk] at *
    show bad (i.effect D s.device) + _ + 0 ≤ _ + 0
    omega
  | @ret k hk hrest =>
    unfold risk
    rw [armedBelow_setCall]
    simp
    omega
  | irq =>
    unfold risk
    rw [armedBelow_irq]
    simp only [habove, DrivenEvent.interrupts, Option.any_none, Bool.false_and, Bool.toNat_false]
    omega
  | @eret l hl hc =>
    have hbelow : armedBelow armed s = armedBelow armed { s with level := l } +
        ((s.context l).any armed).toNat := by
      rw [← armedBelow_irq]
      unfold armedBelow
      rw [hl]
    unfold risk
    rw [hbelow]
    dsimp only
    cases (s.context l).any armed <;> cases ready s.device <;> simp <;> omega
  | @dev d u hd =>
    obtain ⟨hbad, hready⟩ := hD.dev hd
    have hflag : ((s.context s.level).any armed && !ready u).toNat ≤
        ((s.context s.level).any armed && !ready s.device).toNat := by
      cases hr : ready s.device with
      | true => simp [hready hr]
      | false => cases (s.context s.level).any armed <;> cases ready u <;> simp
    have hsame : armedBelow armed { s with device := u } = armedBelow armed s := rfl
    unfold risk
    rw [hsame]
    dsimp only
    omega

/-- The levels above the current one are idle. -/
theorem idle_above {u : σ} (h : Runs (DrivenStep D code allows) (.init u) es t) : ∀ n, t.level < n →
    t.context n = none := by
  refine h.invariant (I := fun s => ∀ n, s.level < n → s.context n = none) ?_ fun _ _ => rfl
  intro s e t hs hstep n hn
  cases hstep with
  | call => exact (s.setCall_ne _ (Nat.ne_of_gt hn)).trans (hs n hn)
  | exec => exact (s.setCall_ne _ (Nat.ne_of_gt hn)).trans (hs n hn)
  | ret => exact (s.setCall_ne _ (Nat.ne_of_gt hn)).trans (hs n hn)
  | irq => exact hs n (Nat.lt_of_succ_lt hn)
  | @eret l hl hc =>
    rcases Nat.lt_or_eq_of_le (show l + 1 ≤ n from hn) with hlt | rfl
    · exact hs n (hl ▸ hlt)
    · rwa [hl] at hc
  | dev => exact hs n hn

/-- **Check, then act.**  It goes wrong no more often than an interrupt comes in between. -/
theorem bad_le (hD : Checked D code armed ready bad) {u : σ}
    (h : Runs (DrivenStep D code allows) (.init u) es t) :
    bad t.device ≤ bad u + es.countP (DrivenEvent.interrupts armed) := by
  suffices hrisk : risk armed ready bad t ≤ bad u + es.countP (DrivenEvent.interrupts armed) by
    unfold risk at hrisk
    omega
  have hinit : risk armed ready bad (.init u : Driven σ ο A V) = bad u := rfl
  refine (h.trace (I := fun es s => Runs (DrivenStep D code allows) (.init u) es s ∧
    risk armed ready bad s ≤ bad u + es.countP (DrivenEvent.interrupts armed)) ?_ ⟨.nil _,
      Nat.le_of_eq hinit⟩).2
  intro es s e t ⟨hrun, hle⟩ hs
  refine ⟨hrun.append (.single hs), ?_⟩
  have hstep := risk_step hD hs (fun k hk => rest_suffix hrun hk)
    (idle_above hrun _ (Nat.lt_succ_self _))
  rw [List.countP_append, List.countP_singleton]
  cases he : e.interrupts armed <;> rw [he] at hstep <;> simp at hstep ⊢ <;> omega

end LowLevel
