import Mathlib.Data.List.Basic
import Mathlib.Logic.Function.Basic
import ZHyper.Lib.Linearizable

/-!
# Fair locks

A fair lock is a queue: a core that asks for it joins the queue at some moment of its call, enters
when it is at the head, and leaves the queue while it gives the lock back.  A core that only tries
joins an empty queue or is refused.  One core is inside at a time (`FifoLock.Ok.exclusive`), and
cores enter in the order in which they joined (`FifoLock.entered_prefix`).
-/

namespace LowLevel

inductive LockOp where
  | lock
  | trylock
  | unlock
deriving DecidableEq

/-- Where a core is in its use of the lock. -/
inductive Phase where
  | idle
  | asking (op : LockOp)
  | queued
  | refused
  | inside
  | leaving
  | left
deriving DecidableEq

/-- The core has the lock. -/
def Phase.Holds : Phase → Prop
  | .inside | .leaving => True
  | _ => False

/-- The core is in the queue. -/
def Phase.Waits : Phase → Prop
  | .queued | .inside | .leaving => True
  | _ => False

structure FifoLock (C : Type) where
  queue : List C
  phase : C → Phase

inductive FifoEvent (C : Type) where
  | call (c : C) (op : LockOp)
  | join (c : C)
  | refuse (c : C)
  | enter (c : C)
  | fail (c : C)
  | leave (c : C)
  | exit (c : C)

namespace FifoEvent

variable {C : Type}

/-- What the users see: the calls, and the returns with true for the lock. -/
def visible : FifoEvent C → Option (History C LockOp Bool)
  | .call c op => some (.call c op)
  | .enter c => some (.ret c true)
  | .fail c => some (.ret c false)
  | .exit c => some (.ret c true)
  | .join _ | .refuse _ | .leave _ => none

def joined : FifoEvent C → Option C
  | .join c => some c
  | _ => none

def entered : FifoEvent C → Option C
  | .enter c => some c
  | _ => none

def leaves : FifoEvent C → Option C
  | .leave c => some c
  | _ => none

end FifoEvent

variable {C : Type} [DecidableEq C]

namespace FifoLock

def init : FifoLock C := ⟨[], fun _ => .idle⟩

def goto (a : FifoLock C) (c : C) (p : Phase) : FifoLock C :=
  { a with phase := Function.update a.phase c p }

@[simp] theorem goto_queue (a : FifoLock C) (c : C) (p : Phase) : (a.goto c p).queue = a.queue :=
  rfl

@[simp] theorem goto_phase_same (a : FifoLock C) (c : C) (p : Phase) : (a.goto c p).phase c = p :=
  Function.update_self ..

theorem goto_phase_ne (a : FifoLock C) {c d : C} (p : Phase) (h : d ≠ c) :
    (a.goto c p).phase d = a.phase d :=
  Function.update_of_ne h ..

end FifoLock

inductive FifoStep (a : FifoLock C) : FifoEvent C → FifoLock C → Prop where
  | ask {c : C} {op : LockOp} : a.phase c = .idle → op ≠ .unlock →
    FifoStep a (.call c op) (a.goto c (.asking op))
  | join {c : C} {op : LockOp} : a.phase c = .asking op → (op = .trylock → a.queue = []) →
      FifoStep a (.join c) ({ a with queue := a.queue ++ [c] }.goto c .queued)
  | refuse {c : C} : a.phase c = .asking .trylock → a.queue ≠ [] →
    FifoStep a (.refuse c) (a.goto c .refused)
  | enter {c : C} : a.phase c = .queued → a.queue.head? = some c →
    FifoStep a (.enter c) (a.goto c .inside)
  | fail {c : C} : a.phase c = .refused → FifoStep a (.fail c) (a.goto c .idle)
  | giveBack {c : C} : a.phase c = .inside → FifoStep a (.call c .unlock) (a.goto c .leaving)
  | leave {c : C} : a.phase c = .leaving →
      FifoStep a (.leave c) ({ a with queue := a.queue.tail }.goto c .left)
  | exit {c : C} : a.phase c = .left → FifoStep a (.exit c) (a.goto c .idle)

namespace FifoLock

/-- The queue holds the cores that wait or have the lock, and whoever has it is at the head. -/
structure Ok (a : FifoLock C) : Prop where
  nodup : a.queue.Nodup
  mem (c : C) : c ∈ a.queue ↔ (a.phase c).Waits
  head {c : C} : (a.phase c).Holds → a.queue.head? = some c

omit [DecidableEq C] in
theorem ok_init : Ok (init : FifoLock C) :=
  ⟨List.nodup_nil, fun _ => iff_of_false List.not_mem_nil id, fun h => h.elim⟩

variable {a a' : FifoLock C} {e : FifoEvent C} {c d : C} {p : Phase}

namespace Ok

omit [DecidableEq C] in
/-- **Mutual exclusion.** -/
theorem exclusive (h : Ok a) (hc : (a.phase c).Holds) (hd : (a.phase d).Holds) : c = d :=
  Option.some.inj ((h.head hc).symm.trans (h.head hd))

/-- A core that stays in the queue, or out of it, and has the lock only at the head. -/
theorem goto (h : Ok a) (hw : p.Waits ↔ (a.phase c).Waits) (hp : p.Holds → a.queue.head? = some c) :
    Ok (a.goto c p) := by
  refine ⟨h.nodup, fun d => ?_, fun {d} hd => ?_⟩
  · by_cases hdc : d = c
    · subst hdc
      rw [goto_queue, goto_phase_same, h.mem, hw]
    · rw [goto_queue, goto_phase_ne _ _ hdc, h.mem]
  · by_cases hdc : d = c
    · subst hdc
      rw [goto_phase_same] at hd
      exact hp hd
    · rw [goto_phase_ne _ _ hdc] at hd
      exact h.head hd

theorem join (h : Ok a) (hc : ¬ (a.phase c).Waits) :
    Ok ({ a with queue := a.queue ++ [c] }.goto c .queued) := by
  have hmem : c ∉ a.queue := fun hm => hc ((h.mem c).mp hm)
  refine ⟨?_, fun d => ?_, fun {d} hd => ?_⟩
  · exact List.nodup_append.mpr ⟨h.nodup, List.nodup_singleton c, fun x hx y hy => by
      rw [List.mem_singleton] at hy
      rintro rfl
      exact hmem (hy ▸ hx)⟩
  · by_cases hdc : d = c
    · subst hdc
      simp [goto_phase_same, Phase.Waits]
    · simp [goto_phase_ne _ _ hdc, h.mem, hdc]
  · by_cases hdc : d = c
    · subst hdc
      rw [goto_phase_same] at hd
      exact hd.elim
    · rw [goto_phase_ne _ _ hdc] at hd
      have hhead := h.head hd
      show (a.queue ++ [c]).head? = some d
      rw [List.head?_append, hhead]
      rfl

omit [DecidableEq C] in
theorem queue_eq (h : Ok a) (hc : (a.phase c).Holds) : a.queue = c :: a.queue.tail :=
  (List.cons_head?_tail (h.head hc)).symm

theorem leave (h : Ok a) (hc : a.phase c = .leaving) :
    Ok ({ a with queue := a.queue.tail }.goto c .left) := by
  have hholds : (a.phase c).Holds := by
    rw [hc]
    trivial
  have hq := h.queue_eq hholds
  have hnodup := h.nodup
  rw [hq, List.nodup_cons] at hnodup
  refine ⟨hnodup.2, fun d => ?_, fun {d} hd => ?_⟩
  · by_cases hdc : d = c
    · subst hdc
      rw [goto_phase_same]
      exact iff_of_false hnodup.1 id
    · rw [goto_phase_ne _ _ hdc]
      show d ∈ a.queue.tail ↔ (a.phase d).Waits
      rw [← h.mem, hq, List.mem_cons, List.tail_cons]
      simp [hdc]
  · by_cases hdc : d = c
    · subst hdc
      rw [goto_phase_same] at hd
      exact hd.elim
    · rw [goto_phase_ne _ _ hdc] at hd
      exact absurd (h.exclusive hd hholds) hdc

theorem step (h : Ok a) (hs : FifoStep a e a') : Ok a' := by
  cases hs with
  | ask hc _ => exact h.goto (by rw [hc]; exact Iff.rfl) False.elim
  | join hc _ => exact h.join (by rw [hc]; exact id)
  | refuse hc _ => exact h.goto (by rw [hc]; exact Iff.rfl) False.elim
  | enter hc hhead => exact h.goto (by rw [hc]; exact Iff.rfl) fun _ => hhead
  | fail hc => exact h.goto (by rw [hc]; exact Iff.rfl) False.elim
  | giveBack hc => exact h.goto (by rw [hc]; exact Iff.rfl) fun _ => h.head (by rw [hc]; trivial)
  | leave hc => exact h.leave hc
  | exit hc => exact h.goto (by rw [hc]; exact Iff.rfl) False.elim

end Ok

/-! ## The order -/

/-- Who has joined has left or is still in the queue, in order, and those who have left and the one
with the lock are those who have entered. -/
structure InOrder (es : List (FifoEvent C)) (a : FifoLock C) : Prop where
  ok : Ok a
  joined : es.filterMap FifoEvent.joined = es.filterMap FifoEvent.leaves ++ a.queue
  entered : (∃ c, (a.phase c).Holds ∧
      es.filterMap FifoEvent.entered = es.filterMap FifoEvent.leaves ++ [c]) ∨
    (∀ c, ¬ (a.phase c).Holds) ∧ es.filterMap FifoEvent.entered = es.filterMap FifoEvent.leaves

section snoc
variable {ε β : Type} {f : ε → Option β} {es : List ε} {x : ε} {b : β}

theorem filterMap_snoc_none (h : f x = none) : (es ++ [x]).filterMap f = es.filterMap f := by
  rw [List.filterMap_append, List.filterMap_cons_none h, List.filterMap_nil, List.append_nil]

theorem filterMap_snoc_some (h : f x = some b) :
    (es ++ [x]).filterMap f = es.filterMap f ++ [b] := by
  rw [List.filterMap_append, List.filterMap_cons_some h, List.filterMap_nil]

end snoc

/-- A step that neither joins, enters nor leaves. -/
theorem InOrder.goto {es : List (FifoEvent C)} (h : InOrder es a) (hok : Ok (a.goto c p))
    (hp : p.Holds ↔ (a.phase c).Holds) (hj : e.joined = none) (hl : e.leaves = none)
    (he : e.entered = none) :
    InOrder (es ++ [e]) (a.goto c p) := by
  have hholds : ∀ d, ((a.goto c p).phase d).Holds ↔ (a.phase d).Holds := by
    intro d
    by_cases hdc : d = c
    · subst hdc
      rw [goto_phase_same, hp]
    · rw [goto_phase_ne _ _ hdc]
  refine ⟨hok, ?_, ?_⟩
  · rw [filterMap_snoc_none hj, filterMap_snoc_none hl]
    exact h.joined
  · simp only [filterMap_snoc_none he, filterMap_snoc_none hl, hholds]
    exact h.entered

theorem InOrder.step {es : List (FifoEvent C)} (h : InOrder es a) (hs : FifoStep a e a') :
    InOrder (es ++ [e]) a' := by
  have hok := h.ok.step hs
  cases hs with
  | ask hc _ => exact h.goto hok (by rw [hc]; exact Iff.rfl) rfl rfl rfl
  | refuse hc _ => exact h.goto hok (by rw [hc]; exact Iff.rfl) rfl rfl rfl
  | fail hc => exact h.goto hok (by rw [hc]; exact Iff.rfl) rfl rfl rfl
  | giveBack hc => exact h.goto hok (by rw [hc]; exact Iff.rfl) rfl rfl rfl
  | exit hc => exact h.goto hok (by rw [hc]; exact Iff.rfl) rfl rfl rfl
  | @join c op hc htry =>
    have hholds :
      ∀ d, ((({ a with queue := a.queue ++ [c] } : FifoLock C).goto c .queued).phase d).Holds ↔
        (a.phase d).Holds := by
      intro d
      by_cases hdc : d = c
      · subst hdc
        rw [goto_phase_same, hc]
        exact Iff.rfl
      · rw [goto_phase_ne _ _ hdc]
    refine ⟨hok, ?_, ?_⟩
    · rw [filterMap_snoc_some (f := FifoEvent.joined) rfl,
        filterMap_snoc_none (f := FifoEvent.leaves) rfl, h.joined, List.append_assoc]
      rfl
    · simp only [filterMap_snoc_none (f := FifoEvent.entered) (x := FifoEvent.join c) rfl,
        filterMap_snoc_none (f := FifoEvent.leaves) (x := FifoEvent.join c) rfl, hholds]
      exact h.entered
  | @enter c hc hhead =>
    have hj : (es ++ [FifoEvent.enter c]).filterMap FifoEvent.joined =
        es.filterMap FifoEvent.joined :=
      filterMap_snoc_none rfl
    have hl : (es ++ [FifoEvent.enter c]).filterMap FifoEvent.leaves =
        es.filterMap FifoEvent.leaves :=
      filterMap_snoc_none rfl
    refine ⟨hok, by rw [hj, hl]; exact h.joined, Or.inl ⟨c, ?_, ?_⟩⟩
    · rw [goto_phase_same]
      trivial
    · have hnone : ∀ d, ¬ (a.phase d).Holds := by
        intro d hd
        have hdc : d = c := Option.some.inj ((h.ok.head hd).symm.trans hhead)
        rw [hdc, hc] at hd
        exact hd
      rcases h.entered with ⟨d, hd, -⟩ | ⟨-, hent⟩
      · exact absurd hd (hnone d)
      · rw [filterMap_snoc_some (f := FifoEvent.entered) rfl, hl, hent]
  | @leave c hc =>
    have hholds : (a.phase c).Holds := by
      rw [hc]
      trivial
    have hq := h.ok.queue_eq hholds
    have hl : (es ++ [FifoEvent.leave c]).filterMap FifoEvent.leaves =
        es.filterMap FifoEvent.leaves ++ [c] :=
      filterMap_snoc_some rfl
    refine ⟨hok, ?_, Or.inr ⟨fun d hd => ?_, ?_⟩⟩
    · rw [filterMap_snoc_none (f := FifoEvent.joined) rfl, hl, h.joined, List.append_assoc,
        List.singleton_append]
      exact congrArg _ hq
    · by_cases hdc : d = c
      · subst hdc
        rw [goto_phase_same] at hd
        exact hd
      · rw [goto_phase_ne _ _ hdc] at hd
        exact hdc (h.ok.exclusive hd hholds)
    · rcases h.entered with ⟨d, hd, hent⟩ | ⟨hnone, -⟩
      · rw [filterMap_snoc_none (f := FifoEvent.entered) rfl, hl, hent, h.ok.exclusive hd hholds]
      · exact absurd hholds (hnone c)

/-- **First come, first served**: the cores enter in the order in which they joined. -/
theorem entered_prefix {es : List (FifoEvent C)} (h : Runs FifoStep init es a) :
    es.filterMap FifoEvent.entered <+: es.filterMap FifoEvent.joined := by
  have hinit : InOrder [] (init : FifoLock C) := ⟨ok_init, rfl, Or.inr ⟨fun _ h => h, rfl⟩⟩
  have hord : InOrder es a := h.trace (fun _ _ _ _ hi hs => hi.step hs) hinit
  rw [hord.joined]
  rcases hord.entered with ⟨c, hc, hent⟩ | ⟨-, hent⟩
  · rw [hent, hord.ok.queue_eq hc]
    exact ⟨a.queue.tail, List.append_assoc ..⟩
  · rw [hent]
    exact List.prefix_append _ _

end FifoLock

end LowLevel
