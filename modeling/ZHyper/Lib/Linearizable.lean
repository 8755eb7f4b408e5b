import Mathlib.Algebra.BigOperators.Group.Finset.Piecewise
import Mathlib.Tactic.Abel
import ZHyper.Lib.Exclusive

/-!
# Atomic objects, and routines that implement them

An atomic object is a word on which an operation takes effect in one step, somewhere between its
call and its return.  Routines implement it (`Annotated`) if each of their instructions, on its own,
keeps a note on the registers, on the word as far as the core can rely on it, and on the outcome of
the call.  This says nothing of other cores, and yet every run of the machine, in any order and with
any number of cores, is then one of the object with the same calls and returns:

    R.Annotated spec note → MachineStep runs refine AtomicStep runs
                                                                 (Routines.Annotated.linearizable)

What the operations keep, done one after the other, holds in every run (`Linearizable.invariant`);
operations that only add to the word lose nothing of what was added (`Linearizable.sum`).
-/

namespace LowLevel

/-- What the user of an object sees. -/
inductive History (C ο ρ : Type) where
  | call (c : C) (op : ο)
  | ret (c : C) (r : ρ)

def MachineEvent.visible {C ο ρ : Type} : MachineEvent C ο ρ → Option (History C ο ρ)
  | .call c op => some (.call c op)
  | .ret c r => some (.ret c r)
  | .exec _ _ => none
  | .lose _ => none

/-- What the users do not see leaves the calls under way and what the cores hold. -/
theorem MachineStep.hidden {w : Nat} {C μ ο ρ : Type} [DecidableEq C] {R : Routines w ο ρ}
    {client : Client μ ο ρ} {s s' : Multicore w C μ ο} {e : MachineEvent C ο ρ}
    (h : MachineStep R client s e s') (he : e.visible = none) :
    s'.running = s.running ∧ s'.mode = s.mode := by
  cases h with
  | exec | lose => exact ⟨rfl, rfl⟩
  | call | ret => cases he

theorem Runs.hidden {w : Nat} {C μ ο ρ : Type} [DecidableEq C] {R : Routines w ο ρ}
    {client : Client μ ο ρ} {s s' : Multicore w C μ ο} {es : List (MachineEvent C ο ρ)}
    (h : Runs (MachineStep R client) s es s')
    (hes : ∀ e ∈ es, e.visible = none) : s'.running = s.running ∧ s'.mode = s.mode := by
  induction h with
  | nil s => exact ⟨rfl, rfl⟩
  | cons h1 _ ih =>
    obtain ⟨hrunning, hmode⟩ := h1.hidden (hes _ List.mem_cons_self)
    obtain ⟨hrunning', hmode'⟩ := ih fun e he => hes e (List.mem_cons_of_mem _ he)
    exact ⟨hrunning'.trans hrunning, hmode'.trans hmode⟩

/-! ## The object -/

/-- The word, the call under way on each core with its outcome once it has one, and what the core
holds. -/
structure Atomic (w : Nat) (C μ ο ρ : Type) where
  word : BitVec w
  call : C → Option (ο × Option ρ)
  mode : C → μ

inductive AtomicEvent (C ο ρ : Type) where
  | call (c : C) (op : ο)
  | commit (c : C) (op : ο) (r : ρ)
  | ret (c : C) (r : ρ)

def AtomicEvent.visible {C ο ρ : Type} : AtomicEvent C ο ρ → Option (History C ο ρ)
  | .call c op => some (.call c op)
  | .commit _ _ _ => none
  | .ret c r => some (.ret c r)

variable {w : Nat} {C μ ο ρ : Type} [DecidableEq C]

def Atomic.init (word : BitVec w) (mode : μ) : Atomic w C μ ο ρ :=
  ⟨word, fun _ => none, fun _ => mode⟩

/-- Core `c` calls an operation, the operation takes effect, and it returns. -/
inductive AtomicStep (spec : ο → BitVec w → BitVec w → ρ → Prop) (client : Client μ ο ρ)
    (a : Atomic w C μ ο ρ) : AtomicEvent C ο ρ → Atomic w C μ ο ρ → Prop where
  | call {c : C} {op : ο} : a.call c = none → client.may (a.mode c) op →
      AtomicStep spec client a (.call c op)
        { a with call := Function.update a.call c (some (op, none)) }
  | commit {c : C} {op : ο} {v : BitVec w} {r : ρ} : a.call c = some (op, none) →
    spec op a.word v r →
      AtomicStep spec client a (.commit c op r)
        { a with word := v, call := Function.update a.call c (some (op, some r)) }
  | ret {c : C} {op : ο} {r : ρ} : a.call c = some (op, some r) →
      AtomicStep spec client a (.ret c r)
        { a with
          call := Function.update a.call c none
          mode := Function.update a.mode c (client.after (a.mode c) op r) }

/-! ## Annotated routines -/

/-- What a step makes of the word and of the outcome of a call: nothing, or the effect of the
operation. -/
inductive Effect (spec : BitVec w → BitVec w → ρ → Prop) :
    BitVec w → BitVec w → Option ρ → Option ρ → Prop where
  | keep {v : BitVec w} {out : Option ρ} : Effect spec v v out out
  | commit {v v' : BitVec w} {r : ρ} : spec v v' r → Effect spec v v' none (some r)

/-- A note on every point of a routine: on the registers, the view of the word and the outcome. -/
abbrev Note (w : Nat) (ρ : Type) : Type := Nat → (Nat → BitVec w) → Option (BitVec w) → Option ρ →
    Prop

/-- What must be known before an instruction for the note to hold after it, whatever the word is. -/
def Insn.wp (i : Insn w) (spec : BitVec w → BitVec w → ρ → Prop) (note : Note w ρ) (pc : Nat)
    (reg : Nat → BitVec w) (view : Option (BitVec w)) (out : Option ρ) : Prop :=
  match i with
  | .prfm | .sevl | .wfe => note (pc + 1) reg view out
  | .ldxr t => ∀ word, ∃ out', note (pc + 1) (Function.update reg t word) (some word) out' ∧
      Effect spec word word out out'
  | .ldxrh t =>
    ∀ word, ∃ out', note (pc + 1) (Function.update reg t (lowHalf word)) (some word) out' ∧
      Effect spec word word out out'
  | .ldr t => ∀ word, ∃ out', note (pc + 1) (Function.update reg t word) view out' ∧
      Effect spec word word out out'
  | .ldrh t => ∀ word, ∃ out', note (pc + 1) (Function.update reg t (lowHalf word)) view out' ∧
      Effect spec word word out out'
  | .stxr s t =>
      (∀ word, ∃ out', note (pc + 1) (Function.update reg s 1) none out' ∧
        Effect spec word word out out') ∧
        ∀ word ∈ view, ∃ out', note (pc + 1) (Function.update reg s 0) none out' ∧
          Effect spec word (reg t) out out'
  | .str t => ∀ word, ∃ out', note (pc + 1) reg none out' ∧ Effect spec word (reg t) out out'
  | .strh t =>
    ∀ word, ∃ out', note (pc + 1) reg none out' ∧
    Effect spec word (setLowHalf word (reg t)) out out'
  | .alu d f => note (pc + 1) (Function.update reg d (f reg)) view out
  | .branch p target => (p reg = true → note target reg view out) ∧ (p reg = false →
    note (pc + 1) reg view out)

/-- The instructions keep the note, and what they do to the word is the effect of the operation. -/
structure Annotated (code : List (Insn w)) (args : Nat → BitVec w) (result : (Nat → BitVec w) → ρ)
    (spec : BitVec w → BitVec w → ρ → Prop) (note : Note w ρ) : Prop where
  start (view : Option (BitVec w)) : note 0 args view none
  lose {pc : Nat} {reg : Nat → BitVec w} {view : Option (BitVec w)} {out : Option ρ} :
    note pc reg view out → note pc reg none out
  step {pc : Nat} {i : Insn w} {reg : Nat → BitVec w} {view : Option (BitVec w)} {out : Option ρ} :
    code[pc]? = some i → note pc reg view out → i.wp spec note pc reg view out
  finish {reg : Nat → BitVec w} {view : Option (BitVec w)} {out : Option ρ} :
    note code.length reg view out → out = some (result reg)

theorem Insn.wp_exec {i : Insn w} {spec : BitVec w → BitVec w → ρ → Prop} {note : Note w ρ}
    {k k' : Core w} {word : BitVec w} {ok : Bool} {stored : Option (BitVec w)} {out : Option ρ}
    (h : i.wp spec note k.pc k.reg (k.view word) out) (he : i.exec word ok k = some (k', stored)) :
    ∃ out', note k'.pc k'.reg (k'.view (stored.getD word)) out' ∧
      Effect spec word (stored.getD word) out out' := by
  cases i with
  | prfm | sevl | alu =>
    obtain ⟨rfl, rfl⟩ := Prod.mk.inj (Option.some.inj he)
    exact ⟨out, h, .keep⟩
  | branch p target =>
    obtain ⟨rfl, rfl⟩ := Prod.mk.inj (Option.some.inj he)
    refine ⟨out, ?_, .keep⟩
    cases hp : p k.reg with
    | true => exact h.1 hp
    | false => exact h.2 hp
  | ldxr | ldxrh | ldr | ldrh | str | strh =>
    obtain ⟨rfl, rfl⟩ := Prod.mk.inj (Option.some.inj he)
    exact h _
  | stxr s t =>
    rcases exec_stxr he with ⟨hmon, rfl, rfl⟩ | ⟨rfl, rfl⟩
    · exact h.2 word (Core.view_eq_some.mpr ⟨hmon, rfl⟩)
    · exact h.1 word
  | wfe =>
    obtain ⟨-, rfl, rfl⟩ := exec_wfe he
    exact ⟨out, h, .keep⟩

/-- Each routine keeps its note. -/
def Routines.Annotated (R : Routines w ο ρ) (spec : ο → BitVec w → BitVec w → ρ → Prop)
    (note : ο → Note w ρ) :
    Prop :=
  ∀ op, LowLevel.Annotated (R.code op) (R.args op) (R.result op) (spec op) (note op)

/-! ## The refinement -/

/-- The machine and the object agree on the word, and on each call the note holds. -/
structure Implements (note : ο → Note w ρ) (s : Multicore w C μ ο) (a : Atomic w C μ ο ρ) :
    Prop where
  word : a.word = s.word
  mode : a.mode = s.mode
  running (c : C) : s.running c = (a.call c).map Prod.fst
  note {c : C} {op : ο} {out : Option ρ} : a.call c = some (op, out) →
    note op (s.core c).pc (s.core c).reg (s.view c) out

variable {R : Routines w ο ρ} {spec : ο → BitVec w → BitVec w → ρ → Prop} {client : Client μ ο ρ}
    {mode : μ}
  {word : BitVec w}
  {note : ο → Note w ρ} {s s' : Multicore w C μ ο} {a : Atomic w C μ ο ρ} {e : MachineEvent C ο ρ}
    {c d : C}

omit [DecidableEq C] in
theorem implements_init (note : ο → Note w ρ) (word : BitVec w) (mode : μ) :
    Implements note (.init word mode : Multicore w C μ ο) (.init word mode) :=
  ⟨rfl, rfl, fun _ => rfl, fun h => by cases h⟩

namespace Implements

omit [DecidableEq C] in
theorem call_eq_none (h : Implements note s a) (hc : s.running c = none) : a.call c = none := by
  rw [h.running] at hc
  exact Option.map_eq_none_iff.mp hc

omit [DecidableEq C] in
theorem exists_call (h : Implements note s a) {op : ο} (hc : s.running c = some op) :
    ∃ out, a.call c = some (op, out) := by
  rw [h.running, Option.map_eq_some_iff] at hc
  obtain ⟨⟨op, out⟩, hcall, rfl⟩ := hc
  exact ⟨out, hcall⟩

theorem start (hR : R.Annotated spec note) (h : Implements note s a) (op : ο) :
    Implements note (s.start R c op)
      { a with call := Function.update a.call c (some (op, none)) } := by
  refine ⟨h.word, h.mode, fun d => ?_, fun {d} op' out hd => ?_⟩
  · unfold Multicore.start
    by_cases hd : d = c
    · subst hd
      simp
    · simp [Function.update_of_ne hd, h.running d]
  · unfold Multicore.start Multicore.view
    by_cases hdc : d = c
    · subst hdc
      simp only [Function.update_self, Option.some.injEq, Prod.mk.injEq] at hd ⊢
      obtain ⟨rfl, rfl⟩ := hd
      exact (hR op).start _
    · simp only [Function.update_of_ne hdc] at hd ⊢
      exact h.note hd

/-- A step of core `c` leaves the notes on the other cores. -/
theorem note_put (hR : R.Annotated spec note) (h : Implements note s a) {op : ο} {out : Option ρ}
    {k : Core w} {stored : Option (BitVec w)} (hne : d ≠ c) (hd : a.call d = some (op, out)) :
    note op ((s.put c k stored).core d).pc ((s.put c k stored).core d).reg
      ((s.put c k stored).view d) out := by
  obtain ⟨hpc, hreg, hview⟩ := s.put_other k stored hne
  rw [hpc, hreg]
  rcases hview with hview | hview
  · rw [hview]
    exact h.note hd
  · rw [hview]
    exact (hR _).lose (h.note hd)

/-- One instruction: the object stands still, or the operation takes effect. -/
theorem exec (hR : R.Annotated spec note) (h : Implements note s a) {op : ο} {i : Insn w}
    {ok : Bool} {k : Core w} {stored : Option (BitVec w)} (hc : s.running c = some op)
    (hi : (R.code op)[(s.core c).pc]? = some i)
    (he : i.exec s.word ok (s.core c) = some (k, stored)) :
    ∃ fs a', Runs (AtomicStep spec client) a fs a' ∧ fs.filterMap AtomicEvent.visible = [] ∧
      Implements note (s.put c k stored) a' := by
  obtain ⟨out, hcall⟩ := h.exists_call hc
  obtain ⟨out', hnote, heff⟩ := Insn.wp_exec ((hR op).step hi (h.note hcall)) he
  have hview : (s.put c k stored).view c = k.view (stored.getD s.word) := by
    unfold Multicore.view
    rw [Multicore.put_core_same, Multicore.put_word]
  generalize hv : stored.getD s.word = v at heff hnote hview
  rw [← h.word] at heff
  cases heff with
  | keep =>
    refine ⟨[], a, .nil a,
      rfl, by rw [Multicore.put_word, hv], h.mode, h.running, fun {d} op' out' hd => ?_⟩
    by_cases hdc : d = c
    · subst hdc
      rw [hcall] at hd
      obtain ⟨rfl, rfl⟩ := Prod.mk.inj (Option.some.inj hd)
      rw [hview, Multicore.put_core_same]
      exact hnote
    · exact h.note_put hR hdc hd
  | @commit _ r hspec =>
    refine ⟨[.commit c op r], _, .single (.commit hcall hspec),
      rfl, by rw [Multicore.put_word, hv], h.mode,
      fun d => ?_, fun {d} op' out' hd => ?_⟩
    · by_cases hdc : d = c
      · subst hdc
        simp [hc]
      · simp [Function.update_of_ne hdc, h.running d]
    · by_cases hdc : d = c
      · subst hdc
        simp only [Function.update_self, Option.some.injEq, Prod.mk.injEq] at hd
        obtain ⟨rfl, rfl⟩ := hd
        rw [hview, Multicore.put_core_same]
        exact hnote
      · simp only [Function.update_of_ne hdc] at hd
        exact h.note_put hR hdc hd

theorem finish (h : Implements note s a) (mode : μ) :
    Implements note (s.finish c mode)
      { a with call := Function.update a.call c none, mode := Function.update a.mode c mode } := by
  refine ⟨h.word, ?_, fun d => ?_, fun {d} op' out hd => ?_⟩
  · show Function.update a.mode c mode = Function.update s.mode c mode
    rw [h.mode]
  · unfold Multicore.finish
    by_cases hdc : d = c
    · subst hdc
      simp
    · simp [Function.update_of_ne hdc, h.running d]
  · by_cases hdc : d = c
    · subst hdc
      simp at hd
    · simp only [Function.update_of_ne hdc] at hd
      exact h.note hd

theorem lose (hR : R.Annotated spec note) (h : Implements note s a) :
    Implements note (s.lose c) a := by
  refine ⟨h.word, h.mode, h.running, fun {d} op out hd => ?_⟩
  unfold Multicore.lose Multicore.view
  by_cases hdc : d = c
  · subst hdc
    simp only [Function.update_self, Core.view, Bool.false_eq_true, if_false]
    exact (hR _).lose (h.note hd)
  · simp only [Function.update_of_ne hdc]
    exact h.note hd

/-- Every step of the machine is one of the object, or none. -/
theorem step (hR : R.Annotated spec note) (h : Implements note s a)
    (hs : MachineStep R client s e s') :
    ∃ fs a', Runs (AtomicStep spec client) a fs a' ∧
      fs.filterMap AtomicEvent.visible = e.visible.toList ∧
      Implements note s' a' := by
  cases hs with
  | @call c op hc hmay =>
    rw [← h.mode] at hmay
    exact ⟨[.call c op], _, .single (.call (h.call_eq_none hc) hmay), rfl, h.start hR op⟩
  | @ret c op r hc hpc hr =>
    obtain ⟨out, hcall⟩ := h.exists_call hc
    have hnote := h.note hcall
    rw [hpc] at hnote
    have hout := (hR op).finish hnote
    rw [hr] at hout
    subst hout
    rw [← h.mode]
    exact ⟨[.ret c _], _, .single (.ret hcall), rfl, h.finish _⟩
  | exec hc hi he => exact h.exec hR hc hi he
  | lose => exact ⟨[], a, .nil a, rfl, h.lose hR⟩

end Implements

/-- Every run of the machine is one of the atomic object, with the same calls and returns in the
same order. -/
def Linearizable (R : Routines w ο ρ) (spec : ο → BitVec w → BitVec w → ρ → Prop)
    (client : Client μ ο ρ)
    (word : BitVec w) (mode : μ) : Prop :=
  ∀ (es : List (MachineEvent C ο ρ)) (s : Multicore w C μ ο), Runs (MachineStep R client)
    (.init word mode) es s →
    ∃ fs a, Runs (AtomicStep spec client) (.init word mode) fs a ∧
      fs.filterMap AtomicEvent.visible = es.filterMap MachineEvent.visible ∧
      a.word = s.word ∧ a.mode = s.mode ∧ ∀ c, s.running c = (a.call c).map Prod.fst

/-- **Linearizability.**  Whatever the cores do, it is what they do with an atomic object. -/
theorem Routines.Annotated.linearizable (hR : R.Annotated spec note) (word : BitVec w) (mode : μ) :
    Linearizable (C := C) R spec client word mode := by
  intro es s h
  obtain ⟨fs, a, hfs, hvis, hrel⟩ :=
    h.simulate (fun _ _ _ _ hrel hs => hrel.step hR hs) (implements_init note word mode)
  exact ⟨fs, a, hfs, hvis, hrel.word, hrel.mode, hrel.running⟩

/-! ## Invariants -/

/-- What a core holds, counting a call that has taken effect. -/
def Atomic.held (client : Client μ ο ρ) (a : Atomic w C μ ο ρ) (c : C) : μ :=
  match a.call c with
  | some (op, some r) => client.after (a.mode c) op r
  | some (_, none) | none => a.mode c

/-- `I` holds of the word and of what the cores hold, and the calls under way were allowed. -/
structure Atomic.Keeps (client : Client μ ο ρ) (I : BitVec w → (C → μ) → Prop)
    (a : Atomic w C μ ο ρ) : Prop where
  inv : I a.word (a.held client)
  may {c : C} {op : ο} {out : Option ρ} : a.call c = some (op, out) → client.may (a.mode c) op

/-- Only where an operation takes effect does anything change. -/
theorem Atomic.Keeps.step {I : BitVec w → (C → μ) → Prop}
    (hI : ∀ v v' hold c op r, I v hold → client.may (hold c) op → spec op v v' r →
      I v' (Function.update hold c (client.after (hold c) op r)))
    {a a' : Atomic w C μ ο ρ} {e : AtomicEvent C ο ρ} (h : a.Keeps client I)
      (hs : AtomicStep spec client a e a') :
    a'.Keeps client I := by
  have hmay : ∀ {c d : C} {x : Option (ο × Option ρ)} {op : ο} {out : Option ρ},
      Function.update a.call c x d = some (op, out) →
        (d = c → x = some (op, out) → client.may (a.mode d) op) →
      client.may (a.mode d) op := by
    intro c d x op out hd hx
    by_cases hdc : d = c
    · subst hdc
      exact hx rfl (by simpa using hd)
    · rw [Function.update_of_ne hdc] at hd
      exact h.may hd
  cases hs with
  | @call c op hc hm =>
    refine ⟨?_, fun hd => hmay hd fun hdc hx => ?_⟩
    · refine (congrArg (I a.word) (funext fun d => ?_)).mp h.inv
      by_cases hdc : d = c
      · subst hdc
        simp [Atomic.held, hc]
      · simp [Atomic.held, Function.update_of_ne hdc]
    · cases hx
      rw [hdc]
      exact hm
  | @commit c op v r hc hspec =>
    have hheld : a.held client c = a.mode c := by simp [Atomic.held, hc]
    refine ⟨?_, fun hd => hmay hd fun hdc hx => ?_⟩
    · refine (congrArg (I v) (funext fun d => ?_)).mp
        (hI _ _ _ c op r h.inv (by rw [hheld]; exact h.may hc) hspec)
      by_cases hdc : d = c
      · subst hdc
        simp [Atomic.held, hc]
      · simp [Atomic.held, Function.update_of_ne hdc]
    · cases hx
      rw [hdc]
      exact h.may hc
  | @ret c op r hc =>
    refine ⟨?_, fun {d} op' out hd => ?_⟩
    · refine (congrArg (I a.word) (funext fun d => ?_)).mp h.inv
      by_cases hdc : d = c
      · subst hdc
        simp [Atomic.held, hc]
      · simp [Atomic.held, Function.update_of_ne hdc]
    · by_cases hdc : d = c
      · subst hdc
        simp at hd
      · simp only [Function.update_of_ne hdc] at hd ⊢
        exact h.may hd

/-- **Invariants.**  What the operations keep, done one after the other, holds in every run of the
machine, of the word and of what the cores hold; in a call that is what it was before or what it is
after the call. -/
theorem Linearizable.invariant (hlin : Linearizable (C := C) R spec client word mode)
    {I : BitVec w → (C → μ) → Prop} (hinit : I word fun _ => mode)
    (hI : ∀ v v' hold c op r, I v hold → client.may (hold c) op → spec op v v' r →
      I v' (Function.update hold c (client.after (hold c) op r)))
    {es : List (MachineEvent C ο ρ)} (h : Runs (MachineStep R client) (.init word mode) es s) :
    ∃ hold, I s.word hold ∧ (∀ c, s.running c = none → hold c = s.mode c) ∧
      ∀ c op, s.running c = some op →
        hold c = s.mode c ∨ ∃ r, hold c = client.after (s.mode c) op r := by
  obtain ⟨fs, a, hfs, -, hword, hmode, hrun⟩ := hlin es s h
  have hkeeps : a.Keeps client I :=
    hfs.invariant (fun _ _ _ hk hs => hk.step hI hs) ⟨hinit, fun hc => (by cases hc)⟩
  refine ⟨a.held client, hword ▸ hkeeps.inv, fun c hc => ?_, fun c op hc => ?_⟩
  · have hcall : a.call c = none := by
      have := hrun c
      rw [hc] at this
      exact Option.map_eq_none_iff.mp this.symm
    simp [Atomic.held, hcall, hmode]
  · obtain ⟨⟨op', out⟩, hcall, hop⟩ := Option.map_eq_some_iff.mp ((hrun c).symm.trans hc)
    obtain rfl : op' = op := hop
    unfold Atomic.held
    rw [hcall, hmode]
    cases out with
    | none => exact Or.inl rfl
    | some r => exact Or.inr ⟨r, rfl⟩

/-! ## Sums -/

section sums
variable [Fintype C] {delta : ο → BitVec w} {P : ο → Prop}

/-- What a call adds. -/
def History.added (delta : ο → BitVec w) : History C ο ρ → Option (BitVec w)
  | .call _ op => some (delta op)
  | .ret _ _ => none

/-- What a call has yet to add. -/
def pendingSum (delta : ο → BitVec w) : Option (ο × Option ρ) → BitVec w
  | some (op, none) => delta op
  | _ => 0

theorem sum_update {β : Type} {M : Type} [AddCommGroup M] (g : β → M) (f : C → β) (c : C) (x : β) :
    ∑ d, g (Function.update f c x d) = ∑ d, g (f d) - g (f c) + g x := by
  have h : (fun d => g (Function.update f c x d)) = Function.update (fun d => g (f d)) c (g x) :=
    funext fun d => Function.apply_update (fun _ => g) f c x d
  rw [h, Finset.sum_update_of_mem (Finset.mem_univ c), Finset.sdiff_singleton_eq_erase,
    ← Finset.add_sum_erase _ (fun d => g (f d)) (Finset.mem_univ c)]
  abel

/-- The word and what is pending make up what was there and what was added. -/
structure Balanced (delta : ο → BitVec w) (P : ο → Prop) (word : BitVec w)
    (fs : List (AtomicEvent C ο ρ))
    (a : Atomic w C μ ο ρ) : Prop where
  only {c : C} {op : ο} {out : Option ρ} : a.call c = some (op, out) → P op
  sum : a.word + ∑ c, pendingSum delta (a.call c) =
    word + ((fs.filterMap AtomicEvent.visible).filterMap (History.added delta)).sum

theorem Balanced.step (hmay : ∀ m op, client.may m op → P op)
    (hadd : ∀ op v v' r, P op → spec op v v' r → v' = v + delta op) {word : BitVec w}
    {fs : List (AtomicEvent C ο ρ)} {a a' : Atomic w C μ ο ρ} {e : AtomicEvent C ο ρ}
    (h : Balanced delta P word fs a) (hs : AtomicStep spec client a e a') :
    Balanced delta P word (fs ++ [e]) a' := by
  have hother : ∀ {c d : C} {x : Option (ο × Option ρ)} {op : ο} {out : Option ρ},
      Function.update a.call c x d = some (op, out) → (x = some (op, out) → P op) → P op := by
    intro c d x op out hd hx
    by_cases hdc : d = c
    · subst hdc
      exact hx (by simpa using hd)
    · rw [Function.update_of_ne hdc] at hd
      exact h.only hd
  have hsum := h.sum
  cases hs with
  | @call c op hc hm =>
    refine ⟨fun hd => hother hd fun hx => ?_, ?_⟩
    · cases hx
      exact hmay _ _ hm
    · have hcall : ([AtomicEvent.call c op].filterMap (AtomicEvent.visible (ρ := ρ))).filterMap
          (History.added delta) = [delta op] := rfl
      show a.word + ∑ d, pendingSum delta (Function.update a.call c (some (op, none)) d) = _
      rw [List.filterMap_append, List.filterMap_append, hcall, List.sum_append, List.sum_singleton,
        ← add_assoc, ← hsum, sum_update, hc]
      simp [pendingSum, add_assoc]
  | @commit c op v r hc hspec =>
    refine ⟨fun hd => hother hd fun hx => ?_, ?_⟩
    · cases hx
      exact h.only hc
    · have hnil : [AtomicEvent.commit c op r].filterMap AtomicEvent.visible = [] := rfl
      show v + ∑ d, pendingSum delta (Function.update a.call c (some (op, some r)) d) = _
      rw [List.filterMap_append, hnil, List.append_nil, ← hsum, sum_update, hc,
        hadd op _ _ _ (h.only hc) hspec]
      simp [pendingSum]
  | @ret c op r hc =>
    refine ⟨fun hd => hother hd fun hx => (by cases hx), ?_⟩
    have hret : ([AtomicEvent.ret c r].filterMap AtomicEvent.visible).filterMap
        (History.added delta) = [] := rfl
    show a.word + ∑ d, pendingSum delta (Function.update a.call c none d) = _
    rw [List.filterMap_append, List.filterMap_append, hret, List.append_nil, ← hsum, sum_update, hc]
    simp [pendingSum]

/-- **No update is lost**: with all cores idle again, the word is what it was and all that was
added. -/
theorem Linearizable.sum (hlin : Linearizable (C := C) R spec client word mode)
    (hmay : ∀ m op, client.may m op → P op)
    (hadd : ∀ op v v' r, P op → spec op v v' r → v' = v + delta op) {es : List (MachineEvent C ο ρ)}
    (h : Runs (MachineStep R client) (.init word mode) es s) (hidle : ∀ c, s.running c = none) :
    s.word = word + ((es.filterMap MachineEvent.visible).filterMap (History.added delta)).sum := by
  obtain ⟨fs, a, hfs, hvis, hword, -, hrun⟩ := hlin es s h
  have hinit : Balanced delta P word [] (.init word mode : Atomic w C μ ο ρ) := by
    refine ⟨fun hc => (by cases hc), ?_⟩
    simp [Atomic.init, pendingSum]
  have hbal : Balanced delta P word fs a :=
    hfs.trace (fun _ _ _ _ hb hs => hb.step hmay hadd hs) hinit
  have hnone : ∀ c, a.call c = none := fun c => by
    have := hrun c
    rw [hidle c] at this
    exact Option.map_eq_none_iff.mp this.symm
  have hsum := hbal.sum
  simp only [hnone, pendingSum, Finset.sum_const_zero, add_zero, hvis, hword] at hsum
  exact hsum

end sums

end LowLevel
