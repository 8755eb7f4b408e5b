import Mathlib.Algebra.Group.Nat.Defs
import ZHyper.Lib.Faulting
import ZHyper.Lib.Ring

/-!
# `list.h`: the intrusive lists of the hypervisor

The `struct list_head`s of the program, by address.  Every access the macros and
functions of `list.h` make is one access here, in the same order; reading or
writing through `NULL` is a fault (`none`).

The functions on a ring of non-`NULL` nodes: `list_add` puts a node in front,
`list_add_tail` at the end, `list_del` takes one out, and each changes nodes of
that ring only.  `list_del` on a node whose links are `NULL` faults.
-/

namespace ZHyper

open LowLevel

/-- The `struct list_head` at every address. -/
abbrev Links := Nat → Node Nat

def loadPrev (p : Nat) (L : Links) : Option Nat := if p = 0 then none else some (L p).prev

def loadNext (p : Nat) (L : Links) : Option Nat := if p = 0 then none else some (L p).next

def storePrev (p v : Nat) (L : Links) : Option Links := if p = 0 then none else some (setPrev L p v)

def storeNext (p v : Nat) (L : Links) : Option Links := if p = 0 then none else some (setNext L p v)

def listInit (list : Nat) (L : Links) : Option Links := do
  let L ← storeNext list list L
  storePrev list list L

/-- `__list_add` -/
def listAddBetween (node prev next : Nat) (L : Links) : Option Links := do
  let L ← storePrev next node L
  let L ← storeNext node next L
  let L ← storePrev node prev L
  storeNext prev node L

def listAdd (node head : Nat) (L : Links) : Option Links := do
  let next ← loadNext head L
  listAddBetween node head next L

def listAddTail (node head : Nat) (L : Links) : Option Links := do
  let prev ← loadPrev head L
  listAddBetween node prev head L

/-- `__list_del` -/
def listDelBetween (prev next : Nat) (L : Links) : Option Links := do
  let L ← storePrev next prev L
  storeNext prev next L

def listDel (node : Nat) (L : Links) : Option Links := do
  let prev ← loadPrev node L
  let next ← loadNext node L
  let L ← listDelBetween prev next L
  let L ← storeNext node 0 L
  storePrev node 0 L

/-- `(type *)((char *)ptr - offset)` -/
def listEntry (ptr offset : Nat) : Nat := (ptr + 2 ^ 64 - offset) % 2 ^ 64

/-- `list_for_each_safe(pos, n, head)` from where `pos` and `n` are loaded: the successor of `pos`
is read before the body runs, and the one after it only then.  A walk that has not come back
to `head` after `fuel` rounds stops with `endless`. -/
def listForEachSafe {φ σ : Type} (next : Nat → EStateM φ σ Nat) (endless : φ) (head : Nat)
    (body : Nat → EStateM φ σ Unit) : Nat → Nat → Nat → EStateM φ σ Unit
  | 0, _, _ => throw endless
  | fuel + 1, pos, n =>
    if pos = head then pure ()
    else do
      body pos
      let after ← next n
      listForEachSafe next endless head body fuel n after

/-- A node in a list: its links are not `NULL` and its neighbours point back at it. -/
def LinkedAt (L : Links) (n : Nat) : Prop :=
  (L n).prev ≠ 0 ∧ (L n).next ≠ 0 ∧ (L (L n).prev).next = n ∧ (L (L n).next).prev = n

instance (L : Links) (n : Nat) : Decidable (LinkedAt L n) := inferInstanceAs (Decidable (_ ∧ _))

variable {L : Links} {a h n p q x : Nat} {l l₁ l₂ : List Nat}

theorem listInit_eq (hx : x ≠ 0) : listInit x L = some (setPrev (setNext L x x) x x) := by
  simp [listInit, storeNext, storePrev, hx]

theorem listAddBetween_eq (ha : a ≠ 0) (hp : p ≠ 0) (hq : q ≠ 0) :
    listAddBetween a p q L = some (linkBetween L a p q) := by
  simp [listAddBetween, storeNext, storePrev, linkBetween, ha, hp, hq]

theorem listDel_eq (ha : a ≠ 0) (hp : (L a).prev = p) (hq : (L a).next = q) (hp0 : p ≠ 0)
    (hq0 : q ≠ 0) :
    listDel a L = some (unlinkBetween L a p q 0) := by
  simp [listDel, loadPrev, loadNext, listDelBetween, storeNext, storePrev, unlinkBetween, ha, hp,
    hq, hp0, hq0]

/-- **`list_del` of an unlinked node faults.** -/
theorem listDel_null (hq : (L a).next = 0) : listDel a L = none := by
  by_cases ha : a = 0
  · simp [listDel, loadPrev, ha]
  · simp [listDel, loadPrev, loadNext, listDelBetween, storePrev, ha, hq]

/-- A walk that comes to its end does so with every larger bound. -/
theorem listForEachSafe_mono {φ σ : Type} {next : Nat → EStateM φ σ Nat} {endless : φ} {head : Nat}
    {body : Nat → EStateM φ σ Unit} {s s' : σ} {fuel fuel' pos : Nat} (hf : fuel ≤ fuel')
    (h : listForEachSafe next endless head body fuel pos n s = .ok () s') :
    listForEachSafe next endless head body fuel' pos n s = .ok () s' := by
  induction fuel generalizing fuel' pos n s with
  | zero => cases h
  | succ fuel ih =>
    obtain ⟨k, rfl⟩ : ∃ k, fuel' = k + 1 := ⟨fuel' - 1, by omega⟩
    rw [listForEachSafe] at h ⊢
    split at h
    · next hpos => rwa [if_pos hpos]
    · next hpos =>
      rw [if_neg hpos]
      obtain ⟨_, s₁, hbody, h⟩ := bind_ok_iff.mp h
      obtain ⟨after, s₂, hnext, h⟩ := bind_ok_iff.mp h
      rw [bind_run hbody, bind_run hnext]
      exact ih (by omega) h

/-- What the body and the read of a link keep, the walk keeps. -/
theorem listForEachSafe_keeps {φ σ : Type} {next : Nat → EStateM φ σ Nat} {endless : φ} {head : Nat}
    {body : Nat → EStateM φ σ Unit} {P : σ → Prop} (hnext : ∀ p, Keeps P (next p))
    (hbody : ∀ p, Keeps P (body p)) (fuel pos n : Nat) :
    Keeps P (listForEachSafe next endless head body fuel pos n) := by
  induction fuel generalizing pos n with
  | zero => exact .throw endless
  | succ fuel ih =>
    rw [listForEachSafe]
    exact .ite (.pure ()) (.bind (hbody pos) fun _ => .bind (hnext n) fun after => ih n after)

/-! ## On rings -/

/-- The nodes of a ring are linked. -/
theorem ring_linkedAt (hr : NodeRing L h l) (hz : ∀ x ∈ h :: l, x ≠ 0) (hx : x ∈ h :: l) :
    LinkedAt L x := by
  obtain ⟨⟨hnext, hadj⟩, hprev, hadj'⟩ := hr.linked hx
  exact ⟨hz _ hprev, hz _ hnext, hadj'.1, hadj.2⟩

theorem listAdd_ring (hr : NodeRing L h l) (hz : ∀ x ∈ h :: l, x ≠ 0) (ha : a ≠ 0)
    (hn : a ∉ h :: l) :
    ∃ L', listAdd a h L = some L' ∧ NodeRing L' h (a :: l) ∧ ∀ x, x ∉ a :: h :: l → L' x = L x := by
  obtain ⟨⟨hnext, -⟩, -⟩ := hr.neighbours
  refine ⟨linkBetween L a h (L h).next, ?_, hr.insert rfl hn, ?_⟩
  · rw [listAdd, loadNext, if_neg (hz h List.mem_cons_self)]
    exact listAddBetween_eq ha (hz h List.mem_cons_self) (hz _ hnext)
  · intro x hx
    apply linkBetween_of_ne
    · rintro rfl
      exact hx (by simp)
    · rintro rfl
      exact hx (List.mem_cons_of_mem _ hnext)
    · rintro rfl
      exact hx List.mem_cons_self

/-- **`list_add` of a node that is on the list leaves no list.** -/
theorem listAdd_relink (hr : NodeRing L h (l₁ ++ a :: l₂))
    (hz : ∀ x ∈ h :: (l₁ ++ a :: l₂), x ≠ 0) :
    ∃ L', listAdd a h L = some L' ∧ ∀ l', ¬ NodeRing L' h l' := by
  obtain ⟨⟨hnext, -⟩, -⟩ := hr.neighbours
  refine ⟨linkBetween L a h (L h).next, ?_, fun l' => hr.relink⟩
  rw [listAdd, loadNext, if_neg (hz h List.mem_cons_self)]
  exact listAddBetween_eq (hz a (by simp)) (hz h List.mem_cons_self) (hz _ hnext)

theorem listAddTail_ring (hr : NodeRing L h l) (hz : ∀ x ∈ h :: l, x ≠ 0) (ha : a ≠ 0)
    (hn : a ∉ h :: l) :
    ∃ L', listAddTail a h L = some L' ∧ NodeRing L' h (l ++ [a]) ∧
      ∀ x, x ∉ a :: h :: l → L' x = L x := by
  obtain ⟨-, hprev, -⟩ := hr.neighbours
  refine ⟨linkBetween L a (L h).prev h, ?_, hr.snoc rfl hn, ?_⟩
  · rw [listAddTail, loadPrev, if_neg (hz h List.mem_cons_self)]
    exact listAddBetween_eq ha (hz _ hprev) (hz h List.mem_cons_self)
  · intro x hx
    apply linkBetween_of_ne
    · rintro rfl
      exact hx (List.mem_cons_of_mem _ hprev)
    · rintro rfl
      exact hx (by simp)
    · rintro rfl
      exact hx List.mem_cons_self

theorem listDel_ring (hr : NodeRing L h (l₁ ++ a :: l₂)) (hz : ∀ x ∈ h :: (l₁ ++ a :: l₂), x ≠ 0) :
    ∃ L', listDel a L = some L' ∧ NodeRing L' h (l₁ ++ l₂) ∧ L' a = ⟨0, 0⟩ ∧
      ∀ x, x ∉ h :: (l₁ ++ a :: l₂) → L' x = L x := by
  have ha : a ∈ h :: (l₁ ++ a :: l₂) := by simp
  obtain ⟨⟨hnext, -⟩, hprev, -⟩ := hr.linked ha
  refine ⟨unlinkBetween L a (L a).prev (L a).next 0, ?_, hr.erase rfl rfl, unlinkBetween_self, ?_⟩
  · exact listDel_eq (hz a ha) rfl rfl (hz _ hprev) (hz _ hnext)
  · intro x hx
    apply unlinkBetween_of_ne
    · rintro rfl
      exact hx hprev
    · rintro rfl
      exact hx hnext
    · rintro rfl
      exact hx ha

/-- `list_del` on a ring some fields of which, but none of this node's, are still to be stored. -/
theorem listDel_ringBut {ps ns : List Nat} (hr : RingBut ps ns L h (l₁ ++ a :: l₂))
    (hz : ∀ x ∈ h :: (l₁ ++ a :: l₂), x ≠ 0) (hp : a ∉ ps) (hn : a ∉ ns) :
    ∃ L', listDel a L = some L' ∧ RingBut ps ns L' h (l₁ ++ l₂) := by
  obtain ⟨⟨hprev, hnext⟩, hr'⟩ := hr.erase hp hn
  exact ⟨_, listDel_eq (hz a (by simp)) rfl rfl (hz _ hprev) (hz _ hnext), hr'⟩

theorem listInit_ring (hx : x ≠ 0) :
    ∃ L', listInit x L = some L' ∧ NodeRing L' x [] ∧ ∀ y, y ≠ x → L' y = L y := by
  refine ⟨_, listInit_eq hx, ⟨List.nodup_singleton x, ?_⟩, ?_⟩
  · rw [List.nil_append, List.isChain_pair]
    constructor
    · simp
    · simp
  · intro y hy
    rw [setPrev_of_ne hy, setNext_of_ne hy]

end ZHyper
