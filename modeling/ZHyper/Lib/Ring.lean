import Mathlib.Data.List.Chain
import Mathlib.Data.List.Nodup
import Mathlib.Logic.Function.Basic

/-!
# Circular doubly linked lists

A memory of nodes gives every address the node it finds there.  `NodeRing N h l`: from
the head `h` the `next` pointers lead through `l` and back to `h`, the `prev`
pointers the other way round, and no node is met twice.

A ring may be entered anywhere (`NodeRing.rotate`), so one lemma is enough for linking
a node in (`NodeRing.insert`, behind the node the ring is entered at) and one for
taking a node out (`NodeRing.remove`, the node it is entered at); `NodeRing.snoc` and
`NodeRing.erase` are these seen from the head.

`RingBut` is a ring some fields of which are still to be stored: a node whose own
fields are there can be taken out of it.
-/

namespace LowLevel

structure Node (α : Type) where
  prev : α
  next : α
deriving DecidableEq

variable {α : Type} {N N' : α → Node α} {a b h p q x y : α} {l l₁ l₂ : List α}

/-- `b` follows `a`, and each knows of the other. -/
def Adj (N : α → Node α) (a b : α) : Prop := (N a).next = b ∧ (N b).prev = a

structure NodeRing (N : α → Node α) (h : α) (l : List α) : Prop where
  nodup : (h :: l).Nodup
  chain : (h :: (l ++ [h])).IsChain (Adj N)

/-! ## Segments -/

/-- A chain depends on the `next` of all its nodes but the last and the `prev` of all but the
first. -/
theorem chain_congr (hc : (x :: (l ++ [y])).IsChain (Adj N))
    (hnext : ∀ z ∈ x :: l, (N' z).next = (N z).next)
    (hprev : ∀ z ∈ l ++ [y], (N' z).prev = (N z).prev) : (x :: (l ++ [y])).IsChain (Adj N') := by
  induction l generalizing x with
  | nil =>
    rw [List.nil_append, List.isChain_pair] at hc ⊢
    exact ⟨(hnext x List.mem_cons_self).trans hc.1, (hprev y List.mem_cons_self).trans hc.2⟩
  | cons z l ih =>
    rw [List.cons_append, List.isChain_cons_cons] at hc ⊢
    refine ⟨⟨(hnext x List.mem_cons_self).trans hc.1.1, (hprev z List.mem_cons_self).trans hc.1.2⟩,
      ?_⟩
    exact ih hc.2 (fun w hw => hnext w (List.mem_cons_of_mem _ hw))
      fun w hw => hprev w (List.mem_cons_of_mem _ hw)

/-- From a node on, the `next` pointers determine the way to `y`. -/
theorem chain_unique (hc : (x :: (l₁ ++ [y])).IsChain (Adj N))
    (hc' : (x :: (l₂ ++ [y])).IsChain (Adj N))
    (hy : y ∉ l₁) (hy' : y ∉ l₂) : l₁ = l₂ := by
  induction l₁ generalizing x l₂ with
  | nil =>
    cases l₂ with
    | nil => rfl
    | cons b l₂ =>
      rw [List.nil_append, List.isChain_pair] at hc
      rw [List.cons_append, List.isChain_cons_cons] at hc'
      exact absurd (hc.1.symm.trans hc'.1.1) fun e => hy' (e ▸ List.mem_cons_self)
  | cons a l₁ ih =>
    rw [List.cons_append, List.isChain_cons_cons] at hc
    cases l₂ with
    | nil =>
      rw [List.nil_append, List.isChain_pair] at hc'
      exact absurd (hc'.1.symm.trans hc.1.1) fun e => hy (e ▸ List.mem_cons_self)
    | cons b l₂ =>
      rw [List.cons_append, List.isChain_cons_cons] at hc'
      have hab : a = b := hc.1.1.symm.trans hc'.1.1
      subst hab
      rw [List.mem_cons, not_or] at hy hy'
      rw [ih hc.2 hc'.2 hy.2 hy'.2]

namespace NodeRing

/-- The links determine the ring of a head. -/
theorem unique (hr : NodeRing N h l₁) (hr' : NodeRing N h l₂) : l₁ = l₂ :=
  chain_unique hr.chain hr'.chain (List.nodup_cons.mp hr.nodup).1 (List.nodup_cons.mp hr'.nodup).1

theorem congr (hr : NodeRing N h l) (hN : ∀ x ∈ h :: l, N' x = N x) : NodeRing N' h l := by
  refine ⟨hr.nodup, chain_congr hr.chain (fun z hz => by rw [hN z hz]) ?_⟩
  intro z hz
  rw [hN z]
  rcases List.mem_append.mp hz with hz | hz
  · exact List.mem_cons_of_mem _ hz
  · rw [List.mem_singleton.mp hz]
    exact List.mem_cons_self

/-- A ring may be entered at any of its nodes. -/
theorem rotate (hr : NodeRing N h (l₁ ++ y :: l₂)) : NodeRing N y (l₂ ++ h :: l₁) := by
  have hperm : (y :: (l₂ ++ h :: l₁)).Perm (h :: (l₁ ++ y :: l₂)) := by
    have hcomm : (y :: l₂ ++ h :: l₁).Perm (h :: l₁ ++ y :: l₂) := List.perm_append_comm
    simpa only [List.cons_append] using hcomm
  refine ⟨hperm.nodup_iff.mpr hr.nodup, ?_⟩
  have hc := hr.chain
  rw [List.append_assoc, List.cons_append, List.isChain_cons_split] at hc
  rw [List.append_assoc, List.cons_append, List.isChain_cons_split]
  exact ⟨hc.2, hc.1⟩

theorem adj_nil (hr : NodeRing N h []) : Adj N h h := by
  have hc := hr.chain
  rwa [List.nil_append, List.isChain_pair] at hc

theorem adj_cons (hr : NodeRing N h (q :: l)) : Adj N h q := by
  have hc := hr.chain
  rw [List.cons_append, List.isChain_cons_cons] at hc
  exact hc.1

theorem adj_concat (hr : NodeRing N h (l ++ [p])) : Adj N p h := by
  have hc := hr.chain
  rw [List.append_assoc, List.singleton_append, List.isChain_cons_append_cons_cons] at hc
  exact hc.2.1

/-- The neighbours of the node a ring is entered at. -/
theorem neighbours (hr : NodeRing N h l) :
    ((N h).next ∈ h :: l ∧ Adj N h (N h).next) ∧ (N h).prev ∈ h :: l ∧ Adj N (N h).prev h := by
  constructor
  · cases l with
    | nil =>
      have hadj := hr.adj_nil
      rw [hadj.1]
      exact ⟨List.mem_cons_self, hadj⟩
    | cons q l =>
      have hadj := hr.adj_cons
      rw [hadj.1]
      exact ⟨by simp, hadj⟩
  · rcases List.eq_nil_or_concat l with rfl | ⟨l, p, rfl⟩
    · have hadj := hr.adj_nil
      rw [hadj.2]
      exact ⟨List.mem_cons_self, hadj⟩
    · rw [List.concat_eq_append] at hr ⊢
      have hadj := hr.adj_concat
      rw [hadj.2]
      exact ⟨by simp, hadj⟩

/-- Every node of a ring has its neighbours in the ring. -/
theorem linked (hr : NodeRing N h l) (hx : x ∈ h :: l) :
    ((N x).next ∈ h :: l ∧ Adj N x (N x).next) ∧ (N x).prev ∈ h :: l ∧ Adj N (N x).prev x := by
  rcases List.mem_cons.mp hx with rfl | hx
  · exact hr.neighbours
  · obtain ⟨l₁, l₂, rfl⟩ := List.append_of_mem hx
    have hmem : ∀ y, y ∈ x :: (l₂ ++ h :: l₁) → y ∈ h :: (l₁ ++ x :: l₂) := by
      intro y hy
      simp only [List.mem_cons, List.mem_append] at hy ⊢
      tauto
    obtain ⟨⟨h1, h2⟩, h3, h4⟩ := hr.rotate.neighbours
    exact ⟨⟨hmem _ h1, h2⟩, hmem _ h3, h4⟩

/-- A set of nodes that is closed under `next` along a chain holds all of it. -/
theorem chain_mem {S : α → Prop} (hc : (x :: l).IsChain (Adj N)) (hx : S x)
    (hS : ∀ y ∈ x :: l, S y → S (N y).next) : ∀ y ∈ x :: l, S y := by
  induction l generalizing x with
  | nil =>
    intro y hy
    rwa [List.mem_singleton.mp hy]
  | cons z l ih =>
    rw [List.isChain_cons_cons] at hc
    have hz : S z := by
      have := hS x List.mem_cons_self hx
      rwa [hc.1.1] at this
    intro y hy
    rcases List.mem_cons.mp hy with rfl | hy
    · exact hx
    · exact ih hc.2 hz (fun y hy => hS y (List.mem_cons_of_mem _ hy)) y hy

end NodeRing

/-! ## Stores -/

variable [DecidableEq α]

def setPrev (N : α → Node α) (p v : α) : α → Node α := Function.update N p { N p with prev := v }

def setNext (N : α → Node α) (p v : α) : α → Node α := Function.update N p { N p with next := v }

@[simp] theorem setPrev_prev (p v x : α) : (setPrev N p v x).prev = if x = p then v
    else (N x).prev := by
  unfold setPrev
  by_cases hx : x = p
  · subst hx
    simp
  · simp [hx]

@[simp] theorem setPrev_next (p v x : α) : (setPrev N p v x).next = (N x).next := by
  unfold setPrev
  by_cases hx : x = p
  · subst hx
    simp
  · simp [hx]

@[simp] theorem setNext_next (p v x : α) : (setNext N p v x).next = if x = p then v
    else (N x).next := by
  unfold setNext
  by_cases hx : x = p
  · subst hx
    simp
  · simp [hx]

@[simp] theorem setNext_prev (p v x : α) : (setNext N p v x).prev = (N x).prev := by
  unfold setNext
  by_cases hx : x = p
  · subst hx
    simp
  · simp [hx]

theorem setPrev_of_ne {v : α} (hx : x ≠ p) : setPrev N p v x = N x := Function.update_of_ne hx _ _

theorem setNext_of_ne {v : α} (hx : x ≠ p) : setNext N p v x = N x := Function.update_of_ne hx _ _

/-- The four stores that link `a` between `p` and `q`. -/
def linkBetween (N : α → Node α) (a p q : α) : α → Node α :=
  setNext (setPrev (setNext (setPrev N q a) a q) a p) p a

/-- The stores that join the neighbours `p` and `q` of `a`, and the two that mark `a`. -/
def unlinkBetween (N : α → Node α) (a p q nil : α) : α → Node α :=
  setPrev (setNext (setNext (setPrev N q p) p q) a nil) a nil

theorem linkBetween_of_ne (hp : x ≠ p) (hq : x ≠ q) (ha : x ≠ a) : linkBetween N a p q x = N x := by
  unfold linkBetween
  rw [setNext_of_ne hp, setPrev_of_ne ha, setNext_of_ne ha, setPrev_of_ne hq]

theorem unlinkBetween_of_ne {nil : α} (hp : x ≠ p) (hq : x ≠ q) (ha : x ≠ a) :
    unlinkBetween N a p q nil x = N x := by
  unfold unlinkBetween
  rw [setPrev_of_ne ha, setNext_of_ne ha, setNext_of_ne hp, setPrev_of_ne hq]

theorem unlinkBetween_self {nil : α} : unlinkBetween N a p q nil a = ⟨nil, nil⟩ := by
  have h1 : (unlinkBetween N a p q nil a).prev = nil := by simp [unlinkBetween]
  have h2 : (unlinkBetween N a p q nil a).next = nil := by simp [unlinkBetween]
  calc unlinkBetween N a p q nil a
      = ⟨(unlinkBetween N a p q nil a).prev, (unlinkBetween N a p q nil a).next⟩ := rfl
    _ = ⟨nil, nil⟩ := by rw [h1, h2]

/-! ## Linking in and taking out -/

namespace NodeRing

/-- **Linking in**, behind the node the ring is entered at. -/
theorem insert (hr : NodeRing N p l) (hn : (N p).next = q) (ha : a ∉ p :: l) :
    NodeRing (linkBetween N a p q) p (a :: l) := by
  have hap : a ≠ p := fun e => ha (e ▸ List.mem_cons_self)
  have hnd : (p :: a :: l).Nodup := by
    rw [List.nodup_cons, List.nodup_cons, List.mem_cons, not_or]
    obtain ⟨h1, h2⟩ := List.nodup_cons.mp hr.nodup
    exact ⟨⟨Ne.symm hap, h1⟩, fun h => ha (List.mem_cons_of_mem _ h), h2⟩
  refine ⟨hnd, ?_⟩
  have hpa : Adj (linkBetween N a p q) p a := by
    constructor
    · simp [linkBetween]
    · simp [linkBetween]
  rw [List.cons_append, List.isChain_cons_cons]
  refine ⟨hpa, ?_⟩
  cases l with
  | nil =>
    have hq : q = p := hn.symm.trans hr.adj_nil.1
    subst hq
    rw [List.nil_append, List.isChain_pair]
    constructor
    · simp [linkBetween, hap]
    · simp [linkBetween, Ne.symm hap]
  | cons r l =>
    have hq : q = r := hn.symm.trans hr.adj_cons.1
    subst hq
    have hc := hr.chain
    rw [List.cons_append, List.isChain_cons_cons] at hc ⊢
    obtain ⟨hpl, hql⟩ := List.nodup_cons.mp hr.nodup
    have hqa : q ≠ a := fun e => ha (by simp [e])
    refine ⟨?_, chain_congr hc.2 ?_ ?_⟩
    · constructor
      · simp [linkBetween, hap]
      · simp [linkBetween, hqa]
    · intro z hz
      -- the nodes behind `q` keep their `next`
      have hzp : z ≠ p := fun e => hpl (e ▸ hz)
      have hza : z ≠ a := fun e => ha (e ▸ List.mem_cons_of_mem _ hz)
      simp [linkBetween, hzp, hza]
    · intro z hz
      have hzq : z ≠ q := by
        rintro rfl
        rcases List.mem_append.mp hz with hz | hz
        · exact (List.nodup_cons.mp hql).1 hz
        · exact hpl (List.mem_singleton.mp hz ▸ List.mem_cons_self)
      have hza : z ≠ a := by
        rintro rfl
        rcases List.mem_append.mp hz with hz | hz
        · exact ha (by simp [hz])
        · exact hap (List.mem_singleton.mp hz)
      simp [linkBetween, hzq, hza]

/-- **Linking in a node that is already on the ring breaks it.** -/
theorem relink (hr : NodeRing N h (l₁ ++ a :: l₂)) {l' : List α} :
    ¬ NodeRing (linkBetween N a h (N h).next) h l' := by
  intro hr'
  have hnd := hr.nodup
  have hah : a ≠ h := by
    rintro rfl
    simp at hnd
  have hnext : (linkBetween N a h (N h).next a).next = (N h).next := by simp [linkBetween, hah]
  have hprev : (linkBetween N a h (N h).next a).prev = h := by simp [linkBetween]
  have hmem : a ∈ h :: l' := by
    have := (hr'.linked (x := h) List.mem_cons_self).1.1
    simpa [linkBetween] using this
  -- whichever node of the ring points at `a` is its predecessor, that is `h`
  have hpred : ∀ p ∈ h :: l', (linkBetween N a h (N h).next p).next = a → p = h := by
    intro p hp hpa
    have hadj := (hr'.linked hp).1.2
    rw [hpa] at hadj
    exact hadj.2.symm.trans hprev
  rcases List.eq_nil_or_concat l₁ with rfl | ⟨s, p, rfl⟩
  · refine hah (hpred a hmem ?_)
    rw [hnext]
    exact hr.adj_cons.1
  · rw [List.concat_eq_append] at hr hnd
    have hpa : (N p).next = a := by
      have hrot := hr.rotate
      rw [← List.singleton_append, ← List.append_assoc, ← List.append_assoc] at hrot
      exact hrot.adj_concat.1
    have hne : ∀ y ∈ s ++ [p], y ≠ h ∧ y ≠ a := by
      intro y hy
      obtain ⟨hh, hl⟩ := List.nodup_cons.mp hnd
      constructor
      · rintro rfl
        exact hh (List.mem_append_left _ hy)
      · rintro rfl
        exact (List.nodup_append.mp hl).2.2 _ hy _ List.mem_cons_self rfl
    have hsame : ∀ y ∈ s ++ [p], (linkBetween N a h (N h).next y).next = (N y).next := by
      intro y hy
      simp [linkBetween, (hne y hy).1, (hne y hy).2]
    have hp : p ∈ s ++ [p] := by simp
    have hin : ∀ y ∈ s ++ [p], y ∈ h :: l' := by
      obtain ⟨q, r, hqr⟩ :=
        List.exists_cons_of_ne_nil (List.append_ne_nil_of_right_ne_nil s (List.cons_ne_nil p []))
      rw [hqr] at hr hsame ⊢
      have hq : q ∈ h :: l' := by
        have := (hr'.linked hmem).1.1
        rwa [hnext, hr.adj_cons.1] at this
      apply chain_mem hr.chain.tail.left_of_append.left_of_append hq
      intro y hy hS
      rw [← hsame y hy]
      exact (hr'.linked hS).1.1
    exact (hne p hp).1 (hpred p (hin p hp) ((hsame p hp).trans hpa))

/-- **Taking out** the node the ring is entered at. -/
theorem remove {nil : α} (hr : NodeRing N a (h :: l)) (hp : (N a).prev = p) (hq : (N a).next = q) :
    NodeRing (unlinkBetween N a p q nil) h l := by
  obtain ⟨hal, hnd⟩ := List.nodup_cons.mp hr.nodup
  refine ⟨hnd, ?_⟩
  have hqh : q = h := hq.symm.trans hr.adj_cons.1
  subst hqh
  have hqa : q ≠ a := fun e => hal (e ▸ List.mem_cons_self)
  rcases List.eq_nil_or_concat l with rfl | ⟨l, r, rfl⟩
  · have hpq : p = q := hp.symm.trans (adj_concat (l := []) hr).2
    subst hpq
    rw [List.nil_append, List.isChain_pair]
    constructor
    · simp [unlinkBetween, hqa]
    · simp [unlinkBetween, hqa]
  · rw [List.concat_eq_append] at hr hal hnd ⊢
    have hpr : p = r := hp.symm.trans (adj_concat (l := q :: l) hr).2
    subst hpr
    have hpa : p ≠ a := fun e => hal (by simp [e])
    have hc := hr.chain
    rw [List.cons_append, List.isChain_cons_cons] at hc
    have hc := hc.2
    rw [List.append_assoc, List.singleton_append, List.isChain_cons_append_cons_cons] at hc ⊢
    refine ⟨chain_congr hc.1 ?_ ?_, ?_, List.isChain_singleton _⟩
    · intro z hz
      have hza : z ≠ a := by
        rintro rfl
        exact hal (by simp at hz ⊢; tauto)
      have hzp : z ≠ p := by
        rintro rfl
        rw [← List.cons_append] at hnd
        exact (List.nodup_append.mp hnd).2.2 z hz z (List.mem_singleton_self _) rfl
      simp [unlinkBetween, hza, hzp]
    · intro z hz
      have hza : z ≠ a := by
        rintro rfl
        exact hal (List.mem_cons_of_mem _ hz)
      have hzq : z ≠ q := by
        rintro rfl
        exact (List.nodup_cons.mp hnd).1 hz
      simp [unlinkBetween, hza, hzq]
    · constructor
      · simp [unlinkBetween, hpa]
      · simp [unlinkBetween, hqa]

/-- Linking in before the head. -/
theorem snoc (hr : NodeRing N h l) (hp : (N h).prev = p) (ha : a ∉ h :: l) :
    NodeRing (linkBetween N a p h) h (l ++ [a]) := by
  rcases List.eq_nil_or_concat l with rfl | ⟨l, r, rfl⟩
  · have hph : p = h := hp.symm.trans hr.adj_nil.2
    subst hph
    exact hr.insert hr.adj_nil.1 ha
  · rw [List.concat_eq_append] at hr ha ⊢
    have hpr : p = r := hp.symm.trans hr.adj_concat.2
    subst hpr
    -- enter the ring at the last node, where the insertion takes place
    have hrot : NodeRing N p ([] ++ h :: l) := hr.rotate
    rw [List.nil_append] at hrot
    have hins : NodeRing (linkBetween N a p h) p ([a] ++ h :: l) := by
      refine hrot.insert hrot.adj_cons.1 fun hm => ha ?_
      simp only [List.mem_cons, List.mem_append] at hm ⊢
      tauto
    have hback := hins.rotate
    rwa [List.append_assoc]

/-- Taking out a node that is not the head. -/
theorem erase {nil : α} (hr : NodeRing N h (l₁ ++ a :: l₂)) (hp : (N a).prev = p)
    (hq : (N a).next = q) :
    NodeRing (unlinkBetween N a p q nil) h (l₁ ++ l₂) := by
  have hrot := hr.rotate
  cases l₂ with
  | nil =>
    rw [List.append_nil]
    exact remove hrot hp hq
  | cons b l₂ =>
    have hrem : NodeRing (unlinkBetween N a p q nil) b (l₂ ++ h :: l₁) := remove hrot hp hq
    exact hrem.rotate

end NodeRing

/-! ## Rings with fields still to be stored -/

/-- The links are those of a ring, but for the `prev` of the nodes `ps` and the `next` of the nodes
`ns`. -/
def RingBut (ps ns : List α) (N : α → Node α) (h : α) (l : List α) : Prop :=
  ∃ C, NodeRing C h l ∧ ∀ x ∈ h :: l, (x ∈ ps ∨ (N x).prev = (C x).prev) ∧
    (x ∈ ns ∨ (N x).next = (C x).next)

namespace RingBut

variable {ps ns : List α} {v : α}

omit [DecidableEq α] in
theorem of_ring (hr : NodeRing N h l) : RingBut ps ns N h l :=
  ⟨N, hr, fun _ _ => ⟨.inr rfl, .inr rfl⟩⟩

omit [DecidableEq α] in
/-- Nothing is left to be stored. -/
theorem ring (hr : RingBut [] [] N h l) : NodeRing N h l := by
  obtain ⟨C, hC, hN⟩ := hr
  apply hC.congr
  intro x hx
  obtain ⟨hp, hn⟩ := hN x hx
  have hprev : (N x).prev = (C x).prev := by simpa using hp
  have hnext : (N x).next = (C x).next := by simpa using hn
  calc N x = ⟨(N x).prev, (N x).next⟩ := rfl
    _ = C x := by rw [hprev, hnext]

omit [DecidableEq α] in
theorem congr (hr : RingBut ps ns N h l) (hN : ∀ x ∈ h :: l, N' x = N x) :
    RingBut ps ns N' h l := by
  obtain ⟨C, hC, hrest⟩ := hr
  refine ⟨C, hC, ?_⟩
  intro x hx
  rw [hN x hx]
  exact hrest x hx

omit [DecidableEq α] in
/-- A stored `next` is the one of the ring. -/
theorem next_eq (hr : RingBut ps ns N h l) (hx : x ∈ h :: l) (hn : x ∉ ns)
    (hv : ∀ C : α → Node α, NodeRing C h l → (C x).next = v) : (N x).next = v := by
  obtain ⟨C, hC, hN⟩ := hr
  rw [(hN x hx).2.resolve_left hn]
  exact hv C hC

/-- Before the store of a `prev`, that field is open. -/
theorem open_prev (hr : RingBut ps ns (setPrev N x v) h l) : RingBut (x :: ps) ns N h l := by
  obtain ⟨C, hC, hN⟩ := hr
  refine ⟨C, hC, ?_⟩
  intro y hy
  obtain ⟨hp, hn⟩ := hN y hy
  rw [setPrev_next] at hn
  refine ⟨?_, hn⟩
  by_cases hyx : y = x
  · exact .inl (hyx ▸ List.mem_cons_self)
  · rw [setPrev_prev, if_neg hyx] at hp
    exact hp.imp_left (List.mem_cons_of_mem x)

theorem open_next (hr : RingBut ps ns (setNext N x v) h l) : RingBut ps (x :: ns) N h l := by
  obtain ⟨C, hC, hN⟩ := hr
  refine ⟨C, hC, ?_⟩
  intro y hy
  obtain ⟨hp, hn⟩ := hN y hy
  rw [setNext_prev] at hp
  refine ⟨hp, ?_⟩
  by_cases hyx : y = x
  · exact .inl (hyx ▸ List.mem_cons_self)
  · rw [setNext_next, if_neg hyx] at hn
    exact hn.imp_left (List.mem_cons_of_mem x)

/-- The store of the `prev` of the ring closes the field. -/
theorem store_prev (hr : RingBut (x :: ps) ns N h l)
    (hv : ∀ C : α → Node α, NodeRing C h l → (C x).prev = v) :
      RingBut ps ns (setPrev N x v) h l := by
  obtain ⟨C, hC, hN⟩ := hr
  refine ⟨C, hC, ?_⟩
  intro y hy
  obtain ⟨hp, hn⟩ := hN y hy
  rw [setPrev_prev, setPrev_next]
  refine ⟨?_, hn⟩
  by_cases hyx : y = x
  · rw [if_pos hyx, hyx]
    exact .inr (hv C hC).symm
  · rw [if_neg hyx]
    exact hp.imp_left fun hm => (List.mem_cons.mp hm).resolve_left hyx

theorem store_next (hr : RingBut ps (x :: ns) N h l)
    (hv : ∀ C : α → Node α, NodeRing C h l → (C x).next = v) :
      RingBut ps ns (setNext N x v) h l := by
  obtain ⟨C, hC, hN⟩ := hr
  refine ⟨C, hC, ?_⟩
  intro y hy
  obtain ⟨hp, hn⟩ := hN y hy
  rw [setNext_prev, setNext_next]
  refine ⟨hp, ?_⟩
  by_cases hyx : y = x
  · rw [if_pos hyx, hyx]
    exact .inr (hv C hC).symm
  · rw [if_neg hyx]
    exact hn.imp_left fun hm => (List.mem_cons.mp hm).resolve_left hyx

/-- **Taking out** a node none of whose own fields is open. -/
theorem erase {nil : α} (hr : RingBut ps ns N h (l₁ ++ a :: l₂)) (hp : a ∉ ps) (hn : a ∉ ns) :
    ((N a).prev ∈ h :: (l₁ ++ a :: l₂) ∧ (N a).next ∈ h :: (l₁ ++ a :: l₂)) ∧
      RingBut ps ns (unlinkBetween N a (N a).prev (N a).next nil) h (l₁ ++ l₂) := by
  obtain ⟨C, hC, hN⟩ := hr
  have ha : a ∈ h :: (l₁ ++ a :: l₂) := by simp
  obtain ⟨⟨hnext, -⟩, hprev, -⟩ := hC.linked ha
  rw [(hN a ha).1.resolve_left hp, (hN a ha).2.resolve_left hn]
  refine ⟨⟨hprev, hnext⟩, unlinkBetween C a (C a).prev (C a).next nil, hC.erase rfl rfl, ?_⟩
  intro x hx
  have hx' : x ∈ h :: (l₁ ++ a :: l₂) := by
    simp only [List.mem_cons, List.mem_append] at hx ⊢
    tauto
  -- both are stored into alike
  simp only [unlinkBetween, setPrev_prev, setPrev_next, setNext_prev, setNext_next]
  refine ⟨(hN x hx').1.imp_right fun e => ?_, (hN x hx').2.imp_right fun e => ?_⟩
  · rw [e]
  · rw [e]

end RingBut

end LowLevel
