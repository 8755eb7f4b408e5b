import ZHyper.ListHead
import ZHyper.Lib.Rings
import ZHyper.Lib.Runs

/-!
# Lists as sequences

A collection of lists is what `S` says: `S h = some l` for a head `h` whose list is `l`.
`list_init` starts one, `list_add` and `list_add_tail` put a node that is on none in front or at the
end, `list_del` takes a node out of the one that it is on.  On the links they do just that, and each
list is walked forwards and backwards (`lists_implement_sequences`).
-/

namespace ZHyper

open LowLevel

/-! ## Going through a list -/

inductive ListFault where
  | nullDeref
  | endless
deriving DecidableEq

/-- `list_for_each(pos, head)` from `pos` on. -/
def listForEach {φ σ : Type} (next : Nat → EStateM φ σ Nat) (endless : φ) (head : Nat)
    (body : Nat → EStateM φ σ Unit) : Nat → Nat → EStateM φ σ Unit
  | 0, _ => throw endless
  | fuel + 1, pos =>
    if pos = head then pure ()
    else do
      body pos
      let pos ← next pos
      listForEach next endless head body fuel pos

/-- `pos->next` -/
def walkNext (L : Links) (pos : Nat) : EStateM ListFault (List Nat) Nat :=
  match loadNext pos L with
  | some next => pure next
  | none => throw .nullDeref

/-- `list_prev(pos)` -/
def walkPrev (L : Links) (pos : Nat) : EStateM ListFault (List Nat) Nat :=
  match loadPrev pos L with
  | some prev => pure prev
  | none => throw .nullDeref

def visit (pos : Nat) : EStateM ListFault (List Nat) Unit := modify (· ++ [pos])

/-- The nodes that `list_for_each` visits. -/
def walkForward (L : Links) (head fuel : Nat) : EStateM ListFault (List Nat) Unit := do
  let pos ← walkNext L head
  listForEach (walkNext L) .endless head visit fuel pos

/-- The nodes that `list_for_each_safe` visits. -/
def walkForwardSafe (L : Links) (head fuel : Nat) : EStateM ListFault (List Nat) Unit := do
  let pos ← walkNext L head
  let n ← walkNext L pos
  listForEachSafe (walkNext L) .endless head visit fuel pos n

/-- The nodes that the same loop over `list_prev` visits. -/
def walkBackward (L : Links) (head fuel : Nat) : EStateM ListFault (List Nat) Unit := do
  let pos ← walkPrev L head
  listForEach (walkPrev L) .endless head visit fuel pos

/-- The list of `h` is circular, and is `l` forwards and its reverse backwards. -/
structure ListIs (L : Links) (h : Nat) (l : List Nat) : Prop where
  linked : ∀ n ∈ h :: l, (L (L n).next).prev = n ∧ (L (L n).prev).next = n
  forward : ∀ fuel, l.length < fuel → walkForward L h fuel [] = .ok () l ∧
    walkForwardSafe L h fuel [] = .ok () l
  backward : ∀ fuel, l.length < fuel → walkBackward L h fuel [] = .ok () l.reverse

/-! ## Collections of lists -/

abbrev Seqs := Nat → Option (List Nat)

def noLists : Seqs := fun _ => none

inductive ListAct where
  | init (h : Nat)
  | add (n h : Nat)
  | addTail (n h : Nat)
  | del (n : Nat)
deriving DecidableEq

namespace ListAct

/-- The call. -/
def exec : ListAct → Links → Option Links
  | init h => listInit h
  | add n h => listAdd n h
  | addTail n h => listAddTail n h
  | del n => listDel n

/-- What the call is to do to the sequences. -/
def apply : ListAct → Seqs → Seqs
  | init h, S => Function.update S h (some [])
  | add n h, S => Function.update S h ((S h).map (n :: ·))
  | addTail n h, S => Function.update S h ((S h).map (· ++ [n]))
  | del n, S => fun h => (S h).map (·.erase n)

/-- New heads and nodes are objects that are not on a list; a node that is deleted is on one. -/
def Permitted : ListAct → Seqs → Prop
  | init h, S => h ≠ 0 ∧ ¬ OnRing S h
  | add n h, S | addTail n h, S => n ≠ 0 ∧ ¬ OnRing S n ∧ ∃ l, S h = some l
  | del n, S => ∃ h l, S h = some l ∧ n ∈ l

/-- The call is about the list `l` of `h`. -/
def Concerns : ListAct → Nat → List Nat → Prop
  | init h', h, _ | add _ h', h, _ | addTail _ h', h, _ => h' = h
  | del n, _, l => n ∈ l

end ListAct

/-- A permitted call. -/
def SeqStep (S : Seqs) (a : ListAct) (S' : Seqs) : Prop := a.Permitted S ∧ S' = a.apply S

def runActs (acts : List ListAct) (L : Links) : Option Links := acts.foldlM (fun L a => a.exec L) L

/-- The rings are there, and none of their nodes is `NULL`. -/
structure Implements (L : Links) (S : Seqs) : Prop where
  rings : Rings L S
  nonzero : ∀ x, OnRing S x → x ≠ 0

variable {L L' : Links} {S S' : Seqs} {a : ListAct} {acts : List ListAct} {h n x : Nat}
    {l : List Nat}

/-! ## A walk visits the list -/

section Walk

variable {step : Nat → EStateM ListFault (List Nat) Nat} {g : Nat → Nat}
  (hstep : ∀ p, p ≠ 0 → ∀ seen, step p seen = .ok (g p) seen)

include hstep

/-- Both loops visit the nodes up to the head; the safe one is one step ahead. -/
theorem loops_visit (hh : h ≠ 0) (hc : (x :: (l ++ [h])).IsChain fun a b => g a = b) (hl : h ∉ l)
    (hz : ∀ y ∈ l, y ≠ 0) {fuel : Nat} (hfuel : l.length < fuel) (seen : List Nat) :
    listForEach step .endless h visit fuel (g x) seen = .ok () (seen ++ l) ∧
      listForEachSafe step .endless h visit fuel (g x) (g (g x)) seen = .ok () (seen ++ l) := by
  obtain ⟨fuel, rfl⟩ := Nat.exists_eq_succ_of_ne_zero (Nat.ne_of_gt (Nat.zero_lt_of_lt hfuel))
  induction l generalizing x fuel seen with
  | nil =>
    rw [List.nil_append, List.isChain_pair] at hc
    rw [listForEach, listForEachSafe, if_pos hc, if_pos hc, List.append_nil]
    exact ⟨rfl, rfl⟩
  | cons y l ih =>
    rw [List.cons_append, List.isChain_cons_cons] at hc
    obtain ⟨hy, hc⟩ := hc
    rw [List.mem_cons, not_or] at hl
    obtain ⟨fuel, rfl⟩ :=
      Nat.exists_eq_succ_of_ne_zero
      (Nat.ne_of_gt (Nat.zero_lt_of_lt (Nat.lt_of_succ_lt_succ hfuel)))
    have hvisit : visit y seen = .ok () (seen ++ [y]) := rfl
    -- what comes after `y` is the next node of the list, or the head
    have hnext : g y ≠ 0 := by
      cases l with
      | nil =>
        rw [List.nil_append, List.isChain_pair] at hc
        rwa [hc]
      | cons z l =>
        rw [List.cons_append, List.isChain_cons_cons] at hc
        rw [hc.1]
        exact hz z (by simp)
    obtain ⟨hrest, hrestSafe⟩ :=
      ih hc hl.2 (fun z hz' => hz z (List.mem_cons_of_mem _ hz')) (seen ++ [y]) fuel
      (Nat.lt_of_succ_lt_succ hfuel)
    rw [List.append_assoc, List.singleton_append] at hrest hrestSafe
    rw [listForEach, listForEachSafe, hy, if_neg (Ne.symm hl.1), if_neg (Ne.symm hl.1)]
    constructor
    · rw [bind_run hvisit, bind_run (hstep y (hz y List.mem_cons_self) _), hrest]
    · rw [bind_run hvisit, bind_run (hstep (g y) hnext _), hrestSafe]

end Walk

theorem walkNext_run (p : Nat) (hp : p ≠ 0) (seen : List Nat) :
    walkNext L p seen = .ok (L p).next seen := by
  rw [walkNext, loadNext, if_neg hp]
  rfl

theorem walkPrev_run (p : Nat) (hp : p ≠ 0) (seen : List Nat) :
    walkPrev L p seen = .ok (L p).prev seen := by
  rw [walkPrev, loadPrev, if_neg hp]
  rfl

/-- **A ring is a list** that is walked both ways. -/
theorem listIs_of_ring (hr : NodeRing L h l) (hz : ∀ x ∈ h :: l, x ≠ 0) : ListIs L h l := by
  have hh : h ≠ 0 := hz h List.mem_cons_self
  have hl : h ∉ l := (List.nodup_cons.mp hr.nodup).1
  have hz' : ∀ y ∈ l, y ≠ 0 := fun y hy => hz y (List.mem_cons_of_mem _ hy)
  constructor
  · intro n hn
    obtain ⟨⟨-, hnext⟩, -, hprev⟩ := hr.linked hn
    exact ⟨hnext.2, hprev.1⟩
  · intro fuel hfuel
    have hfirst : (L h).next ≠ 0 := hz _ hr.neighbours.1.1
    obtain ⟨hplain, hsafe⟩ := loops_visit (fun p hp => walkNext_run (L := L) p hp) hh
      (hr.chain.imp fun a b hadj => hadj.1) hl hz' hfuel []
    constructor
    · rw [walkForward, bind_run (walkNext_run h hh [])]
      exact hplain
    · rw [walkForwardSafe, bind_run (walkNext_run h hh []), bind_run (walkNext_run _ hfirst [])]
      exact hsafe
  · intro fuel hfuel
    have hlength : l.reverse.length < fuel := by rwa [List.length_reverse]
    obtain ⟨hplain, -⟩ := loops_visit (fun p hp => walkPrev_run (L := L) p hp) hh hr.reverse
      (fun hmem => hl (List.mem_reverse.mp hmem))
        (fun y hy => hz' y (List.mem_reverse.mp hy)) hlength []
    rw [walkBackward, bind_run (walkPrev_run h hh [])]
    exact hplain

/-! ## A call -/

/-- What a permitted call leaves: the new sequences, the other lists as they were, and a deleted
node `NULL`. -/
structure CallDone (a : ListAct) (L L' : Links) (S S' : Seqs) : Prop where
  implements : Implements L' S'
  others : ∀ h l, S h = some l → ¬ a.Concerns h l → S' h = some l ∧ ∀ x ∈ h :: l, L' x = L x
  deleted : ∀ n, a = .del n → L' n = ⟨0, 0⟩

theorem Implements.list (hL : Implements L S) (hl : S h = some l) :
    NodeRing L h l ∧ ∀ x ∈ h :: l, x ≠ 0 :=
  ⟨hL.rings.ring h l hl, fun x hx => hL.nonzero x ⟨h, l, hl, hx⟩⟩

/-- A call that makes a new list for `h` of nodes that no other list has, and changes no node of the
others. -/
theorem Implements.replace (hL : Implements L S) (hr : NodeRing L' h l) (hz : ∀ x ∈ h :: l, x ≠ 0)
    (hown : ∀ x ∈ h :: l, OnlyOn S h x) (hframe : ∀ x, ¬ OnlyOn S h x → L' x = L x)
    (happly : a.apply S = Function.update S h (some l))
    (hconcerns : ∀ h' l', S h' = some l' → ¬ a.Concerns h' l' → h' ≠ h)
    (hdel : ∀ n, a = .del n → L' n = ⟨0, 0⟩) :
    CallDone a L L' S (a.apply S) := by
  rw [happly]
  refine ⟨⟨hL.rings.update hr hown hframe, fun x hx => ?_⟩, fun h' l' hl' hother => ?_, hdel⟩
  · rcases Rings.onRing_update hx with hx | hx
    · exact hz x hx
    · exact hL.nonzero x hx
  · have hne := hconcerns h' l' hl' hother
    exact ⟨(Function.update_of_ne hne _ _).trans hl', fun x hx => hframe x fun honly =>
      hne (honly h' l' hl' hx)⟩

/-- A node that is on no list comes on the list of `h`. -/
theorem Implements.insert (hL : Implements L S) (hl : S h = some l) (hn : n ≠ 0)
    (hfree : ¬ OnRing S n) (ha : a = .add n h ∨ a = .addTail n h) {l' : List Nat}
    (happly : a.apply S = Function.update S h (some l')) (hr : NodeRing L' h l')
    (hmem : ∀ x ∈ h :: l', x ∈ n :: h :: l) (hframe : ∀ x, x ∉ n :: h :: l → L' x = L x) :
    CallDone a L L' S (a.apply S) := by
  have hcases : ∀ {x}, x ∈ n :: h :: l → x ≠ 0 ∧ OnlyOn S h x := by
    intro x hx
    rcases List.mem_cons.mp hx with rfl | hx
    · exact ⟨hn, onlyOn_of_free hfree⟩
    · exact ⟨(hL.list hl).2 x hx, hL.rings.onlyOn hl hx⟩
  refine hL.replace hr (fun x hx => (hcases (hmem x hx)).1) (fun x hx => (hcases (hmem x hx)).2)
    (fun x hx => hframe x fun hmem => hx (hcases hmem).2) happly
      (fun h' l' _ hother => ?_) fun m hm => ?_
  · rcases ha with rfl | rfl <;> exact Ne.symm hother
  · rcases ha with rfl | rfl <;> cases hm

theorem Implements.step (hL : Implements L S) (hstep : SeqStep S a S') :
    ∃ L', a.exec L = some L' ∧ CallDone a L L' S S' := by
  obtain ⟨hperm, rfl⟩ := hstep
  cases a with
  | init h =>
    obtain ⟨h0, hfree⟩ := hperm
    obtain ⟨L', hrun, hr, hframe⟩ := listInit_ring (L := L) h0
    have hself : ∀ x ∈ [h], x ≠ 0 ∧ OnlyOn S h x := by
      intro x hx
      rw [List.mem_singleton.mp hx]
      exact ⟨h0, onlyOn_of_free hfree⟩
    refine ⟨L', hrun, hL.replace hr (fun x hx => (hself x hx).1) (fun x hx => (hself x hx).2) ?_ rfl
      (fun _ _ _ hother => Ne.symm hother) fun _ hm => nomatch hm⟩
    intro x hx
    apply hframe x
    rintro rfl
    exact hx (onlyOn_of_free hfree)
  | add n h =>
    obtain ⟨h0, hfree, l, hl⟩ := hperm
    obtain ⟨hring, hz⟩ := hL.list hl
    obtain ⟨L', hrun, hr, hframe⟩ := listAdd_ring hring hz h0 fun hmem => hfree ⟨h, l, hl, hmem⟩
    have happly : (ListAct.add n h).apply S = Function.update S h (some (n :: l)) := by
      rw [ListAct.apply, hl, Option.map_some]
    have hmem : ∀ x ∈ h :: n :: l, x ∈ n :: h :: l :=
      fun x hx => (List.Perm.swap n h l).mem_iff.mp hx
    exact ⟨L', hrun, hL.insert hl h0 hfree (.inl rfl) happly hr hmem hframe⟩
  | addTail n h =>
    obtain ⟨h0, hfree, l, hl⟩ := hperm
    obtain ⟨hring, hz⟩ := hL.list hl
    obtain ⟨L', hrun, hr, hframe⟩ := listAddTail_ring hring hz h0 fun hmem => hfree ⟨h, l, hl, hmem⟩
    have happly : (ListAct.addTail n h).apply S = Function.update S h (some (l ++ [n])) := by
      rw [ListAct.apply, hl, Option.map_some]
    have hmem : ∀ x ∈ h :: (l ++ [n]), x ∈ n :: h :: l := by
      intro x hx
      simp only [List.mem_cons, List.mem_append, List.not_mem_nil, or_false] at hx ⊢
      tauto
    exact ⟨L', hrun, hL.insert hl h0 hfree (.inr rfl) happly hr hmem hframe⟩
  | del n =>
    obtain ⟨h, l, hl, hn⟩ := hperm
    obtain ⟨l₁, l₂, rfl⟩ := List.append_of_mem hn
    obtain ⟨hring, hz⟩ := hL.list hl
    obtain ⟨L', hrun, hr, hnull, hframe⟩ := listDel_ring hring hz
    have hmem : ∀ x ∈ h :: (l₁ ++ l₂), x ∈ h :: (l₁ ++ n :: l₂) := by
      intro x hx
      simp only [List.mem_cons, List.mem_append] at hx ⊢
      tauto
    refine ⟨L', hrun, hL.replace hr (fun x hx => hz x (hmem x hx)) (fun x hx =>
      hL.rings.onlyOn hl (hmem x hx))
      (fun x hx => hframe x fun hmem => hx (hL.rings.onlyOn hl hmem))
        (hL.rings.erase_eq hl) ?_ fun m hm => ?_⟩
    · rintro h' l' hl' hother rfl
      rw [hl] at hl'
      exact hother (Option.some.inj hl' ▸ hn)
    · cases hm
      exact hnull

/-! ## Every sequence of calls -/

theorem implements_noLists (L : Links) : Implements L noLists :=
  ⟨Rings.nil L, fun _ ⟨_, _, hl, _⟩ => nomatch hl⟩

theorem Implements.run (hrun : Runs SeqStep S acts S') (hL : Implements L S) :
    ∃ L', runActs acts L = some L' ∧ Implements L' S' := by
  induction hrun generalizing L with
  | nil S => exact ⟨L, rfl, hL⟩
  | cons hstep _ ih =>
    obtain ⟨L₁, hexec, hdone⟩ := hL.step hstep
    obtain ⟨L', hrest, hL'⟩ := ih hdone.implements
    refine ⟨L', ?_, hL'⟩
    rw [runActs, List.foldlM_cons, hexec]
    exact hrest

/-- **The intrusive lists implement sequences**: whatever is in the nodes before, the calls succeed,
every list is its sequence, and the next call keeps it so, with the other lists unchanged and a
deleted node's links `NULL`. -/
theorem lists_implement_sequences (L₀ : Links) (hrun : Runs SeqStep noLists acts S) :
    ∃ L, runActs acts L₀ = some L ∧ (∀ h l, S h = some l → ListIs L h l) ∧
      ∀ a S', SeqStep S a S' → ∃ L', a.exec L = some L' ∧ (∀ h l, S' h = some l → ListIs L' h l) ∧
        (∀ h l, S h = some l → ¬ a.Concerns h l → S' h = some l ∧ ∀ x ∈ h :: l, L' x = L x) ∧
        ∀ n, a = .del n → L' n = ⟨0, 0⟩ := by
  have hlist : ∀ {L S}, Implements L S → ∀ h l, S h = some l → ListIs L h l := fun hL h l hl =>
    listIs_of_ring (hL.list hl).1 (hL.list hl).2
  obtain ⟨L, hacts, hL⟩ := (implements_noLists L₀).run hrun
  refine ⟨L, hacts, hlist hL, fun a S' hstep => ?_⟩
  obtain ⟨L', hexec, hdone⟩ := hL.step hstep
  exact ⟨L', hexec, hlist hdone.implements, hdone.others, hdone.deleted⟩

theorem lists_implement_sequences_example :
    ∃ S, Runs SeqStep noLists [.init 16, .add 32 16, .addTail 48 16, .del 32] S ∧ S 16 = some [48] ∧
      ∃ L, runActs [.init 16, .add 32 16, .addTail 48 16, .del 32] (fun _ => ⟨0, 0⟩) = some L ∧
        ListIs L 16 [48] := by
  have hnone : ∀ x, ¬ OnRing noLists x := fun _ ⟨_, _, hl, _⟩ => nomatch hl
  have hinit : (ListAct.init 16).Permitted noLists := ⟨by decide, hnone 16⟩
  have hadd : (ListAct.add 32 16).Permitted (Function.update noLists 16 (some [])) := by
    refine ⟨by decide, fun hon => ?_, [], rfl⟩
    rcases Rings.onRing_update hon with hx | hx
    · exact absurd hx (by decide)
    · exact hnone 32 hx
  have haddTail : (ListAct.addTail 48 16).Permitted
      ((ListAct.add 32 16).apply (Function.update noLists 16 (some []))) := by
    refine ⟨by decide, fun hon => ?_, [32], rfl⟩
    rcases Rings.onRing_update (l := [32]) hon with hx | hx
    · exact absurd hx (by decide)
    · rcases Rings.onRing_update hx with hx | hx
      · exact absurd hx (by decide)
      · exact hnone 48 hx
  have hdel : (ListAct.del 32).Permitted
      ((ListAct.addTail 48 16).apply
        ((ListAct.add 32 16).apply (Function.update noLists 16 (some [])))) :=
    ⟨16, [32, 48], rfl, List.mem_cons_self⟩
  have hrun : Runs SeqStep noLists _ _ :=
    .cons ⟨hinit, rfl⟩ (.cons ⟨hadd, rfl⟩ (.cons ⟨haddTail, rfl⟩
    (.single ⟨hdel, rfl⟩)))
  obtain ⟨L, hacts, hlists, -⟩ := lists_implement_sequences (fun _ => ⟨0, 0⟩) hrun
  exact ⟨_, hrun, rfl, L, hacts, hlists 16 [48] rfl⟩

end ZHyper
