import ZHyper.Lib.Ring

/-!
# Collections of rings

`S h = some l` says that there is a ring with head `h` through `l`.  `Rings N S`: in the links `N`
they are there, and no two of them share a node.  `Rings.update` is the rule for what a call does:
it makes a ring of nodes that no other ring has, and changes no node of another ring.
-/

namespace LowLevel

variable {α : Type} {N N' : α → Node α} {S : α → Option (List α)} {h h' n x : α}
    {l l' l₁ l₂ : List α}

structure Rings (N : α → Node α) (S : α → Option (List α)) : Prop where
  ring : ∀ h l, S h = some l → NodeRing N h l
  apart : ∀ h l h' l' x, S h = some l → S h' = some l' → x ∈ h :: l → x ∈ h' :: l' → h = h'

/-- `x` is a node of one of the rings. -/
def OnRing (S : α → Option (List α)) (x : α) : Prop := ∃ h l, S h = some l ∧ x ∈ h :: l

/-- No ring but that of `h` has the node `x`. -/
def OnlyOn (S : α → Option (List α)) (h x : α) : Prop :=
  ∀ h' l, S h' = some l → x ∈ h' :: l → h' = h

theorem onlyOn_of_free (hx : ¬ OnRing S x) : OnlyOn S h x :=
  fun h' l hl hmem => absurd ⟨h', l, hl, hmem⟩ hx

theorem Rings.onlyOn (hS : Rings N S) (hl : S h = some l) (hx : x ∈ h :: l) : OnlyOn S h x :=
  fun h' l' hl' hx' => hS.apart h' l' h l x hl' hl hx' hx

namespace Rings

theorem nil (N : α → Node α) : Rings N fun _ => none :=
  ⟨(fun _ _ h => nomatch h), fun _ _ _ _ _ h => nomatch h⟩

variable [DecidableEq α]

theorem onRing_update (hx : OnRing (Function.update S h (some l)) x) : x ∈ h :: l ∨ OnRing S x := by
  obtain ⟨h', l', hl', hx⟩ := hx
  by_cases hh : h' = h
  · rw [hh, Function.update_self] at hl'
    rw [hh, ← Option.some.inj hl'] at hx
    exact .inl hx
  · rw [Function.update_of_ne hh] at hl'
    exact .inr ⟨h', l', hl', hx⟩

theorem update (hS : Rings N S) (hr : NodeRing N' h l) (hown : ∀ x ∈ h :: l, OnlyOn S h x)
    (hframe : ∀ x, ¬ OnlyOn S h x → N' x = N x) : Rings N' (Function.update S h (some l)) := by
  have hcases : ∀ {h' l'}, Function.update S h (some l) h' = some l' →
      h' = h ∧ l' = l ∨ h' ≠ h ∧ S h' = some l' := by
    intro h' l' hl'
    by_cases hh : h' = h
    · rw [hh, Function.update_self] at hl'
      exact .inl ⟨hh, (Option.some.inj hl').symm⟩
    · rw [Function.update_of_ne hh] at hl'
      exact .inr ⟨hh, hl'⟩
  constructor
  · intro h' l' hl'
    rcases hcases hl' with ⟨rfl, rfl⟩ | ⟨hne, hl'⟩
    · exact hr
    · exact (hS.ring h' l' hl').congr fun x hx => hframe x fun honly => hne (honly h' l' hl' hx)
  · intro h₁ l₁ h₂ l₂ x hl₁ hl₂ hx₁ hx₂
    rcases hcases hl₁ with ⟨e₁, hnew₁⟩ | ⟨hne₁, hold₁⟩ <;>
      rcases hcases hl₂ with ⟨e₂, hnew₂⟩ | ⟨hne₂, hold₂⟩
    · exact e₁.trans e₂.symm
    · rw [e₁, hnew₁] at hx₁
      exact absurd (hown x hx₁ h₂ l₂ hold₂ hx₂) hne₂
    · rw [e₂, hnew₂] at hx₂
      exact absurd (hown x hx₂ h₁ l₁ hold₁ hx₁) hne₁
    · exact hS.apart h₁ l₁ h₂ l₂ x hold₁ hold₂ hx₁ hx₂

/-- The rings without a node of one of them. -/
theorem erase_eq (hS : Rings N S) (hl : S h = some (l₁ ++ n :: l₂)) :
    (fun h' => (S h').map (·.erase n)) = Function.update S h (some (l₁ ++ l₂)) := by
  have hn : n ∉ l₁ := by
    have hnodup := (List.nodup_cons.mp (hS.ring h _ hl).nodup).2
    exact fun hmem => (List.nodup_append.mp hnodup).2.2 n hmem n List.mem_cons_self rfl
  funext h'
  by_cases hh : h' = h
  · rw [hh, Function.update_self, hl, Option.map_some, List.erase_append_right _ hn,
      List.erase_cons_head]
  · rw [Function.update_of_ne hh]
    cases hl' : S h' with
    | none => rfl
    | some l' =>
      have hfree : n ∉ l' := fun hmem =>
        hh (hS.apart h' l' h _ n hl' hl (List.mem_cons_of_mem _ hmem) (by simp))
      rw [Option.map_some, List.erase_of_not_mem hfree]

end Rings

/-! ## Backwards -/

/-- The links read the other way. -/
theorem NodeRing.reverse (hr : NodeRing N h l) : (h :: (l.reverse ++ [h])).IsChain fun a b =>
    (N a).prev = b := by
  have hrev : h :: (l.reverse ++ [h]) = (h :: (l ++ [h])).reverse := by simp
  rw [hrev, List.isChain_reverse]
  exact hr.chain.imp fun a b hadj => hadj.2

end LowLevel
