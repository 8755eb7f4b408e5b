import Mathlib.Data.List.Pairwise
import Mathlib.Data.List.Sort
import Mathlib.Order.Interval.Set.Defs

/-!
# Separated spans are a normal form

A span is a pair of endpoints standing for `Set.Ico s.1 s.2`.  A list of spans
is `Separated` when its spans are non-empty and ascend with a point strictly
between any two.  Such a list is determined by the set it covers: its members
are exactly the maximal spans inside that set (`Separated.mem_iff`), so two
separated lists with the same cover are equal (`Separated.unique`).
-/

namespace LowLevel

variable {α : Type*} [LinearOrder α]

structure Separated (l : List (α × α)) : Prop where
  nonempty : ∀ s ∈ l, s.1 < s.2
  ascending : l.Pairwise fun s t => s.2 < t.1

/-- The points of the spans of `l`. -/
def cover (l : List (α × α)) : Set α := {x | ∃ s ∈ l, x ∈ Set.Ico s.1 s.2}

/-- `s` is a non-empty span inside `F` and no larger one is. -/
structure MaximalSpan (F : Set α) (s : α × α) : Prop where
  nonempty : s.1 < s.2
  inside : Set.Ico s.1 s.2 ⊆ F
  maximal : ∀ t : α × α, t.1 ≤ s.1 → s.2 ≤ t.2 → Set.Ico t.1 t.2 ⊆ F → t = s

namespace Separated

variable {l l' : List (α × α)}

/-- Of two spans of a separated list, one ends before the other starts. -/
theorem trichotomy (h : Separated l) {s t : α × α} (hs : s ∈ l) (ht : t ∈ l) :
    s = t ∨ s.2 < t.1 ∨ t.2 < s.1 := by
  have : Std.Symm fun s t : α × α => s.2 < t.1 ∨ t.2 < s.1 := ⟨fun _ _ h => Or.symm h⟩
  have hp : l.Pairwise fun s t => s.2 < t.1 ∨ t.2 < s.1 := h.ascending.imp Or.inl
  by_cases hst : s = t
  · exact Or.inl hst
  · exact Or.inr (hp.forall hs ht hst)

/-- The end of a span is not covered. -/
theorem end_notMem_cover (h : Separated l) {s : α × α} (hs : s ∈ l) : s.2 ∉ cover l := by
  rintro ⟨t, ht, h1, h2⟩
  rcases h.trichotomy hs ht with rfl | hlt | hlt
  · exact lt_irrefl _ h2
  · exact not_le_of_gt hlt h1
  · exact lt_asymm h2 (hlt.trans (h.nonempty s hs))

/-- A covered interval lies inside one span. -/
theorem exists_span (h : Separated l) {a b : α} (hab : a < b) (hin : Set.Ico a b ⊆ cover l) :
    ∃ s ∈ l, s.1 ≤ a ∧ b ≤ s.2 := by
  obtain ⟨s, hs, h1, h2⟩ := hin ⟨le_refl a, hab⟩
  refine ⟨s, hs, h1, le_of_not_gt ?_⟩
  intro hlt
  exact h.end_notMem_cover hs (hin ⟨h2.le, hlt⟩)

/-- **The spans of a separated list are the maximal spans of its cover.** -/
theorem mem_iff (h : Separated l) (s : α × α) : s ∈ l ↔ MaximalSpan (cover l) s := by
  constructor
  · intro hs
    refine ⟨h.nonempty s hs, fun x hx => ⟨s, hs, hx⟩, ?_⟩
    intro t h1 h2 hin
    have hlt : t.1 < t.2 := h1.trans_lt ((h.nonempty s hs).trans_le h2)
    obtain ⟨r, hr, h3, h4⟩ := h.exists_span hlt hin
    -- `r` reaches over `s`, so it is `s`
    have hrs : r = s := by
      rcases h.trichotomy hr hs with h5 | h5 | h5
      · exact h5
      · exact absurd (h2.trans h4) (not_le_of_gt (h5.trans (h.nonempty s hs)))
      · exact absurd (h3.trans h1) (not_le_of_gt ((h.nonempty s hs).trans h5))
    subst hrs
    exact Prod.ext (le_antisymm h1 h3) (le_antisymm h4 h2)
  · intro hs
    obtain ⟨r, hr, h1, h2⟩ := h.exists_span hs.nonempty hs.inside
    rw [← hs.maximal r h1 h2 fun x hx => ⟨r, hr, hx⟩]
    exact hr

theorem starts_ascending (h : Separated l) : l.Pairwise fun s t => s.1 < t.1 :=
  h.ascending.imp_of_mem fun hs _ hst => (h.nonempty _ hs).trans hst

/-- **Uniqueness.**  The cover determines the list. -/
theorem unique (h : Separated l) (h' : Separated l') (hc : cover l = cover l') : l = l' := by
  have : Std.Irrefl fun s t : α × α => s.1 < t.1 := ⟨fun _ => lt_irrefl _⟩
  have : Std.Antisymm fun s t : α × α => s.1 < t.1 := ⟨fun _ _ h1 h2 => absurd h2 (lt_asymm h1)⟩
  apply h.starts_ascending.eq_of_mem_iff h'.starts_ascending
  intro s
  rw [h.mem_iff, h'.mem_iff, hc]

end Separated

end LowLevel
