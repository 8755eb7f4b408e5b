import ZHyper.Libc.Strings

/-!
# `strstr` finds the first occurrence

The inner loop tells whether the needle is a prefix of what is left of the haystack
(`matchLoop_run`); the outer one drops a character as long as it is not (`strstrLoop_run`).
-/

namespace ZHyper

open LowLevel LowLevel.Prog

/-- `t` stands in `s` at the offset `i`. -/
def Occurs (s t : List UInt8) (i : Nat) : Prop := i ≤ s.length ∧ t <+: s.drop i

/-- The least of the offsets. -/
def First (s t : List UInt8) (i : Nat) : Prop := Occurs s t i ∧ ∀ j, j < i → ¬ Occurs s t j

/-- The places of the strings `s` at `p` and `t` at `q`, their terminators included. -/
def inStrings (p q : Nat) (s t : List UInt8) (x : Nat) : Prop :=
  p ≤ x ∧ x ≤ p + s.length ∨ q ≤ x ∧ x ≤ q + t.length

/-- What a search of `t` in the string `s` at `p` is to return. -/
def Found (p : Nat) (s t : List UInt8) (r : Nat) : Prop :=
  (∃ i, First s t i ∧ r = p + i) ∨ r = 0 ∧ ∀ i, ¬ Occurs s t i

section

variable {m : Mem} {p q k : Nat} {s t : List UInt8} {c d : UInt8}

theorem occurs_succ {i : Nat} : Occurs (c :: s) t (i + 1) ↔ Occurs s t i :=
  and_congr_left fun _ => Nat.succ_le_succ_iff

theorem occurs_zero : Occurs s t 0 ↔ t <+: s := and_iff_right (Nat.zero_le _)

theorem First.unique {i j : Nat} (h : First s t i) (h' : First s t j) : i = j := by
  rcases Nat.lt_trichotomy i j with hlt | heq | hlt
  · exact absurd h.1 (h'.2 i hlt)
  · exact heq
  · exact absurd h'.1 (h.2 j hlt)

/-- A character at which the needle does not stand is dropped. -/
theorem Found.cons {r : Nat} (h : Found (p + 1) s t r) (hne : ¬ t <+: c :: s) :
    Found p (c :: s) t r := by
  have hzero : ¬ Occurs (c :: s) t 0 := mt occurs_zero.mp hne
  rcases h with ⟨i, hi, hr⟩ | ⟨hr, hnone⟩
  · refine .inl ⟨i + 1, ⟨occurs_succ.mpr hi.1, ?_⟩, by omega⟩
    intro j hj
    cases j with
    | zero => exact hzero
    | succ j => exact mt occurs_succ.mp (hi.2 j (Nat.lt_of_succ_lt_succ hj))
  · refine .inr ⟨hr, ?_⟩
    intro i
    cases i with
    | zero => exact hzero
    | succ i => exact mt occurs_succ.mp (hnone i)

theorem inStrings_fst (p q : Nat) (s t : List UInt8) : inStrings p q s t p :=
  .inl ⟨Nat.le_refl p, Nat.le_add_right _ _⟩

theorem inStrings_snd (p q : Nat) (s t : List UInt8) : inStrings p q s t q :=
  .inr ⟨Nat.le_refl q, Nat.le_add_right _ _⟩

theorem inStrings_tail {x : Nat} (h : inStrings (p + 1) q s t x) : inStrings p q (c :: s) t x := by
  unfold inStrings at *
  rw [List.length_cons]
  omega

theorem inStrings_tails {x : Nat} (h : inStrings (p + 1) (q + 1) s t x) :
    inStrings p q (c :: s) (d :: t) x := by
  unfold inStrings at *
  rw [List.length_cons, List.length_cons]
  omega

/-- The inner loop ends at the needle's terminator just when the needle stands here. -/
theorem matchLoop_run (hs : CStr m p s) (ht : CStr m q t) (hk : s.length < k) :
    (matchLoop k p q).wp (Bytewise (inStrings p q s t) nowhere)
      (fun r m' => (q ≤ r ∧ r ≤ q + t.length ∧ (m.load 1 r = 0 ↔ t <+: s)) ∧ m' = m) m := by
  have hp := inStrings_fst p q s t
  have hq := inStrings_snd p q s t
  have hend : q ≤ q ∧ q ≤ q + t.length := ⟨Nat.le_refl q, Nat.le_add_right _ _⟩
  induction s generalizing p q k t with
  | nil =>
    cases k with
    | zero => cases hk
    | succ k =>
      rw [matchLoop, wp_bind, wp_read, hs.nil]
      refine ⟨⟨rfl, hp⟩, ⟨hend.1, hend.2, ?_⟩, rfl⟩
      cases t with
      | nil => exact ⟨fun _ => List.prefix_rfl, fun _ => ht.nil⟩
      | cons d t => exact ⟨fun h => absurd (ht.head.1.symm.trans h) ht.head.2, fun h =>
        nomatch List.prefix_nil.mp h⟩
  | cons c s ih =>
    cases k with
    | zero => cases hk
    | succ k =>
      rw [matchLoop, wp_bind, wp_read, hs.head.1, if_neg hs.head.2, wp_bind, wp_read]
      refine ⟨⟨rfl, hp⟩, ⟨rfl, hq⟩, ?_⟩
      cases t with
      | nil =>
        rw [ht.nil, if_pos rfl]
        exact ⟨⟨hend.1, hend.2, fun _ => List.nil_prefix, fun _ => ht.nil⟩, rfl⟩
      | cons d t =>
        rw [ht.head.1, if_neg ht.head.2, wp_bind, wp_read, hs.head.1, wp_bind, wp_read, ht.head.1]
        refine ⟨⟨rfl, hp⟩, ⟨rfl, hq⟩, ?_⟩
        by_cases hcd : c = d
        · rw [if_pos (congrArg UInt8.toNat hcd)]
          have htail := ih hs.tail ht.tail (Nat.lt_of_succ_lt_succ hk) (inStrings_fst _ _ _ _)
            (inStrings_snd _ _ _ _)
            ⟨Nat.le_refl _, Nat.le_add_right _ _⟩
          apply bytewise_weaken htail (fun _ => inStrings_tails) fun _ => id
          rintro r m' ⟨⟨h1, h2, h3⟩, hm⟩
          refine ⟨⟨by omega, ?_, ?_⟩, hm⟩
          · rw [List.length_cons]
            omega
          · rw [List.cons_prefix_cons, h3]
            exact (and_iff_right hcd.symm).symm
        · rw [if_neg (mt UInt8.toNat_inj.mp hcd)]
          refine ⟨⟨hend.1, hend.2, ?_⟩, rfl⟩
          rw [ht.head.1, List.cons_prefix_cons]
          exact ⟨fun h => absurd h ht.head.2, fun h => absurd h.1.symm hcd⟩

theorem strstrLoop_run (hs : CStr m p s) (ht : CStr m q (d :: t)) (hk : s.length < k) :
    (strstrLoop q k p).wp (Bytewise (inStrings p q s (d :: t)) nowhere)
      (fun r m' => Found p s (d :: t) r ∧ m' = m) m := by
  have hp := inStrings_fst p q s (d :: t)
  have hq := inStrings_snd p q s (d :: t)
  induction s generalizing p k with
  | nil =>
    cases k with
    | zero => cases hk
    | succ k =>
      rw [strstrLoop, wp_bind, wp_read, hs.nil]
      refine ⟨⟨rfl, hp⟩, .inr ⟨rfl, ?_⟩, rfl⟩
      intro i hi
      have hpre := hi.2
      rw [List.drop_nil] at hpre
      exact nomatch List.prefix_nil.mp hpre
  | cons c s ih =>
    cases k with
    | zero => cases hk
    | succ k =>
      rw [strstrLoop, wp_bind, wp_read, hs.head.1, if_neg hs.head.2, wp_bind, wp_read, hs.head.1,
        wp_bind, wp_read, ht.head.1]
      refine ⟨⟨rfl, hp⟩, ⟨rfl, hp⟩, ⟨rfl, hq⟩, ?_⟩
      have hnext : ¬ d :: t <+: c :: s →
        (strstrLoop q k (p + 1)).wp (Bytewise (inStrings p q (c :: s) (d :: t)) nowhere)
          (fun r m' => Found p (c :: s) (d :: t) r ∧ m' = m) m := by
        intro hne
        have htail :=
          ih hs.tail (Nat.lt_of_succ_lt_succ hk) (inStrings_fst _ _ _ _) (inStrings_snd _ _ _ _)
        apply bytewise_weaken htail (fun _ => inStrings_tail) fun _ => id
        rintro r m' ⟨hr, hm⟩
        exact ⟨hr.cons hne, hm⟩
      by_cases hcd : c = d
      · rw [if_pos (congrArg UInt8.toNat hcd), wp_bind]
        apply wp_mono (matchLoop_run hs ht hs.length_lt)
        rintro r m' ⟨⟨h1, h2, h3⟩, rfl⟩
        rw [wp_bind, wp_read]
        refine ⟨⟨rfl, .inr ⟨h1, h2⟩⟩, ?_⟩
        by_cases hr : m'.load 1 r = 0
        · rw [if_pos hr]
          exact ⟨.inl ⟨0, ⟨occurs_zero.mpr (h3.mp hr), fun j hj => absurd hj (Nat.not_lt_zero j)⟩,
            rfl⟩, rfl⟩
        · rw [if_neg hr]
          exact hnext (mt h3.mpr hr)
      · rw [if_neg (mt UInt8.toNat_inj.mp hcd)]
        exact hnext fun h => hcd (List.cons_prefix_cons.mp h).1.symm

theorem strstr_run (hs : CStr m p s) (ht : CStr m q t) :
    (strstr p q).wp (Bytewise (inStrings p q s t) nowhere)
      (fun r m' => Found p s t r ∧ m' = m) m := by
  unfold strstr
  rw [wp_bind, wp_read]
  refine ⟨⟨rfl, inStrings_snd _ _ _ _⟩, ?_⟩
  cases t with
  | nil =>
    rw [ht.nil, if_pos rfl]
    exact ⟨.inl ⟨0, ⟨occurs_zero.mpr List.nil_prefix, fun j hj => absurd hj (Nat.not_lt_zero j)⟩,
      rfl⟩, rfl⟩
  | cons d t =>
    rw [ht.head.1, if_neg ht.head.2]
    exact strstrLoop_run hs ht hs.length_lt

end

/-- **`strstr` returns the first occurrence**, and `NULL` just when there is none. -/
theorem strstr_first {m : Mem} {p q : Nat} {s t : List UInt8} (hs : CStr m p s) (ht : CStr m q t) :
    ∃ r, Returns (Bytewise (inStrings p q s t) nowhere) (strstr p q) m r ∧
      (∀ i, r = p + i ↔ First s t i) ∧ (r = 0 ↔ ∀ i, ¬ Occurs s t i) := by
  have hrun := strstr_run hs ht
  have hpos := hs.nonnull
  obtain ⟨r, m', he, hr, rfl⟩ := wp_exec hrun
  refine ⟨r, wp_run hrun he, ?_⟩
  rcases hr with ⟨i, hi, rfl⟩ | ⟨rfl, hnone⟩
  · refine ⟨?_, fun h => absurd h (by omega), fun h => absurd hi.1 (h i)⟩
    intro j
    refine ⟨fun h => ?_, fun h => by rw [hi.unique h]⟩
    rwa [← Nat.add_left_cancel h]
  · exact ⟨fun j => ⟨fun h => absurd h (by omega), fun h => absurd h.1 (hnone j)⟩, fun _ =>
      hnone, fun _ => rfl⟩

/-- `"aab"` in `"aaab"`. -/
theorem strstr_first_example :
    ∃ (m : Mem) (r : Nat), Returns
      (Bytewise (inStrings 16 32 [97, 97, 97, 98] [97, 97, 98]) nowhere) (strstr 16 32) m r ∧
      (∀ i, r = 16 + i ↔ First [97, 97, 97, 98] [97, 97, 98] i) ∧
        (r = 0 ↔ ∀ i, ¬ Occurs [97, 97, 97, 98] [97, 97, 98] i) := by
  refine ⟨putBytes 32 ([97, 97, 98] ++ [0]) (putBytes 16 ([97, 97, 97, 98] ++ [0]) fun _ => 0), ?_⟩
  apply strstr_first
  · exact (CStr.put (by decide) (by decide) (nonzero_of_all rfl) _).putBytes (by decide)
  · exact CStr.put (by decide) (by decide) (nonzero_of_all rfl) _

end ZHyper
