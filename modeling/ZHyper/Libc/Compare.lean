import ZHyper.Libc.Strings

/-!
# Comparing strings

`strcmp` and `strncmp` find the place where two strings first differ, or both end, and return the
difference of the bytes there: `byteDiff`.  On strings that is the lexicographic order of unsigned
bytes (`string_comparison`).
-/

namespace ZHyper

open LowLevel LowLevel.Prog

/-- How far two strings agree. -/
def common : List UInt8 → List UInt8 → Nat
  | c :: a, d :: b => if c = d then common a b + 1 else 0
  | _, _ => 0

/-- The difference of the bytes where two strings first differ, a terminator being 0. -/
def byteDiff : List UInt8 → List UInt8 → Int
  | [], [] => 0
  | [], d :: _ => -d.toNat
  | c :: _, [] => c.toNat
  | c :: a, d :: b => if c = d then byteDiff a b else c.toNat - d.toNat

/-- The places up to the first difference or terminator. -/
def upTo (p q k x : Nat) : Prop := ∃ i, i ≤ k ∧ (x = p + i ∨ x = q + i)

section

variable {m : Mem} {p q k : Nat} {a b : List UInt8} {c d : UInt8}

theorem upTo_fst (p q k : Nat) : upTo p q k p := ⟨0, Nat.zero_le k, .inl rfl⟩

theorem upTo_snd (p q k : Nat) : upTo p q k q := ⟨0, Nat.zero_le k, .inr rfl⟩

theorem upTo_succ {x : Nat} (h : upTo (p + 1) (q + 1) k x) : upTo p q (k + 1) x := by
  obtain ⟨i, hi, hx⟩ := h
  exact ⟨i + 1, Nat.succ_le_succ hi, by omega⟩

theorem common_cons (c : UInt8) (a b : List UInt8) : common (c :: a) (c :: b) = common a b + 1 :=
  if_pos rfl

theorem common_ne (h : c ≠ d) : common (c :: a) (d :: b) = 0 := if_neg h

/-! ## `strcmp` -/

theorem strcmpLoop_run (ha : CStr m p a) (hb : CStr m q b) (hk : a.length < k) :
    (strcmpLoop k p q).wp (Bytewise (upTo p q (common a b)) nowhere)
      (fun r m' => r = (p + common a b, q + common a b) ∧ m' = m) m := by
  induction a generalizing p q k b with
  | nil =>
    cases k with
    | zero => cases hk
    | succ k =>
      rw [strcmpLoop, wp_bind, wp_read, ha.nil]
      exact ⟨⟨rfl, upTo_fst _ _ _⟩, rfl, rfl⟩
  | cons c a ih =>
    cases k with
    | zero => cases hk
    | succ k =>
      rw [strcmpLoop, wp_bind, wp_read, ha.head.1, if_neg ha.head.2, wp_bind, wp_read, ha.head.1,
        wp_bind, wp_read]
      refine ⟨⟨rfl, upTo_fst _ _ _⟩, ⟨rfl, upTo_fst _ _ _⟩, ⟨rfl, upTo_snd _ _ _⟩, ?_⟩
      cases b with
      | nil =>
        rw [hb.nil, if_neg ha.head.2]
        exact ⟨rfl, rfl⟩
      | cons d b =>
        rw [hb.head.1]
        by_cases hcd : c = d
        · rw [if_pos (congrArg UInt8.toNat hcd), ← hcd, common_cons]
          apply bytewise_weaken (ih ha.tail hb.tail (Nat.lt_of_succ_lt_succ hk))
            (fun _ => upTo_succ) fun _ => id
          rintro r m' ⟨hr, hm⟩
          rw [hr]
          exact ⟨by congr 1 <;> omega, hm⟩
        · rw [if_neg (mt UInt8.toNat_inj.mp hcd), common_ne hcd]
          exact ⟨rfl, rfl⟩

/-- The bytes where the strings first differ. -/
theorem load_common (ha : CStr m p a) (hb : CStr m q b) :
    (m.load 1 (p + common a b) : Int) - m.load 1 (q + common a b) = byteDiff a b := by
  induction a generalizing p q b with
  | nil =>
    have h0 : common [] b = 0 := by cases b <;> rfl
    rw [h0, Nat.add_zero, Nat.add_zero, ha.nil]
    cases b with
    | nil => rw [hb.nil]; rfl
    | cons d b => rw [hb.head.1]; exact Int.zero_sub _
  | cons c a ih =>
    cases b with
    | nil =>
      rw [show common (c :: a) [] = 0 from rfl, Nat.add_zero, Nat.add_zero, ha.head.1, hb.nil]
      exact Int.sub_zero _
    | cons d b =>
      by_cases hcd : c = d
      · have := ih ha.tail hb.tail
        rw [← hcd, common_cons, byteDiff, if_pos rfl, ← this]
        congr 3 <;> omega
      · rw [common_ne hcd, byteDiff, if_neg hcd, Nat.add_zero, Nat.add_zero, ha.head.1, hb.head.1]

theorem strcmp_run (ha : CStr m p a) (hb : CStr m q b) :
    Returns (Bytewise (upTo p q (common a b)) nowhere) (strcmp p q) m (byteDiff a b) := by
  unfold Returns strcmp
  rw [wp_bind]
  apply wp_mono (strcmpLoop_run ha hb ha.length_lt)
  rintro r m' ⟨rfl, rfl⟩
  have hin : ∀ x, x = p + common a b ∨ x = q + common a b → upTo p q (common a b) x :=
    fun x hx => ⟨_, Nat.le_refl _, hx⟩
  refine ⟨⟨rfl, hin _ (.inl rfl)⟩, ⟨rfl, hin _ (.inr rfl)⟩, load_common ha hb, rfl⟩

/-! ## `strncmp` -/

/-- The first `k` of the places. -/
def upToWithin (p q n k x : Nat) : Prop := ∃ i, i < n ∧ i ≤ k ∧ (x = p + i ∨ x = q + i)

theorem strncmpLoop_run {i : Nat} (ha : CStr m (p + i) a) (hb : CStr m (q + i) b) :
    Returns (Bytewise (upToWithin (p + i) (q + i) k (common a b)) nowhere) (strncmpLoop p q k i) m
      (byteDiff (a.take k) (b.take k)) := by
  unfold Returns
  induction k generalizing i a b with
  | zero => exact ⟨rfl, rfl⟩
  | succ k ih =>
    have hp : upToWithin (p + i) (q + i) (k + 1) (common a b) (p + i) :=
      ⟨0, by omega, by omega, .inl rfl⟩
    have hq : upToWithin (p + i) (q + i) (k + 1) (common a b) (q + i) :=
      ⟨0, by omega, by omega, .inr rfl⟩
    rw [strncmpLoop, wp_bind, wp_read, wp_bind, wp_read]
    refine ⟨⟨rfl, hp⟩, ⟨rfl, hq⟩, ?_⟩
    cases a with
    | nil =>
      cases b with
      | nil =>
        rw [ha.nil, hb.nil, if_neg (not_not.mpr rfl), wp_bind, wp_read, ha.nil]
        exact ⟨⟨rfl, hp⟩, rfl, rfl⟩
      | cons d b =>
        rw [ha.nil, hb.head.1, if_pos (Ne.symm hb.head.2), wp_bind, wp_read, wp_bind, wp_read,
          ha.nil, hb.head.1]
        exact ⟨⟨rfl, hp⟩, ⟨rfl, hq⟩, Int.zero_sub _, rfl⟩
    | cons c a =>
      cases b with
      | nil =>
        rw [ha.head.1, hb.nil, if_pos ha.head.2, wp_bind, wp_read, wp_bind, wp_read, ha.head.1,
          hb.nil]
        exact ⟨⟨rfl, hp⟩, ⟨rfl, hq⟩, Int.sub_zero _, rfl⟩
      | cons d b =>
        rw [ha.head.1, hb.head.1, List.take_succ_cons, List.take_succ_cons, byteDiff]
        by_cases hcd : c = d
        · rw [if_neg (not_not.mpr (congrArg UInt8.toNat hcd)), wp_bind, wp_read, ha.head.1,
            if_neg ha.head.2, if_pos hcd]
          refine ⟨⟨rfl, hp⟩, ?_⟩
          refine bytewise_weaken (ih ha.tail hb.tail) ?_ (fun _ => id) fun _ _ => id
          rintro y ⟨j, hj, hjc, hy⟩
          refine ⟨j + 1, Nat.succ_lt_succ hj, ?_, by omega⟩
          rw [hcd, common_cons]
          exact Nat.succ_le_succ hjc
        · rw [if_pos (mt UInt8.toNat_inj.mp hcd), wp_bind, wp_read, wp_bind, wp_read, ha.head.1,
            hb.head.1, if_neg hcd]
          exact ⟨⟨rfl, hp⟩, ⟨rfl, hq⟩, rfl, rfl⟩

theorem strncmp_run (ha : CStr m p a) (hb : CStr m q b) (n : Nat) :
    Returns (Bytewise (upToWithin p q n (common a b)) nowhere) (strncmp p q n) m
      (byteDiff (a.take n) (b.take n)) :=
  strncmpLoop_run (i := 0) ha hb

/-! ## The order -/

theorem byteDiff_swap (a b : List UInt8) : byteDiff b a = -byteDiff a b := by
  induction a generalizing b with
  | nil =>
    cases b with
    | nil => rfl
    | cons d b => exact (Int.neg_neg _).symm
  | cons c a ih =>
    cases b with
    | nil => rfl
    | cons d b =>
      rw [byteDiff, byteDiff]
      by_cases hcd : c = d
      · rw [if_pos hcd.symm, if_pos hcd, ih]
      · rw [if_neg (Ne.symm hcd), if_neg hcd, Int.neg_sub]

theorem byteDiff_neg_iff (hb : ∀ d ∈ b, d ≠ 0) : byteDiff a b < 0 ↔ a < b := by
  induction a generalizing b with
  | nil =>
    cases b with
    | nil => exact ⟨fun h => absurd h (Int.lt_irrefl 0), fun h => absurd h (List.not_lt_nil _)⟩
    | cons d b =>
      have hd : d.toNat ≠ 0 := mt byte_eq_zero.mp (hb d List.mem_cons_self)
      refine ⟨fun _ => List.nil_lt_cons d b, fun _ => ?_⟩
      rw [byteDiff]
      omega
  | cons c a ih =>
    cases b with
    | nil =>
      refine ⟨fun h => ?_, fun h => absurd h (List.not_lt_nil _)⟩
      rw [byteDiff] at h
      omega
    | cons d b =>
      rw [byteDiff, List.cons_lt_cons_iff]
      by_cases hcd : c = d
      · have hirr : ¬ c < d := by rw [hcd]; exact UInt8.lt_irrefl d
        rw [if_pos hcd, ih fun e he => hb e (List.mem_cons_of_mem d he)]
        exact ⟨fun h => .inr ⟨hcd, h⟩, fun h => (h.resolve_left hirr).2⟩
      · rw [if_neg hcd, UInt8.lt_iff_toNat_lt]
        constructor
        · intro h
          exact .inl (by omega)
        · rintro (h | h)
          · omega
          · exact absurd h.1 hcd

theorem byteDiff_eq_zero_iff (ha : ∀ c ∈ a, c ≠ 0) (hb : ∀ d ∈ b, d ≠ 0) : byteDiff a b = 0 ↔
    a = b := by
  induction a generalizing b with
  | nil =>
    cases b with
    | nil => exact ⟨fun _ => rfl, fun _ => rfl⟩
    | cons d b =>
      have hd : d.toNat ≠ 0 := mt byte_eq_zero.mp (hb d List.mem_cons_self)
      refine ⟨fun h => ?_, fun h => nomatch h⟩
      rw [byteDiff] at h
      omega
  | cons c a ih =>
    have hc : c.toNat ≠ 0 := mt byte_eq_zero.mp (ha c List.mem_cons_self)
    cases b with
    | nil =>
      refine ⟨fun h => ?_, fun h => nomatch h⟩
      rw [byteDiff] at h
      omega
    | cons d b =>
      rw [byteDiff, List.cons_eq_cons]
      by_cases hcd : c = d
      · rw [if_pos hcd, ih (fun e he => ha e (List.mem_cons_of_mem c he)) fun e he =>
          hb e (List.mem_cons_of_mem d he)]
        exact ⟨fun h => ⟨hcd, h⟩, fun h => h.2⟩
      · have hne : c.toNat ≠ d.toNat := mt UInt8.toNat_inj.mp hcd
        rw [if_neg hcd]
        exact ⟨fun h => absurd h (by omega), fun h => absurd h.1 hcd⟩

/-- `strcmp` of the strings `a` at `p` and `b` at `q` returns `r`: it reads no further than their
first difference or terminator, and `r` tells their order. -/
structure Compares (m : Mem) (p q : Nat) (a b : List UInt8) (r : Int) : Prop where
  run : Returns (Bytewise (upTo p q (common a b)) nowhere) (strcmp p q) m r
  below : r < 0 ↔ a < b
  same : r = 0 ↔ a = b
  above : 0 < r ↔ b < a

theorem strcmp_compares (ha : CStr m p a) (hb : CStr m q b) :
    Compares m p q a b (byteDiff a b) := by
  refine ⟨strcmp_run ha hb, byteDiff_neg_iff hb.nonzero, byteDiff_eq_zero_iff ha.nonzero hb.nonzero,
    ?_⟩
  rw [← byteDiff_neg_iff ha.nonzero, byteDiff_swap a b]
  omega

end

/-- **`strcmp` and `strncmp` compare by the one total order of byte strings.** -/
theorem string_comparison {m : Mem} {p q o : Nat} {a b c : List UInt8} (ha : CStr m p a)
    (hb : CStr m q b) (hc : CStr m o c) (n : Nat) :
    ∃ ab ba bc ac nab : Int,
      Compares m p q a b ab ∧ Compares m q p b a ba ∧ Compares m q o b c bc ∧
        Compares m p o a c ac ∧
        ba.sign = -ab.sign ∧ (ab < 0 → bc < 0 → ac < 0) ∧ (ab ≤ 0 → bc ≤ 0 → ac ≤ 0) ∧
        Returns (Bytewise (upToWithin p q n (common a b)) nowhere) (strncmp p q n) m nab ∧
        ∀ (m' : Mem) (p' q' : Nat), CStr m' p' (a.take n) → CStr m' q' (b.take n) →
          Returns (fun _ => True) (strcmp p' q') m' nab := by
  have hab := strcmp_compares ha hb
  have hbc := strcmp_compares hb hc
  have hac := strcmp_compares ha hc
  refine ⟨_, _, _, _, _, hab, strcmp_compares hb ha, hbc, hac, ?_, ?_, ?_, strncmp_run ha hb n, ?_⟩
  · rw [byteDiff_swap a b, Int.sign_neg]
  · intro h1 h2
    exact hac.below.mpr (List.lt_trans (hab.below.mp h1) (hbc.below.mp h2))
  · intro h1 h2
    rcases Int.lt_or_eq_of_le h1 with h1 | h1
    · rcases Int.lt_or_eq_of_le h2 with h2 | h2
      · exact Int.le_of_lt (hac.below.mpr (List.lt_trans (hab.below.mp h1) (hbc.below.mp h2)))
      · rw [← hbc.same.mp h2]
        exact Int.le_of_lt h1
    · rw [hab.same.mp h1]
      exact h2
  · intro m' p' q' ha' hb'
    exact wp_access (strcmp_run ha' hb') fun _ _ => trivial

/-- `"a"`, `"a\xff"` and the empty string, with one byte to compare. -/
theorem string_comparison_example :
    ∃ (m : Mem) (ab ba bc ac nab : Int),
      Compares m 16 32 [97] [97, 255] ab ∧ Compares m 32 16 [97, 255] [97] ba ∧
        Compares m 32 48 [97, 255] [] bc ∧
        Compares m 16 48 [97] [] ac ∧ ba.sign = -ab.sign ∧ (ab < 0 → bc < 0 → ac < 0) ∧
        (ab ≤ 0 → bc ≤ 0 → ac ≤ 0) ∧
        Returns (Bytewise (upToWithin 16 32 1 (common [97] [97, 255])) nowhere)
        (strncmp 16 32 1) m nab ∧
        ∀ (m' : Mem) (p' q' : Nat), CStr m' p' (List.take 1 [97]) →
        CStr m' q' (List.take 1 [97, 255]) →
          Returns (fun _ => True) (strcmp p' q') m' nab := by
  refine ⟨putBytes 32 ([97, 255] ++ [0]) (putBytes 16 ([97] ++ [0]) fun _ => 0), ?_⟩
  apply string_comparison
  · exact (CStr.put (by decide) (by decide) (nonzero_of_all rfl) _).putBytes (by decide)
  · exact CStr.put (by decide) (by decide) (nonzero_of_all rfl) _
  · exact ⟨by decide, by decide, fun i hi => absurd hi (Nat.not_lt_zero i), rfl, nonzero_of_all rfl⟩

end ZHyper
