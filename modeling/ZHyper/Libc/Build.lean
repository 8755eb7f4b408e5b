import ZHyper.Libc.Strings

/-!
# `strcpy`, `strncpy`, `strcat` and `strncat`

The loops put the bytes of the source one behind the other: what they leave is `putBytes` of a
prefix of the source, with a terminator or the zeros behind it.
-/

namespace ZHyper

open LowLevel LowLevel.Prog

/-- The places from `p` to `p + k`. -/
def span (p k x : Nat) : Prop := p ≤ x ∧ x ≤ p + k

section

variable {m : Mem} {d p q k n : Nat} {a s : List UInt8} {c : UInt8}

theorem span_succ {x : Nat} (h : span (p + 1) k x) : span p (k + 1) x := by
  unfold span at *
  omega

/-- A byte put clear of a string leaves what is behind the string's head. -/
theorem tail_store (h : CStr m q (c :: s)) (hapart : d < q ∨ q + s.length + 1 < d) :
    CStr (m.store 1 d c.toNat) (q + 1) s := by
  rw [store_eq_putBytes]
  apply h.tail.putBytes
  rw [List.length_singleton]
  omega

/-- A byte and what is put behind it. -/
theorem putBytes_store (m : Mem) (p : Nat) (c : UInt8) (a : List UInt8) :
    putBytes (p + 1) a (m.store 1 p c.toNat) = putBytes p (c :: a) m := by
  rw [store_eq_putBytes]
  exact putBytes_append p [c] a m

/-! ## The loops -/

theorem strcpyLoop_run (hs : CStr m q s) (hapart : Apart d (s.length + 1) q (s.length + 1))
    (hk : s.length < k) :
    (strcpyLoop k d q).wp (Bytewise (span q s.length) (span d s.length))
      (fun _ m' => m' = putBytes d (s ++ [0]) m) m := by
  induction s generalizing d q k m with
  | nil =>
    cases k with
    | zero => cases hk
    | succ k =>
      rw [strcpyLoop, wp_bind, wp_read, hs.nil, wp_bind, wp_write]
      exact ⟨⟨rfl, Nat.le_refl q, Nat.le_refl q⟩, ⟨rfl, Nat.le_refl d, Nat.le_refl d⟩,
        store_eq_putBytes m d 0⟩
  | cons c s ih =>
    cases k with
    | zero => cases hk
    | succ k =>
      have hclear := hapart.cases (Nat.succ_pos _)
      rw [List.length_cons] at hclear hapart hk
      rw [strcpyLoop, wp_bind, wp_read, hs.head.1, wp_bind, wp_write, if_neg hs.head.2]
      refine ⟨⟨rfl, Nat.le_refl q, Nat.le_add_right _ _⟩,
        ⟨rfl, Nat.le_refl d, Nat.le_add_right _ _⟩, ?_⟩
      have htail : CStr (m.store 1 d c.toNat) (q + 1) s := tail_store hs (by omega)
      have hrest : Apart (d + 1) (s.length + 1) (q + 1) (s.length + 1) :=
        hapart.mono (by omega) (by omega) (by omega) (by omega)
      apply bytewise_weaken (ih htail hrest (Nat.lt_of_succ_lt_succ hk))
        (fun _ => span_succ) fun _ => span_succ
      intro _ m' hm
      rw [hm, putBytes_store]
      rfl

theorem strncpyLoop_run {i : Nat} (hs : CStr m (q + i) s)
    (hapart : Apart (d + i) (min k s.length) (q + i) (s.length + 1)) :
    (strncpyLoop d q k i).wp
      (Bytewise (span (q + i) s.length) (fun x => d + i ≤ x ∧ x < d + i + min k s.length))
      (fun r m' => r = i + min k s.length ∧ m' = putBytes (d + i) (s.take k) m) m := by
  induction k generalizing i m s with
  | zero =>
    rw [Nat.zero_min, List.take_zero, putBytes_nil]
    exact ⟨rfl, rfl⟩
  | succ k ih =>
    cases s with
    | nil =>
      rw [strncpyLoop, wp_bind, wp_read, hs.nil, List.take_nil, putBytes_nil]
      exact ⟨⟨rfl, Nat.le_refl _, Nat.le_refl _⟩, rfl, rfl⟩
    | cons c s =>
      have hmin : min (k + 1) (c :: s).length = min k s.length + 1 := Nat.succ_min_succ k s.length
      rw [hmin] at hapart ⊢
      have hclear := hapart.cases (Nat.succ_pos _)
      rw [List.length_cons] at hclear hapart
      have hq : span (q + i) (c :: s).length (q + i) := ⟨Nat.le_refl _, Nat.le_add_right _ _⟩
      rw [strncpyLoop, wp_bind, wp_read, hs.head.1, if_neg hs.head.2, wp_bind, wp_read, hs.head.1,
        wp_bind, wp_write]
      refine ⟨⟨rfl, hq⟩, ⟨rfl, hq⟩, ⟨rfl, Nat.le_refl _, by omega⟩, ?_⟩
      have hbyte : d + i < q + i ∨ q + i + s.length + 1 < d + i := by omega
      have htail : CStr (m.store 1 (d + i) c.toNat) (q + (i + 1)) s := tail_store hs hbyte
      have hrest : Apart (d + (i + 1)) (min k s.length) (q + (i + 1)) (s.length + 1) :=
        hapart.mono (by omega) (by omega) (by omega) (by omega)
      refine bytewise_weaken (ih htail hrest) (fun _ => span_succ) ?_ ?_
      · intro y hy
        omega
      · rintro r m' ⟨hr, hm⟩
        refine ⟨by omega, ?_⟩
        rw [hm, List.take_succ_cons, ← putBytes_store]
        rfl

/-- Where the string ends. -/
theorem strend_run (ha : CStr m p a) (hk : a.length < k) :
    Returns (Bytewise (span p a.length) nowhere) (strend k p) m (p + a.length) := by
  unfold Returns
  induction a generalizing p k with
  | nil =>
    cases k with
    | zero => cases hk
    | succ k =>
      rw [strend, wp_bind, wp_read, ha.nil]
      exact ⟨⟨rfl, Nat.le_refl p, Nat.le_refl p⟩, rfl, rfl⟩
  | cons c a ih =>
    cases k with
    | zero => cases hk
    | succ k =>
      rw [strend, wp_bind, wp_read, ha.head.1, if_neg ha.head.2]
      refine ⟨⟨rfl, Nat.le_refl p, Nat.le_add_right _ _⟩, ?_⟩
      apply bytewise_weaken (ih ha.tail (Nat.lt_of_succ_lt_succ hk)) (fun _ => span_succ) fun _ =>
        id
      rintro r m' ⟨hr, hm⟩
      refine ⟨?_, hm⟩
      rw [hr, List.length_cons]
      omega

theorem fillBytes_eq (p k : Nat) (c : UInt8) (m : Mem) :
    fillBytes p k c m = putBytes p (List.replicate k c) m := by
  funext x
  by_cases hx : p ≤ x ∧ x < p + k
  · obtain ⟨i, rfl⟩ : ∃ i, x = p + i := ⟨x - p, by omega⟩
    rw [fillBytes, if_pos hx, putBytes_in (by rw [List.length_replicate]; omega),
      List.getElem_replicate]
  · rw [fillBytes, if_neg hx, putBytes_out (by rw [List.length_replicate]; omega)]

/-! ## The functions -/

theorem strcpy_run (hs : CStr m q s) (hapart : Apart d (s.length + 1) q (s.length + 1)) :
    (strcpy d q).wp (Bytewise (span q s.length) (span d s.length))
      (fun r m' => r = d ∧ m' = putBytes d (s ++ [0]) m) m := by
  unfold strcpy
  rw [wp_bind]
  apply wp_mono (strcpyLoop_run hs hapart hs.length_lt)
  intro _ m' hm
  exact ⟨rfl, hm⟩

theorem strncpy_run (hs : CStr m q s) (hapart : Apart d n q (s.length + 1)) :
    (strncpy d q n).wp (Bytewise (span q s.length) (fun x => d ≤ x ∧ x < d + n))
      (fun r m' => r = d ∧ m' = putBytes d (s.take n ++ List.replicate (n - s.length) 0) m) m := by
  have hlen : (s.take n).length = min n s.length := List.length_take
  have hmin : min n s.length ≤ n := Nat.min_le_left _ _
  unfold strncpy
  rw [wp_bind]
  have hcopied : Apart d (min n s.length) q (s.length + 1) :=
    hapart.mono (Nat.le_refl d) (by omega) (Nat.le_refl q) (Nat.le_refl _)
  refine bytewise_weaken (strncpyLoop_run (i := 0) hs hcopied) (fun _ => id) ?_ ?_
  · intro y hy
    omega
  · rintro i m₁ ⟨hi, rfl⟩
    rw [Nat.zero_add] at hi
    have hzero : ∀ j, j < 1 → UInt8.ofNat (0 / 256 ^ j) = 0 := fun j _ => by rw [Nat.zero_div]; rfl
    rw [wp_bind]
    apply wp_mono (fillLoop_run hzero (n - i) i _ ?_)
    · intro _ m' h'
      rw [Nat.one_mul, Nat.one_mul] at h'
      refine ⟨rfl, ?_⟩
      rw [h'.eq, fillBytes_eq, hi, ← hlen, Nat.add_zero, putBytes_append]
      congr 3
      omega
    · intro j h1 h2
      exact ⟨rfl, by omega, by omega⟩

theorem strcat_run (ha : CStr m d a) (hs : CStr m q s)
    (hapart : Apart d (a.length + s.length + 1) q (s.length + 1)) :
    (strcat d q).wp
      (Bytewise (fun x => span q s.length x ∨ span d a.length x) (span (d + a.length) s.length))
      (fun r m' => r = d ∧ m' = putBytes (d + a.length) (s ++ [0]) m) m := by
  unfold strcat
  rw [wp_bind]
  apply bytewise_weaken (strend_run ha ha.length_lt) (fun _ => .inr) fun _ => False.elim
  rintro e m₁ ⟨rfl, rfl⟩
  rw [wp_bind]
  have hbehind : Apart (d + a.length) (s.length + 1) q (s.length + 1) :=
    hapart.mono (by omega) (by omega) (Nat.le_refl q) (Nat.le_refl _)
  apply bytewise_weaken (strcpyLoop_run hs hbehind hs.length_lt) (fun _ => .inl) fun _ => id
  intro _ m' hm
  exact ⟨rfl, hm⟩

theorem strncat_run (ha : CStr m d a) (hs : CStr m q s)
    (hapart : Apart d (a.length + min n s.length + 1) q (s.length + 1)) :
    (strncat d q n).wp
      (Bytewise (fun x => span q s.length x ∨ span d a.length x)
        (span (d + a.length) (min n s.length)))
      (fun r m' => r = d ∧ m' = putBytes (d + a.length) (s.take n ++ [0]) m) m := by
  have hlen : (s.take n).length = min n s.length := List.length_take
  unfold strncat
  rw [wp_bind]
  apply bytewise_weaken (strend_run ha ha.length_lt) (fun _ => .inr) fun _ => False.elim
  rintro e m₁ ⟨rfl, rfl⟩
  rw [wp_bind]
  have hbehind : Apart (d + a.length) (min n s.length) q (s.length + 1) :=
    hapart.mono (by omega) (by omega) (Nat.le_refl q) (Nat.le_refl _)
  refine bytewise_weaken (strncpyLoop_run (i := 0) hs hbehind) (fun _ => .inl) ?_ ?_
  · intro y hy
    have hin : d + a.length ≤ y ∧ y < d + a.length + min n s.length := hy
    exact ⟨hin.1, by omega⟩
  · rintro i m₂ ⟨hi, rfl⟩
    rw [wp_bind, wp_write, hi, Nat.zero_add]
    refine ⟨⟨rfl, Nat.le_add_right _ _, Nat.le_refl _⟩, rfl, ?_⟩
    rw [← hlen]
    exact (store_eq_putBytes _ _ 0).trans (putBytes_append _ _ _ _)

end

/-- `prog` returns `r` and leaves `m'`, storing single bytes in `W` only. -/
def Leaves (W : Nat → Prop) (prog : Prog Nat) (m : Mem) (r : Nat) (m' : Mem) : Prop :=
  prog.wp (Bytewise (fun _ => True) W) (fun v n => v = r ∧ n = m') m

theorem Leaves.of {R W : Nat → Prop} {prog : Prog Nat} {m m' : Mem} {r : Nat}
    (h : prog.wp (Bytewise R W) (fun v n => v = r ∧ n = m') m) : Leaves W prog m r m' :=
  bytewise_weaken h (fun _ _ => trivial) (fun _ => id) fun _ _ => id

/-- **The string builders write what they should, where they should.** -/
theorem string_builders {m : Mem} {dest src : Nat} {s : List UInt8} (hs : CStr m src s) (n : Nat) :
    (Apart dest n src (s.length + 1) →
      Leaves (fun x => dest ≤ x ∧ x < dest + n) (strncpy dest src n) m dest
        (putBytes dest (s.take n ++ List.replicate (n - s.length) 0) m)) ∧
    (Apart dest (s.length + 1) src (s.length + 1) → ∃ m',
      Leaves (span dest s.length) (strcpy dest src) m dest m' ∧
        Leaves (fun x => dest ≤ x ∧ x < dest + (s.length + 1))
          (strncpy dest src (s.length + 1)) m dest m') ∧
    ∀ d, CStr m dest d →
      (Apart dest (d.length + min n s.length + 1) src (s.length + 1) →
        dest + (d.length + min n s.length) < 2 ^ 64 →
        ∃ m', Leaves (span (dest + d.length) (min n s.length)) (strncat dest src n) m dest m' ∧
          m' = putBytes (dest + d.length) (s.take n ++ [0]) m ∧ CStr m' dest (d ++ s.take n)) ∧
      (Apart dest (d.length + s.length + 1) src (s.length + 1) → s.length ≤ n → ∃ m',
        Leaves (span (dest + d.length) s.length) (strcat dest src) m dest m' ∧
          Leaves (span (dest + d.length) s.length) (strncat dest src n) m dest m') := by
  have hlen : (s.take n).length = min n s.length := List.length_take
  refine ⟨?_, ?_, ?_⟩
  · intro hapart
    exact .of (strncpy_run hs hapart)
  · intro hapart
    refine ⟨putBytes dest (s ++ [0]) m, Leaves.of (strcpy_run hs hapart), ?_⟩
    have hrun := strncpy_run (n := s.length + 1) hs hapart
    rw [List.take_of_length_le (Nat.le_succ _), Nat.add_sub_cancel_left] at hrun
    exact .of hrun
  · intro d hd
    constructor
    · intro hapart hfits
      refine ⟨_, Leaves.of (strncat_run hd hs hapart), rfl, ?_⟩
      refine hd.append ?_ (by omega)
      intro c hc
      exact hs.nonzero c (List.mem_of_mem_take hc)
    · intro hapart hn
      refine ⟨_, Leaves.of (strcat_run hd hs hapart), ?_⟩
      have hrun := strncat_run (n := n) hd hs (by rwa [Nat.min_eq_right hn])
      rw [Nat.min_eq_right hn, List.take_of_length_le hn] at hrun
      exact .of hrun

/-- `"bc"` behind `"a"`, one byte of it and all of it. -/
theorem string_builders_example :
    ∃ m : Mem,
      Leaves (fun x => 16 ≤ x ∧ x < 16 + 1) (strncpy 16 32 1) m 16 (putBytes 16 [98] m) ∧
        (∃ m', Leaves (span 16 2) (strcpy 16 32) m 16 m' ∧
          Leaves (fun x => 16 ≤ x ∧ x < 16 + 3) (strncpy 16 32 3) m 16 m') ∧
        (∃ m', Leaves (span 17 1) (strncat 16 32 1) m 16 m' ∧ m' = putBytes 17 [98, 0] m ∧
          CStr m' 16 [97, 98]) ∧
        ∃ m', Leaves (span 17 2) (strcat 16 32) m 16 m' ∧
          Leaves (span 17 2) (strncat 16 32 9) m 16 m' := by
  refine ⟨putBytes 32 ([98, 99] ++ [0]) (putBytes 16 ([97] ++ [0]) fun _ => 0), ?_⟩
  generalize hm : putBytes 32 ([98, 99] ++ [0]) (putBytes 16 ([97] ++ [0]) fun _ => 0) = m
  have hd : CStr m 16 [97] := by
    rw [← hm]
    exact (CStr.put (by decide) (by decide) (nonzero_of_all rfl) _).putBytes (by decide)
  have hs : CStr m 32 [98, 99] := by
    rw [← hm]
    exact CStr.put (by decide) (by decide) (nonzero_of_all rfl) _
  have hapart : ∀ k, k ≤ 16 → Apart 16 k 32 3 := fun k hk x _ _ _ _ => by omega
  obtain ⟨hncpy, hcpy, hcat⟩ := string_builders hs 1
  refine ⟨hncpy (hapart 1 (by decide)), hcpy (hapart 3 (by decide)), ?_, ?_⟩
  · exact (hcat [97] hd).1 (hapart 3 (by decide)) (by decide)
  · exact ((string_builders hs 9).2.2 [97] hd).2 (hapart 4 (by decide)) (by decide)

end ZHyper
