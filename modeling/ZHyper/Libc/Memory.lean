import ZHyper.Lib.Prog

/-!
# `string.c`: copying and filling memory

`memcpy` and `memset` go eight bytes at a time and do the rest one by one.  On ranges that do not
overlap `memcpy` leaves the bytes of the source at the destination, and every other byte as it was
(`memcpy_wp`); `memset` fills its range with the low byte of `c` (`memset_run`).  For pointers that
are multiples of 8 that is what the byte loops do, with aligned accesses only
(`memory_routines_bytewise`); for others the 64-bit accesses are misaligned
(`memory_routines_aligned_iff`).
-/

namespace ZHyper

open LowLevel LowLevel.Prog

/-- `for (; i < i + k; i++) d[i] = s[i];` with elements of `w` bytes. -/
def copyLoop (w dest src : Nat) : Nat → Nat → Prog Unit
  | 0, _ => pure ()
  | k + 1, i => do
    let v ← read w (src + w * i)
    write w (dest + w * i) v
    copyLoop w dest src k (i + 1)

def memcpy (dest src n : Nat) : Prog Nat := do
  let steps := n >>> 3
  copyLoop 8 dest src steps 0
  let remaining := n &&& 7
  copyLoop 1 (dest + 8 * steps) (src + 8 * steps) remaining 0
  return dest

/-- `m'` is `m` with the `n` bytes at `src` copied to `dest`. -/
structure Copied (dest src n : Nat) (m m' : Mem) : Prop where
  copied : ∀ i, i < n → m' (dest + i) = m (src + i)
  frame : ∀ x, x < dest ∨ dest + n ≤ x → m' x = m x

theorem Copied.nil (dest src : Nat) (m : Mem) : Copied dest src 0 m m :=
  ⟨fun i hi => absurd hi (Nat.not_lt_zero i), fun _ _ => rfl⟩

/-- Copies of neighbouring ranges make one copy. -/
theorem Copied.append {dest src n n' : Nat} {m m₁ m' : Mem} (h : Copied dest src n m m₁)
    (h' : Copied (dest + n) (src + n) n' m₁ m')
    (hapart : dest + (n + n') ≤ src ∨ src + (n + n') ≤ dest) : Copied dest src (n + n') m m' := by
  refine ⟨?_, ?_⟩
  · intro i hi
    by_cases hin : i < n
    · rw [h'.frame _ (by omega), h.copied i hin]
    · have hoff := h'.copied (i - n) (by omega)
      rw [show dest + n + (i - n) = dest + i by omega,
        show src + n + (i - n) = src + i by omega] at hoff
      rw [hoff, h.frame _ (by omega)]
  · intro x hx
    rw [h'.frame x (by omega), h.frame x (by omega)]

theorem copyLoop_run {P : Access → Prop} {w dest src : Nat} (k i : Nat) (m : Mem)
    (hP : ∀ j v, i ≤ j → j < i + k → P (.load w (src + w * j)) ∧ P (.store w (dest + w * j) v))
    (hapart : dest + w * (i + k) ≤ src ∨ src + w * (i + k) ≤ dest) :
    (copyLoop w dest src k i).wp P
      (fun _ m' => Copied (dest + w * i) (src + w * i) (w * k) m m') m := by
  induction k generalizing i m with
  | zero => exact Copied.nil _ _ m
  | succ k ih =>
    have hstep : w * (i + (k + 1)) = w * i + (w + w * k) := by
      rw [Nat.mul_add, Nat.mul_succ, Nat.add_comm w]
    have hnext : w * (i + 1 + k) = w * i + (w + w * k) := by rw [Nat.add_right_comm, ← hstep]; rfl
    rw [copyLoop, wp_bind, wp_read]
    refine ⟨(hP i 0 (Nat.le_refl i) (by omega)).1, ?_⟩
    rw [wp_bind, wp_write]
    refine ⟨(hP i _ (Nat.le_refl i) (by omega)).2, ?_⟩
    have hone : Copied (dest + w * i) (src + w * i) w m
        (m.store w (dest + w * i) (m.load w (src + w * i))) :=
      ⟨fun j hj => Mem.store_load_apply m hj _ _, fun x hx => Mem.store_apply_out hx⟩
    apply wp_mono (ih (i + 1) _ (fun j v h1 h2 =>
      hP j v (by omega) (by omega)) (by rw [hnext, ← hstep]; exact hapart))
    intro _ m' h
    have hi : w * (i + 1) = w * i + w := Nat.mul_succ w i
    rw [hi, ← Nat.add_assoc, ← Nat.add_assoc] at h
    have := hone.append h (by omega)
    rwa [Nat.mul_succ, Nat.add_comm (w * k)]

/-- Eight bytes at a time, and the rest. -/
theorem steps_remaining (n : Nat) : n = 8 * (n >>> 3) + (n &&& 7) := by
  rw [Nat.shiftRight_eq_div_pow, show 7 = 2 ^ 3 - 1 by rfl, Nat.and_two_pow_sub_one_eq_mod]
  omega

/-- **`memcpy` copies**, with the accesses of its two loops. -/
theorem memcpy_run {P : Access → Prop} {dest src n : Nat} (m : Mem)
    (hword : ∀ j v, j < n >>> 3 → P (.load 8 (src + 8 * j)) ∧ P (.store 8 (dest + 8 * j) v))
    (hbyte : ∀ x y v, P (.load 1 x) ∧ P (.store 1 y v)) (hapart : dest + n ≤ src ∨ src + n ≤ dest) :
    (memcpy dest src n).wp P (fun r m' => r = dest ∧ Copied dest src n m m') m := by
  have hn := steps_remaining n
  have hz : ∀ k, 0 + k = k := Nat.zero_add
  unfold memcpy
  rw [wp_bind]
  apply wp_mono (copyLoop_run (n >>> 3) 0 m (fun j v _ hj =>
    hword j v (by omega)) (by rw [hz]; omega))
  intro _ m₁ h₁
  rw [wp_bind]
  apply wp_mono (copyLoop_run (n &&& 7) 0 m₁ (fun j v _ _ => hbyte _ _ v) (by rw [hz]; omega))
  intro _ m' h'
  rw [Nat.mul_zero, Nat.add_zero, Nat.add_zero] at h₁ h'
  rw [Nat.one_mul] at h'
  refine ⟨rfl, ?_⟩
  rw [hn]
  exact h₁.append h' (by omega)

theorem memcpy_wp {dest src n : Nat} (m : Mem) (hapart : dest + n ≤ src ∨ src + n ≤ dest) :
    (memcpy dest src n).wp (fun _ => True) (fun r m' => r = dest ∧ Copied dest src n m m') m :=
  memcpy_run m (fun _ _ _ => ⟨trivial, trivial⟩) (fun _ _ _ => ⟨trivial, trivial⟩) hapart

/-! ## `memset` -/

/-- `for (; i < i + k; i++) s[i] = v;` with elements of `w` bytes. -/
def fillLoop (w s v : Nat) : Nat → Nat → Prog Unit
  | 0, _ => pure ()
  | k + 1, i => do
    write w (s + w * i) v
    fillLoop w s v k (i + 1)

/-- `word_c` -/
def wordOfByte (byteC : Nat) : Nat :=
  byteC <<< 56 ||| byteC <<< 48 ||| byteC <<< 40 ||| byteC <<< 32 |||
    byteC <<< 24 ||| byteC <<< 16 ||| byteC <<< 8 ||| byteC

def memset (s : Nat) (c : Int) (n : Nat) : Prog Nat := do
  let steps := n >>> 3
  let byteC := (c % 256).toNat
  fillLoop 8 s (wordOfByte byteC) steps 0
  let remaining := n &&& 7
  fillLoop 1 (s + 8 * steps) byteC remaining 0
  return s

/-- `m'` is `m` with `b` in the `n` bytes at `s`. -/
structure Filled (s n : Nat) (b : UInt8) (m m' : Mem) : Prop where
  filled : ∀ i, i < n → m' (s + i) = b
  frame : ∀ x, x < s ∨ s + n ≤ x → m' x = m x

section

variable {s n n' w k i v : Nat} {b : UInt8} {m m₁ m' : Mem} {P : Access → Prop}

theorem Filled.nil (s : Nat) (b : UInt8) (m : Mem) : Filled s 0 b m m :=
  ⟨fun i hi => absurd hi (Nat.not_lt_zero i), fun _ _ => rfl⟩

theorem Filled.append (h : Filled s n b m m₁) (h' : Filled (s + n) n' b m₁ m') :
    Filled s (n + n') b m m' := by
  refine ⟨?_, ?_⟩
  · intro i hi
    by_cases hin : i < n
    · rw [h'.frame _ (by omega), h.filled i hin]
    · have hoff := h'.filled (i - n) (by omega)
      rwa [show s + n + (i - n) = s + i by omega] at hoff
  · intro x hx
    rw [h'.frame x (by omega), h.frame x (by omega)]

/-- A loop that stores a value all of whose `w` bytes are `b`. -/
theorem fillLoop_run (hv : ∀ j, j < w → UInt8.ofNat (v / 256 ^ j) = b) (k i : Nat) (m : Mem)
    (hP : ∀ j, i ≤ j → j < i + k → P (.store w (s + w * j) v)) :
    (fillLoop w s v k i).wp P (fun _ m' => Filled (s + w * i) (w * k) b m m') m := by
  induction k generalizing i m with
  | zero => exact Filled.nil _ _ m
  | succ k ih =>
    rw [fillLoop, wp_bind, wp_write]
    refine ⟨hP i (Nat.le_refl i) (by omega), ?_⟩
    have hone : Filled (s + w * i) w b m (m.store w (s + w * i) v) :=
      ⟨fun j hj => (Mem.store_apply_in hj).trans (hv j hj), fun x hx => Mem.store_apply_out hx⟩
    apply wp_mono (ih (i + 1) _ fun j h1 h2 => hP j (by omega) (by omega))
    intro _ m' h
    have hi : w * (i + 1) = w * i + w := Nat.mul_succ w i
    rw [hi, ← Nat.add_assoc] at h
    rw [Nat.mul_succ, Nat.add_comm (w * k)]
    exact hone.append h

/-- Every byte of `word_c` is the byte. -/
theorem wordOfByte_byte {c j : Nat} (hc : c < 256) (hj : j < 8) :
    UInt8.ofNat (wordOfByte c / 256 ^ j) = UInt8.ofNat c := by
  have hall : ∀ c < 256, ∀ j < 8, wordOfByte c / 256 ^ j % 256 = c := by decide +kernel
  apply UInt8.toNat_inj.mp
  rw [UInt8.toNat_ofNat', UInt8.toNat_ofNat', Nat.mod_eq_of_lt hc]
  exact hall c hc j hj

/-- **`memset` fills**, with the accesses of its two loops. -/
theorem memset_run {c : Int} (m : Mem) (hword : ∀ j v, j < n >>> 3 → P (.store 8 (s + 8 * j) v))
    (hbyte : ∀ x v, P (.store 1 x v)) :
    (memset s c n).wp P (fun r m' => r = s ∧ Filled s n (UInt8.ofNat (c % 256).toNat) m m') m := by
  unfold memset
  rw [wp_bind]
  apply wp_mono (fillLoop_run (b := UInt8.ofNat (c % 256).toNat) ?_ (n >>> 3) 0 m fun j _ hj =>
    hword j _ (by omega))
  · intro _ m₁ h₁
    rw [wp_bind]
    apply wp_mono (fillLoop_run (b := UInt8.ofNat (c % 256).toNat) ?_ (n &&& 7) 0 m₁ fun j _ _ =>
      hbyte _ _)
    · intro _ m' h'
      rw [Nat.mul_zero, Nat.add_zero] at h₁ h'
      rw [Nat.one_mul] at h'
      refine ⟨rfl, ?_⟩
      rw [steps_remaining n]
      exact h₁.append h'
    · intro j hj
      rw [Nat.lt_one_iff.mp hj, Nat.pow_zero, Nat.div_one]
  · intro j hj
    exact wordOfByte_byte (by omega) hj

end

/-! ## Alignment -/

/-- An access of `w` bytes at a multiple of `w`. -/
def Aligned : Access → Prop
  | .load w a => w ∣ a
  | .store w a _ => w ∣ a

section

variable {dest src s n : Nat}

theorem aligned_words (hd : 8 ∣ dest) (hs : 8 ∣ src) (j v : Nat) :
    Aligned (.load 8 (src + 8 * j)) ∧ Aligned (.store 8 (dest + 8 * j) v) :=
  ⟨Nat.dvd_add hs (Nat.dvd_mul_right 8 j), Nat.dvd_add hd (Nat.dvd_mul_right 8 j)⟩

theorem aligned_bytes (x y v : Nat) : Aligned (.load 1 x) ∧ Aligned (.store 1 y v) :=
  ⟨Nat.one_dvd x, Nat.one_dvd y⟩

/-- The accesses of the loop alone, wherever the ranges are. -/
theorem copyLoop_accesses {P : Access → Prop} {w : Nat} (k i : Nat) (m : Mem)
    (hP : ∀ j v, i ≤ j → j < i + k → P (.load w (src + w * j)) ∧ P (.store w (dest + w * j) v)) :
    (copyLoop w dest src k i).wp P (fun _ _ => True) m := by
  induction k generalizing i m with
  | zero => exact trivial
  | succ k ih =>
    rw [copyLoop, wp_bind, wp_read]
    refine ⟨(hP i 0 (Nat.le_refl i) (by omega)).1, ?_⟩
    rw [wp_bind, wp_write]
    refine ⟨(hP i _ (Nat.le_refl i) (by omega)).2, ?_⟩
    exact ih (i + 1) _ fun j v h1 h2 => hP j v (by omega) (by omega)

theorem memcpy_aligned (m : Mem) (h : n < 8 ∨ 8 ∣ dest ∧ 8 ∣ src) :
    (memcpy dest src n).wp Aligned (fun _ _ => True) m := by
  have hn := steps_remaining n
  unfold memcpy
  rw [wp_bind]
  apply wp_mono (copyLoop_accesses (n >>> 3) 0 m ?_)
  · intro _ m₁ _
    rw [wp_bind]
    apply wp_mono (copyLoop_accesses (n &&& 7) 0 m₁ fun _ v _ _ => aligned_bytes _ _ v)
    intro _ _ _
    trivial
  · intro j v _ hj
    obtain ⟨hd, hs⟩ := h.resolve_left (by omega)
    exact aligned_words hd hs j v

theorem memset_aligned {c : Int} (m : Mem) (h : n < 8 ∨ 8 ∣ s) :
    (memset s c n).wp Aligned (fun r m' => r = s ∧
      Filled s n (UInt8.ofNat (c % 256).toNat) m m') m := by
  have hn := steps_remaining n
  apply memset_run m
  · intro j v hj
    exact (aligned_words (h.resolve_left (by omega)) (Nat.dvd_zero 8) j v).2
  · intro x v
    exact (aligned_bytes 0 x v).2

/-- A call with whole words to copy starts with a word at each pointer. -/
theorem aligned_of_memcpy {m : Mem} (hn : 8 ≤ n)
    (h : (memcpy dest src n).wp Aligned (fun _ _ => True) m) :
    8 ∣ dest ∧ 8 ∣ src := by
  have hsteps := steps_remaining n
  have hlast : n &&& 7 ≤ 7 := Nat.and_le_right
  obtain ⟨k, hk⟩ : ∃ k, n >>> 3 = k + 1 := ⟨n >>> 3 - 1, by omega⟩
  simp only [memcpy, hk, copyLoop, wp_bind, wp_read, wp_write] at h
  exact ⟨h.2.1, h.1⟩

theorem aligned_of_memset {m : Mem} {c : Int} (hn : 8 ≤ n)
    (h : (memset s c n).wp Aligned (fun _ _ => True) m) : 8 ∣ s := by
  have hsteps := steps_remaining n
  have hlast : n &&& 7 ≤ 7 := Nat.and_le_right
  obtain ⟨k, hk⟩ : ∃ k, n >>> 3 = k + 1 := ⟨n >>> 3 - 1, by omega⟩
  simp only [memset, hk, fillLoop, wp_bind, wp_write] at h
  exact h.1

end

/-- **`memcpy` and `memset` access memory aligned just when there is no whole word to go, or the
pointers are multiples of 8.** -/
theorem memory_routines_aligned_iff (dest src s n : Nat) (c : Int) (m : Mem) :
    ((memcpy dest src n).wp Aligned (fun _ _ => True) m ↔ n < 8 ∨ 8 ∣ dest ∧ 8 ∣ src) ∧
      ((memset s c n).wp Aligned (fun _ _ => True) m ↔ n < 8 ∨ 8 ∣ s) := by
  refine ⟨⟨?_, memcpy_aligned m⟩, ⟨?_, fun h => wp_mono (memset_aligned m h) fun _ _ _ => trivial⟩⟩
  · intro h
    by_cases hn : n < 8
    · exact .inl hn
    · exact .inr (aligned_of_memcpy (by omega) h)
  · intro h
    by_cases hn : n < 8
    · exact .inl hn
    · exact .inr (aligned_of_memset (by omega) h)

/-- `memcpy` of a word to an odd address. -/
theorem memcpy_misaligned : ¬ (memcpy 4097 8192 8).wp Aligned (fun _ _ => True) fun _ => 0 := by
  intro h
  exact absurd (aligned_of_memcpy (Nat.le_refl 8) h).1 (by decide)

/-! ## The byte loops -/

/-- What `for (i = 0; i < n; i++) dest[i] = src[i];` leaves of ranges that do not overlap. -/
def copyBytes (dest src n : Nat) (m : Mem) : Mem := fun x =>
  if dest ≤ x ∧ x < dest + n then m (src + (x - dest)) else m x

/-- What `for (i = 0; i < n; i++) s[i] = b;` leaves. -/
def fillBytes (s n : Nat) (b : UInt8) (m : Mem) : Mem := fun x =>
  if s ≤ x ∧ x < s + n then b else m x

theorem Copied.eq {dest src n : Nat} {m m' : Mem} (h : Copied dest src n m m') :
    m' = copyBytes dest src n m := by
  funext x
  unfold copyBytes
  split
  · next hx =>
    rw [← h.copied (x - dest) (by omega)]
    congr 1
    omega
  · exact h.frame x (by omega)

theorem Filled.eq {s n : Nat} {b : UInt8} {m m' : Mem} (h : Filled s n b m m') :
    m' = fillBytes s n b m := by
  funext x
  unfold fillBytes
  split
  · next hx =>
    rw [← h.filled (x - s) (by omega)]
    congr 1
    omega
  · exact h.frame x (by omega)

/-- **The word-wise routines do what the byte-wise ones do.** -/
theorem memory_routines_bytewise (dest src s n : Nat) (c : Int) (m : Mem) (hd : 8 ∣ dest)
    (hs : 8 ∣ src) (ht : 8 ∣ s) (hapart : dest + n ≤ src ∨ src + n ≤ dest) :
    (memcpy dest src n).wp Aligned (fun r m' => r = dest ∧ m' = copyBytes dest src n m) m ∧
      (memset s c n).wp Aligned (fun r m' => r = s ∧
        m' = fillBytes s n (UInt8.ofNat (c % 256).toNat) m) m := by
  constructor
  · apply wp_mono (memcpy_run m (fun j v _ => aligned_words hd hs j v) aligned_bytes hapart)
    rintro r m' ⟨hr, h⟩
    exact ⟨hr, h.eq⟩
  · apply wp_mono (memset_aligned m (.inr ht))
    rintro r m' ⟨hr, h⟩
    exact ⟨hr, h.eq⟩

/-- One word and five bytes, and -1 for `c`. -/
theorem memory_routines_bytewise_example :
    (memcpy 64 128 13).wp Aligned (fun r m' => r = 64 ∧ m' = copyBytes 64 128 13 fun x =>
      UInt8.ofNat x)
        (fun x => UInt8.ofNat x) ∧
      (memset 192 (-1) 13).wp Aligned (fun r m' => r = 192 ∧ m' = fillBytes 192 13 255 fun x =>
        UInt8.ofNat x)
        fun x => UInt8.ofNat x :=
  memory_routines_bytewise 64 128 192 13 (-1) (fun x => UInt8.ofNat x) (by decide) (by decide)
    (by decide)
    (.inl (by decide))

end ZHyper
