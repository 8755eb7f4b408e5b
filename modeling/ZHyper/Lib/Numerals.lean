import Mathlib.Data.Nat.Digits.Lemmas

/-!
# Numerals

`numeral b n` writes `n` in base `b` with the characters `0` to `9` and `a` on, most significant
digit first and 0 as a single digit; `readDigits b` reads digits back, leading zeros or not.  A
program that writes digits from the last to the first meets `numeral_step` and, at the first,
`numeral_last`.
-/

namespace LowLevel

def digitChar (d : Nat) : UInt8 := if d < 10 then UInt8.ofNat (48 + d) else UInt8.ofNat (87 + d)

/-- The digit that a character stands for in base `b`. -/
def digitOf (b : Nat) (c : UInt8) : Option Nat :=
  if 48 ≤ c.toNat ∧ c.toNat ≤ 57 ∧ c.toNat - 48 < b then some (c.toNat - 48)
  else if 97 ≤ c.toNat ∧ c.toNat - 87 < b then some (c.toNat - 87)
  else none

/-- The number that digits behind those of `n` make. -/
def readFrom (b n : Nat) (ds : List UInt8) : Option Nat :=
  ds.foldlM (fun n c => (digitOf b c).map (n * b + ·)) n

def readDigits (b : Nat) (ds : List UInt8) : Option Nat := readFrom b 0 ds

def numeral (b n : Nat) : List UInt8 :=
  if n = 0 then [digitChar 0] else (b.digits n).reverse.map digitChar

variable {b n k : Nat}

theorem numeral_last (hb : 1 < b) (h : n / b = 0) : numeral b n = [digitChar (n % b)] := by
  have hlt : n < b := (Nat.div_eq_zero_iff_lt (Nat.zero_lt_of_lt hb)).mp h
  unfold numeral
  split
  · next h0 => rw [h0, Nat.zero_mod]
  · next h0 =>
    rw [Nat.digits_of_lt b n h0 hlt, Nat.mod_eq_of_lt hlt]
    rfl

theorem numeral_step (hb : 1 < b) (h : n / b ≠ 0) :
    numeral b n = numeral b (n / b) ++ [digitChar (n % b)] := by
  have h0 : n ≠ 0 := fun h0 => h (by rw [h0, Nat.zero_div])
  rw [numeral, numeral, if_neg h0, if_neg h, Nat.digits_def' hb (Nat.pos_of_ne_zero h0),
    List.reverse_cons, List.map_append]
  rfl

/-- **Induction** over the digits of a numeral, the first one last. -/
theorem numeral_induction {P : Nat → Prop} (hb : 1 < b) (hlast : ∀ n, n / b = 0 → P n)
    (hstep : ∀ n, n / b ≠ 0 → P (n / b) → P n) (n : Nat) : P n := by
  induction n using Nat.strongRecOn with
  | _ n ih =>
    by_cases h : n / b = 0
    · exact hlast n h
    · refine hstep n h (ih _ (Nat.div_lt_self ?_ hb))
      apply Nat.pos_of_ne_zero
      intro h0
      exact h (by rw [h0, Nat.zero_div])

theorem numeral_ne_nil (hb : 1 < b) (n : Nat) : numeral b n ≠ [] := by
  by_cases h : n / b = 0
  · rw [numeral_last hb h]
    exact List.cons_ne_nil _ _
  · rw [numeral_step hb h]
    exact List.append_ne_nil_of_right_ne_nil _ (List.cons_ne_nil _ _)

theorem length_numeral_pos (b : Nat) (hn : n ≠ 0) : (numeral b n).length = (b.digits n).length := by
  rw [numeral, if_neg hn, List.length_map, List.length_reverse]

theorem length_numeral_le (hb : 1 < b) (hk : 0 < k) (hn : n < b ^ k) :
    (numeral b n).length ≤ k := by
  by_cases h0 : n = 0
  · rw [h0]
    exact hk
  · rw [length_numeral_pos b h0]
    exact (Nat.digits_length_le_iff hb n).mpr hn

/-! ## Reading -/

theorem digitOf_digitChar (hb : b ≤ 16) {d : Nat} (hd : d < b) :
    digitOf b (digitChar d) = some d := by
  have hchar : (digitChar d).toNat = if d < 10 then 48 + d else 87 + d := by
    unfold digitChar
    split
    · rw [UInt8.toNat_ofNat', Nat.mod_eq_of_lt (by omega)]
    · rw [UInt8.toNat_ofNat', Nat.mod_eq_of_lt (by omega)]
  unfold digitOf
  rw [hchar]
  by_cases h10 : d < 10
  · rw [if_pos h10, if_pos (by omega), Nat.add_sub_cancel_left]
  · rw [if_neg h10, if_neg (by omega), if_pos (by omega), Nat.add_sub_cancel_left]

theorem readFrom_cons (b n : Nat) (c : UInt8) (ds : List UInt8) :
    readFrom b n (c :: ds) = (digitOf b c).bind fun d => readFrom b (n * b + d) ds := by
  unfold readFrom
  rw [List.foldlM_cons]
  cases digitOf b c <;> rfl

theorem readFrom_append (b n : Nat) (ds es : List UInt8) :
    readFrom b n (ds ++ es) = (readFrom b n ds).bind fun m => readFrom b m es := List.foldlM_append

theorem readFrom_zeros (hb : 0 < b) (k : Nat) :
    readFrom b 0 (List.replicate k (digitChar 0)) = some 0 := by
  have hzero : digitOf b (digitChar 0) = some 0 := if_pos ⟨by decide, by decide, hb⟩
  induction k with
  | zero => rfl
  | succ k ih =>
    rw [List.replicate_succ, readFrom_cons, hzero, Option.bind_some, Nat.zero_mul, Nat.add_zero, ih]

/-- **Reading a numeral gives the number.** -/
theorem readDigits_numeral (hb : 1 < b) (hb' : b ≤ 16) (n : Nat) :
    readDigits b (numeral b n) = some n := by
  unfold readDigits
  induction n using numeral_induction hb with
  | hlast n h =>
    have hmod : n % b = n := Nat.mod_eq_of_lt ((Nat.div_eq_zero_iff_lt (by omega)).mp h)
    have hlt : n < b := by rw [← hmod]; exact Nat.mod_lt n (by omega)
    rw [numeral_last hb h, hmod, readFrom_cons, digitOf_digitChar hb' hlt, Option.bind_some,
      Nat.zero_mul, Nat.zero_add]
    rfl
  | hstep n h ih =>
    rw [numeral_step hb h, readFrom_append, ih, Option.bind_some, readFrom_cons,
      digitOf_digitChar hb' (Nat.mod_lt n (by omega)), Option.bind_some, Nat.div_add_mod']
    rfl

/-- Zeros in front of a numeral do not count. -/
theorem readDigits_zeros_numeral (hb : 1 < b) (hb' : b ≤ 16) (k n : Nat) :
    readDigits b (List.replicate k (digitChar 0) ++ numeral b n) = some n := by
  unfold readDigits
  rw [readFrom_append, readFrom_zeros (by omega)]
  exact readDigits_numeral hb hb' n

/-- Every character of what can be read is a digit. -/
theorem digitOf_ne_none {ds : List UInt8} {m : Nat} (h : readFrom b m ds = some n) {c : UInt8}
    (hc : c ∈ ds) :
    digitOf b c ≠ none := by
  induction ds generalizing m with
  | nil => cases hc
  | cons d ds ih =>
    rw [readFrom_cons] at h
    cases hd : digitOf b d with
    | none =>
      rw [hd] at h
      cases h
    | some v =>
      rw [hd, Option.bind_some] at h
      rcases List.mem_cons.mp hc with rfl | hc
      · rw [hd]
        exact Option.some_ne_none v
      · exact ih h hc

/-- No leading zero but in 0 itself. -/
theorem numeral_head (hb : 1 < b) (hb' : b ≤ 16) (n : Nat) :
    numeral b n = [digitChar 0] ∨ (numeral b n).head? ≠ some (digitChar 0) := by
  induction n using numeral_induction hb with
  | hlast n h =>
    have hlt : n < b := (Nat.div_eq_zero_iff_lt (by omega)).mp h
    rw [numeral_last hb h, Nat.mod_eq_of_lt hlt]
    by_cases h0 : n = 0
    · rw [h0]
      exact .inl rfl
    · right
      intro hc
      have := congrArg (Option.map (digitOf b)) hc
      rw [List.head?_cons, Option.map_some, Option.map_some, digitOf_digitChar hb' hlt,
        digitOf_digitChar hb' (Nat.zero_lt_of_lt hb)] at this
      exact h0 (Option.some.inj (Option.some.inj this))
  | hstep n h ih =>
    right
    have hne := numeral_ne_nil hb (n / b)
    rw [numeral_step hb h, List.head?_append_of_ne_nil _ hne]
    rcases ih with h0 | h0
    · have := readDigits_numeral hb hb' (n / b)
      rw [h0] at this
      have hzero := readFrom_zeros (b := b) (Nat.zero_lt_of_lt hb) 1
      exact absurd (Option.some.inj (this.symm.trans hzero)) h
    · exact h0

/-! ## Signed numerals -/

/-- Digits, with a `-` in front or not. -/
def readInt (b : Nat) (s : List UInt8) : Option Int :=
  if s.head? = some 45 then
    if s.tail = [] then none else (readDigits b s.tail).map fun n => -(n : Int)
  else if s = [] then none
  else (readDigits b s).map fun n => (n : Int)

theorem digitOf_minus (b : Nat) : digitOf b 45 = none := by
  have hlo : ¬ 48 ≤ (45 : UInt8).toNat := by decide
  have hhi : ¬ 97 ≤ (45 : UInt8).toNat := by decide
  unfold digitOf
  rw [if_neg fun h => hlo h.1, if_neg fun h => hhi h.1]

theorem readInt_minus {s : List UInt8} (hs : s ≠ []) (h : readDigits b s = some n) :
    readInt b (45 :: s) = some (-(n : Int)) := by
  rw [readInt, List.head?_cons, if_pos rfl, List.tail_cons, if_neg hs, h]
  rfl

theorem readInt_digits {s : List UInt8} (hs : s ≠ []) (h : readDigits b s = some n) :
    readInt b s = some (n : Int) := by
  have hhead : s.head? ≠ some 45 := by
    intro hc
    exact digitOf_ne_none h (List.mem_of_head? hc) (digitOf_minus b)
  rw [readInt, if_neg hhead, if_neg hs, h]
  rfl

/-- A `-` that is not the first character is not read. -/
theorem readInt_inner_minus {c : UInt8} {s : List UInt8} (hc : c ≠ 45) (hs : 45 ∈ s) :
    readInt b (c :: s) = none := by
  rw [readInt, List.head?_cons, if_neg (mt Option.some.inj hc), if_neg (List.cons_ne_nil c s),
    Option.map_eq_none_iff]
  cases h : readDigits b (c :: s) with
  | none => rfl
  | some n => exact absurd (digitOf_minus b) (digitOf_ne_none h (List.mem_cons_of_mem c hs))

end LowLevel
