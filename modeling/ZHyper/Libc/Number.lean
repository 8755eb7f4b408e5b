import ZHyper.Lib.CStrings
import ZHyper.Lib.Numerals
import ZHyper.Libc.Printf
import Mathlib.Tactic.Basic

/-!
# `print64` renders numbers exactly

The buffer holds a string that grows to the left (`Holds`); the digit loop puts a numeral in front
of it.  With the two padding loops `print64` is a single `emit` (`print64_eq`): the canonical
numeral, and spaces or zeros on one side of it (`print64_exact`).
-/

namespace ZHyper

open LowLevel

/-! ## Characters and strings -/

theorem putchar_byte (c : UInt8) : putchar c.toNat = Emit.emit [c] >>= fun _ =>
    pure (c.toNat : Int) := by
  have hbyte : ((c.toNat : Int) % 256).toNat = c.toNat := by
    have := c.toNat_lt
    omega
  rw [putchar, hbyte, UInt8.ofNat_toNat]

theorem putchar_char (c : Char) : putchar c.toNat = Emit.emit [c.toUInt8] >>= fun _ =>
    pure (c.toNat : Int) := by
  have hbyte : UInt8.ofNat ((c.toNat : Int) % 256).toNat = c.toUInt8 := by
    apply UInt8.toNat_inj.mp
    rw [UInt8.toNat_ofNat', Char.toUInt8, UInt32.toNat_toUInt8]
    show ((c.toNat : Int) % 256).toNat % 2 ^ 8 = c.toNat % 2 ^ 8
    omega
  rw [putchar, hbyte]

/-- What `puts` and `strlen` see of an array. -/
def printed (s : List UInt8) : List UInt8 := s.takeWhile (· ≠ 0)

theorem printed_cons {c : UInt8} (hc : c ≠ 0) (s : List UInt8) :
    printed (c :: s) = c :: printed s :=
  List.takeWhile_cons_of_pos (decide_eq_true hc)

theorem printed_eq {s : List UInt8} (hs : ∀ c ∈ s, c ≠ 0) : printed s = s := by
  induction s with
  | nil => rfl
  | cons c s ih =>
    rw [printed_cons (hs c List.mem_cons_self), ih fun d hd => hs d (List.mem_cons_of_mem c hd)]

theorem printed_zero (s : List UInt8) : printed (0 :: s) = [] :=
  List.takeWhile_cons_of_neg (by decide)

theorem puts_cstr (s : List UInt8) :
    puts (cstr s) = Emit.emit (printed s) >>= fun _ => pure ((printed s).length : Int) := by
  induction s with
  | nil => rfl
  | cons c s ih =>
    change puts (c :: cstr s) = _
    rw [puts]
    by_cases hc : c = 0
    · rw [hc, if_neg (not_not.mpr rfl), printed_zero]
      rfl
    · rw [if_pos hc, putchar_byte, ih, printed_cons hc, bind_assoc]
      simp only [pure_bind, bind_assoc]
      rw [Emit.emit_bind]
      rfl

theorem strlen_cstr (s : List UInt8) : strlen (cstr s) = pure ((printed s).length : Int) := by
  induction s with
  | nil => rfl
  | cons c s ih =>
    change strlen (c :: cstr s) = _
    rw [strlen]
    by_cases hc : c = 0
    · rw [hc, if_neg (not_not.mpr rfl), printed_zero]
      rfl
    · rw [if_pos hc, ih, printed_cons hc, pure_bind]
      rfl

/-! ## The buffer -/

/-- The string in the buffer is `t`. -/
structure Holds (b : NumBuf) (t : List UInt8) : Prop where
  size : b.buf.length = 72
  text : b.buf.drop b.cur = cstr t

theorem Holds.cur_eq {b : NumBuf} {t : List UInt8} (h : Holds b t) : b.cur + t.length = 71 := by
  have hlen := congrArg List.length h.text
  have hsize := h.size
  rw [List.length_drop, cstr, List.length_append, List.length_singleton] at hlen
  omega

theorem Holds.init : Holds ⟨List.replicate 72 0, 71⟩ [] := ⟨List.length_replicate, rfl⟩

theorem push_run {b : NumBuf} {t : List UInt8} (h : Holds b t) (ht : t.length < 71) (c : UInt8) :
    ∃ b', b.push c = pure b' ∧ Holds b' (c :: t) := by
  have hcur := h.cur_eq
  have hsize := h.size
  have hpos : b.cur ≠ 0 := by omega
  refine ⟨⟨b.buf.set (b.cur - 1) c, b.cur - 1⟩, by rw [NumBuf.push, if_neg hpos], ?_, ?_⟩
  · rw [List.length_set, hsize]
  · show (b.buf.set (b.cur - 1) c).drop (b.cur - 1) = c :: cstr t
    rw [List.drop_eq_getElem_cons (by rw [List.length_set]; omega), List.getElem_set_self,
      Nat.sub_add_cancel (Nat.pos_of_ne_zero hpos), List.drop_set_of_lt (by omega), h.text]

theorem hexDigits_digitChar {d : Nat} (hd : d < 16) : hexDigits.getD d 0 = digitChar d := by
  have hall : ∀ d < 16, hexDigits.getD d 0 = digitChar d := by decide
  exact hall d hd

/-- **The digit loop** puts the numeral in front of what the buffer holds. -/
theorem digitLoop_run {base : Nat} (hb : 1 < base) (hb' : base ≤ 16) (n k : Nat) {b : NumBuf}
    {t : List UInt8} (h : Holds b t) (hroom : (numeral base n).length + t.length ≤ 71)
    (hk : (numeral base n).length ≤ k) :
    ∃ b', digitLoop base k b n = pure b' ∧ Holds b' (numeral base n ++ t) := by
  have hdigit : ∀ n, hexDigits.getD (n % base) 0 = digitChar (n % base) := by
    intro n
    apply hexDigits_digitChar
    have := Nat.mod_lt n (Nat.zero_lt_of_lt hb)
    omega
  induction n using numeral_induction hb generalizing k b t with
  | hlast n hn =>
    rw [numeral_last hb hn, List.length_singleton] at *
    cases k with
    | zero => cases hk
    | succ k =>
      obtain ⟨b', hpush, hb'⟩ := push_run h (by omega) (digitChar (n % base))
      refine ⟨b', ?_, hb'⟩
      rw [digitLoop, hdigit, hpush, pure_bind, if_neg (not_not.mpr hn)]
  | hstep n hn ih =>
    rw [numeral_step hb hn, List.length_append, List.length_singleton] at *
    cases k with
    | zero => cases hk
    | succ k =>
      obtain ⟨b₁, hpush, hb₁⟩ := push_run h (by omega) (digitChar (n % base))
      obtain ⟨b', hrun, hb'⟩ := ih k hb₁ (by rw [List.length_cons]; omega) (by omega)
      refine ⟨b', ?_, by rwa [List.append_assoc]⟩
      rw [digitLoop, hdigit, hpush, pure_bind, if_pos hn, hrun]

/-! ## Padding -/

theorem int32_eq {x : Int} (h : -2 ^ 31 ≤ x) (h' : x < 2 ^ 31) : int32 x = x := by
  unfold int32
  rw [Int.bmod_eq_of_le] <;> omega

theorem int32_range (x : Int) : -2 ^ 31 ≤ int32 x ∧ int32 x < 2 ^ 31 := by
  unfold int32
  have h1 := Int.le_bmod (x := x) (m := 2 ^ 32) (by decide)
  have h2 := Int.bmod_lt (x := x) (m := 2 ^ 32) (by decide)
  omega

theorem padLoop_eq (c : Char) {len digit : Int} (hlen : 0 ≤ len) (h : digit < 2 ^ 31) (k : Nat)
    (hk : (digit - len).toNat < k) :
    padLoop c len k digit =
      Emit.emit (List.replicate (digit - len).toNat c.toUInt8) >>= fun _ =>
        pure (int32 (min digit len - 1)) := by
  induction k generalizing digit with
  | zero => cases hk
  | succ k ih =>
    rw [padLoop]
    by_cases hd : digit > len
    · have hprev : int32 (digit - 1) = digit - 1 := int32_eq (by omega) (by omega)
      have hcount : (digit - len).toNat = (digit - 1 - len).toNat + 1 := by omega
      have hmin : min (digit - 1) len = min digit len := by omega
      rw [if_pos hd, hprev, ih (by omega) (by omega), putchar_char, bind_assoc, hcount,
        List.replicate_succ, hmin]
      simp only [pure_bind]
      rw [Emit.emit_bind]
      rfl
    · have hnone : (digit - len).toNat = 0 := by omega
      rw [if_neg hd, hnone, Int.min_eq_left (by omega)]
      rfl

/-! ## The text of a number -/

/-- What the digits of `num` are to read. -/
def magnitude (num : BitVec 64) (sign : Bool) : Nat :=
  if sign && num.slt 0 then (-num.toInt).toNat else num.toNat

def numberText (num : BitVec 64) (base : Nat) (sign print0X : Bool) : List UInt8 :=
  (if sign && num.slt 0 then ['-'.toUInt8] else []) ++
    (if print0X then ['0'.toUInt8, 'x'.toUInt8] else []) ++
    numeral base (magnitude num sign)

/-- `text` in a field of `digit` characters, with `c` in front or spaces behind. -/
def padded (c : UInt8) (digit : Int) (text : List UInt8) : List UInt8 :=
  List.replicate (digit - text.length).toNat c ++ text ++
    List.replicate (int32 (-digit) - text.length).toNat ' '.toUInt8

/-- `(uint64_t)(-(num + 1)) + 1`, the least number too. -/
theorem unum_toNat (num : BitVec 64) (sign : Bool) :
    (if sign && num.slt 0 then -(num + 1) + 1 else num).toNat = magnitude num sign := by
  have hslt : num.slt 0 = decide (num.toInt < 0) := rfl
  unfold magnitude
  by_cases h : (sign && num.slt 0) = true
  · have hneg : num.toInt < 0 := by
      rw [Bool.and_eq_true, hslt] at h
      exact of_decide_eq_true h.2
    have hcancel : -(num + 1) + 1 = -num := by
      rw [BitVec.neg_add, BitVec.sub_add_cancel]
    rw [if_pos h, if_pos h, hcancel, BitVec.toNat_neg]
    have hlt := num.isLt
    rw [BitVec.toInt_eq_toNat_cond] at hneg ⊢
    split at hneg <;> omega
  · rw [if_neg h, if_neg h]

theorem magnitude_lt (num : BitVec 64) (sign : Bool) : magnitude num sign < 2 ^ 64 := by
  rw [← unum_toNat]
  exact BitVec.isLt _

section

variable {base : Nat}

theorem numeral_nonzero (hb : 1 < base) (hb' : base ≤ 16) (n : Nat) :
    ∀ c ∈ numeral base n, c ≠ 0 := by
  intro c hc hzero
  apply digitOf_ne_none (readDigits_numeral hb hb' n) hc
  rw [hzero]
  rfl

theorem numberText_nonzero (hb : 1 < base) (hb' : base ≤ 16) (num : BitVec 64)
    (sign print0X : Bool) :
    ∀ c ∈ numberText num base sign print0X, c ≠ 0 := by
  intro c hc
  rcases List.mem_append.mp hc with hc | hc
  · have hfront : ∀ s x : Bool,
        ((if s then ['-'.toUInt8] else []) ++ (if x then ['0'.toUInt8, 'x'.toUInt8] else [])).all
          (· != 0) = true := by
      decide
    exact nonzero_of_all (hfront _ _) c hc
  · exact numeral_nonzero hb hb' _ c hc

theorem length_numeral (hb : 1 < base) (num : BitVec 64) (sign : Bool) :
    (numeral base (magnitude num sign)).length ≤ 64 := by
  apply length_numeral_le hb (by decide)
  exact Nat.lt_of_lt_of_le (magnitude_lt num sign) (Nat.pow_le_pow_left hb 64)

theorem push0X_run {b : NumBuf} {t : List UInt8} (h : Holds b t) (ht : t.length < 70)
    (print0X : Bool) :
    ∃ b', b.push0X print0X = pure b' ∧
      Holds b' ((if print0X then ['0'.toUInt8, 'x'.toUInt8] else []) ++ t) := by
  cases print0X with
  | false => exact ⟨b, rfl, h⟩
  | true =>
    obtain ⟨bx, hx, hxb⟩ := push_run h (by omega) 'x'.toUInt8
    obtain ⟨b0, h0, h0b⟩ := push_run hxb (by rw [List.length_cons]; omega) '0'.toUInt8
    exact ⟨b0, by rw [NumBuf.push0X, if_pos rfl, hx, pure_bind, h0], h0b⟩

theorem pushSign_run {b : NumBuf} {t : List UInt8} (h : Holds b t) (ht : t.length < 71)
    (neg : Bool) :
    ∃ b', b.pushSign neg = pure b' ∧ Holds b' ((if neg then ['-'.toUInt8] else []) ++ t) := by
  cases neg with
  | false => exact ⟨b, rfl, h⟩
  | true => exact push_run h ht '-'.toUInt8

/-- The text comes to stand in the buffer, with its terminator at the end of it. -/
theorem buffer_run (hb : 1 < base) (hb' : base ≤ 16) (num : BitVec 64) (sign print0X : Bool) :
    ∃ b₁ b₂ b₃ : NumBuf, digitLoop base 72 ⟨List.replicate 72 0, 71⟩ (magnitude num sign) =
      pure b₁ ∧
      b₁.push0X print0X = pure b₂ ∧ b₂.pushSign (sign && num.slt 0) = pure b₃ ∧
      Holds b₃ (numberText num base sign print0X) := by
  have hlen := length_numeral hb num sign
  obtain ⟨b₁, hrun₁, h₁⟩ := digitLoop_run hb hb' (magnitude num sign) 72 Holds.init
    (by rw [List.length_nil]; omega) (by omega)
  rw [List.append_nil] at h₁
  obtain ⟨b₂, hrun₂, h₂⟩ := push0X_run h₁ (by omega) print0X
  have h0x : ∀ x : Bool, (if x then ['0'.toUInt8, 'x'.toUInt8] else []).length ≤ 2 := by decide
  have hlen₂ := h0x print0X
  obtain ⟨b₃, hrun₃, h₃⟩ := pushSign_run h₂ (by rw [List.length_append]; omega) (sign && num.slt 0)
  rw [← List.append_assoc] at h₃
  exact ⟨b₁, b₂, b₃, hrun₁, hrun₂, hrun₃, h₃⟩

theorem length_numberText (hb : 1 < base) (num : BitVec 64) (sign print0X : Bool) :
    0 < (numberText num base sign print0X).length := by
  have := List.length_pos_of_ne_nil (numeral_ne_nil hb (magnitude num sign))
  rw [numberText, List.length_append]
  omega

theorem padLeft_eq (zeroPadding : Bool) {len digit : Int} (hlen : 0 < len) (hd : -2 ^ 31 ≤ digit)
    (hd' : digit < 2 ^ 31) :
    ∃ rest, padLeft zeroPadding len digit =
        Emit.emit (List.replicate (digit - len).toNat (if zeroPadding then '0'
          else ' ').toUInt8) >>= (fun _ => pure rest) ∧
      (digit > 0 → 0 ≤ rest) ∧ (digit ≤ 0 → rest = digit) := by
  unfold padLeft
  by_cases h : digit > 0
  · rw [if_pos h, padLoop_eq _ (by omega) hd' _ (by omega), int32_eq (by omega) (by omega)]
    exact ⟨_, rfl, by omega, by omega⟩
  · have hnone : (digit - len).toNat = 0 := by omega
    rw [if_neg h, hnone]
    exact ⟨digit, rfl, by omega, fun _ => rfl⟩

theorem padRight_eq {len : Int} (hlen : 0 < len) (digit : Int) :
    ∃ rest, padRight len digit = Emit.emit
      (List.replicate (if digit < 0 then int32 (-digit) - len else 0).toNat ' '.toUInt8) >>=
        fun _ => pure rest := by
  have hrange := int32_range (-digit)
  unfold padRight
  by_cases h : digit < 0
  · rw [if_pos h, if_pos h]
    exact ⟨_, padLoop_eq ' ' (by omega) hrange.2 _ (by omega)⟩
  · rw [if_neg h, if_neg h]
    exact ⟨digit, rfl⟩

/-- **`print64` emits the number in its field**, whatever the width. -/
theorem print64_eq (hb : 1 < base) (hb' : base ≤ 16) (num : BitVec 64) (sign : Bool) {digit : Int}
    (hd : -2 ^ 31 ≤ digit) (hd' : digit < 2 ^ 31) (opt : PrintOpt) :
    print64 num base sign digit opt =
      Emit.emit (padded (if opt.zeroPadding then '0' else ' ').toUInt8 digit
        (numberText num base sign opt.print0X)) := by
  obtain ⟨b₁, b₂, b₃, hrun₁, hrun₂, hrun₃, h₃⟩ := buffer_run hb hb' num sign opt.print0X
  have htext := printed_eq (numberText_nonzero hb hb' num sign opt.print0X)
  have hpos := length_numberText hb num sign opt.print0X
  unfold print64
  simp only [unum_toNat]
  rw [hrun₁, pure_bind, hrun₂, pure_bind, hrun₃, pure_bind, h₃.text, strlen_cstr, puts_cstr, htext,
    pure_bind]
  generalize numberText num base sign opt.print0X = text at hpos
  obtain ⟨rest, hleft, hright, hsame⟩ :=
    padLeft_eq opt.zeroPadding (Int.natCast_pos.mpr hpos) hd hd'
  obtain ⟨_, hpad⟩ := padRight_eq (Int.natCast_pos.mpr hpos) rest
  have hcount : (if rest < 0 then int32 (-rest) - (text.length : Int) else 0).toNat =
      (int32 (-digit) - text.length).toNat := by
    by_cases h : digit < 0
    · rw [hsame (by omega), if_pos h]
    · have hneg : int32 (-digit) = -digit := int32_eq (by omega) (by omega)
      have hnext : ¬ rest < 0 := by omega
      rw [if_neg hnext, hneg]
      omega
  rw [hleft]
  simp only [bind_assoc, pure_bind]
  rw [hpad, hcount, Emit.emit_bind]
  simp only [bind_assoc, pure_bind]
  rw [bind_pure_unit]
  exact Emit.emit_emit _ _

end

/-- `ds` is the numeral of `n`: it reads back as `n`, and has no leading zero unless it is `0`. -/
structure IsNumeral (base n : Nat) (ds : List UInt8) : Prop where
  reads : readDigits base ds = some n
  nonempty : ds ≠ []
  leading : ds = ['0'.toUInt8] ∨ ds.head? ≠ some '0'.toUInt8

theorem numeral_isNumeral {base : Nat} (hb : 1 < base) (hb' : base ≤ 16) (n : Nat) :
    IsNumeral base n (numeral base n) :=
  ⟨readDigits_numeral hb hb' n, numeral_ne_nil hb n, numeral_head hb hb' n⟩

theorem magnitude_eq (num : BitVec 64) (sign : Bool) :
    magnitude num sign = if sign then num.toInt.natAbs else num.toNat := by
  have hslt : num.slt 0 = decide (num.toInt < 0) := rfl
  unfold magnitude
  cases sign with
  | false => rfl
  | true =>
    have hcond := BitVec.toInt_eq_toNat_cond num
    rw [Bool.true_and, hslt, if_pos rfl]
    by_cases h : num.toInt < 0
    · rw [if_pos (decide_eq_true h)]
      omega
    · rw [if_neg (by rw [decide_eq_true_eq]; exact h)]
      split at hcond <;> omega

/-- **Numbers are rendered exactly**: the canonical numeral with its sign and prefix, filled up with
spaces on one side to the width. -/
theorem print64_exact (num : BitVec 64) {base : Nat} (hbase : base = 10 ∨ base = 16)
    (sign print0X : Bool) {w : Int} (hw : -2 ^ 31 < w) (hw' : w < 2 ^ 31) :
    ∃ pad r pad' ds : List UInt8,
      print64 num base sign w ⟨print0X, false⟩ = Emit.emit (pad ++ r ++ pad') ∧
        r = (if sign ∧ num.toInt < 0 then ['-'.toUInt8] else []) ++
          (if print0X then ['0'.toUInt8, 'x'.toUInt8] else []) ++ ds ∧
        IsNumeral base (if sign then num.toInt.natAbs else num.toNat) ds ∧
        pad = List.replicate (max 0 (w - r.length)).toNat ' '.toUInt8 ∧
        pad' = List.replicate (max 0 (-w - r.length)).toNat ' '.toUInt8 ∧
        (pad ++ r ++ pad').length = max w.natAbs r.length ∧ (pad = [] ∨ pad' = []) := by
  have hb : 1 < base := by omega
  have hb' : base ≤ 16 := by omega
  have hslt : num.slt 0 = decide (num.toInt < 0) := rfl
  have hneg : int32 (-w) = -w := int32_eq (by omega) (by omega)
  have hmax : ∀ x : Int, (max 0 x).toNat = x.toNat := by omega
  have hrun : print64 num base sign w ⟨print0X, false⟩ =
      Emit.emit (padded ' '.toUInt8 w (numberText num base sign print0X)) :=
    print64_eq hb hb' num sign (Int.le_of_lt hw) hw' ⟨print0X, false⟩
  unfold padded at hrun
  refine ⟨_, numberText num base sign print0X, _, numeral base (magnitude num sign), hrun, ?_, ?_,
    ?_, ?_, ?_, ?_⟩
  · rw [numberText, hslt]
    congr 2
    cases sign with
    | false => rfl
    | true => simp
  · rw [← magnitude_eq]
    exact numeral_isNumeral hb hb' _
  · rw [hmax]
  · rw [hmax, hneg]
  · rw [hneg, List.length_append, List.length_append, List.length_replicate, List.length_replicate]
    omega
  · rw [hneg]
    by_cases h : 0 ≤ w
    · right
      rw [List.replicate_eq_nil_iff]
      omega
    · left
      rw [List.replicate_eq_nil_iff]
      omega

/-- The least `int64_t`, to the left in 25 columns. -/
theorem print64_exact_min :
    ∃ pad r pad' ds : List UInt8,
      print64 (BitVec.intMin 64) 10 true (-25) ⟨false, false⟩ = Emit.emit (pad ++ r ++ pad') ∧
        r = (if true ∧ (BitVec.intMin 64).toInt < 0 then ['-'.toUInt8] else []) ++
          (if false then ['0'.toUInt8, 'x'.toUInt8] else []) ++ ds ∧
        IsNumeral 10 (if true then (BitVec.intMin 64).toInt.natAbs
          else (BitVec.intMin 64).toNat) ds ∧
        pad = List.replicate (max 0 ((-25 : Int) - r.length)).toNat ' '.toUInt8 ∧
        pad' = List.replicate (max 0 (-(-25 : Int) - r.length)).toNat ' '.toUInt8 ∧
        (pad ++ r ++ pad').length = max (-25 : Int).natAbs r.length ∧ (pad = [] ∨ pad' = []) := by
  have h := print64_exact (BitVec.intMin 64)
    (.inl rfl : 10 = 10 ∨ 10 = 16) true false (w := -25) (by decide) (by decide)
  simpa using h

end ZHyper
