import ZHyper.Libc.Format

/-!
# Zero padding

The zeros of `%05d` go in front of the whole text, the sign included.  What is emitted reads as the
number just when there is no sign or no zero to put (`zero_padding_iff`).
-/

namespace ZHyper

open LowLevel

/-! ## The width -/

theorem isdigit_of_digitOf {c : UInt8} {d : Nat} (h : digitOf 10 c = some d) :
    isdigit c = true ∧ c.toNat = 48 + d := by
  have h0 : '0'.toUInt8.toNat = 48 := rfl
  have h9 : '9'.toUInt8.toNat = 57 := rfl
  unfold digitOf at h
  split at h
  · have hd := Option.some.inj h
    refine ⟨?_, by omega⟩
    rw [isdigit, Bool.and_eq_true, decide_eq_true_eq, decide_eq_true_eq, UInt8.le_iff_toNat_le,
      UInt8.le_iff_toNat_le]
    omega
  · split at h
    · omega
    · cases h

/-- Digits whose number fits an `int` are read as that number. -/
theorem number_from {ds : List UInt8} {m n : Nat} (h : readFrom 10 m ds = some n)
    (hn : n < 2 ^ 31) :
    m ≤ n ∧ (∀ d ∈ ds, isdigit d = true) ∧
      ds.foldl (fun n c => int32 (n * 10 + c.toNat - '0'.toNat)) (m : Int) = n := by
  induction ds generalizing m with
  | nil =>
    cases h
    exact ⟨Nat.le_refl _, (fun d hd => nomatch hd), rfl⟩
  | cons c ds ih =>
    rw [readFrom_cons] at h
    cases hc : digitOf 10 c with
    | none =>
      rw [hc] at h
      cases h
    | some d =>
      rw [hc, Option.bind_some] at h
      obtain ⟨hdigit, hval⟩ := isdigit_of_digitOf hc
      obtain ⟨hle, hds, hfold⟩ := ih h
      have hzero : '0'.toNat = 48 := rfl
      have hstep : int32 ((m : Int) * 10 + c.toNat - '0'.toNat) = (m * 10 + d : Nat) := by
        rw [hzero, hval, int32_eq (by omega) (by omega)]
        omega
      refine ⟨by omega, ?_, ?_⟩
      · intro e he
        rcases List.mem_cons.mp he with rfl | he
        · exact hdigit
        · exact hds e he
      · rw [List.foldl_cons, hstep]
        exact hfold

theorem number_eq {ds : List UInt8} {n : Nat} (h : readDigits 10 ds = some n) (hn : n < 2 ^ 31) :
    (∀ d ∈ ds, isdigit d = true) ∧ Piece.number ds = n :=
  (number_from h hn).2

/-! ## The conversions -/

/-- The value that `%d` and `%ld` print. -/
def signedArg (long : Option UInt8) (a : BitVec 64) : BitVec 64 :=
  match long with
  | none => (a.setWidth 32).signExtend 64
  | some _ => a

section

variable (str : BitVec 64 → List UInt8) {minus : Bool} {digits : List UInt8} {long : Option UInt8}

theorem wf_signed (hdigits : ∀ d ∈ digits, isdigit d = true)
    (hlong : ∀ l ∈ long, l = 'l'.toUInt8 ∨ l = 'L'.toUInt8) :
    (Piece.directive minus digits long 'd'.toUInt8).Wf := by
  refine ⟨hdigits, by decide, ?_⟩
  cases long with
  | none => exact ⟨by decide, by decide, by decide, fun h => absurd h (by decide)⟩
  | some l => exact hlong l rfl

/-- The text of a signed conversion. -/
theorem vprintf_signed (hdigits : ∀ d ∈ digits, isdigit d = true)
    (hlong : ∀ l ∈ long, l = 'l'.toUInt8 ∨ l = 'L'.toUInt8) (a : BitVec 64)
    (args : List (BitVec 64)) :
    vprintf str (cstr (formatOf [.directive minus digits long 'd'.toUInt8])) (a :: args) =
      .ok ⟨0, padded (if decide (digits.head? = some '0'.toUInt8) then '0'
        else ' ').toUInt8 (Piece.width minus digits)
        (numberText (signedArg long a) 10 true false), args⟩ := by
  have hwf : ∀ p ∈ [Piece.directive minus digits long 'd'.toUInt8], p.Wf := by
    intro p hp
    rw [List.mem_singleton.mp hp]
    exact wf_signed hdigits hlong
  have hact : (Piece.directive minus digits long 'd'.toUInt8).act str =
      vaArg >>= fun v => print64 (signedArg long v) 10 true (Piece.width minus digits)
        ⟨false, digits.head? = some '0'.toUInt8⟩ := by
    cases long <;> rfl
  have htext := print64_eq (by decide : 1 < 10) (by decide) (signedArg long a) true
    (Piece.width_range minus digits).1 (Piece.width_range minus digits).2
    ⟨false, digits.head? = some '0'.toUInt8⟩
  rw [vprintf_formatOf hwf, Piece.acts, hact]
  have hrun : (vaArg >>= fun v => print64 (signedArg long v) 10 true (Piece.width minus digits)
      ⟨false, digits.head? = some '0'.toUInt8⟩) (a :: args) = _ :=
    Emit.bind_ok rfl (congrFun htext args)
  rw [Emit.bind_ok (Emit.bind_ok hrun rfl) rfl, List.append_nil, List.append_nil]
  rfl

end

/-! ## Reading the text back -/

/-- The text of a signed number, without padding. -/
theorem numberText_signed (num : BitVec 64) :
    numberText num 10 true false = (if num.toInt < 0 then [45] else []) ++
      numeral 10 num.toInt.natAbs := by
  have hslt : num.slt 0 = decide (num.toInt < 0) := rfl
  rw [numberText, magnitude_eq, if_pos rfl, hslt, Bool.true_and, if_neg Bool.false_ne_true,
    List.append_nil]
  by_cases h : num.toInt < 0
  · rw [if_pos (decide_eq_true h), if_pos h]
    rfl
  · rw [if_neg (by rwa [decide_eq_true_eq]), if_neg h]

theorem length_negative {num : BitVec 64} (h : num.toInt < 0) :
    (numberText num 10 true false).length = (Nat.digits 10 num.toInt.natAbs).length + 1 := by
  rw [numberText_signed, if_pos h, List.singleton_append, List.length_cons,
    length_numeral_pos 10 (by omega)]

/-- Zeros in front of a number that is not negative do not change it. -/
theorem read_padded_nonneg {num : BitVec 64} (h : 0 ≤ num.toInt) (k : Nat) :
    readInt 10 (List.replicate k 48 ++ numberText num 10 true false) = some num.toInt := by
  rw [numberText_signed, if_neg (by omega), List.nil_append]
  have hread := readDigits_zeros_numeral (b := 10) (by decide) (by decide) k num.toInt.natAbs
  have hne : List.replicate k (digitChar 0) ++ numeral 10 num.toInt.natAbs ≠ [] :=
    List.append_ne_nil_of_right_ne_nil _ (numeral_ne_nil (by decide) _)
  have habs : (num.toInt.natAbs : Int) = num.toInt := Int.natAbs_of_nonneg h
  rw [← habs]
  exact readInt_digits hne hread

theorem read_negative {num : BitVec 64} (h : num.toInt < 0) :
    readInt 10 (numberText num 10 true false) = some num.toInt := by
  rw [numberText_signed, if_pos h, List.singleton_append,
    readInt_minus (numeral_ne_nil (by decide) _) (readDigits_numeral (by decide) (by decide) _)]
  congr 1
  omega

/-- Zeros in front of a `-` make it unreadable. -/
theorem read_padded_negative {num : BitVec 64} (h : num.toInt < 0) (k : Nat) :
    readInt 10 (List.replicate (k + 1) 48 ++ numberText num 10 true false) = none := by
  rw [numberText_signed, if_pos h, List.replicate_succ, List.cons_append]
  apply readInt_inner_minus (by decide)
  exact List.mem_append_right _ List.mem_cons_self

/-- Zeros in front of a signed number can be read just when there is none or no sign behind them. -/
theorem read_padded_iff (num : BitVec 64) (k : Nat) :
    readInt 10 (List.replicate k 48 ++ numberText num 10 true false) = some num.toInt ↔
      0 ≤ num.toInt ∨ k = 0 := by
  by_cases h : 0 ≤ num.toInt
  · exact iff_of_true (read_padded_nonneg h k) (.inl h)
  · rw [or_iff_right h]
    rw [Int.not_le] at h
    cases k with
    | zero => exact iff_of_true (read_negative h) rfl
    | succ k =>
      rw [read_padded_negative h]
      exact iff_of_false (fun h => nomatch h) (Nat.succ_ne_zero k)

/-! ## The field -/

theorem padded_left (c : UInt8) {w : Nat} (hw : w < 2 ^ 31) (text : List UInt8) :
    padded c w text = List.replicate (w - text.length) c ++ text := by
  have hneg : int32 (-(w : Int)) = -w := int32_eq (by omega) (by omega)
  have hright : (int32 (-(w : Int)) - text.length).toNat = 0 := by omega
  have hleft : ((w : Int) - text.length).toNat = w - text.length := by omega
  rw [padded, hright, hleft, List.replicate_zero, List.append_nil]

theorem padded_zero (c : UInt8) (text : List UInt8) : padded c 0 text = text := by
  have h := padded_left c (w := 0) (by decide) text
  rwa [Nat.zero_sub] at h

theorem width_zeroFlag {minus : Bool} {ds : List UInt8} {w : Nat} (hnum : Piece.number ds = w)
    (hminus : minus = true → w = 0) : Piece.width minus ('0'.toUInt8 :: ds) = w := by
  have hnumber : Piece.number ('0'.toUInt8 :: ds) = w := hnum
  unfold Piece.width
  rw [hnumber]
  cases minus with
  | false => rfl
  | true =>
    rw [hminus rfl]
    rfl

/-- **Zero padding preserves the number just when it is not negative or has no room for a zero**
beside its digits and its sign.  The directive has the zero flag and the width `w`, which is not
negative; `plain` is the text without flag and width. -/
theorem zero_padding_iff (str : BitVec 64 → List UInt8) {minus : Bool} {ds : List UInt8}
    {long : Option UInt8} {w : Nat} (hw : readDigits 10 ds = some w) (hfits : w < 2 ^ 31)
    (hminus : minus = true → w = 0) (hlong : ∀ l ∈ long, l = 'l'.toUInt8 ∨ l = 'L'.toUInt8)
    (a : BitVec 64) (args : List (BitVec 64)) :
    ∃ text plain,
      vprintf str (cstr (formatOf [.directive minus ('0'.toUInt8 :: ds) long 'd'.toUInt8]))
        (a :: args) =
          .ok ⟨0, text, args⟩ ∧
        vprintf str (cstr (formatOf [.directive false [] long 'd'.toUInt8])) (a :: args) =
          .ok ⟨0, plain, args⟩ ∧
        ((readInt 10 text = some (signedArg long a).toInt ∧ text.length = max w plain.length) ↔
          0 ≤ (signedArg long a).toInt ∨
            w ≤ (Nat.digits 10 (signedArg long a).toInt.natAbs).length + 1) := by
  obtain ⟨hdigits, hnum⟩ := number_eq hw hfits
  have hall : ∀ d ∈ '0'.toUInt8 :: ds, isdigit d = true :=
    List.forall_mem_cons.mpr ⟨by decide, hdigits⟩
  refine ⟨_, _, vprintf_signed str hall hlong a args,
    vprintf_signed str (List.all_eq_true.mp rfl) hlong a args, ?_⟩
  have hnone : Piece.width false [] = 0 := rfl
  have hzero : (if decide (('0'.toUInt8 :: ds).head? = some '0'.toUInt8) then '0'
      else ' ').toUInt8 = 48 := rfl
  rw [width_zeroFlag hnum hminus, hnone, padded_zero, padded_left _ hfits, hzero]
  have hlen : (List.replicate (w - (numberText (signedArg long a) 10 true false).length)
    (48 : UInt8) ++
      numberText (signedArg long a) 10 true false).length =
      max w (numberText (signedArg long a) 10 true false).length := by
    rw [List.length_append, List.length_replicate]
    omega
  rw [and_iff_left hlen, read_padded_iff, Nat.sub_eq_zero_iff_le]
  by_cases hv : 0 ≤ (signedArg long a).toInt
  · exact iff_of_true (.inl hv) (.inl hv)
  · rw [length_negative (Int.not_le.mp hv)]

/-- `%05d` of 42. -/
theorem zero_padding_iff_example :
    ∃ text plain,
      vprintf (fun _ => [])
        (cstr (formatOf [.directive false ['0'.toUInt8, '5'.toUInt8] none 'd'.toUInt8])) [42] =
          .ok ⟨0, text, []⟩ ∧
        vprintf (fun _ => []) (cstr (formatOf [.directive false [] none 'd'.toUInt8])) [42] =
          .ok ⟨0, plain, []⟩ ∧
        ((readInt 10 text = some (signedArg none 42).toInt ∧ text.length = max 5 plain.length) ↔
          0 ≤ (signedArg none 42).toInt ∨
            5 ≤ (Nat.digits 10 (signedArg none 42).toInt.natAbs).length + 1) :=
  @zero_padding_iff (fun _ => []) false ['5'.toUInt8] none 5 (by decide) (by decide)
    (fun h => nomatch h) (fun _ h => nomatch h) 42 []

/-- `%05d` of -5 is `000-5`. -/
theorem zero_padding_negative :
    ((vprintf (fun _ => []) (cstr ['%'.toUInt8, '0'.toUInt8, '5'.toUInt8, 'd'.toUInt8])
      [-5]).toOption.map Emitted.out =
        some ['0'.toUInt8, '0'.toUInt8, '0'.toUInt8, '-'.toUInt8, '5'.toUInt8]) ∧
      readInt 10 ['0'.toUInt8, '0'.toUInt8, '0'.toUInt8, '-'.toUInt8, '5'.toUInt8] ≠ some (-5) := by
  decide +kernel

end ZHyper
