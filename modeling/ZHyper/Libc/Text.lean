import ZHyper.Libc.Format

/-!
# `printf.c`: the text of a format

What a complete format prints, as a function of its pieces and its arguments:

    vprintf (formatOf ps)  prints  outputOf ps      (vprintf_output)
-/

namespace ZHyper

open LowLevel

/-- What `conversion` prints of its argument. -/
def conversionText (str : BitVec 64 → List UInt8) (digit : Int) (zeroPadding : Bool) (c : UInt8) :
    BitVec 64 → List UInt8 :=
  let field := padded (if zeroPadding then '0' else ' ').toUInt8 digit
  if c = 'd'.toUInt8 then fun v => field (numberText ((v.setWidth 32).signExtend 64) 10 true false)
  else if c = 'u'.toUInt8 then fun v =>
    field (numberText ((v.setWidth 32).setWidth 64) 10 false false)
  else if c = 'x'.toUInt8 then fun v => field (numberText v 16 false false)
  else if c = 'p'.toUInt8 then fun v => padded ' '.toUInt8 digit (numberText v 16 false true)
  else if c = 'c'.toUInt8 then fun v => [UInt8.ofNat ((v.setWidth 32).toInt % 256).toNat]
  else if c = 's'.toUInt8 then fun v => printed (if v = 0 then nullString else str v)
  else if c = '%'.toUInt8 then fun _ => ['%'.toUInt8]
  else fun _ => ['%'.toUInt8, c]

/-- What `longConversion` prints of its argument. -/
def longText (digit : Int) (zeroPadding : Bool) (c : UInt8) : BitVec 64 → List UInt8 :=
  let field := padded (if zeroPadding then '0' else ' ').toUInt8 digit
  if c = 'd'.toUInt8 then fun v => field (numberText v 10 true false)
  else if c = 'u'.toUInt8 then fun v => field (numberText v 10 false false)
  else if c = 'x'.toUInt8 then fun v => field (numberText v 16 false false)
  else fun _ => ['%'.toUInt8, 'l'.toUInt8, c]

/-- What a piece prints; the argument is of those that take one. -/
def Piece.output (str : BitVec 64 → List UInt8) : Piece → BitVec 64 → List UInt8
  | char c => fun _ => [c]
  | directive minus digits none c =>
    conversionText str (width minus digits) (digits.head? = some '0'.toUInt8) c
  | directive minus digits (some _) c =>
    longText (width minus digits) (digits.head? = some '0'.toUInt8) c

def outputOf (str : BitVec 64 → List UInt8) : List Piece → List (BitVec 64) → List UInt8
  | [], _ => []
  | p :: ps, args =>
    p.output str (if p.takesArg then args.headD 0 else 0) ++
      outputOf str ps (args.drop p.takesArg.toNat)

/-- A program that prints `text`, perhaps of an argument it takes first. -/
def PrintsText (takes : Bool) (text : BitVec 64 → List UInt8) (p : Print Unit) : Prop :=
  p = if takes then vaArg >>= fun v => Emit.emit (text v) else Emit.emit (text 0)

variable {str : BitVec 64 → List UInt8} {width : Int}

theorem number_text (hw : -2 ^ 31 ≤ width ∧ width < 2 ^ 31) {base : Nat} (hb : 1 < base)
    (hb' : base ≤ 16) (num : BitVec 64 → BitVec 64) (sign : Bool) (opt : PrintOpt) :
    PrintsText true
      (fun v => padded (if opt.zeroPadding then '0' else ' ').toUInt8 width
        (numberText (num v) base sign opt.print0X))
      (vaArg >>= fun v => print64 (num v) base sign width opt) :=
  congrArg (vaArg >>= ·) (funext fun v => print64_eq hb hb' (num v) sign hw.1 hw.2 opt)

theorem putchar_text (c : UInt8) : UInt8.ofNat ((c.toNat : Int) % 256).toNat = c := by
  have hlt := c.toNat_lt
  have hmod : ((c.toNat : Int) % 256).toNat = c.toNat := by omega
  rw [hmod, UInt8.ofNat_toNat]

theorem conversion_text (hw : -2 ^ 31 ≤ width ∧ width < 2 ^ 31) (zero : Bool) (c : UInt8) :
    PrintsText (['d', 'u', 'x', 'p', 'c', 's'].any fun k => c == k.toUInt8)
      (conversionText str width zero c)
      (conversion str width zero c) := by
  unfold conversion conversionText
  by_cases hd : c = 'd'.toUInt8
  · rw [if_pos hd, if_pos hd, hd]
    exact number_text hw (by decide) (by decide) (fun v => (v.setWidth 32).signExtend 64) true
      ⟨false, zero⟩
  rw [if_neg hd, if_neg hd]
  by_cases hu : c = 'u'.toUInt8
  · rw [if_pos hu, if_pos hu, hu]
    exact number_text hw (by decide) (by decide) (fun v => (v.setWidth 32).setWidth 64) false
      ⟨false, zero⟩
  rw [if_neg hu, if_neg hu]
  by_cases hx : c = 'x'.toUInt8
  · rw [if_pos hx, if_pos hx, hx]
    exact number_text hw (by decide) (by decide) id false ⟨false, zero⟩
  rw [if_neg hx, if_neg hx]
  by_cases hp : c = 'p'.toUInt8
  · rw [if_pos hp, if_pos hp, hp]
    exact number_text hw (by decide) (by decide) id false ⟨true, false⟩
  rw [if_neg hp, if_neg hp]
  by_cases hc : c = 'c'.toUInt8
  · rw [if_pos hc, if_pos hc, hc]
    rfl
  rw [if_neg hc, if_neg hc]
  by_cases hs : c = 's'.toUInt8
  · rw [if_pos hs, if_pos hs, hs]
    refine congrArg (vaArg >>= ·) (funext fun v => ?_)
    rw [puts_cstr, bind_assoc]
    simp only [pure_bind]
    exact bind_pure_unit
  rw [if_neg hs, if_neg hs]
  have hnone : (['d', 'u', 'x', 'p', 'c', 's'].any fun k => c == k.toUInt8) = false := by
    simp only [List.any_cons, List.any_nil, Bool.or_false, Bool.or_eq_false_iff,
      beq_eq_false_iff_ne]
    exact ⟨hd, hu, hx, hp, hc, hs⟩
  rw [hnone]
  by_cases hpercent : c = '%'.toUInt8
  · rw [if_pos hpercent, if_pos hpercent]
    rfl
  · rw [if_neg hpercent, if_neg hpercent]
    exact congrArg (fun c => Emit.emit ['%'.toUInt8, c]) (putchar_text c)

theorem longConversion_text (hw : -2 ^ 31 ≤ width ∧ width < 2 ^ 31) (zero : Bool) (c : UInt8) :
    PrintsText (['d', 'u', 'x'].any fun k => c == k.toUInt8) (longText width zero c)
      (longConversion width zero c) := by
  unfold longConversion longText
  by_cases hd : c = 'd'.toUInt8
  · rw [if_pos hd, if_pos hd, hd]
    exact number_text hw (by decide) (by decide) id true ⟨false, zero⟩
  rw [if_neg hd, if_neg hd]
  by_cases hu : c = 'u'.toUInt8
  · rw [if_pos hu, if_pos hu, hu]
    exact number_text hw (by decide) (by decide) id false ⟨false, zero⟩
  rw [if_neg hu, if_neg hu]
  by_cases hx : c = 'x'.toUInt8
  · rw [if_pos hx, if_pos hx, hx]
    exact number_text hw (by decide) (by decide) id false ⟨false, zero⟩
  rw [if_neg hx, if_neg hx]
  have hnone : (['d', 'u', 'x'].any fun k => c == k.toUInt8) = false := by
    simp only [List.any_cons, List.any_nil, Bool.or_false, Bool.or_eq_false_iff,
      beq_eq_false_iff_ne]
    exact ⟨hd, hu, hx⟩
  rw [hnone]
  exact congrArg (fun c => Emit.emit ['%'.toUInt8, 'l'.toUInt8, c]) (putchar_text c)

/-- **A piece prints its text.** -/
theorem Piece.act_output (p : Piece) : PrintsText p.takesArg (p.output str) (p.act str) := by
  cases p with
  | char c => rfl
  | directive minus digits long c =>
    cases long with
    | none => exact conversion_text (Piece.width_range minus digits) _ c
    | some l => exact longConversion_text (Piece.width_range minus digits) _ c

theorem acts_output {ps : List Piece} {args : List (BitVec 64)}
    (hargs : argCount ps ≤ args.length) :
    Piece.acts str ps args = .ok ⟨(), outputOf str ps args, args.drop (argCount ps)⟩ := by
  induction ps generalizing args with
  | nil => rfl
  | cons p ps ih =>
    rw [argCount_cons] at hargs ⊢
    have hrest : argCount ps ≤ (args.drop p.takesArg.toNat).length := by
      rw [List.length_drop]
      omega
    have hrun : p.act str args =
        .ok ⟨(), p.output str (if p.takesArg then args.headD 0 else 0),
          args.drop p.takesArg.toNat⟩ := by
      have hact := (p.act_output : PrintsText _ (p.output str) _)
      cases htakes : p.takesArg with
      | false =>
        rw [htakes] at hact
        exact congrFun hact args
      | true =>
        rw [htakes] at hact hargs
        cases args with
        | nil => simp at hargs
        | cons v args => exact congrFun hact (v :: args)
    have hrun' := ih hrest
    rw [List.drop_drop] at hrun'
    exact Emit.bind_ok hrun hrun'

/-- **A complete format prints its text**, and leaves the arguments it does not take. -/
theorem vprintf_output {ps : List Piece} (hps : ∀ p ∈ ps, p.Wf) {args : List (BitVec 64)}
    (hargs : argCount ps ≤ args.length) :
    vprintf str (cstr (formatOf ps)) args =
      .ok ⟨0, outputOf str ps args, args.drop (argCount ps)⟩ := by
  rw [vprintf_formatOf hps, Emit.bind_ok (acts_output hargs) rfl, List.append_nil]

theorem outputOf_append (ps qs : List Piece) (args : List (BitVec 64)) :
    outputOf str (ps ++ qs) args = outputOf str ps args ++
      outputOf str qs (args.drop (argCount ps)) := by
  induction ps generalizing args with
  | nil => rfl
  | cons p ps ih =>
    rw [List.cons_append, outputOf, outputOf, ih, argCount_cons, List.append_assoc, List.drop_drop]

/-- Arguments behind those that are taken do not matter. -/
theorem outputOf_args {ps : List Piece} {args : List (BitVec 64)}
    (hargs : argCount ps ≤ args.length)
    (more : List (BitVec 64)) : outputOf str ps (args ++ more) = outputOf str ps args := by
  induction ps generalizing args with
  | nil => rfl
  | cons p ps ih =>
    rw [argCount_cons] at hargs
    rw [outputOf, outputOf]
    cases htakes : p.takesArg with
    | false =>
      rw [htakes] at hargs
      exact congrArg _ (ih (by simpa using hargs))
    | true =>
      rw [htakes] at hargs
      cases args with
      | nil =>
        simp at hargs
      | cons v args => exact congrArg _ (ih (by simpa [Nat.add_comm] using hargs))

end ZHyper
