import ZHyper.Libc.Number

/-!
# `vprintf` goes through its format piece by piece

A format is made of characters and directives (`Piece`).  A directive is read to its end and no
further, whatever stands behind it (`directive_run`), so that `vprintf` of pieces in front of
something is the output of the pieces and then `vprintf` of the rest (`vprintf_append`).  A format
that ends inside a directive is the one thing that goes wrong: the loop steps over the terminator
(`vprintf_returns_iff`).
-/

namespace ZHyper

open LowLevel

/-- A character, or a directive: `%`, perhaps `-`, digits, perhaps `l` or `L`, and a character. -/
inductive Piece where
  | char (c : UInt8)
  | directive (minus : Bool) (digits : List UInt8) (long : Option UInt8) (c : UInt8)

namespace Piece

/-- What stands in the format for a directive, behind the `%`. -/
def body (minus : Bool) (digits : List UInt8) (long : Option UInt8) (c : UInt8) : List UInt8 :=
  (if minus then ['-'.toUInt8] else []) ++ digits ++ long.toList ++ [c]

def text : Piece → List UInt8
  | char c => [c]
  | directive minus digits long c => '%'.toUInt8 :: body minus digits long c

theorem text_length_pos : ∀ p : Piece, 0 < p.text.length
  | char _ => Nat.succ_pos _
  | directive _ _ _ _ => Nat.succ_pos _

/-- A piece that is read as it is meant: what could belong to the width does not stand for the
conversion. -/
def Wf : Piece → Prop
  | char c => c ≠ 0 ∧ c ≠ '%'.toUInt8
  | directive minus digits long c =>
    (∀ d ∈ digits, isdigit d = true) ∧ c ≠ 0 ∧
      match long with
      | some l => l = 'l'.toUInt8 ∨ l = 'L'.toUInt8
      | none => isdigit c = false ∧ c ≠ 'l'.toUInt8 ∧ c ≠ 'L'.toUInt8 ∧ (c = '-'.toUInt8 →
        minus = true ∨ digits ≠ [])

/-- The conversions that take an argument: `d`, `u`, `x`, `p`, `c` and `s`; behind `l`, the first
three. -/
def takesArg : Piece → Bool
  | char _ => false
  | directive _ _ none c => ['d', 'u', 'x', 'p', 'c', 's'].any fun k => c == k.toUInt8
  | directive _ _ (some _) c => ['d', 'u', 'x'].any fun k => c == k.toUInt8

/-- The number that digits make, as an `int`. -/
def number (digits : List UInt8) : Int :=
  digits.foldl (fun n c => int32 (n * 10 + c.toNat - '0'.toNat)) 0

/-- The field width, negative behind a `-`. -/
def width (minus : Bool) (digits : List UInt8) : Int :=
  if minus then int32 (-number digits) else number digits

/-- What a piece does. -/
def act (str : BitVec 64 → List UInt8) : Piece → Print Unit
  | char c => Emit.emit [c]
  | directive minus digits none c =>
    conversion str (width minus digits) (digits.head? = some '0'.toUInt8) c
  | directive minus digits (some _) c =>
    longConversion (width minus digits) (digits.head? = some '0'.toUInt8) c

/-- What pieces do, one after the other. -/
def acts (str : BitVec 64 → List UInt8) : List Piece → Print Unit
  | [] => return ()
  | p :: ps => do
    p.act str
    acts str ps

end Piece

/-- The format that pieces make. -/
def formatOf (ps : List Piece) : List UInt8 := ps.flatMap Piece.text

/-- The number of arguments that pieces take. -/
def argCount (ps : List Piece) : Nat := ps.countP Piece.takesArg

section

variable {str : BitVec 64 → List UInt8} {fmt : List UInt8} {t : UInt8}

/-! ## Reading a directive -/

theorem ne_of_isdigit {c d : UInt8} {b : Bool} (hc : isdigit c = b) (hd : isdigit d = !b) :
    c ≠ d := by
  rintro rfl
  rw [hc] at hd
  exact Bool.self_ne_not b hd

theorem numberLoop_run {ds : List UInt8} (hds : ∀ d ∈ ds, isdigit d = true) (ht : isdigit t = false)
    (tail : List UInt8) (n : Int) :
    numberLoop (ds ++ t :: tail) n =
      pure (t :: tail, ds.foldl (fun n c => int32 (n * 10 + c.toNat - '0'.toNat)) n) := by
  induction ds generalizing n with
  | nil => exact if_neg (by rw [ht]; exact Bool.false_ne_true)
  | cons d ds ih =>
    change (if isdigit d = true then numberLoop (ds ++ t :: tail) _ else _) = _
    rw [if_pos (hds d List.mem_cons_self), ih fun e he => hds e (List.mem_cons_of_mem d he)]
    rfl

theorem fetchNumber_run {ds : List UInt8} (hds : ∀ d ∈ ds, isdigit d = true)
    (ht : isdigit t = false) (tail : List UInt8) (neg : Bool) :
    fetchNumber neg (ds ++ t :: tail) =
      pure ⟨t :: tail, Piece.width neg ds, ds.head? = some '0'.toUInt8⟩ := by
  cases ds with
  | nil =>
    have hzero : t ≠ '0'.toUInt8 := ne_of_isdigit ht (by decide)
    have hnum := numberLoop_run hds ht tail 0
    rw [List.nil_append] at hnum ⊢
    simp only [fetchNumber, deref, pure_bind, hzero, decide_false, Bool.false_eq_true, if_false,
      hnum]
    rfl
  | cons d ds =>
    have hds' : ∀ e ∈ ds, isdigit e = true := fun e he => hds e (List.mem_cons_of_mem d he)
    have hnum := numberLoop_run hds ht tail 0
    have hrest := numberLoop_run hds' ht tail 0
    rw [List.cons_append] at hnum ⊢
    by_cases hd : d = '0'.toUInt8
    · simp only [fetchNumber, deref, pure_bind, hd, decide_true, if_true, List.drop_succ_cons,
        List.drop_zero, hrest]
      rfl
    · have hhead : ¬ (d :: ds).head? = some '0'.toUInt8 := fun h => hd (Option.some.inj h)
      simp only [fetchNumber, deref, pure_bind, hd, hhead, decide_false, Bool.false_eq_true,
        if_false, hnum]
      rfl

/-- `fetch_digit` reads the width and stops at the character behind it. -/
theorem fetchDigit_run (minus : Bool) {ds : List UInt8} (hds : ∀ d ∈ ds, isdigit d = true)
    (ht : isdigit t = false) (hminus : t = '-'.toUInt8 → minus = true ∨ ds ≠ [])
    (tail : List UInt8) :
    fetchDigit ((if minus then ['-'.toUInt8] else []) ++ ds ++ t :: tail) =
      pure ⟨t :: tail, Piece.width minus ds, ds.head? = some '0'.toUInt8⟩ := by
  rw [← fetchNumber_run hds ht, List.append_assoc]
  cases minus with
  | true =>
    simp only [fetchDigit, if_true, List.singleton_append, deref, pure_bind, decide_true,
      List.drop_succ_cons, List.drop_zero]
  | false =>
    obtain ⟨c, s, hcs, hc⟩ : ∃ c s, ds ++ t :: tail = c :: s ∧ c ≠ '-'.toUInt8 := by
      cases ds with
      | nil => exact ⟨t, tail, rfl, fun h => (hminus h).elim (fun h => nomatch h) fun h => h rfl⟩
      | cons d ds => exact ⟨d, _, rfl, ne_of_isdigit (hds d List.mem_cons_self) (by decide)⟩
    simp only [Bool.false_eq_true, if_false, List.nil_append, hcs, fetchDigit, deref, pure_bind, hc,
      decide_false]

/-- The character that `fmt` stands on behind the width. -/
theorem Piece.body_stop {minus : Bool} {digits : List UInt8} {long : Option UInt8} {c : UInt8}
    (h : (Piece.directive minus digits long c).Wf) (rest : List UInt8) :
    ∃ t s, long.toList ++ c :: rest = t :: s ∧ isdigit t = false ∧
      (t = '-'.toUInt8 → minus = true ∨ digits ≠ []) := by
  obtain ⟨-, -, hconv⟩ := h
  cases long with
  | none => exact ⟨c, rest, rfl, hconv.1, hconv.2.2.2⟩
  | some l =>
    refine ⟨l, c :: rest, rfl, ?_, ?_⟩
    · rcases hconv with rfl | rfl <;> decide
    · rcases hconv with rfl | rfl <;> exact fun h => absurd h (by decide)

/-- **A directive is read to its last character**, whatever follows. -/
theorem directive_run {minus : Bool} {digits : List UInt8} {long : Option UInt8} {c : UInt8}
    (h : (Piece.directive minus digits long c).Wf) (rest : List UInt8) :
    directive str (Piece.body minus digits long c ++ rest) =
      (Piece.directive minus digits long c).act str >>= fun _ => pure (c :: rest) := by
  have hbody : Piece.body minus digits long c ++ rest =
      (if minus then ['-'.toUInt8] else []) ++ digits ++ (long.toList ++ c :: rest) := by
    rw [Piece.body, List.append_assoc, List.append_assoc, List.singleton_append]
  obtain ⟨t, s, hstop, hdigit, hminus⟩ := Piece.body_stop h rest
  rw [hbody, hstop, directive, fetchDigit_run minus h.1 hdigit hminus, pure_bind, deref, pure_bind]
  cases long with
  | none =>
    obtain ⟨rfl, rfl⟩ := List.cons.inj hstop
    obtain ⟨-, -, -, hl, hL, -⟩ := h
    rw [if_neg (not_or.mpr ⟨hl, hL⟩)]
    rfl
  | some l =>
    obtain ⟨rfl, rfl⟩ := List.cons.inj hstop
    rw [if_pos h.2.2]
    change (deref (c :: rest) >>= fun c' => longConversion _ _ c' >>= fun _ => pure (c :: rest)) = _
    rw [deref, pure_bind]
    rfl

/-! ## The loop -/

theorem numberLoop_length (n : Int) :
    Emit.Results (fun r => r.1.length ≤ fmt.length) (numberLoop fmt n) := by
  induction fmt generalizing n with
  | nil =>
    intro args r h
    cases h
  | cons c fmt ih =>
    rw [numberLoop]
    split
    · intro args r h
      exact Nat.le_succ_of_le (ih _ args r h)
    · exact Emit.Results.pure (Nat.le_refl _)

theorem length_dropIf (b : Bool) (s : List UInt8) :
    (if b then s.drop 1 else s).length ≤ s.length := by
  cases b with
  | false => exact Nat.le_refl _
  | true => exact (List.drop_sublist 1 s).length_le

theorem fetchDigit_length : Emit.Results (fun w => w.fmt.length ≤ fmt.length) (fetchDigit fmt) := by
  refine (Emit.Results.any _).bind ?_
  intro c _
  refine (Emit.Results.any _).bind ?_
  intro d _
  refine (numberLoop_length 0).bind ?_
  intro r hr
  exact Emit.Results.pure (Nat.le_trans hr (Nat.le_trans (length_dropIf _ _) (length_dropIf _ _)))

theorem directive_length : Emit.Results (fun s => s.length ≤ fmt.length) (directive str fmt) := by
  refine fetchDigit_length.bind ?_
  intro w hw
  refine (Emit.Results.any _).bind ?_
  intro c _
  split
  · refine (Emit.Results.any _).bind ?_
    intro d _
    refine (Emit.Results.any _).bind ?_
    intro _ _
    exact Emit.Results.pure (Nat.le_trans (List.drop_sublist 1 _).length_le hw)
  · refine (Emit.Results.any _).bind ?_
    intro _ _
    exact Emit.Results.pure hw

theorem vprintfLoop_char {c : UInt8} (h0 : c ≠ 0) (hc : c ≠ '%'.toUInt8) (k : Nat) :
    vprintfLoop str (k + 1) (c :: fmt) = putchar c.toNat >>= fun _ => vprintfLoop str k fmt := by
  rw [vprintfLoop, deref, pure_bind, if_neg h0, if_neg hc]
  rfl

theorem vprintfLoop_percent (k : Nat) :
    vprintfLoop str (k + 1) ('%'.toUInt8 :: fmt) = directive str fmt >>= fun f =>
      vprintfLoop str k (f.drop 1) := by
  rw [vprintfLoop, deref, pure_bind, if_neg (by decide), if_pos rfl]
  rfl

/-- The bound of the loop does not matter once it is larger than the format. -/
theorem vprintfLoop_bound {k k' : Nat} (hk : fmt.length < k) (hk' : fmt.length < k') :
    vprintfLoop str k fmt = vprintfLoop str k' fmt := by
  induction k generalizing k' fmt with
  | zero => cases hk
  | succ k ih =>
    cases k' with
    | zero => cases hk'
    | succ k' =>
      cases fmt with
      | nil => rfl
      | cons c fmt =>
        rw [List.length_cons] at hk hk'
        by_cases h0 : c = 0
        · rw [h0]
          rfl
        by_cases hc : c = '%'.toUInt8
        · rw [hc, vprintfLoop_percent, vprintfLoop_percent]
          apply directive_length.bind_congr
          intro f hf
          have hlen := (List.drop_sublist 1 f).length_le
          exact ih (by omega) (by omega)
        · rw [vprintfLoop_char h0 hc, vprintfLoop_char h0 hc,
            ih (Nat.lt_of_succ_lt_succ hk) (Nat.lt_of_succ_lt_succ hk')]

/-- **One piece** in front of a format. -/
theorem vprintfLoop_piece {p : Piece} (hp : p.Wf) (k : Nat) (rest : List UInt8) :
    vprintfLoop str (k + 1) (p.text ++ rest) = p.act str >>= fun _ => vprintfLoop str k rest := by
  cases p with
  | char c =>
    rw [Piece.text, List.singleton_append, vprintfLoop_char hp.1 hp.2, putchar_byte, bind_assoc]
    simp only [pure_bind]
    rfl
  | directive minus digits long c =>
    rw [Piece.text, List.cons_append, vprintfLoop_percent, directive_run hp, bind_assoc]
    simp only [pure_bind]
    rfl

/-- **Pieces** in front of a format. -/
theorem vprintfLoop_pieces {ps : List Piece} (hps : ∀ p ∈ ps, p.Wf) {k : Nat} {rest : List UInt8}
    (hk : (formatOf ps ++ rest).length < k) :
    vprintfLoop str k (formatOf ps ++ rest) =
      Piece.acts str ps >>= fun _ => vprintfLoop str (rest.length + 1) rest := by
  induction ps generalizing k with
  | nil =>
    rw [Piece.acts, pure_bind]
    exact vprintfLoop_bound hk (Nat.lt_succ_self _)
  | cons p ps ih =>
    cases k with
    | zero => cases hk
    | succ k =>
      have hp := hps p List.mem_cons_self
      have hlen := p.text_length_pos
      have hcons : formatOf (p :: ps) ++ rest = p.text ++ (formatOf ps ++ rest) := by
        rw [formatOf, List.flatMap_cons, List.append_assoc]
        rfl
      rw [hcons, List.length_append] at hk
      rw [hcons, vprintfLoop_piece hp, Piece.acts, bind_assoc,
        ih (fun q hq => hps q (List.mem_cons_of_mem p hq)) (by omega)]

/-! ## What a piece emits -/

theorem Piece.width_range (minus : Bool) (digits : List UInt8) :
    -2 ^ 31 ≤ Piece.width minus digits ∧ Piece.width minus digits < 2 ^ 31 := by
  have hnumber : ∀ (ds : List UInt8) (n : Int), -2 ^ 31 ≤ n ∧ n < 2 ^ 31 →
      -2 ^ 31 ≤ ds.foldl (fun n c => int32 (n * 10 + c.toNat - '0'.toNat)) n ∧
        ds.foldl (fun n c => int32 (n * 10 + c.toNat - '0'.toNat)) n < 2 ^ 31 := by
    intro ds
    induction ds with
    | nil => exact fun n h => h
    | cons d ds ih => exact fun n _ => ih _ (int32_range _)
  unfold Piece.width
  cases minus with
  | false => exact hnumber digits 0 (by decide)
  | true => exact int32_range _

/-- A program that emits a text, perhaps of an argument it takes first. -/
def Prints (takes : Bool) (p : Print Unit) : Prop :=
  ∃ text : BitVec 64 → List UInt8, p = if takes then vaArg >>= fun v =>
    Emit.emit (text v) else Emit.emit (text 0)

theorem prints_number {width : Int} (hw : -2 ^ 31 ≤ width ∧ width < 2 ^ 31) {base : Nat}
    (hb : 1 < base) (hb' : base ≤ 16) (num : BitVec 64 → BitVec 64) (sign : Bool) (opt : PrintOpt) :
    Prints true (vaArg >>= fun v => print64 (num v) base sign width opt) := by
  have htext : (fun v => print64 (num v) base sign width opt) = fun v =>
      Emit.emit (padded (if opt.zeroPadding then '0'
        else ' ').toUInt8 width (numberText (num v) base sign opt.print0X)) :=
    funext fun v => print64_eq hb hb' (num v) sign hw.1 hw.2 opt
  exact ⟨_, congrArg (vaArg >>= ·) htext⟩

theorem conversion_prints (str : BitVec 64 → List UInt8) {width : Int}
    (hw : -2 ^ 31 ≤ width ∧ width < 2 ^ 31) (zero : Bool) (c : UInt8) :
    Prints (['d', 'u', 'x', 'p', 'c', 's'].any fun k => c == k.toUInt8)
      (conversion str width zero c) := by
  unfold conversion
  by_cases hd : c = 'd'.toUInt8
  · rw [if_pos hd, hd]
    exact prints_number hw (by decide) (by decide) (fun v => (v.setWidth 32).signExtend 64) true _
  rw [if_neg hd]
  by_cases hu : c = 'u'.toUInt8
  · rw [if_pos hu, hu]
    exact prints_number hw (by decide) (by decide) (fun v => (v.setWidth 32).setWidth 64) false _
  rw [if_neg hu]
  by_cases hx : c = 'x'.toUInt8
  · rw [if_pos hx, hx]
    exact prints_number hw (by decide) (by decide) id false _
  rw [if_neg hx]
  by_cases hp : c = 'p'.toUInt8
  · rw [if_pos hp, hp]
    exact prints_number hw (by decide) (by decide) id false _
  rw [if_neg hp]
  by_cases hc : c = 'c'.toUInt8
  · rw [if_pos hc, hc]
    exact ⟨fun v => [UInt8.ofNat ((v.setWidth 32).toInt % 256).toNat], rfl⟩
  rw [if_neg hc]
  by_cases hs : c = 's'.toUInt8
  · rw [if_pos hs, hs]
    refine ⟨fun v => printed (if v = 0 then nullString else str v),
      congrArg (vaArg >>= ·) (funext fun v => ?_)⟩
    rw [puts_cstr, bind_assoc]
    simp only [pure_bind]
    exact bind_pure_unit
  rw [if_neg hs]
  have hnone : (['d', 'u', 'x', 'p', 'c', 's'].any fun k => c == k.toUInt8) = false := by
    simp only [List.any_cons, List.any_nil, Bool.or_false, Bool.or_eq_false_iff,
      beq_eq_false_iff_ne]
    exact ⟨hd, hu, hx, hp, hc, hs⟩
  rw [hnone]
  split
  · exact ⟨fun _ => ['%'.toUInt8], rfl⟩
  · exact ⟨fun _ => ['%'.toUInt8, UInt8.ofNat ((c.toNat : Int) % 256).toNat], rfl⟩

theorem longConversion_prints {width : Int} (hw : -2 ^ 31 ≤ width ∧ width < 2 ^ 31) (zero : Bool)
    (c : UInt8) :
    Prints (['d', 'u', 'x'].any fun k => c == k.toUInt8) (longConversion width zero c) := by
  unfold longConversion
  by_cases hd : c = 'd'.toUInt8
  · rw [if_pos hd, hd]
    exact prints_number hw (by decide) (by decide) id true _
  rw [if_neg hd]
  by_cases hu : c = 'u'.toUInt8
  · rw [if_pos hu, hu]
    exact prints_number hw (by decide) (by decide) id false _
  rw [if_neg hu]
  by_cases hx : c = 'x'.toUInt8
  · rw [if_pos hx, hx]
    exact prints_number hw (by decide) (by decide) id false _
  rw [if_neg hx]
  have hnone : (['d', 'u', 'x'].any fun k => c == k.toUInt8) = false := by
    simp only [List.any_cons, List.any_nil, Bool.or_false, Bool.or_eq_false_iff,
      beq_eq_false_iff_ne]
    exact ⟨hd, hu, hx⟩
  rw [hnone]
  exact ⟨fun _ => ['%'.toUInt8, 'l'.toUInt8, UInt8.ofNat ((c.toNat : Int) % 256).toNat], rfl⟩

theorem Piece.act_prints (str : BitVec 64 → List UInt8) (p : Piece) :
    Prints p.takesArg (p.act str) := by
  cases p with
  | char c => exact ⟨fun _ => [c], rfl⟩
  | directive minus digits long c =>
    cases long with
    | none => exact conversion_prints str (Piece.width_range minus digits) _ c
    | some l => exact longConversion_prints (Piece.width_range minus digits) _ c

/-- What a piece does with enough arguments. -/
theorem Prints.run {takes : Bool} {p : Print Unit} (h : Prints takes p) {args : List (BitVec 64)}
    (hargs : takes.toNat ≤ args.length) : ∃ out, p args = .ok ⟨(), out, args.drop takes.toNat⟩ := by
  obtain ⟨text, rfl⟩ := h
  cases takes with
  | false => exact ⟨text 0, rfl⟩
  | true =>
    cases args with
    | nil => cases hargs
    | cons v args => exact ⟨text v, rfl⟩

theorem argCount_cons (p : Piece) (ps : List Piece) :
    argCount (p :: ps) = p.takesArg.toNat + argCount ps := by
  rw [argCount, argCount, List.countP_cons, Nat.add_comm]
  cases p.takesArg <;> rfl

/-- **Pieces take their arguments and leave the others.** -/
theorem acts_run (str : BitVec 64 → List UInt8) {ps : List Piece} {args : List (BitVec 64)}
    (hargs : argCount ps ≤ args.length) :
    ∃ out, Piece.acts str ps args = .ok ⟨(), out, args.drop (argCount ps)⟩ := by
  induction ps generalizing args with
  | nil => exact ⟨[], rfl⟩
  | cons p ps ih =>
    rw [argCount_cons] at hargs ⊢
    have hrest : argCount ps ≤ (args.drop p.takesArg.toNat).length := by
      rw [List.length_drop]
      omega
    obtain ⟨out, hrun⟩ := (p.act_prints str).run (Nat.le_of_add_right_le hargs)
    obtain ⟨out', hrun'⟩ := ih hrest
    rw [List.drop_drop] at hrun'
    exact ⟨out ++ out', Emit.bind_ok hrun hrun'⟩

/-! ## Formats put together -/

/-- `vprintf` of pieces and something behind them. -/
theorem vprintf_pieces {ps : List Piece} (hps : ∀ p ∈ ps, p.Wf) (rest : List UInt8) :
    vprintf str (formatOf ps ++ rest) = Piece.acts str ps >>= fun _ => vprintf str rest := by
  rw [vprintf, vprintfLoop_pieces hps (Nat.lt_succ_self _), bind_assoc]
  rfl

theorem vprintf_end (str : BitVec 64 → List UInt8) : vprintf str (cstr []) = pure 0 := rfl

theorem vprintf_formatOf {ps : List Piece} (hps : ∀ p ∈ ps, p.Wf) :
    vprintf str (cstr (formatOf ps)) = Piece.acts str ps >>= fun _ => pure 0 := by
  rw [← vprintf_end str]
  exact vprintf_pieces hps _

end

/-- **Formatting is compositional**: pieces in front of a format emit what they emit alone and leave
the arguments they do not take to the rest. -/
theorem vprintf_append (str : BitVec 64 → List UInt8) {ps : List Piece} (hps : ∀ p ∈ ps, p.Wf)
    (g : List UInt8) {args : List (BitVec 64)} (hargs : argCount ps ≤ args.length) :
    ∃ out, vprintf str (cstr (formatOf ps)) args = .ok ⟨0, out, args.drop (argCount ps)⟩ ∧
      vprintf str (cstr (formatOf ps ++ g)) args =
        (vprintf str (cstr g) (args.drop (argCount ps))).map fun r =>
          ⟨r.result, out ++ r.out, r.rest⟩ := by
  obtain ⟨out, hrun⟩ := acts_run str hargs
  refine ⟨out, ?_, ?_⟩
  · rw [vprintf_formatOf hps, Emit.bind_ok hrun rfl, List.append_nil]
  · have happend : cstr (formatOf ps ++ g) = formatOf ps ++ cstr g := List.append_assoc _ _ _
    rw [happend, vprintf_pieces hps, Emit.bind_of_ok hrun]
    cases vprintf str (cstr g) (args.drop (argCount ps)) <;> rfl

/-- `%-5d:` and `%s` on three arguments. -/
theorem vprintf_append_example :
    ∃ out, vprintf (fun _ => [])
      (cstr (formatOf [.directive true ['5'.toUInt8] none 'd'.toUInt8, .char ':'.toUInt8]))
        [7, 0, 9] = .ok ⟨0, out, [0, 9]⟩ ∧
      vprintf (fun _ => [])
        (cstr (formatOf [.directive true ['5'.toUInt8] none 'd'.toUInt8, .char ':'.toUInt8] ++
          ['%'.toUInt8, 's'.toUInt8])) [7, 0, 9] =
        (vprintf (fun _ => []) (cstr ['%'.toUInt8, 's'.toUInt8]) [0, 9]).map
          fun r => ⟨r.result, out ++ r.out, r.rest⟩ := by
  have hps : ∀ p ∈ [Piece.directive true ['5'.toUInt8] none 'd'.toUInt8, .char ':'.toUInt8],
      p.Wf := by
    intro p hp
    rcases List.mem_cons.mp hp with rfl | hp
    · exact ⟨List.all_eq_true.mp rfl, by decide, by decide, by decide, by decide, fun _ => .inl rfl⟩
    · rw [List.mem_singleton.mp hp]
      exact ⟨by decide, by decide⟩
  exact vprintf_append (fun _ => []) hps ['%'.toUInt8, 's'.toUInt8] (by decide)

end ZHyper
