import ZHyper.Libc.Format
import Mathlib.Data.List.TakeWhile

/-!
# Where `vprintf` reads past its format

Every format is a row of pieces and then, perhaps, the beginning of a directive (`formatOf_or_cut`).
Behind such a beginning the terminator is taken for the conversion, and the loop goes on behind it
(`vprintf_cut`).  So `vprintf` returns just when there is none (`vprintf_returns_iff`).
-/

namespace ZHyper

open LowLevel

/-- The format is complete: it does not end inside a directive. -/
def Complete (f : List UInt8) : Prop := ∃ ps : List Piece, (∀ p ∈ ps, p.Wf) ∧ f = formatOf ps

/-- A directive that ends before its conversion. -/
inductive Cut : List UInt8 → Prop
  | mk (minus : Bool) (digits : List UInt8) (long : Option UInt8)
    (hdigits : ∀ d ∈ digits, isdigit d = true)
      (hlong : ∀ l ∈ long, l = 'l'.toUInt8 ∨ l = 'L'.toUInt8) :
      Cut ('%'.toUInt8 :: ((if minus then ['-'.toUInt8] else []) ++ digits ++ long.toList))

/-- There are arguments for every directive of the format that is complete. -/
def EnoughArgs (f : List UInt8) (args : List (BitVec 64)) : Prop :=
  ∀ ps : List Piece, (∀ p ∈ ps, p.Wf) → formatOf ps <+: f → argCount ps ≤ args.length

section

variable {f : List UInt8}

/-- What stands behind a `%`. -/
theorem directive_or_cut (hf : ∀ c ∈ f, c ≠ 0) :
    (∃ minus digits long c rest, f = Piece.body minus digits long c ++ rest ∧
      (Piece.directive minus digits long c).Wf) ∨
      Cut ('%'.toUInt8 :: f) := by
  obtain ⟨minus, s, hs, hminus⟩ : ∃ (minus : Bool) (s : List UInt8), f =
    (if minus then ['-'.toUInt8] else []) ++ s ∧
      (s.head? = some '-'.toUInt8 → minus = true) := by
    by_cases h : f.head? = some '-'.toUInt8
    · obtain ⟨s, rfl⟩ := List.head?_eq_some_iff.mp h
      exact ⟨true, s, rfl, fun _ => rfl⟩
    · exact ⟨false, f, rfl, fun h' => absurd h' h⟩
  have hdigits : ∀ d ∈ s.takeWhile isdigit, isdigit d = true :=
    fun d hd => List.mem_takeWhile_imp hd
  have hsplit : s.takeWhile isdigit ++ s.dropWhile isdigit = s := List.takeWhile_append_dropWhile
  cases hrest : s.dropWhile isdigit with
  | nil =>
    right
    rw [hrest] at hsplit
    rw [hs, ← hsplit, ← List.append_assoc]
    exact Cut.mk minus _ none hdigits fun l hl => nomatch hl
  | cons t rest =>
    rw [hrest] at hsplit
    have hf' : f = (if minus then ['-'.toUInt8] else []) ++ s.takeWhile isdigit ++ t :: rest := by
      rw [hs, List.append_assoc, hsplit]
    have ht0 : t ≠ 0 := hf t (by rw [hf']; exact List.mem_append_right _ List.mem_cons_self)
    by_cases hl : t = 'l'.toUInt8 ∨ t = 'L'.toUInt8
    · cases rest with
      | nil =>
        right
        rw [hf']
        exact Cut.mk minus _ (some t) hdigits fun l hl' => Option.some.inj hl' ▸ hl
      | cons c rest =>
        have hc0 : c ≠ 0 :=
          hf c (by rw [hf']; exact List.mem_append_right _ (List.mem_cons_of_mem t
            List.mem_cons_self))
        refine .inl ⟨minus, s.takeWhile isdigit, some t, c, rest, ?_, hdigits, hc0, hl⟩
        rw [hf', Piece.body, List.append_assoc _ _ rest, List.append_assoc _ _ ([c] ++ rest)]
        rfl
    · obtain ⟨hl, hL⟩ := not_or.mp hl
      have htdigit : isdigit t = false := by
        have := List.head?_dropWhile_not isdigit s
        rw [hrest] at this
        exact Bool.not_eq_true _ ▸ by simpa using this
      refine .inl ⟨minus, s.takeWhile isdigit, none, t, rest, ?_, hdigits, ht0, htdigit, hl, hL, ?_⟩
      · rw [hf', Piece.body, List.append_assoc _ _ rest]
        rw [Option.toList_none, List.append_nil]
        rfl
      · intro htm
        by_cases hnil : s.takeWhile isdigit = []
        · left
          apply hminus
          rw [← hsplit, hnil, htm]
          rfl
        · exact .inr hnil

/-- **Every format** is a row of pieces, with the beginning of a directive behind them or not. -/
theorem formatOf_or_cut (hf : ∀ c ∈ f, c ≠ 0) :
    ∃ ps rest, (∀ p ∈ ps, Piece.Wf p) ∧ f = formatOf ps ++ rest ∧ (rest = [] ∨ Cut rest) := by
  induction hn : f.length using Nat.strongRecOn generalizing f with
  | _ n ih =>
    -- a piece in front, and what the induction gives for the rest
    have hpiece : ∀ (p : Piece) (g : List UInt8), p.Wf → f = p.text ++ g →
        ∃ ps rest, (∀ p ∈ ps, Piece.Wf p) ∧ f = formatOf ps ++ rest ∧ (rest = [] ∨ Cut rest) := by
      intro p g hp hfg
      have hg : g.length < n := by
        have hlen := p.text_length_pos
        rw [← hn, hfg, List.length_append]
        omega
      obtain ⟨ps, rest, hps, hrest, hend⟩ :=
        ih _ hg (fun c hc => hf c (by rw [hfg]; exact List.mem_append_right _ hc)) rfl
      refine ⟨p :: ps, rest, ?_, ?_, hend⟩
      · intro q hq
        rcases List.mem_cons.mp hq with rfl | hq
        · exact hp
        · exact hps q hq
      · rw [hfg, hrest, ← List.append_assoc]
        rfl
    cases f with
    | nil => exact ⟨[], [], (fun p hp => nomatch hp), rfl, .inl rfl⟩
    | cons c f =>
      by_cases hc : c = '%'.toUInt8
      · rw [hc] at hpiece ⊢
        rcases directive_or_cut (f := f) fun d hd => hf d (List.mem_cons_of_mem c hd) with
          ⟨minus, digits, long, d, g, hbody, hwf⟩ | hcut
        · exact hpiece (.directive minus digits long d) g hwf (by rw [hbody]; rfl)
        · exact ⟨[], _, (fun p hp => nomatch hp), rfl, .inr hcut⟩
      · exact hpiece (.char c) f ⟨hf c List.mem_cons_self, hc⟩ rfl

variable (str : BitVec 64 → List UInt8)

/-- A directive that is cut takes the terminator for its conversion. -/
theorem directive_cut (minus : Bool) {digits : List UInt8} {long : Option UInt8}
    (hdigits : ∀ d ∈ digits, isdigit d = true)
    (hlong : ∀ l ∈ long, l = 'l'.toUInt8 ∨ l = 'L'.toUInt8) :
    ∃ out, directive str ((if minus then ['-'.toUInt8] else []) ++ digits ++ (long.toList ++ [0])) =
      Emit.emit out >>= fun _ => pure [0] := by
  have hno : ∀ c : Char, c.toUInt8 ≠ 0 → (0 : UInt8) = c.toUInt8 → minus = true ∨ digits ≠ [] :=
    fun c hc h => absurd h.symm hc
  cases long with
  | none =>
    obtain ⟨text, hconv⟩ := conversion_prints str (Piece.width_range minus digits)
      (digits.head? = some '0'.toUInt8) 0
    refine ⟨text 0, ?_⟩
    have hread := fetchDigit_run (t := 0) minus hdigits (by decide) (hno '-' (by decide)) []
    rw [Option.toList_none, List.nil_append, directive, hread, pure_bind, deref, pure_bind,
      if_neg (by decide), hconv]
    rfl
  | some l =>
    have hl := hlong l rfl
    obtain ⟨text, hconv⟩ := longConversion_prints (Piece.width_range minus digits)
      (digits.head? = some '0'.toUInt8) 0
    refine ⟨text 0, ?_⟩
    have hread := fetchDigit_run (t := l) minus hdigits (by rcases hl with rfl | rfl <;> decide)
      (by rcases hl with rfl | rfl <;> exact fun h => absurd h (by decide)) [0]
    rw [Option.toList_some, List.singleton_append, directive, hread, pure_bind, deref, pure_bind,
      if_pos hl]
    change (deref [0] >>= fun c => longConversion _ _ c >>= fun _ => pure [0]) = _
    rw [deref, pure_bind, hconv]
    rfl

/-- **Behind a directive that is cut the loop reads on.** -/
theorem vprintf_cut {rest : List UInt8} (h : Cut rest) (args : List (BitVec 64)) :
    vprintf str (cstr rest) args = .error .pastEnd := by
  obtain ⟨minus, digits, long, hdigits, hlong⟩ := h
  obtain ⟨out, hdir⟩ := directive_cut str minus hdigits hlong
  have hcstr :
    cstr ('%'.toUInt8 :: ((if minus then ['-'.toUInt8] else []) ++ digits ++ long.toList)) =
      '%'.toUInt8 :: ((if minus then ['-'.toUInt8] else []) ++ digits ++ (long.toList ++ [0])) := by
    rw [cstr, List.cons_append, List.append_assoc _ long.toList]
  rw [hcstr, vprintf, List.length_cons, vprintfLoop_percent, hdir]
  rfl

end

/-- **`vprintf` stays within its format and returns just when the format is complete.** -/
theorem vprintf_returns_iff (str : BitVec 64 → List UInt8) {f : List UInt8} (hf : ∀ c ∈ f, c ≠ 0)
    {args : List (BitVec 64)} (hargs : EnoughArgs f args) :
    (∃ r, vprintf str (cstr f) args = .ok r) ↔ Complete f := by
  constructor
  · rintro ⟨r, hr⟩
    obtain ⟨ps, rest, hps, rfl, rfl | hcut⟩ := formatOf_or_cut hf
    · exact ⟨ps, hps, List.append_nil _⟩
    · obtain ⟨out, hrun⟩ := acts_run str (hargs ps hps (List.prefix_append _ _))
      have happend : cstr (formatOf ps ++ rest) = formatOf ps ++ cstr rest :=
        List.append_assoc _ _ _
      rw [happend, vprintf_pieces hps, Emit.bind_fault hrun (vprintf_cut str hcut _)] at hr
      cases hr
  · rintro ⟨ps, hps, rfl⟩
    obtain ⟨out, hrun⟩ := acts_run str (hargs ps hps List.prefix_rfl)
    exact ⟨_, by rw [vprintf_formatOf hps]; exact Emit.bind_ok hrun rfl⟩

theorem argCount_le_length (ps : List Piece) : argCount ps ≤ (formatOf ps).length := by
  induction ps with
  | nil => exact Nat.le_refl 0
  | cons p ps ih =>
    have htext := p.text_length_pos
    have hcons : formatOf (p :: ps) = p.text ++ formatOf ps := rfl
    have htakes := p.takesArg.toNat_le
    rw [argCount_cons, hcons, List.length_append]
    omega

/-- No piece takes more arguments than it has characters. -/
theorem enoughArgs_of_length {f : List UInt8} {args : List (BitVec 64)}
    (h : f.length ≤ args.length) :
    EnoughArgs f args :=
  fun ps _ hpre => Nat.le_trans (argCount_le_length ps) (Nat.le_trans hpre.length_le h)

/-- `%d` -/
theorem vprintf_returns_iff_example :
    (∃ r, vprintf (fun _ => []) (cstr ['%'.toUInt8, 'd'.toUInt8]) [5, 6] = .ok r) ↔
      Complete ['%'.toUInt8, 'd'.toUInt8] :=
  vprintf_returns_iff _ (nonzero_of_all rfl) (enoughArgs_of_length (Nat.le_refl 2))

/-- A lone `%`. -/
theorem vprintf_lone_percent :
    (∀ c ∈ ['%'.toUInt8], c ≠ 0) ∧ EnoughArgs ['%'.toUInt8] [0] ∧
      vprintf (fun _ => []) (cstr ['%'.toUInt8]) [0] = .error .pastEnd :=
  ⟨nonzero_of_all rfl, enoughArgs_of_length (Nat.le_refl 1),
    vprintf_cut _ (Cut.mk false [] none (fun _ h => nomatch h) fun _ h => nomatch h) [0]⟩

end ZHyper
