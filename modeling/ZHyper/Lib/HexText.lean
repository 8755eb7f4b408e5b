import ZHyper.Lib.Numerals

/-!
# Reading the numbers of a text

`hexNumbers` finds each `0x` in a text and reads the hexadecimal number behind it.  The reader has a
finite number of modes but for the number it is in, so what it makes of fixed words is computed;
`run_hex` is what it makes of a number.
-/

namespace LowLevel

/-- Between numbers, behind a `0` there, or in a number. -/
inductive HexMode where
  | between
  | zero
  | field (n : Nat)
deriving DecidableEq

namespace HexMode

def step : HexMode → UInt8 → HexMode × List Nat
  | between, c => (if c = 48 then zero else between, [])
  | zero, c => (if c = 120 then field 0 else if c = 48 then zero else between, [])
  | field n, c =>
    match digitOf 16 c with
    | some d => (field (n * 16 + d), [])
    | none => (between, [n])

def run : HexMode → List UInt8 → HexMode × List Nat
  | m, [] => (m, [])
  | m, c :: s => (((m.step c).1.run s).1, (m.step c).2 ++ ((m.step c).1.run s).2)

theorem run_append (m : HexMode) (s t : List UInt8) :
    m.run (s ++ t) = (((m.run s).1.run t).1, (m.run s).2 ++ ((m.run s).1.run t).2) := by
  induction s generalizing m with
  | nil => rfl
  | cons c s ih => rw [List.cons_append, run, ih, run, List.append_assoc]

/-- The digits of a number. -/
theorem run_digits {n k : Nat} {ds : List UInt8} (h : readFrom 16 n ds = some k) :
    (field n).run ds = (field k, []) := by
  induction ds generalizing n with
  | nil =>
    obtain rfl := Option.some.inj h
    rfl
  | cons c ds ih =>
    rw [readFrom_cons] at h
    cases hd : digitOf 16 c with
    | none =>
      rw [hd] at h
      cases h
    | some d =>
      rw [hd] at h
      rw [run, step, hd, ih h]
      rfl

/-- **A number is read** where another character follows. -/
theorem run_hex {n : Nat} {ds : List UInt8} {c : UInt8} (h : readDigits 16 ds = some n)
    (hc : digitOf 16 c = none) :
    (field 0).run (ds ++ [c]) = (between, [n]) := by
  rw [run_append, run_digits h, run, run, step, hc]
  rfl

/-- Nothing is read where there is no `x`. -/
theorem run_plain {s : List UInt8} {m : HexMode} (hm : m = between ∨ m = zero)
    (hs : ∀ c ∈ s, c ≠ 120) :
    ((m.run s).1 = between ∨ (m.run s).1 = zero) ∧ (m.run s).2 = [] := by
  induction s generalizing m with
  | nil => exact ⟨hm, rfl⟩
  | cons c s ih =>
    have hc := hs c List.mem_cons_self
    have hstep : ((m.step c).1 = between ∨ (m.step c).1 = zero) ∧ (m.step c).2 = [] := by
      rcases hm with rfl | rfl
      · refine ⟨?_, rfl⟩
        by_cases h0 : c = 48
        · exact Or.inr (if_pos h0)
        · exact Or.inl (if_neg h0)
      · refine ⟨?_, rfl⟩
        have hx : (zero.step c).1 = if c = 48 then zero else between := if_neg hc
        by_cases h0 : c = 48
        · exact Or.inr (hx.trans (if_pos h0))
        · exact Or.inl (hx.trans (if_neg h0))
    obtain ⟨hmode, hnone⟩ := ih hstep.1 fun c hc => hs c (List.mem_cons_of_mem _ hc)
    exact ⟨hmode, by rw [run, hstep.2, hnone]; rfl⟩

/-- Nor if a character follows that starts no number. -/
theorem run_plain_stop {s : List UInt8} (hs : ∀ c ∈ s, c ≠ 120) {c : UInt8} (h0 : c ≠ 48)
    (hx : c ≠ 120) :
    between.run (s ++ [c]) = (between, []) := by
  obtain ⟨hmode, hnone⟩ := run_plain (Or.inl rfl) hs
  rw [run_append, hnone]
  rcases hmode with h | h <;> rw [h] <;> simp [run, step, h0, hx]

end HexMode

/-- The numbers behind `0x` in a text, in order. -/
def hexNumbers (s : List UInt8) : List Nat :=
  (HexMode.between.run s).2 ++
    match (HexMode.between.run s).1 with
    | .field n => [n]
    | _ => []

end LowLevel
