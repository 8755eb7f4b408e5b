import ZHyper.Exception.Syndrome
import ZHyper.Lib.HexText
import ZHyper.Libc.Text
import ZHyper.Libc.ZeroPad

/-!
# Calls of `printf` that can be read back

A `PrintCall` is run by `vprintf`, its strings at their addresses.  A format made of words, of
hexadecimal numbers behind `0x` and of small decimal ones is a list of `Seg`ments, and the text that
it prints gives the hexadecimal numbers back (`reads_of_segs`), from one call to the next
(`Reads.all`).
-/

namespace ZHyper

open LowLevel

def bytes (s : String) : List UInt8 := s.toList.map Char.toUInt8

/-- The literals that `dump_esr` prints with `%s`. -/
def dumpStrings : List String := ["32 bits", "16 bits", "Write", "Read", "Yes", "No"]

/-- Where they are in memory. -/
structure Rodata where
  addr : String → BitVec 64
  text : BitVec 64 → List UInt8
  placed : ∀ s ∈ dumpStrings, addr s ≠ 0 ∧ text (addr s) = bytes s

/-- One after the other, from address 1 on. -/
instance : Inhabited Rodata where
  default := ⟨fun s => BitVec.ofNat 64 (dumpStrings.idxOf s + 1), fun a =>
    bytes (dumpStrings.getD (a.toNat - 1) ""),
    by decide⟩

def Rodata.slot (R : Rodata) : PrintArg → BitVec 64
  | .num v => v
  | .str s => R.addr s

def PrintCall.exec (R : Rodata) (p : PrintCall) : Except PrintFault (List UInt8) :=
  (vprintf R.text (cstr (bytes p.fmt)) (p.args.map R.slot)).map Emitted.out

def printAll (R : Rodata) : List PrintCall → Except PrintFault (List UInt8)
  | [] => .ok []
  | p :: ps => do
    let text ← p.exec R
    let rest ← printAll R ps
    return text ++ rest

/-- Words, `%x`, `%lx` or `%016lx`, `%d` or `%-2d`, and `%s`, the last three with the character that
follows. -/
inductive Seg where
  | lit (s : String)
  | hex (wide long : Bool) (v : BitVec 64) (stop : Char)
  | dec (left : Bool) (v : BitVec 64) (stop : Char)
  | str (s : String) (stop : Char)

namespace Seg

def pieces : Seg → List Piece
  | lit s => (bytes s).map Piece.char
  | hex wide long _ stop => [.directive false (if wide then bytes "016" else [])
      (if long then some 'l'.toUInt8 else none) 'x'.toUInt8, .char stop.toUInt8]
  | dec left _ stop => [.directive left (if left then bytes "2" else []) none 'd'.toUInt8,
    .char stop.toUInt8]
  | str _ stop => [.directive false [] none 's'.toUInt8, .char stop.toUInt8]

def args : Seg → List PrintArg
  | lit _ => []
  | hex _ _ v _ => [.num v]
  | dec _ v _ => [.num v]
  | str s _ => [.str s]

/-- A character that stands for itself. -/
def plain (c : UInt8) : Bool := c != 0 && c != '%'.toUInt8

/-- What the reader makes of a segment. -/
def scan (m : HexMode) : Seg → HexMode × List Nat
  | lit s => m.run (bytes s)
  | hex _ _ v _ => (.between, [v.toNat])
  | dec _ _ _ => (.between, [])
  | str s stop => m.run (bytes s ++ [stop.toUInt8])

/-- A hexadecimal number stands behind `0x` and ends where it should, and a decimal one starts
none. -/
def ok (m : HexMode) : Seg → Bool
  | lit s => (bytes s).all plain
  | hex _ _ _ stop => m == .field 0 && plain stop.toUInt8 && (digitOf 16 stop.toUInt8).isNone
  | dec _ _ stop => m == .between && plain stop.toUInt8 && stop.toUInt8 != 48 && stop.toUInt8 != 120
  | str s stop => dumpStrings.contains s && plain stop.toUInt8

end Seg

def segsScan : HexMode → List Seg → HexMode × List Nat
  | m, [] => (m, [])
  | m, g :: gs => ((segsScan (g.scan m).1 gs).1, (g.scan m).2 ++ (segsScan (g.scan m).1 gs).2)

def segsOk : HexMode → List Seg → Bool
  | _, [] => true
  | m, g :: gs => g.ok m && segsOk (g.scan m).1 gs

variable {R : Rodata} {m : HexMode} {g : Seg} {gs : List Seg}

theorem wf_char {c : UInt8} (h : Seg.plain c = true) : (Piece.char c).Wf := by
  unfold Seg.plain at h
  simpa [Piece.Wf] using h

theorem Seg.wf (h : g.ok m = true) : ∀ p ∈ g.pieces, p.Wf := by
  intro p hp
  cases g with
  | lit s =>
    obtain ⟨c, hc, rfl⟩ := List.mem_map.mp hp
    exact wf_char (List.all_eq_true.mp h c hc)
  | hex wide long v stop =>
    simp only [ok, Bool.and_eq_true] at h
    rcases List.mem_cons.mp hp with rfl | hp
    · have hdigits : ∀ d ∈ (if wide then bytes "016" else []), isdigit d = true := by
        cases wide <;> exact List.all_eq_true.mp rfl
      refine ⟨hdigits, by decide, ?_⟩
      cases long with
      | false => exact ⟨rfl, by decide, by decide, fun h => absurd h (by decide)⟩
      | true => exact Or.inl rfl
    · rw [List.mem_singleton.mp hp]
      exact wf_char h.1.2
  | dec left v stop =>
    simp only [ok, Bool.and_eq_true] at h
    rcases List.mem_cons.mp hp with rfl | hp
    · have hdigits : ∀ d ∈ (if left then bytes "2" else []), isdigit d = true := by
        cases left <;> exact List.all_eq_true.mp rfl
      exact ⟨hdigits, by decide, rfl, by decide, by decide, fun h => absurd h (by decide)⟩
    · rw [List.mem_singleton.mp hp]
      exact wf_char h.1.1.2
  | str s stop =>
    simp only [ok, Bool.and_eq_true] at h
    rcases List.mem_cons.mp hp with rfl | hp
    · exact ⟨nofun, by decide, rfl, by decide, by decide, fun h => absurd h (by decide)⟩
    · rw [List.mem_singleton.mp hp]
      exact wf_char h.2

theorem Seg.argCount_pieces (g : Seg) : argCount g.pieces = g.args.length := by
  cases g with
  | lit s =>
    refine List.countP_eq_zero.mpr fun p hp => ?_
    obtain ⟨c, -, rfl⟩ := List.mem_map.mp hp
    exact Bool.false_ne_true
  | hex wide long v stop => cases wide <;> cases long <;> rfl
  | dec left v stop => cases left <;> rfl
  | str s stop => rfl

/-! ## What segments print -/

theorem output_chars (str : BitVec 64 → List UInt8) (cs : List UInt8) (args : List (BitVec 64)) :
    outputOf str (cs.map Piece.char) args = cs := by
  induction cs with
  | nil => rfl
  | cons c cs ih => exact congrArg (c :: ·) ih

/-- What `%x` and `%016lx` print. -/
def hexText (wide : Bool) (v : BitVec 64) : List UInt8 :=
  padded (if wide then '0' else ' ').toUInt8 (if wide then 16 else 0 : Nat)
    (numberText v 16 false false)

/-- What `%d` and `%-2d` print. -/
def decText (left : Bool) (v : BitVec 64) : List UInt8 :=
  padded ' '.toUInt8 (if left then -2 else 0)
    (numberText ((v.setWidth 32).signExtend 64) 10 true false)

theorem output_hex (str : BitVec 64 → List UInt8) (wide long : Bool) (v : BitVec 64) (stop : Char) :
    outputOf str (Seg.hex wide long v stop).pieces [v] = hexText wide v ++ [stop.toUInt8] := by
  have hflag : (decide ((if wide then bytes "016" else []).head? = some '0'.toUInt8)) = wide := by
    cases wide <;> decide
  have hwidth : Piece.width false (if wide then bytes "016" else []) =
      (if wide then 16 else 0 : Nat) := by
    cases wide <;> decide
  unfold hexText
  cases long with
  | false =>
    have hpiece :
      (Piece.directive false (if wide then bytes "016" else []) none 'x'.toUInt8).output str =
        conversionText str (Piece.width false (if wide then bytes "016" else []))
          (decide ((if wide then bytes "016" else []).head? = some '0'.toUInt8)) 'x'.toUInt8 := rfl
    show (Piece.directive false (if wide then bytes "016" else []) none 'x'.toUInt8).output str v ++
      [stop.toUInt8] = _
    rw [hpiece, hwidth, hflag]
    rfl
  | true =>
    have hpiece (l : UInt8) :
      (Piece.directive false (if wide then bytes "016" else []) (some l) 'x'.toUInt8).output str =
        longText (Piece.width false (if wide then bytes "016" else []))
          (decide ((if wide then bytes "016" else []).head? = some '0'.toUInt8)) 'x'.toUInt8 := rfl
    show (Piece.directive false (if wide then bytes "016"
      else []) (some 'l'.toUInt8) 'x'.toUInt8).output str v ++
      [stop.toUInt8] = _
    rw [hpiece, hwidth, hflag]
    rfl

theorem output_dec (str : BitVec 64 → List UInt8) (left : Bool) (v : BitVec 64) (stop : Char) :
    outputOf str (Seg.dec left v stop).pieces [v] = decText left v ++ [stop.toUInt8] := by
  have hwidth : Piece.width left (if left then bytes "2" else []) = if left then -2 else 0 := by
    cases left <;> decide
  have hflag : (decide ((if left then bytes "2" else []).head? = some '0'.toUInt8)) = false := by
    cases left <;> decide
  have hpiece :
    (Piece.directive left (if left then bytes "2" else []) none 'd'.toUInt8).output str =
      conversionText str (Piece.width left (if left then bytes "2" else []))
        (decide ((if left then bytes "2" else []).head? = some '0'.toUInt8)) 'd'.toUInt8 := rfl
  unfold decText
  show (Piece.directive left (if left then bytes "2" else []) none 'd'.toUInt8).output str v ++
    [stop.toUInt8] = _
  rw [hpiece, hwidth, hflag]
  rfl

/-- A hexadecimal number reads back, zeros in front of it or not. -/
theorem read_hex (wide : Bool) (v : BitVec 64) : readDigits 16 (hexText wide v) = some v.toNat := by
  have htext : numberText v 16 false false = numeral 16 v.toNat := rfl
  unfold hexText
  rw [htext]
  cases wide with
  | false =>
    have hpad := padded_zero ' '.toUInt8 (numeral 16 v.toNat)
    exact (congrArg _ hpad).trans (readDigits_numeral (by decide) (by decide) _)
  | true =>
    have hzero : '0'.toUInt8 = digitChar 0 := by decide
    have hpad := padded_left '0'.toUInt8 (by decide : 16 < 2 ^ 31) (numeral 16 v.toNat)
    rw [hzero] at hpad
    exact (congrArg _ hpad).trans (readDigits_zeros_numeral (by decide) (by decide) _ _)

/-- A decimal number has no `x`. -/
theorem dec_plain (left : Bool) (v : BitVec 64) : ∀ c ∈ decText left v, c ≠ 120 := by
  intro c hc
  unfold decText padded at hc
  simp only [List.mem_append, List.mem_replicate] at hc
  rcases hc with (⟨-, rfl⟩ | hc) | ⟨-, rfl⟩
  · decide
  · unfold numberText at hc
    simp only [List.mem_append] at hc
    rcases hc with (hc | hc) | hc
    · split at hc
      · rw [List.mem_singleton.mp hc]
        decide
      · cases hc
    · cases hc
    · intro hx
      refine digitOf_ne_none (readDigits_numeral (by decide : 1 < 10) (by decide) _) hc ?_
      rw [hx]
      rfl
  · decide

theorem printed_literal {s : String} (hs : s ∈ dumpStrings) : printed (bytes s) = bytes s := by
  refine printed_eq ?_
  have hall : (dumpStrings.all fun s => (bytes s).all (· != 0)) = true := rfl
  intro c hc
  exact bne_iff_ne.mp (List.all_eq_true.mp (List.all_eq_true.mp hall s hs) c hc)

theorem output_str {s : String} (hs : s ∈ dumpStrings) (stop : Char) :
    outputOf R.text (Seg.str s stop).pieces [R.addr s] = bytes s ++ [stop.toUInt8] := by
  obtain ⟨haddr, htext⟩ := R.placed s hs
  show printed (if R.addr s = 0 then nullString else R.text (R.addr s)) ++ [stop.toUInt8] = _
  rw [if_neg haddr, htext, printed_literal hs]

/-- A segment prints what the reader expects. -/
theorem Seg.run_output (h : g.ok m = true) :
    m.run (outputOf R.text g.pieces (g.args.map R.slot)) = g.scan m := by
  cases g with
  | lit s =>
    show m.run (outputOf R.text ((bytes s).map Piece.char) []) = m.run (bytes s)
    rw [output_chars]
  | hex wide long v stop =>
    simp only [ok, Bool.and_eq_true, beq_iff_eq, Option.isNone_iff_eq_none] at h
    obtain ⟨⟨rfl, -⟩, hstop⟩ := h
    show (HexMode.field 0).run (outputOf R.text (Seg.hex wide long v stop).pieces [v]) = _
    rw [output_hex]
    exact HexMode.run_hex (read_hex wide v) hstop
  | dec left v stop =>
    simp only [ok, Bool.and_eq_true, beq_iff_eq, bne_iff_ne] at h
    obtain ⟨⟨⟨rfl, -⟩, h0⟩, hx⟩ := h
    show HexMode.between.run (outputOf R.text (Seg.dec left v stop).pieces [v]) = _
    rw [output_dec]
    exact HexMode.run_plain_stop (dec_plain left v) h0 hx
  | str s stop =>
    simp only [ok, Bool.and_eq_true, List.contains_iff_mem] at h
    show m.run (outputOf R.text (Seg.str s stop).pieces [R.addr s]) =
      m.run (bytes s ++ [stop.toUInt8])
    rw [output_str h.1]

theorem segs_wf (h : segsOk m gs = true) : ∀ p ∈ gs.flatMap Seg.pieces, p.Wf := by
  induction gs generalizing m with
  | nil => nofun
  | cons g gs ih =>
    obtain ⟨hg, hgs⟩ := Bool.and_eq_true_iff.mp h
    intro p hp
    rw [List.flatMap_cons] at hp
    exact (List.mem_append.mp hp).elim (Seg.wf hg p) (ih hgs p)

theorem argCount_segs (gs : List Seg) :
    argCount (gs.flatMap Seg.pieces) = ((gs.flatMap Seg.args).map R.slot).length := by
  rw [List.length_map]
  induction gs with
  | nil => rfl
  | cons g gs ih =>
    rw [List.flatMap_cons, List.flatMap_cons, List.length_append, ← ih, ← g.argCount_pieces]
    exact List.countP_append

theorem segs_output (h : segsOk m gs = true) :
    m.run (outputOf R.text (gs.flatMap Seg.pieces) ((gs.flatMap Seg.args).map R.slot)) =
      segsScan m gs := by
  induction gs generalizing m with
  | nil => rfl
  | cons g gs ih =>
    obtain ⟨hg, hgs⟩ := Bool.and_eq_true_iff.mp h
    have hlength : argCount g.pieces = (g.args.map R.slot).length := by
      rw [g.argCount_pieces, List.length_map]
    rw [List.flatMap_cons, List.flatMap_cons, List.map_append, outputOf_append,
      outputOf_args hlength.le, hlength, List.drop_left, HexMode.run_append, Seg.run_output hg,
      ih hgs]
    rfl

/-! ## Calls -/

/-- The call prints a text that `ns` are read from. -/
def PrintCall.Reads (R : Rodata) (p : PrintCall) (ns : List Nat) : Prop :=
  ∃ text, p.exec R = .ok text ∧ HexMode.between.run text = (.between, ns)

/-- **A format of segments prints a text that reads back.** -/
theorem reads_of_segs {p : PrintCall} {ns : List Nat} (gs : List Seg)
    (hfmt : bytes p.fmt = formatOf (gs.flatMap Seg.pieces)) (hargs : p.args = gs.flatMap Seg.args)
    (hok : segsOk .between gs = true)
    (hscan : segsScan .between gs = (.between, ns)) : p.Reads R ns := by
  refine ⟨outputOf R.text (gs.flatMap Seg.pieces) ((gs.flatMap Seg.args).map R.slot), ?_,
    (segs_output hok).trans hscan⟩
  unfold PrintCall.exec
  rw [hfmt, hargs, vprintf_output (segs_wf hok) (argCount_segs gs).le]
  rfl

/-- Texts one after the other read back to the numbers of each. -/
theorem Reads.all {ps : List PrintCall} {nss : List (List Nat)}
    (h : List.Forall₂ (PrintCall.Reads R) ps nss) :
    ∃ text, printAll R ps = .ok text ∧ HexMode.between.run text = (.between, nss.flatten) := by
  induction h with
  | nil => exact ⟨[], rfl, rfl⟩
  | @cons p ns ps nss hp _ ih =>
    obtain ⟨text, hexec, hread⟩ := hp
    obtain ⟨rest, hall, hreads⟩ := ih
    refine ⟨text ++ rest, ?_, ?_⟩
    · rw [printAll, hexec, hall]
      rfl
    · rw [HexMode.run_append, hread, hreads]
      rfl

end ZHyper
