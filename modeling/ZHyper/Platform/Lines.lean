import ZHyper.Platform.Model

/-!
# What the hypervisor prints

A format of words and of the conversions `%d`, `%u`, `%x`, with or without `l`, prints a text,
whatever its arguments are (`exec_of_chunks`).  So every line of `platform_init` is printed, and one
character after the other it goes to the one console that is enabled (`printfAll_run`).
-/

namespace ZHyper

open LowLevel

/-! ## Lines that print -/

/-- A part of a format. -/
inductive Chunk where
  | text (s : String)
  | conv (long : Bool) (c : Char)

namespace Chunk

def pieces : Chunk → List Piece
  | text s => (bytes s).map Piece.char
  | conv long c => [.directive false [] (if long then some 'l'.toUInt8 else none) c.toUInt8]

def ok : Chunk → Bool
  | text s => (bytes s).all Seg.plain
  | conv _ c => c == 'd' || c == 'u' || c == 'x'

def isConv : Chunk → Bool
  | text _ => false
  | conv _ _ => true

variable {g : Chunk} {gs : List Chunk}

theorem wf (h : g.ok = true) : ∀ p ∈ g.pieces, p.Wf := by
  intro p hp
  cases g with
  | text s =>
    obtain ⟨c, hc, rfl⟩ := List.mem_map.mp hp
    exact wf_char (List.all_eq_true.mp h c hc)
  | conv long c =>
    rw [List.mem_singleton.mp hp]
    simp only [ok, Bool.or_eq_true, beq_iff_eq] at h
    have hstop : c.toUInt8 ≠ 0 := by rcases h with (rfl | rfl) | rfl <;> decide
    refine ⟨nofun, hstop, ?_⟩
    cases long with
    | false =>
      rcases h with (rfl | rfl) | rfl <;>
        exact ⟨rfl, by decide, by decide, fun h => absurd h (by decide)⟩
    | true => exact Or.inl rfl

theorem argCount_pieces (h : g.ok = true) : argCount g.pieces = g.isConv.toNat := by
  cases g with
  | text s =>
    refine List.countP_eq_zero.mpr fun p hp => ?_
    obtain ⟨c, -, rfl⟩ := List.mem_map.mp hp
    exact Bool.false_ne_true
  | conv long c =>
    simp only [ok, Bool.or_eq_true, beq_iff_eq] at h
    rcases h with (rfl | rfl) | rfl <;> cases long <;> rfl

theorem argCount_flatMap (h : gs.all ok = true) :
    argCount (gs.flatMap pieces) = gs.countP isConv := by
  induction gs with
  | nil => rfl
  | cons g gs ih =>
    obtain ⟨hg, hgs⟩ := Bool.and_eq_true_iff.mp h
    have happend : argCount (g.pieces ++ gs.flatMap pieces) =
        argCount g.pieces + argCount (gs.flatMap pieces) :=
      List.countP_append
    rw [List.flatMap_cons, happend, argCount_pieces hg, ih hgs, List.countP_cons]
    cases g.isConv <;> simp [Nat.add_comm]

end Chunk

variable {R : Rodata}

/-- What a call prints whose format is made of `gs`. -/
theorem exec_of_chunks {fmt : String} {args : List PrintArg} (gs : List Chunk)
    (hfmt : bytes fmt = formatOf (gs.flatMap Chunk.pieces)) (hok : gs.all Chunk.ok = true)
    (hargs : gs.countP Chunk.isConv ≤ args.length) :
    (⟨fmt, args⟩ : PrintCall).exec R =
      .ok (outputOf R.text (gs.flatMap Chunk.pieces) (args.map R.slot)) := by
  have hwf : ∀ q ∈ gs.flatMap Chunk.pieces, q.Wf := by
    intro q hq
    obtain ⟨g, hg, hq⟩ := List.mem_flatMap.mp hq
    exact Chunk.wf (List.all_eq_true.mp hok g hg) q hq
  unfold PrintCall.exec
  rw [hfmt, vprintf_output hwf]
  · rfl
  · rw [Chunk.argCount_flatMap hok, List.length_map]
    exact hargs

theorem formatOf_chars (cs : List UInt8) : formatOf (cs.map Piece.char) = cs := by
  unfold formatOf
  rw [List.flatMap_map]
  exact List.flatMap_singleton' _

theorem formatOf_append (ps qs : List Piece) : formatOf (ps ++ qs) = formatOf ps ++ formatOf qs :=
  List.flatMap_append

theorem bytes_append (s t : String) : bytes (s ++ t) = bytes s ++ bytes t := by
  unfold bytes
  rw [String.toList_append, List.map_append]

/-- Words print themselves. -/
theorem words_exec {s : String} (h : (bytes s).all Seg.plain = true) :
    (⟨s, []⟩ : PrintCall).exec R = .ok (bytes s) := by
  have hpieces : [Chunk.text s].flatMap Chunk.pieces = (bytes s).map Piece.char :=
    List.flatMap_singleton ..
  have hok : [Chunk.text s].all Chunk.ok = true := by
    rw [List.all_cons, List.all_nil, Bool.and_true]
    exact h
  rw [exec_of_chunks [.text s] (by rw [hpieces, formatOf_chars]) hok (Nat.zero_le _), hpieces,
    output_chars]

/-- Words, a `%d` and the end of the line. -/
theorem decLine_exec {s : String} (h : (bytes s).all Seg.plain = true) (v : BitVec 64) :
    (⟨s ++ "%d\n", [.num v]⟩ : PrintCall).exec R =
      .ok (bytes s ++ (decText false v ++ bytes "\n")) := by
  have hpieces : [Chunk.text s, .conv false 'd', .text "\n"].flatMap Chunk.pieces =
      (bytes s).map Piece.char ++ (Seg.dec false v '\n').pieces := by
    rw [List.flatMap_cons]
    rfl
  have hok : [Chunk.text s, .conv false 'd', .text "\n"].all Chunk.ok = true := by
    rw [List.all_cons]
    exact Bool.and_eq_true_iff.mpr ⟨h, rfl⟩
  have hzero : argCount ((bytes s).map Piece.char) = 0 := (Seg.lit s).argCount_pieces
  have hfmt : bytes (s ++ "%d\n") =
      formatOf ([Chunk.text s, .conv false 'd', .text "\n"].flatMap Chunk.pieces) := by
    rw [hpieces, formatOf_append, formatOf_chars, bytes_append]
    rfl
  refine (exec_of_chunks _ hfmt hok (by exact Nat.le_refl 1)).trans ?_
  rw [hpieces, outputOf_append, output_chars, hzero, List.drop_zero]
  exact congrArg (fun text => Except.ok (bytes s ++ text)) (output_dec R.text false v '\n')

/-- The lines that `plat_gicv3_init` prints on the first CPU. -/
def gicLines (gicd : GicdContext) (gicr : GicrContext) : List PrintCall :=
  gicdLines gicd ++ [gicrLine gicr]

/-- The lines that `platformInit` prints. -/
def bootLines (I : Image) (cntfrqEl0 : Nat) (gicd : GicdContext) (gicr : GicrContext) :
    List PrintCall :=
  ⟨"Platform initialization started\n", []⟩ :: gicLines gicd gicr ++
    [frequencyLine cntfrqEl0 (1000 / I.hz) (cntfrqEl0 / 1000 * (1000 / I.hz) % 2 ^ 64)]

/-- What `test_timer_cb` prints with this count. -/
def tickText (sCount : BitVec 32) : List UInt8 :=
  bytes "Timer callback invoked! Counter: " ++ (decText false (sCount.setWidth 64) ++ bytes "\n")

def elText (currentEl : BitVec 32) : List UInt8 :=
  bytes "software EL: " ++ (decText false (currentEl.setWidth 64) ++ bytes "\n")

theorem tickLine_exec (sCount : BitVec 32) : (tickLine sCount).exec R = .ok (tickText sCount) :=
  decLine_exec (s := "Timer callback invoked! Counter: ") rfl _

theorem elLine_exec (currentEl : BitVec 32) : (elLine currentEl).exec R = .ok (elText currentEl) :=
  decLine_exec (s := "software EL: ") rfl _

/-! ## Where they go -/

/-- The one console is the PL011, and enabled. -/
structure Software.Prints (e : Software) : Prop where
  enabled : (e.console.consoles 0).enabled = true
  ops : (e.console.consoles 0).ops = some pl011Ops

/-- The words that a text comes to. -/
def words (text : List UInt8) : List (BitVec 32) := text.map fun c => BitVec.ofNat 32 c.toNat

/-- The software once `text` is printed. -/
def Software.said (e : Software) (text : List UInt8) : Software :=
  { e with console := { e.console with
      devices := e.console.devices ++ words text
      sent := e.console.sent ++ text.map fun c => (0, (c.toNat : Int)) } }

variable {e : Software} {w : TimerWorld Software} {text : List UInt8}

theorem Software.Prints.said (h : e.Prints) (text : List UInt8) : (e.said text).Prints :=
  ⟨h.enabled, h.ops⟩

theorem said_nil (e : Software) : e.said [] = e := by
  unfold Software.said words
  rw [List.map_nil, List.map_nil, List.append_nil, List.append_nil]

theorem said_said (e : Software) (text text' : List UInt8) :
    (e.said text).said text' = e.said (text ++ text') := by
  unfold Software.said words
  simp only [List.map_append, List.append_assoc]

theorem putchar_said (h : e.Prints) (c : UInt8) :
    Console.putchar 1 (c.toNat : Int) e.console = .ok (c.toNat : Int) (e.said [c]).console := by
  have hputc : (if (e.console.consoles 0).enabled then
      (e.console.consoles 0).ops.bind ConsoleOps.putc else none) = some fun _ => pl011Putc := by
    rw [h.enabled, h.ops]
    rfl
  have hall : putcAllFrom (c.toNat : Int) 1 0 0 e.console = .ok 0 (e.said [c]).console := by
    rw [putcAllFrom, bind_get, hputc]
    rfl
  unfold Console.putchar consolePutcAll
  rw [bind_run hall]
  rfl

theorem putText_run (h : w.env.Prints) (text : List UInt8) :
    putText text w = .ok () (w.withEnv (w.env.said text)) := by
  induction text generalizing w with
  | nil =>
    rw [said_nil]
    rfl
  | cons c text ih =>
    have hput : (onConsole (Console.putchar 1 (c.toNat : Int)) >>= fun _ => pure () :
        TimerM Software Unit) w = .ok () (w.withEnv (w.env.said [c])) := by
      have hchar : onConsole (Console.putchar 1 (c.toNat : Int)) w =
          .ok (c.toNat : Int) (w.withEnv (w.env.said [c])) := onConsole_run (putchar_said h c)
      rw [bind_run hchar]
      rfl
    have hrest := ih (w := w.withEnv (w.env.said [c])) (h.said [c])
    rw [show (w.withEnv (w.env.said [c])).env.said text = w.env.said (c :: text) from
      said_said _ _ _] at hrest
    exact (bind_run hput).trans hrest

theorem printf_run {p : PrintCall} (h : w.env.Prints) (hp : p.exec R = .ok text) :
    printf R p w = .ok () (w.withEnv (w.env.said text)) := by
  unfold printf
  rw [hp]
  exact putText_run h text

end ZHyper
