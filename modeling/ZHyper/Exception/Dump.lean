import ZHyper.Exception.Frame
import ZHyper.Exception.Printing

/-!
# `el2_sync.c`: the crash dump

What an unexpected exception prints before the CPU hangs, from the registers that `intr_save_regs`
has put into the frame.  The text is that of `vprintf`, and gives back all that went into it:

    the numbers of the dump  =  the syndrome and its fields, FAR, SP, PC, PSTATE, X0 to X30
                                and the return addresses
    SP is the address of the frame, 272 bytes below the interrupted one          (dump_reads_back)
-/

namespace ZHyper

open LowLevel LowLevel.Mem

/-- `regs->x[i]`; the loop of `dump_registers` stays below 31. -/
def Gpregs.reg (g : Gpregs) (i : Nat) : BitVec 64 := if h : i < 31 then (g.x ⟨i, h⟩).toBitVec else 0

/-- A 64-bit load, `none` where it takes an exception. -/
abbrev Loads := UInt64 → Option UInt64

/-- The loop of `aarch64_backtrace`, `k` frames from number `i` on, and whether it takes an
exception. -/
def backtraceFrom (loads : Loads) : Nat → Nat → UInt64 → List PrintCall × Bool
  | 0, _, _ => ([], false)
  | k + 1, i, framePtr =>
    if framePtr = 0 then ([], false)
    else
      match loads (framePtr + 8) with
      | none => ([], true)
      | some returnAddr =>
        let line : PrintCall :=
          ⟨"  Frame %d: PC = 0x%lx\n", [.num (BitVec.ofNat 64 i), .num returnAddr.toBitVec]⟩
        match loads framePtr with
        | none => ([line], true)
        | some next =>
          (line :: (backtraceFrom loads k (i + 1) next).1, (backtraceFrom loads k (i + 1) next).2)

def aarch64Backtrace (loads : Loads) (regs : Gpregs) (maxFrames : Nat) : List PrintCall × Bool :=
  (⟨"Backtrace: \n", []⟩ :: (backtraceFrom loads maxFrames 0 regs.framePtr).1,
    (backtraceFrom loads maxFrames 0 regs.framePtr).2)

/-- A line of registers. -/
def registerLine (regs : Gpregs) (i : Nat) : PrintCall :=
  if i + 3 = 31 then
    ⟨"X%-2d: 0x%016lx  X%-2d: 0x%016lx  X%-2d: 0x%016lx\n",
      [.num (BitVec.ofNat 64 i), .num (regs.reg i), .num (BitVec.ofNat 64 (i + 1)),
        .num (regs.reg (i + 1)),
        .num (BitVec.ofNat 64 (i + 2)), .num (regs.reg (i + 2))]⟩
  else
    ⟨"X%-2d: 0x%016lx  X%-2d: 0x%016lx  X%-2d: 0x%016lx  X%-2d: 0x%016lx\n",
      [.num (BitVec.ofNat 64 i), .num (regs.reg i), .num (BitVec.ofNat 64 (i + 1)),
        .num (regs.reg (i + 1)),
        .num (BitVec.ofNat 64 (i + 2)), .num (regs.reg (i + 2)), .num (BitVec.ofNat 64 (i + 3)),
        .num (regs.reg (i + 3))]⟩

/-- `for (int i = 0; i < 31; i+= 4)` -/
def registerLines (regs : Gpregs) : Nat → Nat → List PrintCall
  | 0, _ => []
  | k + 1, i => if i < 31 then registerLine regs i :: registerLines regs k (i + 4) else []

def dumpRegisters (esr far : BitVec 64) (loads : Loads) (regs : Gpregs) : List PrintCall × Bool :=
  (dumpEsr esr ++ [⟨"Register dump:\n", []⟩, ⟨"FAR: 0x%lx\n", [.num far]⟩,
      ⟨"SP: 0x%lx, PC: 0x%lx, Pstate: 0x%lx\n",
        [.num regs.sp.toBitVec, .num regs.pc.toBitVec, .num regs.pstate.toBitVec]⟩] ++
      registerLines regs 32 0 ++ (aarch64Backtrace loads regs 10).1,
    (aarch64Backtrace loads regs 10).2)

/-- `el2_sync` calls `hang`, or takes an exception in `aarch64_backtrace`. -/
inductive SyncEnd where
  | hangs
  | faults
deriving DecidableEq

def syncEnd (fault : Bool) : SyncEnd := if fault then .faults else .hangs

def el2Dabt (esr far : BitVec 64) (loads : Loads) (regs : Gpregs) : List PrintCall × SyncEnd :=
  (⟨"EL2 Sync Exception occurred! \n", []⟩ :: (dumpRegisters esr far loads regs).1,
    syncEnd (dumpRegisters esr far loads regs).2)

/-- `el2_sync`; the `fflush(NULL)` between the first line and the dump, which prints nothing, is
left out. -/
def el2Sync (esr far : BitVec 64) (loads : Loads) (regs : Gpregs) : List PrintCall × SyncEnd :=
  if esrEc esr = ecDataAbortLowerEl ∨ esrEc esr = ecDataAbortSameEl then el2Dabt esr far loads regs
  else
    (⟨"Unhandled EL2 Sync Exception! \n", []⟩ :: (dumpRegisters esr far loads regs).1,
      syncEnd (dumpRegisters esr far loads regs).2)

def el2Fiq (esr far : BitVec 64) (loads : Loads) (regs : Gpregs) : List PrintCall × SyncEnd :=
  (⟨"EL2 FIQ Exception occurred! \n", []⟩ :: (dumpRegisters esr far loads regs).1,
    syncEnd (dumpRegisters esr far loads regs).2)

/-- The entries of `exception.S` that end in a dump. -/
inductive DumpEntry where
  | sync
  | fiq

def DumpEntry.dump : DumpEntry → BitVec 64 → BitVec 64 → Loads → Gpregs → List PrintCall × SyncEnd
  | sync => el2Sync
  | fiq => el2Fiq

/-- `el2_sync_handler` and `el2_fiq_handler`: the frame is saved and handed on; `readable` says
where loads work. -/
def DumpEntry.handler (entry : DumpEntry) (c : Cpu) (esr far : BitVec 64)
    (readable : UInt64 → Bool) :
    List PrintCall × SyncEnd :=
  let c₁ := c.run intrSaveRegs
  entry.dump esr far (fun a => if readable a then some (c₁.mem.loadAt a 0) else none)
    (loadGpregs c₁.mem c₁.firstArg)

/-! ## What the dump says -/

/-- The return addresses of at most `k` frames, as far as they can be read. -/
def returnAddrs (loads : Loads) : Nat → UInt64 → List UInt64
  | 0, _ => []
  | k + 1, framePtr =>
    if framePtr = 0 then []
    else
      match loads (framePtr + 8) with
      | none => []
      | some returnAddr => returnAddr :: ((loads framePtr).map (returnAddrs loads k)).getD []

/-- The numbers that `dump_esr` prints. -/
def esrNumbers (esr : BitVec 64) : List Nat :=
  [esr.toNat, (esrEc esr).toNat, (esrIss esr).toNat] ++
    if esrEc esr = ecDataAbortLowerEl ∨ esrEc esr = ecDataAbortSameEl then
      [(getDabtField (esrIss esr) 0 5).toNat] else []

/-- The numbers of a dump. -/
def dumpNumbers (esr far : BitVec 64) (loads : Loads) (regs : Gpregs) : List Nat :=
  esrNumbers esr ++ [far.toNat, regs.sp.toNat, regs.pc.toNat, regs.pstate.toNat] ++
    (List.ofFn fun i => (regs.x i).toNat) ++ (returnAddrs loads 10 regs.framePtr).map UInt64.toNat

variable {R : Rodata} {esr far : BitVec 64} {loads : Loads} {regs : Gpregs}

/-- A line of words. -/
theorem reads_words {s : String} (hs : segsOk .between [.lit s] = true)
    (hscan : segsScan .between [.lit s] = (.between, [])) : PrintCall.Reads R ⟨s, []⟩ [] := by
  refine reads_of_segs [.lit s] ?_ rfl hs hscan
  unfold formatOf
  rw [List.flatMap_singleton, Seg.pieces, List.flatMap_map]
  exact (List.flatMap_singleton' _).symm

theorem reads_frame (i : Nat) (v : UInt64) :
    PrintCall.Reads R ⟨"  Frame %d: PC = 0x%lx\n", [.num (BitVec.ofNat 64 i), .num v.toBitVec]⟩
      [v.toNat] :=
  reads_of_segs [.lit "  Frame ", .dec false (BitVec.ofNat 64 i) ':', .lit " PC = 0x",
    .hex false true v.toBitVec '\n']
    (by simp [bytes, formatOf, Seg.pieces, Piece.text, Piece.body]) rfl rfl rfl

/-- A line of registers gives three or four of them. -/
theorem reads_registerLine (regs : Gpregs) (i : Nat) : (registerLine regs i).Reads R
    ((List.range' i (if i + 3 = 31 then 3 else 4)).map fun j => (regs.reg j).toNat) := by
  let seg (j : Nat) (stop : Char) : List Seg :=
    [.dec true (BitVec.ofNat 64 j) ':', .lit " 0x", .hex true true (regs.reg j) stop]
  unfold registerLine
  split
  · exact reads_of_segs (.lit "X" :: seg i ' ' ++ .lit " X" :: seg (i + 1) ' ' ++ .lit " X" ::
      seg (i + 2) '\n')
      (by simp [seg, bytes, formatOf, Seg.pieces, Piece.text, Piece.body]) rfl rfl rfl
  · exact reads_of_segs
      (.lit "X" :: seg i ' ' ++ .lit " X" :: seg (i + 1) ' ' ++ .lit " X" :: seg (i + 2) ' ' ++
        .lit " X" :: seg (i + 3) '\n')
      (by simp [seg, bytes, formatOf, Seg.pieces, Piece.text, Piece.body]) rfl rfl rfl

theorem reads_backtrace (k i : Nat) (framePtr : UInt64) :
    List.Forall₂ (PrintCall.Reads R) (backtraceFrom loads k i framePtr).1
      ((returnAddrs loads k framePtr).map fun v => [v.toNat]) := by
  induction k generalizing i framePtr with
  | zero => exact .nil
  | succ k ih =>
    rw [backtraceFrom, returnAddrs]
    by_cases h0 : framePtr = 0
    · rw [if_pos h0, if_pos h0]
      exact .nil
    · rw [if_neg h0, if_neg h0]
      cases loads (framePtr + 8) with
      | none => exact .nil
      | some returnAddr =>
        cases loads framePtr with
        | none => exact .cons (reads_frame i returnAddr) .nil
        | some next => exact .cons (reads_frame i returnAddr) (ih (i + 1) next)

theorem reads_registerLines : List.Forall₂ (PrintCall.Reads R) (registerLines regs 32 0)
    ((List.range 8).map fun n =>
      (List.range' (4 * n) (if 4 * n + 3 = 31 then 3 else 4)).map fun j => (regs.reg j).toNat) :=
  .cons (reads_registerLine regs 0) <| .cons (reads_registerLine regs 4) <|
    .cons (reads_registerLine regs 8) <|
    .cons (reads_registerLine regs 12) <| .cons (reads_registerLine regs 16) <|
      .cons (reads_registerLine regs 20) <|
    .cons (reads_registerLine regs 24) <| .cons (reads_registerLine regs 28) .nil

theorem reads_yesNo (lead : String) {fmt : String} {b : Prop} [Decidable b] {s t : String}
    (hfmt : bytes fmt = formatOf ([.lit lead, .str s '\n'].flatMap Seg.pieces))
    (hs : segsOk .between [.lit lead, .str s '\n'] = true)
    (ht : segsOk .between [.lit lead, .str t '\n'] = true)
    (hscan : segsScan .between [.lit lead, .str s '\n'] = (.between, []))
    (htscan : segsScan .between [.lit lead, .str t '\n'] = (.between, [])) :
    PrintCall.Reads R ⟨fmt, [.str (if b then s else t)]⟩ [] := by
  split
  · exact reads_of_segs _ hfmt rfl hs hscan
  · exact reads_of_segs [.lit lead, .str t '\n'] hfmt rfl ht htscan

theorem reads_dumpDabt (iss : BitVec 64) :
    List.Forall₂ (PrintCall.Reads R) (dumpDabt iss)
      [[], [(getDabtField iss 0 5).toNat], [], [], [], []] := by
  refine .cons (reads_words (by decide) (by decide)) <| .cons ?_ <| .cons ?_ <| .cons ?_ <|
    .cons ?_ <| .cons ?_ .nil
  · refine reads_of_segs [.lit "    Data Fault Status Code (DFSC): 0x",
      .hex false false ((getDabtField iss 0 5).setWidth 64) '\n'] ?_ rfl rfl ?_
    · simp [bytes, formatOf, Seg.pieces, Piece.text, Piece.body]
    · have hwidth : ((getDabtField iss 0 5).setWidth 64).toNat = (getDabtField iss 0 5).toNat := by
        rw [BitVec.toNat_setWidth]
        exact Nat.mod_eq_of_lt (Nat.lt_of_lt_of_le (BitVec.isLt _) (by decide))
      rw [← hwidth]
      rfl
  · exact reads_yesNo "    Write not Read (WnR): " (by decide) (by decide) (by decide) (by decide)
      (by decide)
  · exact reads_yesNo "    Stage 1 Translation Table Walk (S1PTW): " (by decide) (by decide)
      (by decide)
      (by decide) (by decide)
  · exact reads_yesNo "    Cache Maintenance (CM): " (by decide) (by decide) (by decide) (by decide)
      (by decide)
  · exact reads_yesNo "    External Abort (EA): " (by decide) (by decide) (by decide) (by decide)
      (by decide)

theorem reads_dumpEsr (esr : BitVec 64) :
    ∃ nss, List.Forall₂ (PrintCall.Reads R) (dumpEsr esr) nss ∧
    nss.flatten = esrNumbers esr := by
  have hfields : List.Forall₂ (PrintCall.Reads R) ((dumpEsr esr).take 4)
      [[esr.toNat], [(esrEc esr).toNat], [], [(esrIss esr).toNat]] := by
    refine .cons ?_ <| .cons ?_ <| .cons ?_ <| .cons ?_ .nil
    · exact reads_of_segs [.lit "Error Syndrome (ESR): 0x", .hex false true esr '\n']
        (by simp [bytes, formatOf, Seg.pieces, Piece.text, Piece.body]) rfl rfl rfl
    · exact reads_of_segs [.lit "  Exception Class (EC): 0x", .hex false false (esrEc esr) '\n']
        (by simp [bytes, formatOf, Seg.pieces, Piece.text, Piece.body]) rfl rfl rfl
    · exact reads_yesNo "  Instruction Length (IL): " (by decide) (by decide) (by decide)
        (by decide) (by decide)
    · exact reads_of_segs [.lit "  Instruction Specific Syndrome (ISS): 0x",
        .hex false true (esrIss esr) '\n']
        (by simp [bytes, formatOf, Seg.pieces, Piece.text, Piece.body]) rfl rfl rfl
  have hsplit : dumpEsr esr = (dumpEsr esr).take 4 ++
      if esrEc esr = ecDataAbortLowerEl ∨ esrEc esr = ecDataAbortSameEl then dumpDabt (esrIss esr)
        else [] := rfl
  unfold esrNumbers
  rw [hsplit]
  by_cases hdabt : esrEc esr = ecDataAbortLowerEl ∨ esrEc esr = ecDataAbortSameEl
  · rw [if_pos hdabt, if_pos hdabt]
    exact ⟨_, List.rel_append hfields (reads_dumpDabt (esrIss esr)), rfl⟩
  · rw [if_neg hdabt, if_neg hdabt]
    exact ⟨_, List.rel_append hfields .nil, rfl⟩

/-- The registers that the lines give are all, in order. -/
theorem registerLines_numbers (regs : Gpregs) : ((List.range 8).map fun n =>
    (List.range' (4 * n) (if 4 * n + 3 = 31 then 3 else 4)).map fun j =>
      (regs.reg j).toNat).flatten =
      List.ofFn fun i => (regs.x i).toNat := rfl

theorem reads_dump (esr far : BitVec 64) (loads : Loads) (regs : Gpregs) :
    ∃ nss, List.Forall₂ (PrintCall.Reads R) (dumpRegisters esr far loads regs).1 nss ∧
      nss.flatten = dumpNumbers esr far loads regs := by
  obtain ⟨nss, hesr, hnss⟩ :=
    (reads_dumpEsr esr : ∃ nss, List.Forall₂ (PrintCall.Reads R) _ nss ∧ _)
  have hheader : List.Forall₂ (PrintCall.Reads R)
    [⟨"Register dump:\n", []⟩, ⟨"FAR: 0x%lx\n", [.num far]⟩,
      ⟨"SP: 0x%lx, PC: 0x%lx, Pstate: 0x%lx\n",
        [.num regs.sp.toBitVec, .num regs.pc.toBitVec, .num regs.pstate.toBitVec]⟩]
      [[], [far.toNat], [regs.sp.toNat, regs.pc.toNat, regs.pstate.toNat]] := by
    refine .cons (reads_words (by decide) (by decide)) <| .cons ?_ <| .cons ?_ .nil
    · exact reads_of_segs [.lit "FAR: 0x", .hex false true far '\n']
        (by simp [bytes, formatOf, Seg.pieces, Piece.text, Piece.body]) rfl rfl rfl
    · exact reads_of_segs [.lit "SP: 0x", .hex false true regs.sp.toBitVec ',', .lit " PC: 0x",
        .hex false true regs.pc.toBitVec ',', .lit " Pstate: 0x",
          .hex false true regs.pstate.toBitVec '\n']
        (by simp [bytes, formatOf, Seg.pieces, Piece.text, Piece.body]) rfl rfl rfl
  have hbacktrace : List.Forall₂ (PrintCall.Reads R) (aarch64Backtrace loads regs 10).1
      ([] :: (returnAddrs loads 10 regs.framePtr).map fun v => [v.toNat]) :=
    .cons (reads_words (by decide) (by decide)) (reads_backtrace 10 0 regs.framePtr)
  refine ⟨_, List.rel_append (List.rel_append (List.rel_append hesr hheader) reads_registerLines)
    hbacktrace, ?_⟩
  have hsingle (l : List UInt64) : ([] :: l.map fun v => [v.toNat]).flatten =
      l.map UInt64.toNat := by
    rw [List.flatten_cons, ← List.flatMap_def]
    exact List.flatMap_pure_eq_map _ _
  rw [List.flatten_append, List.flatten_append, List.flatten_append, hnss, registerLines_numbers,
    hsingle]
  rfl

theorem reads_entry (entry : DumpEntry) (esr far : BitVec 64) (loads : Loads) (regs : Gpregs) :
    ∃ text, printAll R (entry.dump esr far loads regs).1 = .ok text ∧
      hexNumbers text = dumpNumbers esr far loads regs := by
  obtain ⟨nss, hdump, hnss⟩ :=
    (reads_dump esr far loads regs : ∃ nss, List.Forall₂ (PrintCall.Reads R) _ nss ∧ _)
  have hlead {s : String} (hs : segsOk .between [.lit s] = true)
    (hscan : segsScan .between [.lit s] = (.between, [])) :
      ∃ text, printAll R (⟨s, []⟩ :: (dumpRegisters esr far loads regs).1) = .ok text ∧
        hexNumbers text = dumpNumbers esr far loads regs := by
    obtain ⟨text, hprint, hread⟩ := Reads.all (.cons (reads_words hs hscan) hdump)
    refine ⟨text, hprint, ?_⟩
    unfold hexNumbers
    rw [hread, List.append_nil, List.flatten_cons, hnss]
    rfl
  cases entry with
  | sync =>
    show ∃ text, printAll R (el2Sync esr far loads regs).1 = .ok text ∧ _
    unfold el2Sync
    split
    · exact hlead (by decide) (by decide)
    · exact hlead (by decide) (by decide)
  | fiq => exact hlead (by decide) (by decide)

/-- What went into a dump is in its numbers. -/
theorem dumpNumbers_inj {esr' far' : BitVec 64} {loads' : Loads} {regs' : Gpregs}
    (h : dumpNumbers esr far loads regs = dumpNumbers esr' far' loads' regs') :
    esr = esr' ∧ far = far' ∧ regs = regs' := by
  have hesr : esr = esr' := BitVec.eq_of_toNat_eq (List.cons.inj h).1
  subst hesr
  unfold dumpNumbers at h
  rw [List.append_assoc, List.append_assoc, List.append_assoc, List.append_assoc] at h
  obtain ⟨hhead, h⟩ := List.append_inj (List.append_cancel_left h) rfl
  obtain ⟨hx, -⟩ := List.append_inj h (by rw [List.length_ofFn, List.length_ofFn])
  simp only [List.cons.injEq, and_true] at hhead
  obtain ⟨hfar, hsp, hpc, hpstate⟩ := hhead
  refine ⟨rfl, BitVec.eq_of_toNat_eq hfar, ?_⟩
  obtain ⟨x, sp, pc, pstate⟩ := regs
  obtain ⟨x', sp', pc', pstate'⟩ := regs'
  have hregs : x = x' := funext fun i => UInt64.toNat_inj.mp (congrFun (List.ofFn_injective hx) i)
  obtain rfl := UInt64.toNat_inj.mp hsp
  obtain rfl := UInt64.toNat_inj.mp hpc
  obtain rfl := UInt64.toNat_inj.mp hpstate
  rw [hregs]

/-- **The crash dump reads back.**  Whatever the registers and wherever loads work, the text of the
dump gives the syndrome, its fields, the fault address, the interrupted registers and the return
addresses of up to ten frames, in order, with the address of the frame for the interrupted `sp`; so
it determines all but the memory. -/
theorem dump_reads_back (R : Rodata) (entry : DumpEntry) (c : Cpu) (esr far : BitVec 64)
    (readable : UInt64 → Bool) :
    ∃ text, printAll R (entry.handler c esr far readable).1 = .ok text ∧
      hexNumbers text = esrNumbers esr ++
        [far.toNat, (c.sp - 272).toNat, c.elrEl2.toNat, c.spsrEl2.toNat] ++
        (List.ofFn fun i => (c.x i).toNat) ++
        (returnAddrs (fun a => if readable a then some ((c.run intrSaveRegs).mem.loadAt a 0)
          else none) 10
          (c.x 29)).map UInt64.toNat ∧
      ∀ entry' c' esr' far' readable', printAll R
        (DumpEntry.handler entry' c' esr' far' readable').1 = .ok text →
        esr = esr' ∧ far = far' ∧ c.x = c'.x ∧ c.sp = c'.sp ∧ c.elrEl2 = c'.elrEl2 ∧
        c.spsrEl2 = c'.spsrEl2 := by
  have hreads (entry : DumpEntry) (c : Cpu) (esr far : BitVec 64) (readable : UInt64 → Bool) :
      ∃ text, printAll R (entry.handler c esr far readable).1 = .ok text ∧
        hexNumbers text = dumpNumbers esr far
        (fun a => if readable a then some ((c.run intrSaveRegs).mem.loadAt a 0) else none)
          (interrupted c) := by
    have hdump : entry.handler c esr far readable = entry.dump esr far
        (fun a => if readable a then some ((c.run intrSaveRegs).mem.loadAt a 0) else none)
          (interrupted c) := by
      rw [← intrSaveRegs_frame c]
      rfl
    rw [hdump]
    exact reads_entry entry _ _ _ _
  obtain ⟨text, hprint, hnumbers⟩ := hreads entry c esr far readable
  refine ⟨text, hprint, hnumbers, fun entry' c' esr' far' readable' hprint' => ?_⟩
  obtain ⟨text', hprint'', hnumbers'⟩ := hreads entry' c' esr' far' readable'
  obtain rfl : text = text' := Except.ok.inj (hprint'.symm.trans hprint'')
  obtain ⟨hesr, hfar, hregs⟩ := dumpNumbers_inj (hnumbers.symm.trans hnumbers')
  have hsp : frameOf c = frameOf c' := congrArg Gpregs.sp hregs
  exact ⟨hesr, hfar, congrArg Gpregs.x hregs, (UInt64.sub_left_inj _).mp hsp,
    congrArg Gpregs.pc hregs,
    congrArg Gpregs.pstate hregs⟩

end ZHyper
