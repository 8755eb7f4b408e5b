import ZHyper.Lib.Fields

/-!
# The exception syndrome

`ESR_EC`, `ESR_IL` and `ESR_ISS` are to split a syndrome into the exception class (bits 31:26), the
length bit (bit 25) and the rest.  `ESR_IL_MASK` has five bits: the four low bits of the class come
with the length bit.  The three still make up the syndrome, since the bits that are read twice are
put back where they were; but what `ESR_IL` gives is a bit just when those four are zero
(`esr_fields_iff`).
-/

namespace ZHyper

open LowLevel

/-! ## Decoding -/

def esrEc (esr : BitVec 64) : BitVec 64 := (esr >>> 26) &&& 0x3F

def esrIl (esr : BitVec 64) : BitVec 64 := (esr >>> 25) &&& 0x1F

def esrIss (esr : BitVec 64) : BitVec 64 := (esr >>> 0) &&& 0x1FFFFFF

/-- `GET_DABT_FIELD`, as the `uint32_t` that it is assigned to. -/
def getDabtField (value : BitVec 64) (start stop : Nat) : BitVec 32 :=
  ((value >>> start) &&& (((1#32 <<< (stop - start + 1)) - 1).setWidth 64)).setWidth 32

def ecDataAbortLowerEl : BitVec 64 := 0x24

def ecDataAbortSameEl : BitVec 64 := 0x25

inductive PrintArg where
  | num (v : BitVec 64)
  | str (s : String)
deriving DecidableEq

/-- A call of `printf`. -/
structure PrintCall where
  fmt : String
  args : List PrintArg
deriving DecidableEq

/-- The part of `dump_esr` about data aborts. -/
def dumpDabt (iss : BitVec 64) : List PrintCall :=
  let dfsc := getDabtField iss 0 5
  let wnR := getDabtField iss 6 6
  let s1ptw := getDabtField iss 7 7
  let cm := getDabtField iss 8 8
  let ea := getDabtField iss 9 9
  [⟨"  Data Abort Details:\n", []⟩,
    ⟨"    Data Fault Status Code (DFSC): 0x%x\n", [.num (dfsc.setWidth 64)]⟩,
    ⟨"    Write not Read (WnR): %s\n", [.str (if wnR ≠ 0 then "Write" else "Read")]⟩,
    ⟨"    Stage 1 Translation Table Walk (S1PTW): %s\n",
      [.str (if s1ptw ≠ 0 then "Yes" else "No")]⟩,
    ⟨"    Cache Maintenance (CM): %s\n", [.str (if cm ≠ 0 then "Yes" else "No")]⟩,
    ⟨"    External Abort (EA): %s\n", [.str (if ea ≠ 0 then "Yes" else "No")]⟩]

/-- What `dump_esr` prints. -/
def dumpEsr (esr : BitVec 64) : List PrintCall :=
  let ec := esrEc esr
  let iss := esrIss esr
  [⟨"Error Syndrome (ESR): 0x%lx\n", [.num esr]⟩,
    ⟨"  Exception Class (EC): 0x%x\n", [.num ec]⟩,
    ⟨"  Instruction Length (IL): %s\n", [.str (if esrIl esr ≠ 0 then "32 bits" else "16 bits")]⟩,
    ⟨"  Instruction Specific Syndrome (ISS): 0x%lx\n", [.num iss]⟩] ++
  if ec = ecDataAbortLowerEl ∨ ec = ecDataAbortSameEl then dumpDabt iss else []

/-! ## What the decoder makes of a syndrome -/

/-- A 32-bit syndrome in the 64-bit register. -/
def esrOf (e : BitVec 32) : BitVec 64 := e.setWidth 64

/-- The fields are disjoint: one bit for the length, and the three make up the syndrome. -/
structure SplitsDisjoint (e : BitVec 32) : Prop where
  bit : esrIl (esrOf e) = 0 ∨ esrIl (esrOf e) = 1
  whole : (esrEc (esrOf e) <<< 26) ||| (esrIl (esrOf e) <<< 25) ||| esrIss (esrOf e) = esrOf e

/-- The instruction length that `dump_esr` reports. -/
def reportedLength (e : BitVec 32) : List PrintArg :=
  (dumpEsr (esrOf e)).flatMap fun p => if p.fmt = "  Instruction Length (IL): %s\n" then p.args
    else []

/-- The two syndromes are the same but for the class. -/
def SameButClass (e e' : BitVec 32) : Prop := e.extractLsb' 0 26 = e'.extractLsb' 0 26

/-- The four low bits of the class. -/
def lowClass (e : BitVec 32) : BitVec 4 := e.extractLsb' 26 4

theorem esrEc_eq : esrEc = Field.extract 26 6 := rfl

theorem esrIl_eq : esrIl = Field.extract 25 5 := rfl

variable {e e' : BitVec 32}

theorem esrOf_toNat (e : BitVec 32) : (esrOf e).toNat = e.toNat := by
  rw [esrOf, BitVec.toNat_setWidth]
  exact Nat.mod_eq_of_lt (Nat.lt_of_lt_of_le e.isLt (by decide))

/-- **The three fields make up the syndrome.** -/
theorem esr_whole (e : BitVec 32) :
    (esrEc (esrOf e) <<< 26) ||| (esrIl (esrOf e) <<< 25) ||| esrIss (esrOf e) = esrOf e := by
  have hiss : esrIss (esrOf e) = Field.extract 0 25 (esrOf e) <<< 0 :=
    (BitVec.shiftLeft_zero _).symm
  have hmask : (Field.ones 64 6 <<< 26) ||| (Field.ones 64 5 <<< 25) ||| (Field.ones 64 25 <<< 0) =
      Field.ones 64 32 := by
    decide
  rw [esrEc_eq, esrIl_eq, hiss, Field.extract_shiftLeft, Field.extract_shiftLeft,
    Field.extract_shiftLeft, ← BitVec.and_or_distrib_left, ← BitVec.and_or_distrib_left, hmask]
  exact Field.setWidth_and_ones e

theorem lowClass_toNat (e : BitVec 32) : (lowClass e).toNat = e.toNat / 2 ^ 26 % 2 ^ 4 := by
  rw [lowClass, BitVec.extractLsb'_toNat, Nat.shiftRight_eq_div_pow]

theorem esrIl_toNat (e : BitVec 32) : (esrIl (esrOf e)).toNat = e.toNat / 2 ^ 25 % 2 ^ 5 := by
  rw [esrIl_eq, Field.extract_toNat 25 _ (by decide), esrOf_toNat]

/-- `ESR_IL` is the length bit and the four bits above it. -/
theorem esrIl_split (e : BitVec 32) :
    (esrIl (esrOf e)).toNat = 2 * (lowClass e).toNat + e.toNat / 2 ^ 25 % 2 := by
  rw [esrIl_toNat, lowClass_toNat]
  omega

theorem lowClass_eq_zero (e : BitVec 32) : lowClass e = 0 ↔ (lowClass e).toNat = 0 :=
  BitVec.toNat_inj.symm

theorem esrIl_eq_zero (e : BitVec 32) : esrIl (esrOf e) = 0 ↔ (esrIl (esrOf e)).toNat = 0 :=
  BitVec.toNat_inj.symm

theorem esrIl_eq_one (e : BitVec 32) : esrIl (esrOf e) = 1 ↔ (esrIl (esrOf e)).toNat = 1 :=
  BitVec.toNat_inj.symm

/-- The length bit itself. -/
theorem bit25_toNat (e : BitVec 32) : e.toNat / 2 ^ 25 % 2 = (e.getLsbD 25).toNat := by
  rw [BitVec.getLsbD, Nat.testBit_eq_decide_div_mod_eq]
  rcases Nat.mod_two_eq_zero_or_one (e.toNat / 2 ^ 25) with h | h <;> rw [h] <;> rfl

theorem splitsDisjoint_iff (e : BitVec 32) : SplitsDisjoint e ↔ lowClass e = 0 := by
  have hbit : (esrIl (esrOf e) = 0 ∨ esrIl (esrOf e) = 1) ↔ lowClass e = 0 := by
    rw [esrIl_eq_zero, esrIl_eq_one, lowClass_eq_zero, esrIl_split]
    omega
  exact ⟨fun h => hbit.mp h.bit, fun h => ⟨hbit.mpr h, esr_whole e⟩⟩

theorem fields_determine (hec : esrEc (esrOf e) = esrEc (esrOf e'))
    (hil : esrIl (esrOf e) = esrIl (esrOf e'))
    (hiss : esrIss (esrOf e) = esrIss (esrOf e')) : e = e' := by
  have h : (esrOf e).toNat = (esrOf e').toNat := by rw [← esr_whole e, hec, hil, hiss, esr_whole e']
  rw [esrOf_toNat, esrOf_toNat] at h
  exact BitVec.eq_of_toNat_eq h

/-! ## The reported length -/

theorem reportedLength_eq (e : BitVec 32) :
    reportedLength e = [.str (if esrIl (esrOf e) ≠ 0 then "32 bits" else "16 bits")] := by
  have hdabt : (dumpDabt (esrIss (esrOf e))).flatMap
      (fun p => if p.fmt = "  Instruction Length (IL): %s\n" then p.args else []) = [] := by
    simp [dumpDabt]
  unfold reportedLength dumpEsr
  rw [List.flatMap_append]
  by_cases hec : esrEc (esrOf e) = ecDataAbortLowerEl ∨ esrEc (esrOf e) = ecDataAbortSameEl
  · rw [if_pos hec, hdabt]
    simp
  · rw [if_neg hec]
    simp

theorem reportedLength_congr (e e' : BitVec 32) :
    reportedLength e = reportedLength e' ↔ (esrIl (esrOf e) = 0 ↔ esrIl (esrOf e') = 0) := by
  rw [reportedLength_eq, reportedLength_eq]
  by_cases h : esrIl (esrOf e) = 0#64 <;> by_cases h' : esrIl (esrOf e') = 0#64 <;> simp [h, h']

theorem SameButClass.bit25 (h : SameButClass e e') : e.getLsbD 25 = e'.getLsbD 25 := by
  have hbit := congrArg (fun x : BitVec 26 => x.getLsbD 25) h
  simpa using hbit

/-- Syndromes that differ only in the class report one length when the length bit is set, or when
the low bits of both classes are zero or of neither. -/
theorem length_same_iff (h : SameButClass e e') :
    reportedLength e = reportedLength e' ↔ e.getLsbD 25 = true ∨
      (lowClass e = 0 ↔ lowClass e' = 0) := by
  have hzero : ∀ x : BitVec 32, esrIl (esrOf x) = 0 ↔ lowClass x = 0 ∧ x.getLsbD 25 = false := by
    intro x
    rw [esrIl_eq_zero, esrIl_split, lowClass_eq_zero, bit25_toNat]
    cases x.getLsbD 25 <;> simp
  rw [reportedLength_congr, hzero, hzero, h.bit25]
  cases e'.getLsbD 25 <;> simp

/-- **The decoder splits syndromes into disjoint fields just when the four low bits of the class are
zero.**  The length that is reported for two syndromes that differ in the class can differ without
the length bit (second part). -/
theorem esr_fields_iff (e e' : BitVec 32) :
    ((SplitsDisjoint e ∧ SplitsDisjoint e' ∧
        (esrEc (esrOf e) = esrEc (esrOf e') → esrIl (esrOf e) = esrIl (esrOf e') →
          esrIss (esrOf e) = esrIss (esrOf e') → e = e') ∧
        (SameButClass e e' → reportedLength e = reportedLength e')) ↔
      lowClass e = 0 ∧ lowClass e' = 0) ∧
    (SameButClass e e' →
      (reportedLength e = reportedLength e' ↔ e.getLsbD 25 = true ∨
        (lowClass e = 0 ↔ lowClass e' = 0))) := by
  refine ⟨⟨?_, ?_⟩, length_same_iff⟩
  · rintro ⟨he, he', -⟩
    exact ⟨(splitsDisjoint_iff e).mp he, (splitsDisjoint_iff e').mp he'⟩
  · rintro ⟨he, he'⟩
    refine ⟨(splitsDisjoint_iff e).mpr he, (splitsDisjoint_iff e').mpr he', fields_determine,
      fun h => ?_⟩
    exact (length_same_iff h).mpr (.inr (by simp [he, he']))

/-- A data abort with a 32-bit instruction has 11 for its length bit; and an unknown exception and a
trapped `WFI`, both without the bit, are reported with different lengths. -/
theorem esr_fields_overlap :
    ¬ SplitsDisjoint 0x96000000 ∧ esrIl (esrOf 0x96000000) = 11 ∧
      SameButClass 0x04000000 0 ∧ reportedLength 0x04000000 = [.str "32 bits"] ∧
      reportedLength 0 = [.str "16 bits"] := by
  refine ⟨fun h => ?_, rfl, rfl, by decide, by decide⟩
  exact absurd h.bit (by decide)

end ZHyper
