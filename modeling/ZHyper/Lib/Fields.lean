import Mathlib.Data.Nat.Bitwise
import Mathlib.Logic.Function.Basic

/-!
# Bit fields of words

A `Field` is a run of bits of the word at an address.  `Field.get` reads it and `Field.put` is the
read-modify-write that replaces it; all that is used of them is which bit of which word they
are about (`get_bit`, `put_bit`).

Fields that share no bit are independent: a `put` keeps the other (`get_put_of_disjoint`) and
two `put`s commute (`put_put_comm`).
-/

namespace LowLevel

structure Field where
  addr : Nat
  off : Nat
  width : Nat
deriving DecidableEq

namespace Field

variable {w : Nat} {r : Nat → BitVec w} {q q' : Field} {v v' : BitVec w}

/-- The low `n` bits set. -/
def ones (w n : Nat) : BitVec w := BitVec.ofNat w (2 ^ n - 1)

/-- The `n` bits of `x` at `off`. -/
def extract (off n : Nat) (x : BitVec w) : BitVec w := (x >>> off) &&& ones w n

/-- `x` with the `n` bits at `off` replaced by those of `v`. -/
def insert (off n : Nat) (x v : BitVec w) : BitVec w :=
  (x &&& ~~~(ones w n <<< off)) ||| ((v &&& ones w n) <<< off)

def get (q : Field) (r : Nat → BitVec w) : BitVec w := (r q.addr >>> q.off) &&& ones w q.width

def put (q : Field) (v : BitVec w) (r : Nat → BitVec w) : Nat → BitVec w :=
  Function.update r q.addr (insert q.off q.width (r q.addr) v)

/-- No bit of the two fields is the same. -/
def Disjoint (q q' : Field) : Prop :=
  q.addr ≠ q'.addr ∨ q.off + q.width ≤ q'.off ∨ q'.off + q'.width ≤ q.off

theorem Disjoint.symm (h : Disjoint q q') : Disjoint q' q := by
  rcases h with h | h | h
  · exact .inl h.symm
  · exact .inr (.inr h)
  · exact .inr (.inl h)

theorem ones_bit (n k : Nat) : (ones w n).getLsbD k = (decide (k < w) && decide (k < n)) := by
  rw [ones, BitVec.getLsbD_ofNat, Nat.testBit_two_pow_sub_one]

theorem ones_getElem {n k : Nat} (h : k < w) : (ones w n)[k] = decide (k < n) := by
  rw [← BitVec.getLsbD_eq_getElem, ones_bit]
  simp [h]

/-- A widened value fits in its own width. -/
theorem setWidth_and_ones {n : Nat} (v : BitVec n) : v.setWidth w &&& ones w n = v.setWidth w := by
  apply BitVec.eq_of_getLsbD_eq
  intro k hk
  rw [BitVec.getLsbD_and, ones_bit, BitVec.getLsbD_setWidth]
  by_cases hn : k < n
  · simp [hk, hn]
  · rw [BitVec.getLsbD_of_ge v k (by omega)]
    simp

theorem extract_bit (off n : Nat) (x : BitVec w) (k : Nat) :
    (extract off n x).getLsbD k = (decide (k < n) && x.getLsbD (off + k)) := by
  by_cases hw : k < w
  · simp [extract, ones_getElem, hw, Bool.and_comm]
  · rw [BitVec.getLsbD_of_ge _ k (by omega), BitVec.getLsbD_of_ge _ (off + k) (by omega),
      Bool.and_false]

/-- Bits that are read and put back where they were. -/
theorem extract_shiftLeft (off n : Nat) (x : BitVec w) :
    extract off n x <<< off = x &&& (ones w n <<< off) := by
  apply BitVec.eq_of_getLsbD_eq
  intro k hk
  rw [BitVec.getLsbD_and, BitVec.getLsbD_shiftLeft, BitVec.getLsbD_shiftLeft, extract_bit, ones_bit]
  rcases Nat.lt_or_ge k off with hlt | hge
  · simp [hk, hlt]
  · have hlow : k - off < w := by omega
    rw [Nat.add_sub_cancel' hge]
    simp [hk, hlow, Nat.not_lt.mpr hge, Bool.and_comm]

theorem extract_toNat {n : Nat} (off : Nat) (x : BitVec w) (hn : n ≤ w) :
    (extract off n x).toNat = x.toNat / 2 ^ off % 2 ^ n := by
  have hlt : 2 ^ n - 1 < 2 ^ w := by
    have hpow : 2 ^ n ≤ 2 ^ w := Nat.pow_le_pow_right (by decide) hn
    have hpos := Nat.two_pow_pos n
    omega
  rw [extract, ones, BitVec.toNat_and, BitVec.toNat_ushiftRight, BitVec.toNat_ofNat,
    Nat.mod_eq_of_lt hlt, Nat.and_two_pow_sub_one_eq_mod, Nat.shiftRight_eq_div_pow]

theorem extract_setWidth (off n : Nat) (x : BitVec w) :
    (extract off n x).setWidth n = x.extractLsb' off n := by
  apply BitVec.eq_of_getLsbD_eq
  intro k hk
  rw [BitVec.getLsbD_setWidth, extract_bit, BitVec.getLsbD_extractLsb']
  simp [hk]

theorem insert_bit (off n : Nat) (x v : BitVec w) (k : Nat) :
    (insert off n x v).getLsbD k =
      if off ≤ k ∧ k < off + n ∧ k < w then v.getLsbD (k - off) else x.getLsbD k := by
  by_cases hw : k < w
  · rcases Nat.lt_or_ge k off with hk | hk
    · simp [insert, hw, hk, Nat.not_le.mpr hk]
    · by_cases hn : k < off + n
      · have : k - off < n := by omega
        have : k - off < w := by omega
        simp [insert, ones_getElem, Nat.not_lt.mpr hk, *]
      · have : ¬ k - off < n := by omega
        simp [insert, ones_getElem, Nat.not_lt.mpr hk, *]
  · have hx : ∀ y : BitVec w, y.getLsbD k = false := fun y => BitVec.getLsbD_of_ge y k (by omega)
    simp [hx, hw]

/-- Setting and clearing a bit are insertions of one bit. -/
theorem insert_one (off : Nat) (x : BitVec w) : insert off 1 x 1#w = x ||| (1#w <<< off) := by
  have hones : ones w 1 = 1#w := rfl
  unfold insert
  rw [hones, BitVec.and_self]
  apply BitVec.eq_of_getLsbD_eq
  intro k _
  simp only [BitVec.getLsbD_or, BitVec.getLsbD_and, BitVec.getLsbD_not]
  cases x.getLsbD k <;> cases ((1#w <<< off).getLsbD k) <;> simp [*]

theorem insert_zero (off : Nat) (x : BitVec w) : insert off 1 x 0#w = x &&& ~~~(1#w <<< off) := by
  have hones : ones w 1 = 1#w := rfl
  simp [insert, hones]

theorem get_bit (q : Field) (r : Nat → BitVec w) (k : Nat) :
    (q.get r).getLsbD k = (decide (k < q.width) && (r q.addr).getLsbD (q.off + k)) :=
  extract_bit q.off q.width (r q.addr) k

theorem put_bit (q : Field) (v : BitVec w) (r : Nat → BitVec w) (a k : Nat) :
    (q.put v r a).getLsbD k =
      if a = q.addr ∧ q.off ≤ k ∧ k < q.off + q.width ∧ k < w then v.getLsbD (k - q.off)
        else (r a).getLsbD k := by
  by_cases ha : a = q.addr
  · subst ha
    simp [put, insert_bit]
  · simp [put, ha]

theorem ext_bits {r r' : Nat → BitVec w} (h : ∀ a k, k < w → (r a).getLsbD k = (r' a).getLsbD k) :
    r = r' := by
  funext a
  exact BitVec.eq_of_getLsbD_eq fun k hk => h a k hk

theorem get_put_of_disjoint (h : Disjoint q q') : q'.get (q.put v r) = q'.get r := by
  apply BitVec.eq_of_getLsbD_eq
  intro k _
  rw [get_bit, get_bit, put_bit]
  by_cases hk : k < q'.width
  · rw [if_neg]
    rcases h with h | h | h
    · exact fun hc => h hc.1.symm
    · omega
    · omega
  · simp [hk]

/-- A field that is put reads back, when the value fits and the field is in the word. -/
theorem get_put_self (hv : v &&& ones w q.width = v) (hq : q.off + q.width ≤ w) :
    q.get (q.put v r) = v := by
  apply BitVec.eq_of_getLsbD_eq
  intro k hw
  rw [get_bit, put_bit]
  by_cases hk : k < q.width
  · have : q.off + k < w := by omega
    simp [hk, this]
  · rw [← hv]
    simp [ones_bit, hk]

theorem put_put_comm (h : Disjoint q q') : q.put v (q'.put v' r) = q'.put v' (q.put v r) := by
  apply ext_bits
  intro a k hk
  simp only [put_bit]
  split_ifs with h1 h2 h2
  · obtain ⟨rfl, h1⟩ := h1
    rcases h with h | h | h
    · exact absurd h2.1 h
    · omega
    · omega
  · rfl
  · rfl
  · rfl

end Field

end LowLevel
