import ZHyper.Lib.Prog

/-!
# Strings in byte memory

`CStr m p s`: at the address `p` of `m` stand the bytes `s`, none of them zero, and a zero byte
behind them.  A routine that goes through a string reads one byte at a time: `CStr.nil`, or
`CStr.head` and then `CStr.tail`, is what it meets.

`putBytes p bs m` is `m` with the bytes `bs` at `p`; the effects of routines that write strings are
such memories.
-/

namespace LowLevel

structure CStr (m : Mem) (p : Nat) (s : List UInt8) : Prop where
  nonnull : 0 < p
  fits : p + s.length < 2 ^ 64
  bytes : ∀ i (h : i < s.length), m (p + i) = s[i]
  stop : m (p + s.length) = 0
  nonzero : ∀ c ∈ s, c ≠ 0

/-- A load of one byte in `R`, or a store of one byte in `W`. -/
def Bytewise (R W : Nat → Prop) : Access → Prop
  | .load w x => w = 1 ∧ R x
  | .store w x _ => w = 1 ∧ W x

/-- No address at all. -/
def nowhere (_ : Nat) : Prop := False

/-- `prog` returns `r` and leaves memory as it was. -/
def Returns {α : Type} (P : Access → Prop) (prog : Prog α) (m : Mem) (r : α) : Prop :=
  prog.wp P (fun v m' => v = r ∧ m' = m) m

theorem Bytewise.mono {R R' W W' : Nat → Prop} {a : Access} (h : Bytewise R W a)
    (hR : ∀ x, R x → R' x)
    (hW : ∀ x, W x → W' x) : Bytewise R' W' a := by
  cases a with
  | load w x => exact ⟨h.1, hR x h.2⟩
  | store w x v => exact ⟨h.1, hW x h.2⟩

/-- **Consequence**: the routine may be held to more places and to less of a result. -/
theorem bytewise_weaken {α : Type} {R R' W W' : Nat → Prop} {Q Q' : α → Mem → Prop} {prog : Prog α}
    {m : Mem} (h : prog.wp (Bytewise R W) Q m) (hR : ∀ x, R x → R' x) (hW : ∀ x, W x → W' x)
    (hQ : ∀ r m', Q r m' → Q' r m') : prog.wp (Bytewise R' W') Q' m :=
  Prog.wp_access (Prog.wp_mono h hQ) fun _ ha => ha.mono hR hW

theorem load_one (m : Mem) (p : Nat) : m.load 1 p = (m p).toNat := Nat.add_zero _

theorem nonzero_of_all {s : List UInt8} (h : s.all (· != 0) = true) : ∀ c ∈ s, c ≠ 0 :=
  fun c hc => bne_iff_ne.mp (List.all_eq_true.mp h c hc)

theorem byte_eq_zero {c : UInt8} : c.toNat = 0 ↔ c = 0 := UInt8.toNat_inj (b := 0)

namespace CStr

variable {m m' : Mem} {p : Nat} {s : List UInt8} {c : UInt8}

theorem nil (h : CStr m p []) : m.load 1 p = 0 := by
  rw [load_one]
  exact congrArg UInt8.toNat h.stop

theorem head (h : CStr m p (c :: s)) : m.load 1 p = c.toNat ∧ c.toNat ≠ 0 := by
  have hc := h.bytes 0 (Nat.succ_pos _)
  rw [load_one]
  refine ⟨congrArg UInt8.toNat hc, ?_⟩
  rw [Ne, byte_eq_zero]
  exact h.nonzero c List.mem_cons_self

theorem tail (h : CStr m p (c :: s)) : CStr m (p + 1) s := by
  have hadd : ∀ i, p + 1 + i = p + (i + 1) := by omega
  have hfits := h.fits
  rw [List.length_cons] at hfits
  refine ⟨Nat.succ_pos p, by omega, ?_, ?_, fun d hd => h.nonzero d (List.mem_cons_of_mem _ hd)⟩
  · intro i hi
    rw [hadd]
    exact h.bytes (i + 1) (Nat.succ_lt_succ hi)
  · rw [hadd]
    exact h.stop

theorem length_lt (h : CStr m p s) : s.length < Prog.loopBound := by
  have h1 := h.fits
  have h2 := h.nonnull
  unfold Prog.loopBound
  omega

theorem congr (h : CStr m p s) (hm : ∀ x, p ≤ x → x ≤ p + s.length → m' x = m x) : CStr m' p s := by
  refine ⟨h.nonnull, h.fits, ?_, ?_, h.nonzero⟩
  · intro i hi
    rw [hm _ (by omega) (by omega)]
    exact h.bytes i hi
  · rw [hm _ (by omega) (by omega)]
    exact h.stop

end CStr

/-! ## Writing bytes -/

def putBytes (p : Nat) (bs : List UInt8) (m : Mem) : Mem := fun x =>
  if p ≤ x ∧ x < p + bs.length then bs.getD (x - p) 0 else m x

section

variable {m : Mem} {p : Nat} {a b : List UInt8} {x i : Nat}

theorem putBytes_out (h : x < p ∨ p + a.length ≤ x) : putBytes p a m x = m x := if_neg (by omega)

theorem putBytes_in (h : i < a.length) : putBytes p a m (p + i) = a[i] := by
  rw [putBytes, if_pos (by omega), Nat.add_sub_cancel_left]
  exact (List.getElem_eq_getD 0).symm

theorem putBytes_nil (p : Nat) (m : Mem) : putBytes p [] m = m := by
  funext x
  exact putBytes_out (by rw [List.length_nil]; omega)

theorem store_eq_putBytes (m : Mem) (p : Nat) (c : UInt8) :
    m.store 1 p c.toNat = putBytes p [c] m := by
  funext x
  by_cases hx : x = p
  · have hin := putBytes_in (m := m) (p := p) (a := [c]) (i := 0) Nat.one_pos
    have hst : m.store 1 p c.toNat (p + 0) = _ := Mem.store_apply_in Nat.one_pos
    rw [Nat.add_zero] at hin hst
    rw [hx, hin, hst, Nat.pow_zero, Nat.div_one]
    exact UInt8.ofNat_toNat
  · rw [putBytes_out (by rw [List.length_singleton]; omega), Mem.store_apply_out (by omega)]

/-- Bytes written one part behind the other. -/
theorem putBytes_append (p : Nat) (a b : List UInt8) (m : Mem) :
    putBytes (p + a.length) b (putBytes p a m) = putBytes p (a ++ b) m := by
  have hlen : (a ++ b).length = a.length + b.length := List.length_append
  funext x
  by_cases hlo : x < p ∨ p + (a.length + b.length) ≤ x
  · rw [putBytes_out (by omega), putBytes_out (by omega), putBytes_out (by omega)]
  · obtain ⟨i, rfl⟩ : ∃ i, x = p + i := ⟨x - p, by omega⟩
    rw [putBytes_in (a := a ++ b) (by omega)]
    by_cases hi : i < a.length
    · rw [putBytes_out (by omega), putBytes_in hi, List.getElem_append_left hi]
    · obtain ⟨j, rfl⟩ : ∃ j, i = a.length + j := ⟨i - a.length, by omega⟩
      rw [← Nat.add_assoc, putBytes_in (by omega), List.getElem_append_right (by omega)]
      congr 1
      omega

/-- Bytes put clear of a string leave it. -/
theorem CStr.putBytes {q : Nat} {s : List UInt8} (h : CStr m q s)
    (hapart : p + a.length ≤ q ∨ q + s.length < p) : CStr (putBytes p a m) q s :=
  h.congr fun x h1 h2 => putBytes_out (by omega)

/-- The bytes of a string and a terminator, put at an address, make it a string. -/
theorem CStr.put {q : Nat} {s : List UInt8} (hp : 0 < q) (hfits : q + s.length < 2 ^ 64)
    (hs : ∀ c ∈ s, c ≠ 0)
    (m : Mem) : CStr (LowLevel.putBytes q (s ++ [0]) m) q s := by
  have hlen : (s ++ [(0 : UInt8)]).length = s.length + 1 := by simp
  refine ⟨hp, hfits, ?_, ?_, hs⟩
  · intro i hi
    rw [putBytes_in (by omega), List.getElem_append_left hi]
  · rw [putBytes_in (by omega), List.getElem_append_right (Nat.le_refl _)]
    simp

/-- The bytes of a string are there already. -/
theorem CStr.putBytes_self {q : Nat} {s : List UInt8} (h : CStr m q s) :
    LowLevel.putBytes q s m = m := by
  funext x
  by_cases hx : x < q ∨ q + s.length ≤ x
  · exact putBytes_out hx
  · obtain ⟨i, rfl⟩ : ∃ i, x = q + i := ⟨x - q, by omega⟩
    rw [putBytes_in (by omega), h.bytes i (by omega)]

/-- Bytes put over the terminator lengthen the string. -/
theorem CStr.append {q : Nat} {s t : List UInt8} (h : CStr m q s) (ht : ∀ c ∈ t, c ≠ 0)
    (hfits : q + (s.length + t.length) < 2 ^ 64) :
    CStr (LowLevel.putBytes (q + s.length) (t ++ [0]) m) q (s ++ t) := by
  have hput : LowLevel.putBytes (q + s.length) (t ++ [0]) m =
      LowLevel.putBytes q (s ++ t ++ [0]) m := by
    rw [List.append_assoc, ← putBytes_append q s, h.putBytes_self]
  rw [hput]
  refine CStr.put h.nonnull ?_ ?_ m
  · rwa [List.length_append]
  · intro c hc
    exact (List.mem_append.mp hc).elim (h.nonzero c) (ht c)

end

/-- Two ranges without a byte in common. -/
def Apart (p k q l : Nat) : Prop := ∀ x, p ≤ x → x < p + k → q ≤ x → x < q + l → False

theorem Apart.cases {p k q l : Nat} (h : Apart p k q l) (hl : 0 < l) :
    k = 0 ∨ p + k ≤ q ∨ q + l ≤ p := by
  by_contra hne
  rcases Nat.le_total p q with hpq | hpq
  · exact h q hpq (by omega) (Nat.le_refl q) (by omega)
  · exact h p (Nat.le_refl p) (by omega) hpq (by omega)

theorem Apart.mono {p k q l p' k' q' l' : Nat} (h : Apart p k q l) (hp : p ≤ p')
    (hk : p' + k' ≤ p + k)
    (hq : q ≤ q') (hl : q' + l' ≤ q + l) : Apart p' k' q' l' :=
  fun x h1 h2 h3 h4 => h x (by omega) (by omega) (by omega) (by omega)

end LowLevel
