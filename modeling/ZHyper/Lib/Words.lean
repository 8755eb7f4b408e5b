import Mathlib.Algebra.Group.Nat.Defs
import ZHyper.Lib.Bytes

/-!
# Records of 64-bit words

`loadAt m p off` and `storeAt m p off v` access the word `off` bytes behind the
pointer `p`, addresses taken modulo `2^64`.  `storeAll` fills a record word by word:
with offsets that keep clear of each other (`Clear`), every word of it reads back
as it was written (`loadAt_storeAll`).
-/

namespace LowLevel

namespace Mem

def loadAt (m : Mem) (p : UInt64) (off : Nat) : UInt64 :=
  UInt64.ofNat (m.load 8 ((p.toNat + off) % 2 ^ 64))

def storeAt (m : Mem) (p : UInt64) (off : Nat) (v : UInt64) : Mem :=
  m.store 8 ((p.toNat + off) % 2 ^ 64) v.toNat

def storeAll (m : Mem) (p : UInt64) (l : List (Nat × UInt64)) : Mem :=
  l.foldl (fun m w => storeAt m p w.1 w.2) m

/-- Two words of a record share no byte. -/
def Clear (a b : Nat) : Prop := a + 8 ≤ b ∨ b + 8 ≤ a

instance (a b : Nat) : Decidable (Clear a b) := inferInstanceAs (Decidable (_ ∨ _))

theorem loadAt_storeAt_same (m : Mem) (p : UInt64) (off : Nat) (v : UInt64) :
    loadAt (storeAt m p off v) p off = v := by
  unfold loadAt storeAt
  rw [load8_store8 v.toNat_lt, UInt64.ofNat_toNat]

theorem loadAt_storeAt_clear {m : Mem} {p : UInt64} {a b : Nat} {v : UInt64} (h : Clear a b)
    (ha : a < 2 ^ 32) (hb : b < 2 ^ 32) : loadAt (storeAt m p a v) p b = loadAt m p b := by
  have hp := p.toNat_lt
  unfold loadAt storeAt
  rw [load_store_apart]
  unfold Clear at h
  omega

/-- Words clear of all that is stored keep their values. -/
theorem loadAt_storeAll_clear {p : UInt64} {b : Nat} {l : List (Nat × UInt64)} (hb : b < 2 ^ 32)
    (hl : ∀ a ∈ l.map Prod.fst, Clear a b ∧ a < 2 ^ 32) :
    ∀ m : Mem, loadAt (storeAll m p l) p b = loadAt m p b := by
  induction l with
  | nil =>
    intro m
    rfl
  | cons w l ih =>
    intro m
    obtain ⟨h1, h2⟩ := hl w.1 List.mem_cons_self
    show loadAt (storeAll (storeAt m p w.1 w.2) p l) p b = loadAt m p b
    rw [ih fun a ha => hl a (List.mem_cons_of_mem _ ha)]
    exact loadAt_storeAt_clear h1 h2 hb

/-- **A record reads back.** -/
theorem loadAt_storeAll {p : UInt64} {off : Nat} {v : UInt64} {l : List (Nat × UInt64)}
    (hclear : (l.map Prod.fst).Pairwise Clear) (hlt : ∀ a ∈ l.map Prod.fst, a < 2 ^ 32)
    (hmem : (off, v) ∈ l) : ∀ m : Mem, loadAt (storeAll m p l) p off = v := by
  induction l with
  | nil => cases hmem
  | cons w l ih =>
    intro m
    rw [List.map_cons, List.pairwise_cons] at hclear
    show loadAt (storeAll (storeAt m p w.1 w.2) p l) p off = v
    rcases List.mem_cons.mp hmem with rfl | hmem
    · -- the later words are clear of this one
      have hoff := hlt off List.mem_cons_self
      rw [loadAt_storeAll_clear hoff fun a ha =>
        ⟨(hclear.1 a ha).symm, hlt a (List.mem_cons_of_mem _ ha)⟩]
      exact loadAt_storeAt_same m p off v
    · exact ih hclear.2 (fun a ha => hlt a (List.mem_cons_of_mem _ ha)) hmem _

attribute [irreducible] loadAt storeAt

end Mem

end LowLevel
