import Mathlib.Algebra.Ring.Nat
import ZHyper.Lib.Spans

/-!
# Ordered lists of address blocks

The abstract free list of an allocator: blocks in ascending order, aligned to
`k`, no two touching (`Canonical k`).  By `Separated.unique` such a list is
determined by the addresses it covers.  Two edits keep it canonical:

* `carve t b`: what is left of `b` when `t` bytes are taken from its front;
* `release rpre b post`: `b` put between the blocks below it (`rpre`, nearest
  first) and those above it (`post`), merged with a neighbour it touches.

For each edit: it stays canonical, and it changes the covered addresses and the
sum of the sizes by exactly the bytes taken or given back.
-/

namespace LowLevel

structure Block where
  addr : Nat
  size : Nat
deriving DecidableEq

namespace Block

/-- One past the last address. -/
def fin (b : Block) : Nat := b.addr + b.size

def Has (b : Block) (x : Nat) : Prop := b.addr ≤ x ∧ x < b.fin

def Apart (b c : Block) : Prop := b.fin ≤ c.addr ∨ c.fin ≤ b.addr

def span (b : Block) : Nat × Nat := (b.addr, b.fin)

theorem span_injective : Function.Injective span := by
  rintro ⟨a, s⟩ ⟨b, t⟩ h
  simp only [span, fin, Prod.mk.injEq] at h
  obtain ⟨rfl, h⟩ := h
  rw [Nat.add_left_cancel h]

theorem Apart.not_has {b c : Block} (h : b.Apart c) {x : Nat} (hb : b.Has x) : ¬ c.Has x := by
  unfold Apart Has at *
  omega

theorem apart_of_disjoint {b c : Block} (hb : 0 < b.size) (hc : 0 < c.size)
    (h : ∀ x, b.Has x → ¬ c.Has x) : b.Apart c := by
  have h1 := h b.addr
  have h2 := h c.addr
  simp only [Apart, Has, fin] at *
  omega

/-- Two touching blocks hold what their union holds. -/
theorem has_merge {p b : Block} (h : p.fin = b.addr) (x : Nat) :
    Has ⟨p.addr, p.size + b.size⟩ x ↔ p.Has x ∨ b.Has x := by
  simp only [Has, fin] at h ⊢
  omega

end Block

/-- Some block of `l` holds `x`. -/
def Covers (l : List Block) (x : Nat) : Prop := ∃ b ∈ l, b.Has x

/-- The sum of the sizes. -/
def total (l : List Block) : Nat := (l.map Block.size).sum

@[simp] theorem covers_nil (x : Nat) : ¬ Covers [] x := by
  rintro ⟨b, hb, -⟩
  cases hb

@[simp] theorem covers_cons (b : Block) (l : List Block) (x : Nat) :
    Covers (b :: l) x ↔ b.Has x ∨ Covers l x := by
  simp [Covers]

@[simp] theorem covers_append (l l' : List Block) (x : Nat) :
    Covers (l ++ l') x ↔ Covers l x ∨ Covers l' x := by
  simp [Covers, or_and_right, exists_or]

@[simp] theorem covers_reverse (l : List Block) (x : Nat) : Covers l.reverse x ↔ Covers l x := by
  simp [Covers]

@[simp] theorem total_nil : total [] = 0 := rfl

@[simp] theorem total_cons (b : Block) (l : List Block) : total (b :: l) = b.size + total l := by
  simp [total]

@[simp] theorem total_append (l l' : List Block) : total (l ++ l') = total l + total l' := by
  simp [total]

@[simp] theorem total_reverse (l : List Block) : total l.reverse = total l := by
  simp [total]

/-! ## Canonical lists -/

structure Canonical (k : Nat) (l : List Block) : Prop where
  pos : ∀ b ∈ l, 0 < b.size
  aligned : ∀ b ∈ l, k ∣ b.addr ∧ k ∣ b.size
  gaps : l.Pairwise fun b c => b.fin < c.addr

theorem canonical_nil (k : Nat) : Canonical k [] where
  pos := fun _ h => by cases h
  aligned := fun _ h => by cases h
  gaps := List.Pairwise.nil

theorem canonical_singleton {k : Nat} {b : Block} (h0 : 0 < b.size) (h1 : k ∣ b.addr ∧ k ∣ b.size) :
    Canonical k [b] := by
  refine ⟨fun c hc => ?_, fun c hc => ?_, List.pairwise_singleton _ _⟩ <;>
  · rw [List.mem_singleton.mp hc]
    assumption

theorem canonical_append {k : Nat} {l l' : List Block} :
    Canonical k (l ++ l') ↔
      Canonical k l ∧ Canonical k l' ∧ ∀ b ∈ l, ∀ c ∈ l', b.fin < c.addr := by
  constructor
  · rintro ⟨h1, h2, h3⟩
    obtain ⟨g1, g2, g3⟩ := List.pairwise_append.mp h3
    exact ⟨⟨fun b hb => h1 b (List.mem_append_left _ hb),
        fun b hb => h2 b (List.mem_append_left _ hb), g1⟩,
      ⟨fun b hb => h1 b (List.mem_append_right _ hb),
        fun b hb => h2 b (List.mem_append_right _ hb), g2⟩, g3⟩
  · rintro ⟨h, h', hx⟩
    refine ⟨?_, ?_, List.pairwise_append.mpr ⟨h.gaps, h'.gaps, hx⟩⟩
    · intro b hb
      exact (List.mem_append.mp hb).elim (h.pos b) (h'.pos b)
    · intro b hb
      exact (List.mem_append.mp hb).elim (h.aligned b) (h'.aligned b)

theorem canonical_cons {k : Nat} {b : Block} {l : List Block} :
    Canonical k (b :: l) ↔
      (0 < b.size ∧ k ∣ b.addr ∧ k ∣ b.size) ∧ Canonical k l ∧ ∀ c ∈ l, b.fin < c.addr := by
  constructor
  · rintro ⟨h1, h2, h3⟩
    rw [List.pairwise_cons] at h3
    exact ⟨⟨h1 b List.mem_cons_self, h2 b List.mem_cons_self⟩,
      ⟨fun c hc => h1 c (List.mem_cons_of_mem _ hc), fun c hc => h2 c (List.mem_cons_of_mem _ hc),
        h3.2⟩, h3.1⟩
  · rintro ⟨⟨h0, h1⟩, h2, h3⟩
    exact canonical_append.mpr ⟨canonical_singleton h0 h1, h2, fun c hc d hd => by
      rw [List.mem_singleton.mp hc]
      exact h3 d hd⟩

theorem Canonical.size_ge {k : Nat} {l : List Block} (h : Canonical k l) {b : Block} (hb : b ∈ l) :
    k ≤ b.size :=
  Nat.le_of_dvd (h.pos b hb) (h.aligned b hb).2

theorem Canonical.separated {k : Nat} {l : List Block} (h : Canonical k l) :
    Separated (l.map Block.span) := by
  refine ⟨?_, List.pairwise_map.mpr h.gaps⟩
  intro s hs
  obtain ⟨b, hb, rfl⟩ := List.mem_map.mp hs
  have := h.pos b hb
  show b.addr < b.addr + b.size
  omega

theorem cover_map_span (l : List Block) : cover (l.map Block.span) = {x | Covers l x} := by
  ext x
  simp [cover, Covers, Block.Has, Block.span]

/-- **The covered addresses determine a canonical list.** -/
theorem Canonical.unique {k : Nat} {l l' : List Block} (h : Canonical k l) (h' : Canonical k l')
    (hc : ∀ x, Covers l x ↔ Covers l' x) : l = l' := by
  refine List.map_injective_iff.mpr Block.span_injective (h.separated.unique h'.separated ?_)
  rw [cover_map_span, cover_map_span]
  ext x
  exact hc x

/-- The blocks of a canonical list are the maximal spans of what it covers. -/
theorem Canonical.mem_iff {k : Nat} {l : List Block} (h : Canonical k l) (b : Block) :
    b ∈ l ↔ MaximalSpan {x | Covers l x} b.span := by
  rw [← cover_map_span, ← h.separated.mem_iff, List.mem_map_of_injective Block.span_injective]

/-- Every address cuts a canonical list in two. -/
theorem Canonical.split {k : Nat} {l : List Block} (h : Canonical k l) (a : Nat) :
    ∃ pre post, l = pre ++ post ∧ (∀ b ∈ pre, b.addr < a) ∧ ∀ c ∈ post, a ≤ c.addr := by
  induction l with
  | nil => exact ⟨[], [], rfl, fun b hb => (by cases hb), fun b hb => (by cases hb)⟩
  | cons b l ih =>
    obtain ⟨-, hl, hgap⟩ := canonical_cons.mp h
    by_cases hb : b.addr < a
    · obtain ⟨pre, post, rfl, h1, h2⟩ := ih hl
      refine ⟨b :: pre, post, rfl, ?_, h2⟩
      intro c hc
      rcases List.mem_cons.mp hc with rfl | hc
      · exact hb
      · exact h1 c hc
    · refine ⟨[], b :: l, rfl, fun b hb => (by cases hb), ?_⟩
      intro c hc
      rcases List.mem_cons.mp hc with rfl | hc
      · omega
      · have := hgap c hc
        unfold Block.fin at this
        omega

/-- Blocks between `lo` and `hi` have no more bytes than there are. -/
theorem Canonical.total_le {k : Nat} {l : List Block} (h : Canonical k l) {lo hi : Nat}
    (hlh : lo ≤ hi) (hin : ∀ b ∈ l, lo ≤ b.addr ∧ b.fin ≤ hi) : lo + total l ≤ hi := by
  induction l generalizing lo with
  | nil => exact hlh
  | cons b l ih =>
    obtain ⟨-, hl, hgap⟩ := canonical_cons.mp h
    have hb := hin b List.mem_cons_self
    have := ih hl hb.2 fun c hc => ⟨Nat.le_of_lt (hgap c hc), (hin c (List.mem_cons_of_mem _ hc)).2⟩
    simp only [total_cons, Block.fin] at *
    omega

theorem Canonical.length_le {k : Nat} {l : List Block} (h : Canonical k l) :
    l.length ≤ total l := by
  induction l with
  | nil => exact Nat.le_refl 0
  | cons b l ih =>
    obtain ⟨⟨hb, -⟩, hl, -⟩ := canonical_cons.mp h
    have := ih hl
    simp only [List.length_cons, total_cons]
    omega

theorem size_le_total {b : Block} {l : List Block} (hb : b ∈ l) : b.size ≤ total l := by
  obtain ⟨pre, post, rfl⟩ := List.append_of_mem hb
  simp only [total_append, total_cons]
  omega

/-- The first block of at least `t` bytes is the lowest one. -/
theorem Canonical.first_lowest {k t : Nat} {pre post : List Block} {b : Block}
    (h : Canonical k (pre ++ b :: post)) (hpre : ∀ c ∈ pre, c.size < t) :
    ∀ c ∈ pre ++ b :: post, t ≤ c.size → b.addr ≤ c.addr := by
  intro c hc ht
  obtain ⟨-, hcons, -⟩ := canonical_append.mp h
  obtain ⟨-, -, hgap⟩ := canonical_cons.mp hcons
  rcases List.mem_append.mp hc with hc | hc
  · exact absurd ht (Nat.not_le_of_lt (hpre c hc))
  · rcases List.mem_cons.mp hc with rfl | hc
    · exact Nat.le_refl _
    · have := hgap c hc
      unfold Block.fin at this
      omega

/-! ## Taking bytes from the front of a block -/

def carve (t : Nat) (b : Block) : List Block :=
  if b.size = t then [] else [⟨b.addr + t, b.size - t⟩]

section carve

variable {k t : Nat} {b : Block} {pre post : List Block}

theorem mem_carve {c : Block} (ht : t ≤ b.size) (hc : c ∈ carve t b) :
    c.addr = b.addr + t ∧ c.fin = b.fin ∧ c.size = b.size - t ∧ 0 < c.size := by
  unfold carve at hc
  split at hc
  · cases hc
  · next hne =>
    rw [List.mem_singleton] at hc
    subst hc
    refine ⟨rfl, ?_, rfl, ?_⟩
    · show b.addr + t + (b.size - t) = b.addr + b.size
      omega
    · show 0 < b.size - t
      omega

theorem canonical_carve (h : Canonical k (pre ++ b :: post)) (ht : t ≤ b.size) (hk : k ∣ t) :
    Canonical k (pre ++ carve t b ++ post) := by
  obtain ⟨h1, h2, h3⟩ := canonical_append.mp h
  obtain ⟨⟨hb0, hba, hbs⟩, hpost, hgap⟩ := canonical_cons.mp h2
  have hmid : Canonical k (carve t b) := by
    unfold carve
    split
    · exact canonical_nil k
    · exact canonical_singleton (Nat.sub_pos_of_lt (by omega))
        ⟨Nat.dvd_add hba hk, Nat.dvd_sub hbs hk⟩
  rw [List.append_assoc]
  refine canonical_append.mpr ⟨h1, canonical_append.mpr ⟨hmid, hpost, ?_⟩, ?_⟩
  · intro c hc d hd
    rw [(mem_carve ht hc).2.1]
    exact hgap d hd
  · intro c hc d hd
    rcases List.mem_append.mp hd with hd | hd
    · have := h3 c hc b List.mem_cons_self
      have := (mem_carve ht hd).1
      omega
    · exact h3 c hc d (List.mem_cons_of_mem _ hd)

theorem covers_carve (ht : t ≤ b.size) (x : Nat) :
    Covers (pre ++ b :: post) x ↔
      Covers (pre ++ carve t b ++ post) x ∨ Block.Has ⟨b.addr, t⟩ x := by
  have hmid : b.Has x ↔ Covers (carve t b) x ∨ Block.Has ⟨b.addr, t⟩ x := by
    unfold carve
    split
    · next he =>
      subst he
      simp [Block.Has, Block.fin]
    · simp only [covers_cons, covers_nil, or_false, Block.Has, Block.fin]
      omega
  simp only [covers_append, covers_cons, hmid]
  tauto

theorem total_carve (ht : t ≤ b.size) :
    total (pre ++ b :: post) = total (pre ++ carve t b ++ post) + t := by
  have hmid : total (carve t b) = b.size - t := by
    unfold carve
    split
    · next he => simp [he]
    · simp
  simp only [total_append, total_cons, hmid]
  omega

end carve

/-! ## Giving a block back -/

/-- `b` and the blocks below it, nearest first: merged with the nearest if they touch. -/
def absorbLeft : List Block → Block → List Block × Block
  | [], b => ([], b)
  | p :: r, b => if p.fin = b.addr then (r, ⟨p.addr, p.size + b.size⟩) else (p :: r, b)

/-- `b` and the blocks above it, nearest first: merged with the nearest if they touch. -/
def absorbRight (b : Block) : List Block → Block × List Block
  | [] => (b, [])
  | c :: l => if b.fin = c.addr then (⟨b.addr, b.size + c.size⟩, l) else (b, c :: l)

def release (rpre : List Block) (b : Block) (post : List Block) : List Block :=
  let left := absorbLeft rpre b
  let right := absorbRight left.2 post
  left.1.reverse ++ right.1 :: right.2

section release

variable {k : Nat} {b : Block} {rpre post : List Block}

theorem absorbLeft_spec (h : Canonical k rpre.reverse) (hb : 0 < b.size ∧ k ∣ b.addr ∧ k ∣ b.size)
    (hlo : ∀ p ∈ rpre, p.fin ≤ b.addr) :
    let r := absorbLeft rpre b
    Canonical k r.1.reverse ∧ (0 < r.2.size ∧ k ∣ r.2.addr ∧ k ∣ r.2.size) ∧ r.2.fin = b.fin ∧
      (∀ p ∈ r.1, p.fin < r.2.addr) ∧ (∀ p ∈ r.1, p ∈ rpre) ∧
      (∀ x, Covers r.1 x ∨ r.2.Has x ↔ Covers rpre x ∨ b.Has x) ∧
      total r.1 + r.2.size = total rpre + b.size := by
  cases rpre with
  | nil => exact ⟨h, hb, rfl, fun p hp => (by cases hp), fun p hp => hp, fun x => Iff.rfl, rfl⟩
  | cons p r =>
    rw [List.reverse_cons, canonical_append] at h
    obtain ⟨hr, hp, hgap⟩ := h
    have hp0 := hp.pos p List.mem_cons_self
    have hpa := hp.aligned p List.mem_cons_self
    simp only [absorbLeft]
    split
    · next he =>
      refine ⟨hr, ⟨Nat.add_pos_left hp0 _, hpa.1, Nat.dvd_add hpa.2 hb.2.2⟩, ?_, ?_,
        fun q hq => List.mem_cons_of_mem _ hq, ?_, ?_⟩
      · simp only [Block.fin] at he ⊢
        omega
      · intro q hq
        exact hgap q (List.mem_reverse.mpr hq) p List.mem_cons_self
      · intro x
        rw [Block.has_merge he, covers_cons]
        tauto
      · simp only [total_cons]
        omega
    · next hne =>
      have hlt : ∀ q ∈ p :: r, q.fin < b.addr := by
        intro q hq
        rcases List.mem_cons.mp hq with rfl | hq
        · exact Nat.lt_of_le_of_ne (hlo q List.mem_cons_self) hne
        · have h1 := hgap q (List.mem_reverse.mpr hq) p List.mem_cons_self
          have h2 := hlo p List.mem_cons_self
          unfold Block.fin at *
          omega
      refine ⟨?_, hb, rfl, hlt, fun q hq => hq, fun x => Iff.rfl, rfl⟩
      rw [List.reverse_cons]
      exact canonical_append.mpr ⟨hr, hp, hgap⟩

theorem absorbLeft_addr (rpre : List Block) (b : Block) :
    (absorbLeft rpre b).2.addr = b.addr ∨ ∃ p ∈ rpre, (absorbLeft rpre b).2.addr = p.addr := by
  cases rpre with
  | nil => exact Or.inl rfl
  | cons p r =>
    simp only [absorbLeft]
    split
    · exact Or.inr ⟨p, List.mem_cons_self, rfl⟩
    · exact Or.inl rfl

theorem absorbRight_spec (h : Canonical k post) (hb : 0 < b.size ∧ k ∣ b.addr ∧ k ∣ b.size)
    (hhi : ∀ c ∈ post, b.fin ≤ c.addr) :
    let r := absorbRight b post
    Canonical k (r.1 :: r.2) ∧ r.1.addr = b.addr ∧
      (∀ x, Covers (r.1 :: r.2) x ↔ b.Has x ∨ Covers post x) ∧
      total (r.1 :: r.2) = b.size + total post := by
  cases post with
  | nil => exact ⟨canonical_singleton hb.1 hb.2, rfl, fun x => by simp [absorbRight], rfl⟩
  | cons c l =>
    obtain ⟨⟨hc0, hca, hcs⟩, hl, hgap⟩ := canonical_cons.mp h
    simp only [absorbRight]
    split
    · next he =>
      refine ⟨canonical_cons.mpr ⟨⟨Nat.add_pos_left hb.1 _, hb.2.1, Nat.dvd_add hb.2.2 hcs⟩, hl,
        ?_⟩, rfl, ?_, ?_⟩
      · intro d hd
        have := hgap d hd
        simp only [Block.fin] at he this ⊢
        omega
      · intro x
        rw [covers_cons, Block.has_merge he, covers_cons]
        tauto
      · simp only [total_cons]
        omega
    · next hne =>
      have hlt : ∀ d ∈ c :: l, b.fin < d.addr := by
        intro d hd
        rcases List.mem_cons.mp hd with rfl | hd
        · exact Nat.lt_of_le_of_ne (hhi d List.mem_cons_self) hne
        · have h1 := hgap d hd
          have h2 := hhi c List.mem_cons_self
          unfold Block.fin at *
          omega
      exact ⟨canonical_cons.mpr ⟨hb, h, hlt⟩, rfl, fun x => by simp, by simp⟩

/-- **Giving back.**  The result is canonical and gains exactly the block's addresses and bytes. -/
theorem release_spec (h : Canonical k (rpre.reverse ++ post))
    (hb : 0 < b.size ∧ k ∣ b.addr ∧ k ∣ b.size) (hlo : ∀ p ∈ rpre, p.fin ≤ b.addr)
    (hhi : ∀ c ∈ post, b.fin ≤ c.addr) :
    Canonical k (release rpre b post) ∧
      (∀ x, Covers (release rpre b post) x ↔ Covers (rpre.reverse ++ post) x ∨ b.Has x) ∧
      total (release rpre b post) = total (rpre.reverse ++ post) + b.size := by
  obtain ⟨h1, h2, h12⟩ := canonical_append.mp h
  obtain ⟨l1, l2, l3, l4, l5, l6, l7⟩ := absorbLeft_spec h1 hb hlo
  obtain ⟨r1, r2, r3, r4⟩ := absorbRight_spec h2 l2 fun c hc => by rw [l3]; exact hhi c hc
  refine ⟨canonical_append.mpr ⟨l1, r1, ?_⟩, ?_, ?_⟩
  · intro p hp c hc
    have hp' := l4 p (List.mem_reverse.mp hp)
    rcases List.mem_cons.mp hc with rfl | hc
    · rw [r2]
      exact hp'
    · have := (canonical_cons.mp r1).2.2 c hc
      unfold Block.fin at *
      omega
  · intro x
    have h6 := l6 x
    have h3 := r3 x
    simp only [release, covers_append, covers_reverse] at *
    tauto
  · simp only [release, total_append, total_reverse] at *
    omega

end release

end LowLevel
