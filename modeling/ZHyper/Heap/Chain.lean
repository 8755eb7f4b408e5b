import ZHyper.Lib.Blocks
import ZHyper.Heap.Model

/-!
# The free list in memory

`FreeSeg m p l e`: from the pointer `p`, the `next` words of `m` lead through
exactly the blocks `l`, each with the FREE magic and its size in the header, to
the pointer `e`.  The free list of a heap is the segment from `heap->free_list`
to `0`.

A segment depends only on the 16 header bytes of its blocks (`FreeSeg.congr`).
The pointer word that leads out of a prefix of the list is `linkSlot`; storing
there redirects the prefix and nothing else (`FreeSeg.relink`), and it is where
the C code's `if (prev) … else heap->free_list = …` stores (`setLink_eq`).
-/

namespace ZHyper

open LowLevel LowLevel.Prog

def FreeSeg (m : Mem) : Nat → List Block → Nat → Prop
  | p, [], e => p = e
  | p, b :: l, e => p = b.addr ∧ b.addr ≠ 0 ∧ m.load 4 (blockMagic b.addr) = magicFree ∧
      m.load 4 (blockSize b.addr) = b.size ∧ FreeSeg m (m.load 8 (blockNext b.addr)) l e

/-- Blocks in ascending order, with room for a header each. -/
def Spaced (l : List Block) : Prop := l.Pairwise fun b c => b.addr + 16 ≤ c.addr

/-- `m'` has the header bytes of `b` that `m` has. -/
def SameHeader (m m' : Mem) (b : Block) : Prop := ∀ x, b.addr ≤ x → x < b.addr + 16 → m' x = m x

theorem spaced_of_canonical {l : List Block} (h : Canonical 16 l) : Spaced l := by
  apply h.gaps.imp_of_mem
  intro b c hb _ hlt
  have := h.size_ge hb
  unfold Block.fin at hlt
  omega

theorem FreeSeg.append {m : Mem} {l l' : List Block} {p e : Nat} :
    FreeSeg m p (l ++ l') e ↔ ∃ q, FreeSeg m p l q ∧ FreeSeg m q l' e := by
  induction l generalizing p with
  | nil => simp [FreeSeg]
  | cons b l ih =>
    simp only [List.cons_append, FreeSeg, ih]
    constructor
    · rintro ⟨h1, h2, h3, h4, q, h5, h6⟩
      exact ⟨q, ⟨h1, h2, h3, h4, h5⟩, h6⟩
    · rintro ⟨q, ⟨h1, h2, h3, h4, h5⟩, h6⟩
      exact ⟨h1, h2, h3, h4, q, h5, h6⟩

theorem FreeSeg.congr {m m' : Mem} {p e : Nat} {l : List Block} (h : FreeSeg m p l e)
    (hm : ∀ b ∈ l, SameHeader m m' b) : FreeSeg m' p l e := by
  induction l generalizing p with
  | nil => exact h
  | cons b l ih =>
    obtain ⟨h1, h2, h3, h4, h5⟩ := h
    have hb := hm b List.mem_cons_self
    have hload : ∀ w a, b.addr ≤ a → a + w ≤ b.addr + 16 → m'.load w a = m.load w a :=
      fun w a ha hw => Mem.load_congr w a fun x hx hx' => hb x (by omega) (by omega)
    refine ⟨h1, h2, ?_, ?_, ?_⟩
    · rw [hload 4 _ (by simp [blockMagic]) (by simp [blockMagic]), h3]
    · rw [hload 4 _ (by simp [blockSize]) (by simp [blockSize]), h4]
    · rw [hload 8 _ (by simp [blockNext]) (by simp [blockNext])]
      exact ih h5 fun c hc => hm c (List.mem_cons_of_mem _ hc)

/-- A segment with one block rewritten in place, its new `next` leading to `l'`. -/
theorem FreeSeg.replace {m m' : Mem} {p a size : Nat} {l l' : List Block} (h : FreeSeg m p l a)
    (h0 : a ≠ 0) (hmagic : m'.load 4 (blockMagic a) = magicFree)
    (hsize : m'.load 4 (blockSize a) = size) (h' : FreeSeg m (m'.load 8 (blockNext a)) l' 0)
    (hl : ∀ c ∈ l, SameHeader m m' c) (hl' : ∀ c ∈ l', SameHeader m m' c) :
    FreeSeg m' p (l ++ ⟨a, size⟩ :: l') 0 :=
  FreeSeg.append.mpr ⟨a, h.congr hl, rfl, h0, hmagic, hsize, h'.congr hl'⟩

/-- The pointer a segment starts with, for one that ends in `0`. -/
def headAddr : List Block → Nat
  | [] => 0
  | b :: _ => b.addr

theorem FreeSeg.head {m : Mem} {p : Nat} {l : List Block} (h : FreeSeg m p l 0) :
    p = headAddr l := by
  cases l with
  | nil => exact h
  | cons b l => exact h.1

theorem FreeSeg.addr_ne_zero {m : Mem} {p e : Nat} {l : List Block} (h : FreeSeg m p l e) :
    ∀ b ∈ l, b.addr ≠ 0 := by
  induction l generalizing p with
  | nil => exact fun b hb => by cases hb
  | cons b l ih =>
    intro c hc
    rcases List.mem_cons.mp hc with rfl | hc
    · exact h.2.1
    · exact ih h.2.2.2.2 c hc

/-- The size word of a block of the list. -/
theorem FreeSeg.size_eq {m : Mem} {p e : Nat} {l : List Block} (h : FreeSeg m p l e) :
    ∀ b ∈ l, m.load 4 (blockSize b.addr) = b.size := by
  induction l generalizing p with
  | nil => exact fun b hb => by cases hb
  | cons b l ih =>
    intro c hc
    rcases List.mem_cons.mp hc with rfl | hc
    · exact h.2.2.2.1
    · exact ih h.2.2.2.2 c hc

/-! ## Redirecting a prefix -/

/-- The pointer word after the prefix `l`, when `s` is the one before it. -/
def linkSlot (s : Nat) : List Block → Nat
  | [] => s
  | b :: l => linkSlot (blockNext b.addr) l

/-- The address of the last block of `l`, `prev` if there is none. -/
def lastAddr (prev : Nat) : List Block → Nat
  | [] => prev
  | b :: l => lastAddr b.addr l

@[simp] theorem linkSlot_concat (s : Nat) (l : List Block) (b : Block) :
    linkSlot s (l ++ [b]) = blockNext b.addr := by
  induction l generalizing s with
  | nil => rfl
  | cons c l ih => exact ih _

@[simp] theorem lastAddr_concat (prev : Nat) (l : List Block) (b : Block) :
    lastAddr prev (l ++ [b]) = b.addr := by
  induction l generalizing prev with
  | nil => rfl
  | cons c l ih => exact ih _

theorem setLink_eq (heap link : Nat) {l : List Block} (h : ∀ b ∈ l, b.addr ≠ 0) :
    setLink heap (lastAddr 0 l) link = write 8 (linkSlot (heapFreeList heap) l) link := by
  rcases List.eq_nil_or_concat l with rfl | ⟨l, b, rfl⟩
  · rfl
  · have hb := h b (by simp)
    rw [List.concat_eq_append, lastAddr_concat, linkSlot_concat, setLink, if_pos hb]

/-- The link slot lies in the pointer word before the list or in a block of it. -/
theorem linkSlot_mem (s : Nat) (l : List Block) :
    linkSlot s l = s ∨ ∃ b ∈ l, linkSlot s l = b.addr + 8 := by
  rcases List.eq_nil_or_concat l with rfl | ⟨l, b, rfl⟩
  · exact Or.inl rfl
  · rw [List.concat_eq_append, linkSlot_concat]
    exact Or.inr ⟨b, by simp, rfl⟩

theorem FreeSeg.relink {m : Mem} {s e v : Nat} {l : List Block} (h : FreeSeg m (m.load 8 s) l e)
    (hv : v < 2 ^ 64) (hs : ∀ b ∈ l, s + 8 ≤ b.addr ∨ b.addr + 16 ≤ s) (hl : Spaced l) :
    FreeSeg (m.store 8 (linkSlot s l) v) ((m.store 8 (linkSlot s l) v).load 8 s) l v := by
  induction l generalizing s with
  | nil => exact Mem.load8_store8 hv
  | cons b l ih =>
    obtain ⟨h1, h2, h3, h4, h5⟩ := h
    obtain ⟨hb, hl⟩ := List.pairwise_cons.mp hl
    have hslot : linkSlot s (b :: l) = linkSlot (b.addr + 8) l := rfl
    -- the slot is the `next` word of `b` or lies beyond its header
    have hge : b.addr + 8 ≤ linkSlot (b.addr + 8) l ∧
        (s + 8 ≤ linkSlot (b.addr + 8) l ∨ linkSlot (b.addr + 8) l + 8 ≤ s) := by
      have hsb := hs b List.mem_cons_self
      rcases linkSlot_mem (b.addr + 8) l with e | ⟨c, hc, e⟩
      · rw [e]
        omega
      · have := hb c hc
        have := hs c (List.mem_cons_of_mem _ hc)
        rw [e]
        omega
    rw [hslot]
    refine ⟨?_, h2, ?_, ?_, ih h5 ?_ hl⟩
    · rw [Mem.load_store_apart (by omega), h1]
    · rw [Mem.load_store_apart (by simp only [blockMagic]; omega), h3]
    · rw [Mem.load_store_apart (by simp only [blockSize]; omega), h4]
    · intro c hc
      have := hb c hc
      omega

/-! ## The two search loops -/

variable {P : Access → Prop}

/-- The search of `miniheap_alloc` passes over the blocks that are too small and works on the
first that is large enough. -/
theorem allocLoop_fit {heap t : Nat} {pre post : List Block} {b : Block} {Q : Nat → Mem → Prop}
    {m : Mem} (hload : ∀ w a, P (.load w a)) (hpre : ∀ c ∈ pre, c.size < t) (hb : t ≤ b.size) :
    ∀ (fuel prev cur : Nat), pre.length < fuel → FreeSeg m cur (pre ++ b :: post) 0 →
      (allocFit heap t (lastAddr prev pre) b.addr).wp P (fun _ m' => Q b.addr m') m →
      (allocLoop heap t fuel prev cur).wp P Q m := by
  induction pre with
  | nil =>
    intro fuel prev cur hfuel hseg hfit
    obtain ⟨n, rfl⟩ : ∃ n, fuel = n + 1 := ⟨fuel - 1, by simp at hfuel; omega⟩
    obtain ⟨rfl, h2, -, h4, -⟩ := hseg
    rw [allocLoop, if_neg h2]
    simp only [wp_bind, wp_read, h4, if_pos hb, wp_pure]
    exact ⟨hload _ _, hfit⟩
  | cons c pre ih =>
    intro fuel prev cur hfuel hseg hfit
    obtain ⟨n, rfl⟩ : ∃ n, fuel = n + 1 := ⟨fuel - 1, by simp at hfuel; omega⟩
    obtain ⟨rfl, h2, -, h4, h5⟩ := hseg
    have hc : ¬ t ≤ c.size := Nat.not_le_of_lt (hpre c List.mem_cons_self)
    rw [allocLoop, if_neg h2]
    simp only [wp_bind, wp_read, h4, if_neg hc]
    refine ⟨hload _ _, hload _ _,
      ih (fun d hd => hpre d (List.mem_cons_of_mem _ hd)) n _ _ ?_ h5 hfit⟩
    simp only [List.length_cons] at hfuel
    omega

/-- With no block large enough the search ends with `cur = NULL` and has written nothing. -/
theorem allocLoop_none {heap t : Nat} {l : List Block} {Q : Nat → Mem → Prop} {m : Mem}
    (hload : ∀ w a, P (.load w a)) (hl : ∀ c ∈ l, c.size < t) (hQ : Q 0 m) :
    ∀ (fuel prev cur : Nat), l.length < fuel → FreeSeg m cur l 0 →
      (allocLoop heap t fuel prev cur).wp P Q m := by
  induction l with
  | nil =>
    intro fuel prev cur hfuel hseg
    obtain ⟨n, rfl⟩ : ∃ n, fuel = n + 1 := ⟨fuel - 1, by simp at hfuel; omega⟩
    have hcur : cur = 0 := hseg
    rw [allocLoop, if_pos hcur]
    exact hQ
  | cons c l ih =>
    intro fuel prev cur hfuel hseg
    obtain ⟨n, rfl⟩ : ∃ n, fuel = n + 1 := ⟨fuel - 1, by simp at hfuel; omega⟩
    obtain ⟨rfl, h2, -, h4, h5⟩ := hseg
    have hc : ¬ t ≤ c.size := Nat.not_le_of_lt (hl c List.mem_cons_self)
    rw [allocLoop, if_neg h2]
    simp only [wp_bind, wp_read, h4, if_neg hc]
    refine ⟨hload _ _, hload _ _, ih (fun d hd => hl d (List.mem_cons_of_mem _ hd)) n _ _ ?_ h5⟩
    simp only [List.length_cons] at hfuel
    omega

/-- The search of `miniheap_free` stops between the free blocks below `block` and the rest. -/
theorem freeLoop_wp {block rear : Nat} {pre post : List Block} {Q : Nat × Nat → Mem → Prop}
    {m : Mem} (hload : ∀ c ∈ pre, P (.load 8 (blockNext c.addr))) (hrear : block ≤ rear)
    (hpre : ∀ c ∈ pre, c.addr < block) (hpost : ∀ c ∈ post, block ≤ c.addr) :
    ∀ (fuel prev cur : Nat), pre.length < fuel → FreeSeg m cur (pre ++ post) 0 →
      Q (lastAddr prev pre, headAddr post) m → (freeLoop block rear fuel prev cur).wp P Q m := by
  induction pre with
  | nil =>
    intro fuel prev cur hfuel hseg hQ
    obtain ⟨n, rfl⟩ : ∃ n, fuel = n + 1 := ⟨fuel - 1, by simp at hfuel; omega⟩
    have hcur : cur = headAddr post := hseg.head
    have hstop : ¬ (cur ≠ 0 ∧ cur < block) := by
      rintro ⟨h0, hlt⟩
      cases post with
      | nil => exact h0 hcur
      | cons c post =>
        have := hpost c List.mem_cons_self
        rw [hcur] at hlt
        exact absurd hlt (Nat.not_lt_of_le this)
    rw [freeLoop, if_neg hstop, hcur]
    exact hQ
  | cons c pre ih =>
    intro fuel prev cur hfuel hseg hQ
    obtain ⟨n, rfl⟩ : ∃ n, fuel = n + 1 := ⟨fuel - 1, by simp at hfuel; omega⟩
    obtain ⟨rfl, h2, -, -, h5⟩ := hseg
    have hc := hpre c List.mem_cons_self
    rw [freeLoop, if_pos ⟨h2, hc⟩, if_neg (by omega)]
    simp only [wp_bind, wp_read]
    refine ⟨hload c List.mem_cons_self, ih (fun d hd => hload d (List.mem_cons_of_mem _ hd))
      (fun d hd => hpre d (List.mem_cons_of_mem _ hd)) n _ _ ?_ h5 hQ⟩
    simp only [List.length_cons] at hfuel
    omega

end ZHyper
