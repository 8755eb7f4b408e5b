import ZHyper.Heap.Chain

/-!
# The heap invariant

A `Region` is what `miniheap_init` is given: the memory `[base, base + size)`
and a `struct miniheap` outside it.  `HeapInv R m live free` says that in memory
`m` the allocations `live` (with the sizes in their used headers) and the blocks
`free` of the free list tile the region: they are aligned, share no byte, and
together cover it exactly; the list in memory is `free`, ascending, with no two
blocks touching; and `free_bytes` is the sum of its sizes.

The stores of the allocator stay in `struct miniheap` and in blocks it may write
(`MetaStore`); everything else is a frame.
-/

namespace ZHyper

open LowLevel LowLevel.Prog

/-- A heap's memory and the `struct miniheap` that manages it: separate C objects, the end of the
first representable as a pointer. -/
structure Region where
  heap : Nat
  base : Nat
  size : Nat
  base_pos : 0 < base
  base_aligned : 16 ∣ base
  size_pos : 0 < size
  size_aligned : 16 ∣ size
  fits : base + size < 2 ^ 64
  apart : heap + 40 ≤ base ∨ base + size ≤ heap

/-- A live allocation: the pointer `malloc` returned and the bytes that were asked for. -/
structure Alloc where
  ptr : Nat
  n : Nat
deriving DecidableEq

/-- `[p - 16, p - 16 + header.size)` -/
def usedBlock (m : Mem) (a : Alloc) : Block :=
  ⟨a.ptr - usedHeaderSize, m.load 4 (blockSize (a.ptr - usedHeaderSize))⟩

structure Used (m : Mem) (a : Alloc) : Prop where
  header : usedHeaderSize ≤ a.ptr
  magic : m.load 4 (blockMagic (a.ptr - usedHeaderSize)) = magicUsed
  aligned : 16 ∣ (usedBlock m a).addr ∧ 16 ∣ (usedBlock m a).size
  room : 0 < a.n ∧ a.n + usedHeaderSize ≤ (usedBlock m a).size

structure HeapInv (R : Region) (m : Mem) (live : List Alloc) (free : List Block) : Prop where
  baseWord : m.load 8 (heapBase R.heap) = R.base
  sizeWord : m.load 8 (heapSize R.heap) = R.size
  alignWord : m.load 4 (heapAlign R.heap) = heapAlignment
  freeBytes : m.load 8 (heapFreeBytes R.heap) = total free
  chain : FreeSeg m (m.load 8 (heapFreeList R.heap)) free 0
  canonical : Canonical 16 free
  used : ∀ a ∈ live, Used m a
  liveApart : (live.map (usedBlock m)).Pairwise Block.Apart
  freeApart : ∀ b ∈ free, ∀ a ∈ live, b.Apart (usedBlock m a)
  tiles : ∀ x, R.base ≤ x ∧ x < R.base + R.size ↔
    Covers free x ∨ Covers (live.map (usedBlock m)) x

/-- The accesses of the allocator: loads, and stores inside `struct miniheap` or a block of `bs`. -/
def MetaStore (heap : Nat) (bs : List Block) : Access → Prop
  | .load _ _ => True
  | .store w a _ => (heap ≤ a ∧ a + w ≤ heap + 40) ∨ ∃ b ∈ bs, b.addr ≤ a ∧ a + w ≤ b.fin

/-- The accesses to the free list: its pointer in `struct miniheap`, and the headers of the blocks
`bs`. -/
def ListAccess (heap : Nat) (bs : List Block) (acc : Access) : Prop :=
  match acc with
  | .load w a | .store w a _ =>
    (heap + 32 ≤ a ∧ a + w ≤ heap + 40) ∨ ∃ b ∈ bs, b.addr ≤ a ∧ a + w ≤ b.addr + 16

theorem ListAccess.metaStore {heap : Nat} {bs : List Block} {acc : Access}
    (h : ListAccess heap bs acc)
    (hsz : ∀ b ∈ bs, 16 ≤ b.size) : MetaStore heap bs acc := by
  cases acc with
  | load w a => trivial
  | store w a v =>
    rcases h with h | ⟨b, hb, h⟩
    · left
      omega
    · right
      have := hsz b hb
      refine ⟨b, hb, h.1, ?_⟩
      unfold Block.fin
      omega

theorem listAccess_load {heap : Nat} {bs : List Block} {b : Block} (hb : b ∈ bs) {d w : Nat}
    (hd : d + w ≤ 16) : ListAccess heap bs (.load w (b.addr + d)) :=
  Or.inr ⟨b, hb, by omega⟩

theorem listAccess_store {heap : Nat} {bs : List Block} {b : Block} (hb : b ∈ bs) {d w v : Nat}
    (hd : d + w ≤ 16) : ListAccess heap bs (.store w (b.addr + d) v) :=
  Or.inr ⟨b, hb, by omega⟩

theorem metaStore_frame {heap : Nat} {bs : List Block} {w a v : Nat}
    (h : MetaStore heap bs (.store w a v)) (y : Nat)
    (hy : ¬ (heap ≤ y ∧ y < heap + 40) ∧ ¬ Covers bs y) : y < a ∨ a + w ≤ y := by
  rcases h with h | ⟨b, hb, h⟩
  · omega
  · have : ¬ b.Has y := fun hh => hy.2 ⟨b, hb, hh⟩
    unfold Block.Has at this
    omega

theorem Used.pos {m : Mem} {a : Alloc} (h : Used m a) : 0 < (usedBlock m a).size := by
  have := h.room
  omega

theorem Used.size_ge {m : Mem} {a : Alloc} (h : Used m a) :
    usedHeaderSize ≤ (usedBlock m a).size := by
  have := h.room
  omega

/-- Whether an allocation is well formed depends on its own header only. -/
theorem Used.congr {m m' : Mem} {a : Alloc} (h : Used m a) (hm : SameHeader m m' (usedBlock m a)) :
    Used m' a ∧ usedBlock m' a = usedBlock m a := by
  have hload : ∀ d, d ≤ 4 → m'.load 4 (a.ptr - usedHeaderSize + d) =
      m.load 4 (a.ptr - usedHeaderSize + d) := by
    intro d hd
    refine Mem.load_congr 4 _ fun x h1 h2 => hm x ?_ ?_
    · exact Nat.le_trans (Nat.le_add_right _ _) h1
    · show x < a.ptr - usedHeaderSize + 16
      omega
  have hb : usedBlock m' a = usedBlock m a := by
    have := hload 4 (by omega)
    simp only [usedBlock, blockSize, this]
  refine ⟨⟨h.header, ?_, hb ▸ h.aligned, hb ▸ h.room⟩, hb⟩
  exact (hload 0 (by omega)).trans h.magic

/-- The header bytes of an allocation belong to its block. -/
theorem Used.has_header {m : Mem} {a : Alloc} (h : Used m a) {x : Nat}
    (h1 : (usedBlock m a).addr ≤ x)
    (h2 : x < (usedBlock m a).addr + 16) : (usedBlock m a).Has x := by
  have := h.size_ge
  unfold usedHeaderSize at this
  exact ⟨h1, by unfold Block.fin; omega⟩

/-- The payload bytes of an allocation belong to its block, behind the header. -/
theorem Used.has_payload {m : Mem} {a : Alloc} (h : Used m a) {i : Nat} (hi : i < a.n) :
    (usedBlock m a).Has (a.ptr + i) ∧ (usedBlock m a).addr + 16 ≤ a.ptr + i := by
  have h1 := h.header
  have h2 := h.room.2
  have h3 : (usedBlock m a).addr = a.ptr - usedHeaderSize := rfl
  unfold usedHeaderSize at *
  unfold Block.Has Block.fin
  omega

/-- The memory of a heap block is clear of `struct miniheap`. -/
theorem Region.clear (R : Region) {b : Block}
    (hb : R.base ≤ b.addr ∧ b.fin ≤ R.base + R.size) : R.heap + 40 ≤ b.addr ∨ b.fin ≤ R.heap := by
  have := R.apart
  omega

namespace HeapInv

variable {R : Region} {m : Mem} {live : List Alloc} {free : List Block}

theorem free_in (h : HeapInv R m live free) {b : Block} (hb : b ∈ free) :
    R.base ≤ b.addr ∧ b.fin ≤ R.base + R.size := by
  have hp := h.canonical.pos b hb
  have h1 := (h.tiles b.addr).mpr (Or.inl ⟨b, hb, by simp [Block.Has, Block.fin]; omega⟩)
  have h2 := (h.tiles (b.fin - 1)).mpr (Or.inl ⟨b, hb, by simp only [Block.Has, Block.fin]; omega⟩)
  simp only [Block.fin] at *
  omega

theorem live_in (h : HeapInv R m live free) {a : Alloc} (ha : a ∈ live) :
    R.base ≤ (usedBlock m a).addr ∧ (usedBlock m a).fin ≤ R.base + R.size := by
  have hp := (h.used a ha).pos
  have hmem := List.mem_map_of_mem (f := usedBlock m) ha
  have h1 := (h.tiles (usedBlock m a).addr).mpr
    (Or.inr ⟨_, hmem, by simp only [Block.Has, Block.fin]; omega⟩)
  have h2 := (h.tiles ((usedBlock m a).fin - 1)).mpr
    (Or.inr ⟨_, hmem, by simp only [Block.Has, Block.fin]; omega⟩)
  simp only [Block.fin] at *
  omega

theorem live_apart (h : HeapInv R m live free) {a a' : Alloc} (ha : a ∈ live) (ha' : a' ∈ live)
    (hne : a.ptr ≠ a'.ptr) : (usedBlock m a).Apart (usedBlock m a') := by
  have : Std.Symm Block.Apart := ⟨fun _ _ h => Or.symm h⟩
  refine h.liveApart.forall (List.mem_map_of_mem ha) (List.mem_map_of_mem ha') fun he => hne ?_
  have h1 := (h.used a ha).header
  have h2 := (h.used a' ha').header
  have h3 : a.ptr - usedHeaderSize = a'.ptr - usedHeaderSize := congrArg Block.addr he
  omega

/-- The words of `struct miniheap` that never change, in a memory that differs only in
`free_bytes` and `free_list`. -/
theorem words (h : HeapInv R m live free) {m' : Mem}
    (hm : ∀ x, R.heap ≤ x → x < R.heap + 16 ∨ R.heap + 24 ≤ x → x < R.heap + 32 → m' x = m x) :
    m'.load 8 (heapBase R.heap) = R.base ∧ m'.load 8 (heapSize R.heap) = R.size ∧
      m'.load 4 (heapAlign R.heap) = heapAlignment := by
  rw [← h.baseWord, ← h.sizeWord, ← h.alignWord]
  refine ⟨Mem.load_congr 8 _ fun x h1 h2 => ?_, Mem.load_congr 8 _ fun x h1 h2 => ?_,
    Mem.load_congr 4 _ fun x h1 h2 => ?_⟩ <;>
  · simp only [heapBase, heapSize, heapAlign] at h1 h2
    exact hm x (by omega) (by omega) (by omega)

theorem total_le (h : HeapInv R m live free) : total free ≤ R.size := by
  have := h.canonical.total_le (Nat.le_add_right R.base R.size) fun b hb => h.free_in hb
  omega

theorem length_lt (h : HeapInv R m live free) : free.length < loopBound := by
  have h1 := h.canonical.length_le
  have h2 := h.total_le
  have h3 := R.fits
  unfold loopBound
  omega

/-- The walk that stops after `pre` stays below the bound of the loops. -/
theorem prefix_length_lt {pre post : List Block} (h : HeapInv R m live (pre ++ post)) :
    pre.length < loopBound := by
  have := h.length_lt
  rw [List.length_append] at this
  omega

/-- What `miniheap_free` computes from the pointer and the header of a live block. -/
theorem free_entry (h : HeapInv R m live free) {a : Alloc} (ha : a ∈ live) :
    a.ptr ≠ 0 ∧ (a.ptr + 2 ^ 64 - usedHeaderSize) % 2 ^ 64 = (usedBlock m a).addr ∧
      ¬ m.load 4 (blockMagic (usedBlock m a).addr) ≠ magicUsed ∧
      ((usedBlock m a).addr + m.load 4 (blockSize (usedBlock m a).addr)) % 2 ^ 64 =
      (usedBlock m a).fin := by
  have hu := h.used a ha
  have hin := h.live_in ha
  have hfits := R.fits
  have hhdr := hu.header
  have haddr : (usedBlock m a).addr = a.ptr - usedHeaderSize := rfl
  have hfin : (usedBlock m a).addr + m.load 4 (blockSize (usedBlock m a).addr) =
      (usedBlock m a).fin := rfl
  unfold usedHeaderSize at haddr hhdr ⊢
  exact ⟨by omega, by omega, fun hne => hne hu.magic, by omega⟩

end HeapInv

end ZHyper
