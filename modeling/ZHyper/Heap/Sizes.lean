import ZHyper.Heap.FirstFit

/-!
# Heaps of every size

`miniheap_init` checks that the size is a non-zero multiple of 16 and keeps it in 64 bits in `struct
miniheap`, but in 32 bits in the header of the one free block.  From `2^32` bytes on that block
starts with a wrapped size (`miniheapInit_freeList`); below, no size field of a run ever wraps,
since a block is no larger than the region.
-/

namespace ZHyper

open LowLevel LowLevel.Prog

/-- The region is managed as it was given to `miniheap_init`: the first free list is all of it, and
in every state reached the headers describe blocks that tile it, with `free_bytes` the sum of the
free ones.  A size field that had wrapped would leave a part of the region in no block. -/
structure Managed (R : Region) : Prop where
  initial : ∀ s, HeapInitial R s → freeList R.heap s.mem = [⟨R.base, R.size⟩]
  bytes : ∀ s, HeapReachable R s → freeByteCount R.heap s.mem = total (freeList R.heap s.mem)
  tiles : ∀ s, HeapReachable R s → ∀ x, R.base ≤ x ∧ x < R.base + R.size ↔
    Covers (freeList R.heap s.mem) x ∨ Covers (liveBlocks s) x

/-- **What `miniheap_init` leaves** for any size it accepts. -/
theorem miniheapInit_freeList (R : Region) (m : Mem) :
    ∃ m', (miniheapInit R.heap R.base R.size).exec m = .ret 0 m' ∧
      freeList R.heap m' = [⟨R.base, R.size % 2 ^ 32⟩] := by
  have h0 := R.base_pos
  have h1 := R.fits
  have h2 := R.apart
  have h16 : 16 ≤ R.size := Nat.le_of_dvd R.size_pos R.size_aligned
  have hwp : (miniheapInit R.heap R.base R.size).wp (fun _ => True) (fun r m' => r = 0 ∧
      FreeSeg m' (m'.load 8 (heapFreeList R.heap)) [⟨R.base, R.size % 2 ^ 32⟩] 0) m := by
    rw [miniheapInit, if_neg R.accepted]
    simp only [wp_bind, wp_write, wp_pure, true_and]
    simp (disch := omega) only [FreeSeg, heapFreeList, blockMagic, blockSize, blockNext,
      Mem.load_store_apart, Mem.load_store_same]
    exact ⟨Nat.mod_eq_of_lt (by omega), Nat.pos_iff_ne_zero.mp h0, by decide, rfl, by decide⟩
  obtain ⟨_, m', he, rfl, hseg⟩ := wp_exec hwp
  have hlen : 1 < loopBound := by
    unfold loopBound
    decide
  exact ⟨m', he, hseg.freeListFrom_eq loopBound _ hlen⟩

theorem managed_of_lt {R : Region} (hsize : R.size < 2 ^ 32) : Managed R := by
  refine ⟨?_, ?_, ?_⟩
  · rintro s ⟨-, m, he⟩
    obtain ⟨m', he', hlist⟩ := miniheapInit_freeList R m
    rw [he] at he'
    injection he' with _ hm
    rw [hm, hlist, Nat.mod_eq_of_lt hsize]
  · intro s h
    obtain ⟨free, hinv⟩ := reachable_inv hsize h
    rw [hinv.freeList_eq]
    exact hinv.freeBytes
  · intro s h
    obtain ⟨free, hinv⟩ := reachable_inv hsize h
    rw [hinv.freeList_eq]
    exact hinv.tiles

/-- From `2^32` bytes on the first free list is not the region. -/
theorem not_managed_of_ge {R : Region} (hsize : 2 ^ 32 ≤ R.size) : ¬ Managed R := by
  intro h
  obtain ⟨m, he, hlist⟩ := miniheapInit_freeList R fun _ => 0
  have hinit := h.initial ⟨m, []⟩ ⟨rfl, _, he⟩
  rw [hlist] at hinit
  have hsz : R.size % 2 ^ 32 = R.size := congrArg Block.size (List.singleton_inj.mp hinit)
  omega

/-- **Which sizes are managed**: of those that pass the check, exactly the ones below `2^32`. -/
theorem managed_iff (R : Region) : Managed R ↔ R.size < 2 ^ 32 := by
  refine ⟨?_, managed_of_lt⟩
  intro h
  by_contra hge
  exact not_managed_of_ge (Nat.le_of_not_lt hge) h

/-- A heap of 4 GiB. -/
def largeRegion : Region where
  heap := 64
  base := 2 ^ 20
  size := 2 ^ 32
  base_pos := by decide
  base_aligned := by decide
  size_pos := by decide
  size_aligned := by decide
  fits := by decide
  apart := Or.inl (by decide)

/-- It starts with one free block of size 0. -/
theorem largeRegion_not_managed :
    (∃ m, (miniheapInit 64 (2 ^ 20) (2 ^ 32)).exec (fun _ => 0) = .ret 0 m ∧
      freeList 64 m = [⟨2 ^ 20, 0⟩]) ∧
      ¬ Managed largeRegion :=
  ⟨miniheapInit_freeList largeRegion _, not_managed_of_ge (Nat.le_refl _)⟩

end ZHyper
