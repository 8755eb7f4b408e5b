import ZHyper.Heap.Canonical

/-!
# `dump_miniheap`

The dump walks the free list in memory.  On a heap that its users have used properly it comes to an
end, stores nothing, and names the free blocks in the order of their addresses (`dump_lists_free`).
-/

namespace ZHyper

open LowLevel LowLevel.Prog

/-! ## The walk -/

/-- `while (cur)`: address and size of each block, in the order of the lines printed. -/
def dumpLoop : (fuel cur : Nat) → Prog (List Block)
  | 0, _ => .diverge
  | fuel + 1, cur =>
    if cur = 0 then pure []
    else do
      let size ← read 4 (blockSize cur)
      let next ← read 8 (blockNext cur)
      let rest ← dumpLoop fuel next
      return ⟨cur, size⟩ :: rest

/-- What a dump prints: base, size and free bytes, and the blocks. -/
structure HeapDump where
  base : Nat
  size : Nat
  freeBytes : Nat
  blocks : List Block

def dumpMiniheap (heap : Nat) : Prog HeapDump := do
  let base ← read 8 (heapBase heap)
  let size ← read 8 (heapSize heap)
  let freeBytes ← read 8 (heapFreeBytes heap)
  let cur ← read 8 (heapFreeList heap)
  let blocks ← dumpLoop loopBound cur
  return ⟨base, size, freeBytes, blocks⟩

/-! ## Its end -/

/-- A program that only loads. -/
def LoadsOnly : Access → Prop
  | .load _ _ => True
  | .store _ _ _ => False

theorem dumpLoop_wp {m : Mem} {l : List Block} :
    ∀ {fuel cur : Nat}, l.length < fuel → FreeSeg m cur l 0 →
      (dumpLoop fuel cur).wp LoadsOnly (fun bs m' => bs = l ∧ m' = m) m := by
  induction l with
  | nil =>
    rintro (_ | fuel) cur hf hcur
    · cases hf
    · have h0 : cur = 0 := hcur
      rw [dumpLoop, if_pos h0]
      exact ⟨rfl, rfl⟩
  | cons b l ih =>
    rintro (_ | fuel) cur hf ⟨rfl, h0, -, hsize, hnext⟩
    · cases hf
    · rw [dumpLoop, if_neg h0]
      simp only [wp_bind, wp_read, wp_pure]
      refine ⟨trivial, trivial, ?_⟩
      refine wp_mono (ih (Nat.lt_of_succ_lt_succ hf) hnext) ?_
      rintro bs m' ⟨rfl, rfl⟩
      exact ⟨by rw [hsize], rfl⟩

theorem HeapInv.dump_wp {R : Region} {m : Mem} {live : List Alloc} {free : List Block}
    (h : HeapInv R m live free) :
    (dumpMiniheap R.heap).wp LoadsOnly
      (fun d m' => d = ⟨R.base, R.size, total free, free⟩ ∧ m' = m) m := by
  unfold dumpMiniheap
  simp only [wp_bind, wp_read, wp_pure]
  refine ⟨trivial, trivial, trivial, trivial, ?_⟩
  refine wp_mono (dumpLoop_wp h.length_lt h.chain) ?_
  rintro bs m' ⟨rfl, rfl⟩
  exact ⟨by rw [h.baseWord, h.sizeWord, h.freeBytes], rfl⟩

/-- **The dump is true.**  In every reachable state it ends without a store, and prints the region,
the bytes that are free, and the blocks of the free list: apart and ascending, each a maximal gap
between the live blocks, with `free_bytes` their sum. -/
theorem dump_lists_free (R : Region) (hsize : R.size < 2 ^ 32) (s : HeapSys)
    (h : HeapReachable R s) :
    ∃ d, (dumpMiniheap R.heap).wp LoadsOnly (fun d' m' => d' = d ∧ m' = s.mem) s.mem ∧
      d.base = R.base ∧
      d.size = R.size ∧ d.freeBytes = (d.blocks.map Block.size).sum ∧
      d.blocks.Pairwise (fun b c => b.fin < c.addr) ∧
      ∀ b, b ∈ d.blocks ↔ MaximalSpan (gapsOf R (liveBlocks s)) b.span := by
  obtain ⟨free, hinv⟩ := reachable_inv hsize h
  refine ⟨⟨R.base, R.size, total free, free⟩, hinv.dump_wp, rfl, rfl, rfl, hinv.canonical.gaps,
    fun b => ?_⟩
  rw [hinv.canonical.mem_iff, hinv.covers_free, liveBlocks]

theorem dump_lists_free_example :
    ∃ s d, HeapReachable exampleRegion s ∧ s.live = [⟨4112, 100⟩] ∧
      (dumpMiniheap 64).wp LoadsOnly (fun d' m' => d' = d ∧ m' = s.mem) s.mem ∧ d.size = 4096 := by
  obtain ⟨s, h, hl⟩ := exampleRegion_reachable
  obtain ⟨d, hd, -, hdsize, -⟩ := dump_lists_free exampleRegion (by decide) s h
  exact ⟨s, d, h, hl, hd, hdsize⟩

end ZHyper
