import ZHyper.Heap.Requests

/-!
# `malloc` is first fit

From a reachable heap `malloc(n)` searches for `requestNeed n` bytes.  Because `free_bytes` is the
sum of the sizes on the free list, the early exit on it never refuses what the list could serve; and
because the list is ascending, the first block that is large enough is the lowest
(`malloc_first_fit`).
-/

namespace ZHyper

open LowLevel LowLevel.Prog

/-- `malloc` found nothing: `NULL`, and nothing changed. -/
structure Refused (p : Nat) (m m' : Mem) : Prop where
  null : p = 0
  unchanged : m' = m

/-- `malloc` took `t` bytes from the front of the lowest free block that has them. -/
structure TookFirst (heap t p : Nat) (m m' : Mem) : Prop where
  nonnull : p ≠ 0
  aligned : 16 ∣ p
  block : ∃ pre b post, freeList heap m = pre ++ b :: post ∧ t ≤ b.size ∧
    (∀ c ∈ freeList heap m, t ≤ c.size → b.addr ≤ c.addr) ∧ p = b.addr + usedHeaderSize ∧
    freeList heap m' = pre ++ carve t b ++ post
  bytes : freeByteCount heap m' + t = freeByteCount heap m

section firstFit

variable {R : Region} {m : Mem} {live : List Alloc} {free : List Block} {n : Nat}

theorem HeapInv.malloc_refused (h : HeapInv R m live free)
    (hn : n = 0 ∨ ∀ b ∈ free, b.size < allocTotal n) :
    ∃ p m', (malloc R.heap n).exec m = .ret p m' ∧ Refused p m m' := by
  obtain ⟨p, m', he, hp, hm⟩ :=
    wp_exec (miniheapAlloc_none (P := fun _ => True) h (fun _ _ => trivial)
    (hn.imp (fun h0 => by omega) id))
  exact ⟨p, m', he, hp, hm⟩

theorem HeapInv.malloc_tookFirst (h : HeapInv R m live free) (hsize : R.size < 2 ^ 32)
    (hneed : requestNeed n < 2 ^ 32) (hn : n ≠ 0) (hfit : ∃ b ∈ free, allocTotal n ≤ b.size) :
    ∃ p m', (malloc R.heap n).exec m = .ret p m' ∧ TookFirst R.heap (allocTotal n) p m m' := by
  have ht : allocTotal n = (n + 15) / 16 * 16 + 16 := allocTotal_eq hneed
  unfold requestNeed at hneed
  obtain ⟨pre, b, post, rfl, hpre, hb⟩ := exists_first_fit free (allocTotal n) hfit
  obtain ⟨p, m', he, rfl, -, hinv⟩ :=
    wp_exec (miniheapAlloc_fit (k := n) h hsize (by omega) (by omega) hpre hb (by omega))
  have hbmem : b ∈ pre ++ b :: post := List.mem_append_right _ List.mem_cons_self
  have hal := (h.canonical.aligned b hbmem).1
  refine ⟨b.addr + 16, m', he,
    Nat.succ_ne_zero _, by omega, ⟨pre, b, post, h.freeList_eq, hb, ?_, rfl,
    hinv.freeList_eq⟩, ?_⟩
  · rw [h.freeList_eq]
    exact h.canonical.first_lowest hpre
  · unfold freeByteCount
    rw [h.freeBytes, hinv.freeBytes]
    exact (total_carve hb).symm

end firstFit

/-- **`malloc` is complete first fit, and fails cleanly.** -/
theorem malloc_first_fit (R : Region) (hsize : R.size < 2 ^ 32) (s : HeapSys)
    (h : HeapReachable R s) (n : Nat) (hn : requestNeed n < 2 ^ 32) :
    ∃ p m, (malloc R.heap n).exec s.mem = .ret p m ∧
      (p = 0 ↔ n = 0 ∨ ∀ b ∈ freeList R.heap s.mem, b.size < requestNeed n) ∧
      (Refused p s.mem m ∨ TookFirst R.heap (requestNeed n) p s.mem m) := by
  obtain ⟨free, hinv⟩ := reachable_inv hsize h
  have ht : allocTotal n = requestNeed n := allocTotal_eq hn
  rw [hinv.freeList_eq, ← ht]
  by_cases h0 : n = 0 ∨ ∀ b ∈ free, b.size < allocTotal n
  · obtain ⟨p, m, he, href⟩ := hinv.malloc_refused h0
    exact ⟨p, m, he, iff_of_true href.null h0, Or.inl href⟩
  · have hfit : ∃ b ∈ free, allocTotal n ≤ b.size := by
      rw [not_or] at h0
      simpa using h0.2
    obtain ⟨p, m, he, htook⟩ := hinv.malloc_tookFirst hsize hn (fun e => h0 (Or.inl e)) hfit
    exact ⟨p, m, he, iff_of_false htook.nonnull h0, Or.inr htook⟩

theorem malloc_first_fit_example :
    ∃ s p m, HeapReachable exampleRegion s ∧ (malloc 64 100).exec s.mem = .ret p m ∧
      TookFirst 64 128 p s.mem m := by
  obtain ⟨s, h, hinv⟩ := exampleRegion_fresh
  obtain ⟨p, m, he, hnull, hres⟩ := malloc_first_fit exampleRegion (by decide) s h 100 (by decide)
  refine ⟨s, p, m, h, he, hres.resolve_left ?_⟩
  intro href
  have hnone := hnull.mp href.null
  rw [hinv.freeList_eq] at hnone
  exact absurd hnone (by decide)

end ZHyper
