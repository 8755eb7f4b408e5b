import ZHyper.Heap.Canonical

/-!
# Requests of every size

`miniheap_alloc` rounds a request in 64 bits with a 32-bit mask, cuts the result to
`uint32_t`, and adds the header in 32 bits.  A request needs
`requestNeed n = roundup(n, 16) + 16` bytes; what the code looks for is that
number modulo `2^32`.  `malloc_sound_iff` says exactly which requests a reachable
heap survives and serves: those that fit 32 bits, those that round to zero there,
and those for which no block of the wrapped size is free.
-/

namespace ZHyper

open LowLevel LowLevel.Prog

/-- The bytes a request of `n` needs: its payload rounded up, and the used header. -/
def requestNeed (n : Nat) : Nat := (n + 15) / 16 * 16 + 16

/-- `malloc(n)` returns; either `NULL`, with nothing changed, or a block with room for `n` bytes;
and the heap it leaves is well formed. -/
def MallocSound (R : Region) (s : HeapSys) (n : Nat) : Prop :=
  ∃ p m, (malloc R.heap n).exec s.mem = .ret p m ∧
    ((p = 0 ∧ m = s.mem) ∨
      (p ≠ 0 ∧ n + usedHeaderSize ≤ m.load 4 (blockSize (p - usedHeaderSize)))) ∧
    ∃ free, HeapInv R m (if p = 0 then s.live else ⟨p, n⟩ :: s.live) free

theorem allocTotal_need (n : Nat) : allocTotal n = requestNeed n % 2 ^ 32 := by
  unfold allocTotal requestNeed
  omega

theorem need_mod_eq (n : Nat) : requestNeed n % 2 ^ 32 = 16 ↔ (n + 15) % 2 ^ 32 < 16 := by
  unfold requestNeed
  omega

section requests

variable {R : Region} {s : HeapSys} {free : List Block} {n : Nat}

/-- The call is served from nothing: `NULL`. -/
theorem HeapInv.sound_none (h : HeapInv R s.mem s.live free)
    (hn : (n + 15) % 2 ^ 32 < 16 ∨ ∀ b ∈ free, b.size < allocTotal n) : MallocSound R s n := by
  obtain ⟨p, m, he, rfl, rfl⟩ :=
    wp_exec (miniheapAlloc_none (P := fun _ => True) h (fun _ _ => trivial) hn)
  exact ⟨0, _, he, Or.inl ⟨rfl, rfl⟩, free, h⟩

/-- The call is served from the first block that is large enough. -/
theorem HeapInv.sound_fit (h : HeapInv R s.mem s.live free) (hsize : R.size < 2 ^ 32)
    (hneed : requestNeed n < 2 ^ 32) (hn : 16 ≤ (n + 15) % 2 ^ 32)
    (hfit : ∃ b ∈ free, allocTotal n ≤ b.size) : MallocSound R s n := by
  have ht : allocTotal n = (n + 15) / 16 * 16 + 16 := allocTotal_eq hneed
  have hk : 0 < n ∧ n + 16 ≤ allocTotal n := by
    unfold requestNeed at hneed
    omega
  obtain ⟨pre, b, post, rfl, hpre, hb⟩ := exists_first_fit free (allocTotal n) hfit
  obtain ⟨p, m, he, rfl, hroom, hinv⟩ :=
    wp_exec (miniheapAlloc_fit h hsize hn (by omega) hpre hb hk)
  have hp : b.addr + 16 ≠ 0 := Nat.succ_ne_zero _
  refine ⟨b.addr + 16, m, he, Or.inr ⟨hp, ?_⟩, _, by rw [if_neg hp]; exact hinv⟩
  have hused : m.load 4 (blockSize (b.addr + 16 - usedHeaderSize)) = allocTotal n := hroom
  rw [hused]
  exact hk.2

/-- A request that does not fit 32 bits and finds a block gets fewer bytes than it needs. -/
theorem HeapInv.unsound_fit (h : HeapInv R s.mem s.live free) (hneed : 2 ^ 32 ≤ requestNeed n)
    (hn : 16 ≤ (n + 15) % 2 ^ 32) (hfit : ∃ b ∈ free, allocTotal n ≤ b.size) :
      ¬ MallocSound R s n := by
  rintro ⟨p, m, he, hres, -⟩
  obtain ⟨pre, b, post, hfree, hpre, hb⟩ := exists_first_fit free (allocTotal n) hfit
  obtain ⟨rfl, hhdr⟩ := wp_ret (miniheapAlloc_header h hn hfree hpre hb) he
  rcases hres with ⟨h0, -⟩ | ⟨-, hroom⟩
  · exact Nat.succ_ne_zero _ h0
  · have hused : m.load 4 (blockSize (b.addr + 16 - usedHeaderSize)) = allocTotal n := hhdr
    have hlt := allocTotal_lt n
    have hdvd : 16 ∣ allocTotal n := by
      unfold allocTotal
      omega
    rw [hused] at hroom
    unfold usedHeaderSize at hroom
    unfold requestNeed at hneed
    omega

end requests

/-- **Which requests are sound.**  From a reachable heap, `malloc(n)` meets its contract exactly if
what `n` needs fits 32 bits, or wraps to the bare header, or no free block has the bytes it wraps
to. -/
theorem malloc_sound_iff (R : Region) (hsize : R.size < 2 ^ 32) (s : HeapSys)
    (h : HeapReachable R s) (n : Nat) :
    MallocSound R s n ↔ requestNeed n < 2 ^ 32 ∨ requestNeed n % 2 ^ 32 = 16 ∨
      ∀ b ∈ freeList R.heap s.mem, b.size < requestNeed n % 2 ^ 32 := by
  obtain ⟨free, hinv⟩ := reachable_inv hsize h
  rw [hinv.freeList_eq, need_mod_eq, ← allocTotal_need]
  by_cases hn : (n + 15) % 2 ^ 32 < 16
  · exact iff_of_true (hinv.sound_none (Or.inl hn)) (Or.inr (Or.inl hn))
  by_cases hfit : ∃ b ∈ free, allocTotal n ≤ b.size
  · have hnot : ¬ ∀ b ∈ free, b.size < allocTotal n := by
      intro hall
      obtain ⟨b, hb, hle⟩ := hfit
      exact Nat.not_le_of_lt (hall b hb) hle
    by_cases hneed : requestNeed n < 2 ^ 32
    · exact iff_of_true (hinv.sound_fit hsize hneed (by omega) hfit) (Or.inl hneed)
    · apply iff_of_false (hinv.unsound_fit (by omega) (by omega) hfit)
      rintro (h1 | h1 | h1)
      · exact hneed h1
      · exact hn h1
      · exact hnot h1
  · have hall : ∀ b ∈ free, b.size < allocTotal n := by simpa using hfit
    exact iff_of_true (hinv.sound_none (Or.inr hall)) (Or.inr (Or.inr hall))

/-- A fresh page. -/
theorem exampleRegion_fresh :
    ∃ s, HeapReachable exampleRegion s ∧ HeapInv exampleRegion s.mem s.live [⟨4096, 4096⟩] := by
  obtain ⟨_, m, he, rfl, hinv⟩ := wp_exec (miniheapInit_wp exampleRegion (by decide) fun _ => 0)
  exact ⟨⟨m, []⟩, ⟨_, [], ⟨rfl, _, he⟩, .nil _⟩, hinv⟩

theorem malloc_sound_example :
    ∃ s, HeapReachable exampleRegion s ∧ MallocSound exampleRegion s 100 ∧
      ¬ MallocSound exampleRegion s (2 ^ 32 - 16) := by
  obtain ⟨s, h, hinv⟩ := exampleRegion_fresh
  refine ⟨s, h, ?_, ?_⟩
  · exact (malloc_sound_iff exampleRegion (by decide) s h 100).mpr (Or.inl (by decide))
  · intro hs
    have hcond := (malloc_sound_iff exampleRegion (by decide) s h _).mp hs
    rw [hinv.freeList_eq] at hcond
    exact absurd hcond (by decide)

/-- On a fresh page a request of `2^32 + 1` bytes gets 16, and one of `2^32 - 16` an empty block. -/
theorem malloc_unsound :
    ∃ s, HeapReachable exampleRegion s ∧ ¬ MallocSound exampleRegion s (2 ^ 32 + 1) ∧
      ¬ MallocSound exampleRegion s (2 ^ 32 - 16) := by
  obtain ⟨s, h, hinv⟩ := exampleRegion_fresh
  refine ⟨s, h, ?_, ?_⟩
  · exact hinv.unsound_fit (by decide) (by decide) ⟨_, List.mem_singleton_self _, by decide⟩
  · exact hinv.unsound_fit (by decide) (by decide) ⟨_, List.mem_singleton_self _, by decide⟩

end ZHyper
