import ZHyper.Heap.Runs

/-!
# The free list depends only on what is live

The free list of a reachable heap is the ascending list of the maximal gaps that
the live blocks leave in the region (`HeapInv.covers_free`, `Canonical.mem_iff`),
so two histories that end with the same live blocks end with the same list and
the same `free_bytes`.  `heap_canonical` states this with what follows from it:
frees commute, `malloc` followed by `free` is the identity on the list, and freeing
everything, in any order, restores the single block of `miniheap_init`.
-/

namespace ZHyper

open LowLevel LowLevel.Prog

/-- The blocks met from `cur` on, as the headers describe them. -/
def freeListFrom (m : Mem) : (fuel cur : Nat) → List Block
  | 0, _ => []
  | fuel + 1, cur =>
    if cur = 0 then []
    else ⟨cur, m.load 4 (blockSize cur)⟩ :: freeListFrom m fuel (m.load 8 (blockNext cur))

def freeList (heap : Nat) (m : Mem) : List Block :=
  freeListFrom m loopBound (m.load 8 (heapFreeList heap))

def freeByteCount (heap : Nat) (m : Mem) : Nat := m.load 8 (heapFreeBytes heap)

/-- Addresses and header sizes of what the users hold. -/
def liveBlocks (s : HeapSys) : List Block := s.live.map (usedBlock s.mem)

def SameFree (heap : Nat) (m m' : Mem) : Prop :=
  freeList heap m = freeList heap m' ∧ freeByteCount heap m = freeByteCount heap m'

/-- `free` of one pointer after the other. -/
def freeAll (heap : Nat) : List Nat → Prog Unit
  | [] => pure ()
  | p :: ps => do
    free heap p
    freeAll heap ps

/-- The addresses of the region that belong to no live block. -/
def gapsOf (R : Region) (live : List Block) : Set Nat :=
  {x | (R.base ≤ x ∧ x < R.base + R.size) ∧ ¬ Covers live x}

theorem FreeSeg.freeListFrom_eq {m : Mem} {l : List Block} :
    ∀ (fuel cur : Nat), l.length < fuel → FreeSeg m cur l 0 → freeListFrom m fuel cur = l := by
  induction l with
  | nil =>
    rintro (_ | fuel) cur hf hcur
    · cases hf
    · have h0 : cur = 0 := hcur
      rw [freeListFrom, if_pos h0]
  | cons b l ih =>
    rintro (_ | fuel) cur hf ⟨rfl, h0, -, hsize, hnext⟩
    · cases hf
    · rw [freeListFrom, if_neg h0, hsize, ih fuel _ (Nat.lt_of_succ_lt_succ hf) hnext]

section canonical

variable {R : Region} {m m' : Mem} {live live' : List Alloc} {free free' : List Block}

theorem HeapInv.freeList_eq (h : HeapInv R m live free) : freeList R.heap m = free :=
  FreeSeg.freeListFrom_eq loopBound _ h.length_lt h.chain

/-- The free list covers what the live blocks leave of the region. -/
theorem HeapInv.covers_free (h : HeapInv R m live free) :
    {x | Covers free x} = gapsOf R (live.map (usedBlock m)) := by
  ext x
  show Covers free x ↔ (R.base ≤ x ∧ x < R.base + R.size) ∧ ¬ Covers (live.map (usedBlock m)) x
  rw [h.tiles x]
  constructor
  · rintro ⟨b, hb, hbx⟩
    refine ⟨Or.inl ⟨b, hb, hbx⟩, ?_⟩
    rintro ⟨c, hc, hcx⟩
    obtain ⟨a, ha, rfl⟩ := List.mem_map.mp hc
    exact (h.freeApart b hb a ha).not_has hbx hcx
  · rintro ⟨hx, hnot⟩
    exact hx.resolve_right hnot

/-- **Same live blocks, same free list.** -/
theorem HeapInv.same (h : HeapInv R m live free) (h' : HeapInv R m' live' free')
    (hl : ∀ b, b ∈ live.map (usedBlock m) ↔ b ∈ live'.map (usedBlock m')) :
      SameFree R.heap m m' := by
  have hfree : free = free' := by
    apply h.canonical.unique h'.canonical
    intro x
    have hcov : Covers (live.map (usedBlock m)) x ↔ Covers (live'.map (usedBlock m')) x := by
      simp only [Covers, hl]
    have h1 := Set.ext_iff.mp h.covers_free x
    have h2 := Set.ext_iff.mp h'.covers_free x
    simp only [gapsOf, Set.mem_ofPred_eq] at h1 h2
    rw [h1, h2, hcov]
  subst hfree
  refine ⟨?_, ?_⟩
  · rw [h.freeList_eq, h'.freeList_eq]
  · unfold freeByteCount
    rw [h.freeBytes, h'.freeBytes]

/-- With the same allocations in unchanged blocks. -/
theorem HeapInv.same_of_mem (h : HeapInv R m live free) (h' : HeapInv R m' live' free')
    (hmem : ∀ a, a ∈ live ↔ a ∈ live') (hblock : ∀ a ∈ live, usedBlock m' a = usedBlock m a) :
    SameFree R.heap m m' := by
  apply h.same h'
  intro b
  simp only [List.mem_map]
  constructor
  · rintro ⟨a, ha, rfl⟩
    exact ⟨a, (hmem a).mp ha, hblock a ha⟩
  · rintro ⟨a, ha, rfl⟩
    have ha := (hmem a).mpr ha
    exact ⟨a, ha, (hblock a ha).symm⟩

/-- What `malloc` does to a heap, for a caller that looks at blocks only. -/
theorem HeapInv.malloc_blocks (h : HeapInv R m live free) (hsize : R.size < 2 ^ 32) {n : Nat}
    (hn : (n + 15) / 16 * 16 + 16 < 2 ^ 32) :
    ∃ p m', (malloc R.heap n).exec m = .ret p m' ∧
      (∃ free', HeapInv R m' (if p = 0 then live else ⟨p, n⟩ :: live) free') ∧
      ∀ a ∈ live, usedBlock m' a = usedBlock m a := by
  obtain ⟨p, m', he, hinv⟩ := wp_exec (malloc_wp h hsize hn)
  refine ⟨p, m', he, hinv, fun a ha => ((h.used a ha).congr fun x h1 h2 => ?_).2⟩
  exact h.block_frame ha (fun b hb => h.freeApart b hb a ha) (malloc_wp h hsize hn) he x
    ((h.used a ha).has_header h1 h2)

/-- What `free` does to a heap, for a caller that looks at blocks only. -/
theorem HeapInv.free_blocks (h : HeapInv R m live free) (hsize : R.size < 2 ^ 32) {a : Alloc}
    (ha : a ∈ live) :
    (ZHyper.free R.heap a.ptr).wp (fun _ => True) (fun _ m' =>
      (∃ free', HeapInv R m' (dropLive a.ptr live) free') ∧
        ∀ c ∈ dropLive a.ptr live, usedBlock m' c = usedBlock m c) m := by
  have hwp := miniheapFree_wp h hsize ha
  obtain ⟨_, m', he, hinv⟩ := wp_exec hwp
  apply wp_mono (wp_of_exec he)
  rintro _ _ ⟨-, rfl⟩
  refine ⟨hinv, ?_⟩
  intro c hc
  have hu := h.used c (mem_dropLive.mp hc).1
  refine (hu.congr ?_).2
  intro x h1 h2
  exact h.block_frame (mem_dropLive.mp hc).1 (fun b hb => h.freed_apart ha b hb c hc) hwp he x
    (hu.has_header h1 h2)

/-- **Freeing a list of live pointers** leaves the other allocations, in their blocks. -/
theorem HeapInv.freeAll_blocks (hsize : R.size < 2 ^ 32) {ps : List Nat} (hnd : ps.Nodup) :
    ∀ {m : Mem} {live : List Alloc} {free : List Block}, HeapInv R m live free →
      (∀ p ∈ ps, ∃ a ∈ live, a.ptr = p) →
      (freeAll R.heap ps).wp (fun _ => True) (fun _ m' => ∃ live' free', HeapInv R m' live' free' ∧
        (∀ a, a ∈ live' ↔ a ∈ live ∧ a.ptr ∉ ps) ∧
          ∀ a ∈ live', usedBlock m' a = usedBlock m a) m := by
  induction ps with
  | nil =>
    intro m live free h _
    exact ⟨live, free, h, fun a => by simp, fun _ _ => rfl⟩
  | cons p ps ih =>
    intro m live free h hps
    obtain ⟨hp, hnd'⟩ := List.nodup_cons.mp hnd
    obtain ⟨a, ha, rfl⟩ := hps p List.mem_cons_self
    rw [freeAll, wp_bind]
    apply wp_mono (h.free_blocks hsize ha)
    rintro _ m₁ ⟨⟨free₁, h₁⟩, hblock₁⟩
    -- the remaining pointers are still live
    have hps' : ∀ q ∈ ps, ∃ c ∈ dropLive a.ptr live, c.ptr = q := by
      intro q hq
      obtain ⟨c, hc, rfl⟩ := hps q (List.mem_cons_of_mem _ hq)
      exact ⟨c, mem_dropLive.mpr ⟨hc, fun e => hp (e ▸ hq)⟩, rfl⟩
    apply wp_mono (ih hnd' h₁ hps')
    rintro _ m₂ ⟨live₂, free₂, h₂, hmem₂, hblock₂⟩
    have hmem : ∀ c, c ∈ live₂ ↔ c ∈ live ∧ c.ptr ∉ a.ptr :: ps := by
      intro c
      rw [hmem₂ c, mem_dropLive, List.mem_cons, not_or, and_assoc]
    refine ⟨live₂, free₂, h₂, hmem, ?_⟩
    intro c hc
    rw [hblock₂ c hc, hblock₁ c ((hmem₂ c).mp hc).1]

/-- Two live blocks at one address would overlap. -/
theorem HeapInv.ptrs_nodup (h : HeapInv R m live free) : (live.map Alloc.ptr).Nodup := by
  refine List.pairwise_map.mpr ((List.pairwise_map.mp h.liveApart).imp_of_mem ?_)
  intro a c ha _ hap hp
  have hblock : usedBlock m c = usedBlock m a := by simp only [usedBlock, hp]
  have hpos := (h.used a ha).pos
  rw [hblock] at hap
  unfold Block.Apart Block.fin at hap
  omega

theorem HeapInv.mem_dropLive_cons {p n : Nat} (h : HeapInv R m (⟨p, n⟩ :: live) free) (a : Alloc) :
    a ∈ dropLive p (⟨p, n⟩ :: live) ↔ a ∈ live := by
  rw [mem_dropLive, List.mem_cons]
  constructor
  · rintro ⟨rfl | ha, hne⟩
    · exact absurd rfl hne
    · exact ha
  · intro ha
    refine ⟨Or.inr ha, ?_⟩
    intro hp
    exact (List.nodup_cons.mp h.ptrs_nodup).1 (List.mem_map.mpr ⟨a, ha, hp⟩)

/-- `malloc` and `free` of its result. -/
theorem HeapInv.malloc_free (h : HeapInv R m live free) (hsize : R.size < 2 ^ 32) {n : Nat}
    (hn : (n + 15) / 16 * 16 + 16 < 2 ^ 32) :
    ∃ p m₁ m₂, (malloc R.heap n).exec m = .ret p m₁ ∧ (ZHyper.free R.heap p).exec m₁ = .ret () m₂ ∧
      SameFree R.heap m m₂ := by
  obtain ⟨p, m₁, he, ⟨free₁, h₁⟩, hblock⟩ := h.malloc_blocks hsize hn
  by_cases hp : p = 0
  · subst hp
    exact ⟨0, m₁, m₁, he, free_null R.heap m₁, h.same_of_mem h₁ (fun _ => Iff.rfl) hblock⟩
  · rw [if_neg hp] at h₁
    obtain ⟨_, m₂, he₂, ⟨free₂, h₂⟩, hblock₂⟩ := wp_exec (h₁.free_blocks hsize List.mem_cons_self)
    refine ⟨p, m₁, m₂, he, he₂, h.same_of_mem h₂ (fun a => (h₁.mem_dropLive_cons a).symm) ?_⟩
    intro a ha
    rw [hblock₂ a ((h₁.mem_dropLive_cons a).mpr ha), hblock a ha]

/-- The order in which pointers are freed does not matter. -/
theorem HeapInv.freeAll_perm (h : HeapInv R m live free) (hsize : R.size < 2 ^ 32)
    {ps qs : List Nat} (hnd : ps.Nodup) (hps : ∀ p ∈ ps, ∃ a ∈ live, a.ptr = p)
    (hperm : ps.Perm qs) :
    ∃ m₁ m₂, (freeAll R.heap ps).exec m = .ret () m₁ ∧ (freeAll R.heap qs).exec m = .ret () m₂ ∧
      SameFree R.heap m₁ m₂ := by
  have hqs : ∀ p ∈ qs, ∃ a ∈ live, a.ptr = p := fun p hp => hps p (hperm.mem_iff.mpr hp)
  obtain ⟨_, m₁, he₁, live₁, free₁, h₁, hmem₁, hblock₁⟩ :=
    wp_exec (HeapInv.freeAll_blocks hsize hnd h hps)
  obtain ⟨_, m₂, he₂, live₂, free₂, h₂, hmem₂, hblock₂⟩ :=
    wp_exec (HeapInv.freeAll_blocks hsize (hperm.nodup hnd) h hqs)
  have hmem : ∀ a, a ∈ live₁ ↔ a ∈ live₂ := by
    intro a
    rw [hmem₁, hmem₂, hperm.mem_iff]
  refine ⟨m₁, m₂, he₁, he₂, h₁.same_of_mem h₂ hmem ?_⟩
  intro a ha
  rw [hblock₁ a ha, hblock₂ a ((hmem a).mp ha)]

/-- With nothing live, one block is all of the region. -/
theorem HeapInv.freeList_nil (h : HeapInv R m [] free) : free = [⟨R.base, R.size⟩] := by
  refine h.canonical.unique (canonical_singleton R.size_pos ⟨R.base_aligned, R.size_aligned⟩) ?_
  intro x
  have := h.tiles x
  simpa [Block.Has, Block.fin] using this.symm

/-- Freeing everything gives the heap of `miniheap_init` back. -/
theorem HeapInv.freeAll_live (h : HeapInv R m live free) (hsize : R.size < 2 ^ 32) {ps : List Nat}
    (hperm : ps.Perm (live.map Alloc.ptr)) :
    ∃ m', (freeAll R.heap ps).exec m = .ret () m' ∧ freeList R.heap m' = [⟨R.base, R.size⟩] ∧
      freeByteCount R.heap m' = R.size := by
  have hps : ∀ p ∈ ps, ∃ a ∈ live, a.ptr = p := fun p hp => List.mem_map.mp (hperm.mem_iff.mp hp)
  obtain ⟨_, m', he, live', free', h', hmem, -⟩ := wp_exec (HeapInv.freeAll_blocks hsize
    (hperm.nodup_iff.mpr h.ptrs_nodup) h hps)
  have hnil : live' = [] := by
    apply List.eq_nil_iff_forall_not_mem.mpr
    intro a ha
    obtain ⟨ha, hnot⟩ := (hmem a).mp ha
    exact hnot (hperm.mem_iff.mpr (List.mem_map_of_mem ha))
  subst hnil
  have hfree := h'.freeList_nil
  refine ⟨m', he, ?_, ?_⟩
  · rw [h'.freeList_eq, hfree]
  · unfold freeByteCount
    rw [h'.freeBytes, hfree, total_cons, total_nil, Nat.add_zero]

end canonical

/-- **The heap is canonical.**  In every reachable state the free list is the ascending list of the
maximal gaps between the live blocks, so it and `free_bytes` are the same in any two states with the
same live blocks.  Hence frees of distinct pointers commute, `malloc` followed by `free` restores
the list, and so does freeing all that is live, in any order. -/
theorem heap_canonical (R : Region) (hsize : R.size < 2 ^ 32) (s : HeapSys)
    (h : HeapReachable R s) :
    ((freeList R.heap s.mem).Pairwise (fun b c => b.fin < c.addr) ∧
      ∀ b, b ∈ freeList R.heap s.mem ↔ MaximalSpan (gapsOf R (liveBlocks s)) b.span) ∧
    (∀ t, HeapReachable R t → (∀ b, b ∈ liveBlocks s ↔ b ∈ liveBlocks t) →
      SameFree R.heap s.mem t.mem) ∧
    (∀ a ∈ s.live, ∀ c ∈ s.live, a.ptr ≠ c.ptr → ∃ m₁ m₂,
      (freeAll R.heap [a.ptr, c.ptr]).exec s.mem = .ret () m₁ ∧
      (freeAll R.heap [c.ptr, a.ptr]).exec s.mem = .ret () m₂ ∧ SameFree R.heap m₁ m₂) ∧
    (∀ n, Admissible s (.malloc n) → ∃ p m₁ m₂, (malloc R.heap n).exec s.mem = .ret p m₁ ∧
      (free R.heap p).exec m₁ = .ret () m₂ ∧ SameFree R.heap s.mem m₂) ∧
    ∀ ps : List Nat, ps.Perm (s.live.map Alloc.ptr) →
      ∃ m', (freeAll R.heap ps).exec s.mem = .ret () m' ∧
      freeList R.heap m' = [⟨R.base, R.size⟩] ∧ freeByteCount R.heap m' = R.size := by
  obtain ⟨l, hinv⟩ := reachable_inv hsize h
  refine ⟨⟨?_, ?_⟩, ?_, ?_, ?_, ?_⟩
  · rw [hinv.freeList_eq]
    exact hinv.canonical.gaps
  · intro b
    rw [hinv.freeList_eq, hinv.canonical.mem_iff, hinv.covers_free, liveBlocks]
  · intro t ht hl
    obtain ⟨l', hinv'⟩ := reachable_inv hsize ht
    exact hinv.same hinv' hl
  · intro a ha c hc hne
    refine hinv.freeAll_perm hsize (by simpa using hne) ?_ (List.Perm.swap _ _ _)
    intro p hp
    rcases List.mem_pair.mp hp with rfl | rfl
    · exact ⟨a, ha, rfl⟩
    · exact ⟨c, hc, rfl⟩
  · intro n hn
    exact hinv.malloc_free hsize hn
  · intro ps hps
    exact hinv.freeAll_live hsize hps

theorem heap_canonical_example :
    ∃ s, HeapReachable exampleRegion s ∧ s.live = [⟨4112, 100⟩] ∧
      ∃ m', (freeAll 64 [4112]).exec s.mem = .ret () m' ∧ freeList 64 m' = [⟨4096, 4096⟩] ∧
        freeByteCount 64 m' = 4096 := by
  obtain ⟨s, h, hl⟩ := exampleRegion_reachable
  obtain ⟨-, -, -, -, hall⟩ := heap_canonical exampleRegion (by decide) s h
  exact ⟨s, h, hl, hall [4112] (by rw [hl]; exact List.Perm.refl _)⟩

end ZHyper
