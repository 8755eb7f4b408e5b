import ZHyper.Heap.Invariant

/-!
# `miniheap_alloc` on a well-formed heap

With `t` the 32-bit total the code computes from the request: if no free block
has `t` bytes the call returns `NULL` and writes nothing (`miniheapAlloc_none`);
otherwise it returns the payload of the first that has, with `t` in the used
header (`miniheapAlloc_header`), and for `t ≥ 16` the invariant holds of the heap
with that block carved out (`miniheapAlloc_fit`).
-/

namespace ZHyper

open LowLevel LowLevel.Prog

/-! ## The request size -/

theorem land_mask (x : Nat) : x &&& 0xFFFFFFF0 = x % 2 ^ 32 / 16 * 16 := by
  have hmask : (0xFFFFFFF0 : Nat) = (2 ^ 28 - 1) <<< 4 := by decide
  have hval : x % 2 ^ 32 / 16 * 16 = ((x % 2 ^ 32) >>> 4) <<< 4 := by
    rw [Nat.shiftLeft_eq, Nat.shiftRight_eq_div_pow]
  rw [hmask, hval]
  apply Nat.eq_of_testBit_eq
  intro i
  simp only [Nat.testBit_and, Nat.testBit_shiftLeft, Nat.testBit_two_pow_sub_one,
    Nat.testBit_shiftRight, Nat.testBit_mod_two_pow]
  by_cases hi : 4 ≤ i
  · simp only [hi, decide_true, Bool.true_and, Nat.add_sub_cancel' hi]
    rw [Bool.and_comm]
    congr 1
    simp only [decide_eq_decide]
    omega
  · simp [hi]

/-- The rounding of the request with the alignment of `miniheap_init`. -/
theorem roundSize_eq (n : Nat) :
    roundSize n heapAlignment heapAlignment = (n + 15) % 2 ^ 32 / 16 * 16 := by
  have hsum : ((n + heapAlignment) % 2 ^ 64 + 2 ^ 64 - 1) % 2 ^ 64 % 2 ^ 32 =
      (n + 15) % 2 ^ 32 := by
    rw [Nat.mod_mod_of_dvd _ (Nat.pow_dvd_pow 2 (by decide)), heapAlignment]
    omega
  have hmask : 2 ^ 32 - 1 - (heapAlignment + 2 ^ 32 - 1) % 2 ^ 32 = 0xFFFFFFF0 := by
    simp [heapAlignment]
  unfold roundSize
  rw [hmask, land_mask, hsum]
  clear hmask hsum
  omega

/-- The bytes `miniheap_alloc` takes for a request of `n`, as it computes them. -/
def allocTotal (n : Nat) : Nat := ((n + 15) % 2 ^ 32 / 16 * 16 + 16) % 2 ^ 32

/-! ## Unlinking and splitting -/

/-- Redirecting the prefix `pre` to `v` joins it with the segment at `v`. -/
theorem FreeSeg.redirect {m : Mem} {heap e v : Nat} {pre rest : List Block}
    (h : FreeSeg m (m.load 8 (heapFreeList heap)) pre e) (hr : FreeSeg m v rest 0) (hv : v < 2 ^ 64)
    (hsp : Spaced (pre ++ rest))
    (hap : ∀ b ∈ pre ++ rest, heap + 40 ≤ b.addr ∨ b.addr + 16 ≤ heap) :
    let m' := m.store 8 (linkSlot (heapFreeList heap) pre) v
    FreeSeg m' (m'.load 8 (heapFreeList heap)) (pre ++ rest) 0 ∧
      ∀ x, heap ≤ x → x < heap + 32 → m' x = m x := by
  obtain ⟨hsp1, -, hsp12⟩ := List.pairwise_append.mp hsp
  have hslot : linkSlot (heapFreeList heap) pre = heap + 32 ∨
      ∃ b ∈ pre, linkSlot (heapFreeList heap) pre = b.addr + 8 :=
        linkSlot_mem (heapFreeList heap) pre
  refine ⟨FreeSeg.append.mpr ⟨v, h.relink hv ?_ hsp1, hr.congr ?_⟩, ?_⟩
  · intro b hb
    have := hap b (List.mem_append_left _ hb)
    unfold heapFreeList
    omega
  · intro c hc x h1 h2
    apply Mem.store_apply_out
    have hc' := hap c (List.mem_append_right _ hc)
    rcases hslot with e | ⟨b, hb, e⟩
    · omega
    · have := hsp12 b hb c hc
      omega
  · intro x h1 h2
    apply Mem.store_apply_out
    rcases hslot with e | ⟨b, hb, e⟩
    · omega
    · have := hap b (List.mem_append_left _ hb)
      omega

theorem linkSlot_metaStore {heap v : Nat} {pre bs : List Block} (hsub : ∀ b ∈ pre, b ∈ bs)
    (hsz : ∀ b ∈ bs, 16 ≤ b.size) :
    MetaStore heap bs (.store 8 (linkSlot (heapFreeList heap) pre) v) := by
  rcases linkSlot_mem (heapFreeList heap) pre with e | ⟨b, hb, e⟩
  · left
    rw [e]
    simp only [heapFreeList]
    omega
  · right
    have := hsz b (hsub b hb)
    refine ⟨b, hsub b hb, ?_⟩
    rw [e]
    simp only [Block.fin]
    omega

section fit

variable {R : Region} {m : Mem} {live : List Alloc} {pre post : List Block} {b : Block} {t : Nat}

/-- The list surgery of `miniheap_alloc`: `b` leaves the list, what is left of it takes its
place. -/
theorem allocFit_wp (h : HeapInv R m live (pre ++ b :: post)) (hsize : R.size < 2 ^ 32)
    (ht : 16 ≤ t) (htd : 16 ∣ t) (htb : t ≤ b.size) :
    (allocFit R.heap t (lastAddr 0 pre) b.addr).wp (MetaStore R.heap (pre ++ b :: post))
      (fun _ m' => FreeSeg m' (m'.load 8 (heapFreeList R.heap)) (pre ++ carve t b ++ post) 0 ∧
        ∀ x, R.heap ≤ x → x < R.heap + 32 → m' x = m x) m := by
  have hbmem : b ∈ pre ++ b :: post := by simp
  have hbin := h.free_in hbmem
  have hfit := R.fits
  have hclear : ∀ c ∈ pre ++ b :: post, R.heap + 40 ≤ c.addr ∨ c.addr + 16 ≤ R.heap := by
    intro c hc
    have h1 := R.clear (h.free_in hc)
    have h2 := h.canonical.size_ge hc
    unfold Block.fin at h1
    omega
  have hbclear := R.clear hbin
  have hne : ∀ c ∈ pre, c.addr ≠ 0 := fun c hc => h.chain.addr_ne_zero c (by simp [hc])
  have hsz : ∀ c ∈ pre ++ b :: post, 16 ≤ c.size := fun c hc => h.canonical.size_ge hc
  have hspaced := spaced_of_canonical h.canonical
  obtain ⟨hsp1, hsp2, hsp3⟩ := List.pairwise_append.mp hspaced
  obtain ⟨q, hpre, hb0, hbne, hbm, hbs, hpost⟩ := FreeSeg.append.mp h.chain
  subst hb0
  have hslot : ∀ v, MetaStore R.heap (pre ++ b :: post)
      (.store 8 (linkSlot (heapFreeList R.heap) pre) v) :=
    fun v => linkSlot_metaStore (fun c hc => by simp [hc]) hsz
  simp only [allocFit, wp_bind, wp_read, hbs, setLink_eq R.heap _ hne]
  refine ⟨trivial, ?_⟩
  split
  · next heq =>
    -- just fit: the prefix is led past `b`
    have hsp : Spaced (pre ++ post) :=
      List.pairwise_append.mpr ⟨hsp1, (List.pairwise_cons.mp hsp2).2,
        fun c hc d hd => hsp3 c hc d (List.mem_cons_of_mem _ hd)⟩
    have hcarve : carve t b = [] := by simp [carve, heq]
    rw [hcarve, List.append_nil]
    simp only [wp_bind, wp_read, wp_write]
    refine ⟨trivial, hslot _, ?_⟩
    refine hpre.redirect hpost (Mem.load8_lt m _) hsp fun c hc => hclear c ?_
    rcases List.mem_append.mp hc with hc | hc <;> simp [hc]
  · next hne' =>
    -- split: the rest of `b` becomes a block of its own
    have hfinb : b.addr + b.size ≤ R.base + R.size := hbin.2
    have hsize16 : 16 ≤ b.size - t := by
      have := (h.canonical.aligned b hbmem).2
      omega
    have hnew : (b.addr + t) % 2 ^ 64 = b.addr + t := Nat.mod_eq_of_lt (by omega)
    have hrest : (b.size + 2 ^ 32 - t) % 2 ^ 32 = b.size - t := by omega
    have hcarve : carve t b = [⟨b.addr + t, b.size - t⟩] := by simp [carve, hne']
    have hin : ∀ d w v, d + w ≤ 16 →
        MetaStore R.heap (pre ++ b :: post) (.store w (b.addr + t + d) v) := by
      intro d w v hd
      refine Or.inr ⟨b, hbmem, ?_⟩
      unfold Block.fin
      omega
    simp only [wp_bind, wp_read, wp_write, hnew, blockMagic, blockSize,
      blockNext] at hbm hbs hpost ⊢
    -- the header of `b` is read back unchanged after the writes into its rest
    have hr1 : (m.store 4 (b.addr + t) magicFree).load 4 (b.addr + 4) = b.size := by
      rw [Mem.load_store_apart (by omega), hbs]
    rw [hr1, hrest]
    have hr2 : ((m.store 4 (b.addr + t) magicFree).store 4 (b.addr + t + 4) (b.size - t)).load 8
        (b.addr + 8) = m.load 8 (b.addr + 8) := by
      rw [Mem.load_store_apart (by omega), Mem.load_store_apart (by omega)]
    rw [hr2]
    refine ⟨hin 0 4 _ (by omega), trivial, hin 4 4 _ (by omega), trivial, hin 8 8 _ (by omega),
      hslot _, ?_⟩
    generalize hm1 :
      ((m.store 4 (b.addr + t) magicFree).store 4 (b.addr + t + 4) (b.size - t)).store 8
      (b.addr + t + 8) (m.load 8 (b.addr + 8)) = m1
    have hout : ∀ x, x < b.addr + t ∨ b.addr + t + 16 ≤ x → m1 x = m x := by
      intro x hx
      rw [← hm1, Mem.store_apply_out (by omega), Mem.store_apply_out (by omega),
        Mem.store_apply_out (by omega)]
    have hpre1 : FreeSeg m1 (m1.load 8 (heapFreeList R.heap)) pre b.addr := by
      have hfl : m1.load 8 (heapFreeList R.heap) = m.load 8 (heapFreeList R.heap) := by
        refine Mem.load_congr 8 _ fun x h1 h2 => hout x ?_
        unfold heapFreeList Block.fin at *
        omega
      rw [hfl]
      refine hpre.congr fun c hc x h1 h2 => hout x ?_
      have := hsp3 c hc b List.mem_cons_self
      omega
    have hpost1 : FreeSeg m1 (b.addr + t) (⟨b.addr + t, b.size - t⟩ :: post) 0 := by
      refine ⟨rfl, by simp; omega, ?_, ?_, ?_⟩
      · simp only [blockMagic]
        rw [← hm1, Mem.load_store_apart (by omega), Mem.load_store_apart (by omega),
          Mem.load4_store4 (by decide)]
      · simp only [blockSize]
        rw [← hm1, Mem.load_store_apart (by omega), Mem.load4_store4 (by omega)]
      · simp only [blockNext]
        have hnext : m1.load 8 (b.addr + t + 8) = m.load 8 (b.addr + 8) := by
          rw [← hm1, Mem.load8_store8 (Mem.load8_lt m _)]
        rw [hnext]
        refine hpost.congr fun c hc x h1 h2 => hout x ?_
        have := (canonical_cons.mp (canonical_append.mp h.canonical).2.1).2.2 c hc
        unfold Block.fin at this
        omega
    have hsp : Spaced (pre ++ ⟨b.addr + t, b.size - t⟩ :: post) := by
      have := canonical_carve h.canonical htb htd
      rw [hcarve, List.append_assoc, List.singleton_append] at this
      exact spaced_of_canonical this
    rw [hcarve, List.append_assoc, List.singleton_append]
    obtain ⟨g1, g2⟩ := hpre1.redirect hpost1 (by omega) hsp fun c hc => by
      rcases List.mem_append.mp hc with hc | hc
      · exact hclear c (List.mem_append_left _ hc)
      · rcases List.mem_cons.mp hc with rfl | hc
        · unfold Block.fin at hbclear
          simp only
          omega
        · exact hclear c (List.mem_append_right _ (List.mem_cons_of_mem _ hc))
    refine ⟨g1, ?_⟩
    intro x h1 h2
    rw [g2 x h1 h2]
    apply hout
    unfold Block.fin at hbclear
    omega

/-- The accounting of `miniheap_alloc`, from the memory `m1` the list surgery left. -/
theorem allocFinish_wp (h : HeapInv R m live (pre ++ b :: post)) (hsize : R.size < 2 ^ 32)
    (ht : 16 ≤ t) (htd : 16 ∣ t) (htb : t ≤ b.size) {m1 : Mem}
    (hchain : FreeSeg m1 (m1.load 8 (heapFreeList R.heap)) (pre ++ carve t b ++ post) 0)
    (hm1 : ∀ x, R.heap ≤ x → x < R.heap + 32 → m1 x = m x) :
    (allocFinish R.heap t b.addr).wp (MetaStore R.heap (pre ++ b :: post)) (fun p m' =>
      p = b.addr + 16 ∧
      (∀ x, R.heap ≤ x → x < R.heap + 16 ∨ R.heap + 24 ≤ x → x < R.heap + 32 → m' x = m x) ∧
      m'.load 8 (heapFreeBytes R.heap) = total (pre ++ b :: post) - t ∧
      FreeSeg m' (m'.load 8 (heapFreeList R.heap)) (pre ++ carve t b ++ post) 0 ∧
      m'.load 4 (blockMagic b.addr) = magicUsed ∧ m'.load 4 (blockSize b.addr) = t) m1 := by
  have hbmem : b ∈ pre ++ b :: post := by simp
  have hbne := h.chain.addr_ne_zero b hbmem
  have hb16 := h.canonical.size_ge hbmem
  have hbin := h.free_in hbmem
  have hclear := R.clear hbin
  have hfits := R.fits
  have htot := h.total_le
  have htle := size_le_total hbmem
  have hbytes : m1.load 8 (heapFreeBytes R.heap) = total (pre ++ b :: post) := by
    rw [← h.freeBytes]
    apply Mem.load_congr 8
    intro x h1 h2
    unfold heapFreeBytes at h1 h2
    exact hm1 x (by omega) (by omega)
  have hcan := canonical_carve h.canonical htb htd
  obtain ⟨hc1, hc2, hc12⟩ := canonical_append.mp h.canonical
  obtain ⟨-, -, hgap⟩ := canonical_cons.mp hc2
  unfold Block.fin at hbin hclear
  rw [allocFinish, if_neg hbne]
  simp only [wp_bind, wp_read, wp_write, wp_pure, hbytes]
  have hsub : (total (pre ++ b :: post) + 2 ^ 64 - t) % 2 ^ 64 = total (pre ++ b :: post) - t := by
    omega
  have hptr : (b.addr + usedHeaderSize) % 2 ^ 64 = b.addr + 16 := Nat.mod_eq_of_lt (by
    unfold usedHeaderSize
    omega)
  rw [hsub]
  generalize hm2 : ((m1.store 8 (heapFreeBytes R.heap) (total (pre ++ b :: post) - t)).store 4
    (blockMagic b.addr) magicUsed).store 4 (blockSize b.addr) t = m2
  -- what the three stores leave alone
  have hout : ∀ x, (x < R.heap + 16 ∨ R.heap + 24 ≤ x) → (x < b.addr ∨ b.addr + 8 ≤ x) →
      m2 x = m1 x := by
    intro x h1 h2
    rw [← hm2, Mem.store_apply_out (by unfold blockSize; omega),
      Mem.store_apply_out (by unfold blockMagic; omega),
      Mem.store_apply_out (by unfold heapFreeBytes; omega)]
  have hin : ∀ d v, d ≤ 4 → MetaStore R.heap (pre ++ b :: post) (.store 4 (b.addr + d) v) := by
    intro d v hd
    refine Or.inr ⟨b, hbmem, ?_⟩
    unfold Block.fin
    omega
  refine ⟨trivial, Or.inl (by unfold heapFreeBytes; omega), hin 0 _ (by omega), hin 4 _ (by omega),
    hptr, ?_, ?_, ?_, ?_, ?_⟩
  · intro x h1 h2 h3
    rw [hout x h2 (by omega), hm1 x h1 h3]
  · rw [← hm2, Mem.load_store_apart (by unfold blockSize heapFreeBytes; omega),
      Mem.load_store_apart (by unfold blockMagic heapFreeBytes; omega), Mem.load8_store8 (by omega)]
  · have hfl : m2.load 8 (heapFreeList R.heap) = m1.load 8 (heapFreeList R.heap) := by
      refine Mem.load_congr 8 _ fun x h1 h2 =>
        hout x ?_ ?_ <;> unfold heapFreeList at h1 h2 <;> omega
    rw [hfl]
    apply hchain.congr
    intro c hc x h1 h2
    -- the header of a block still on the list is clear of the header of `b`
    have hcb : c.addr + 16 ≤ b.addr ∨ b.addr + 8 ≤ c.addr := by
      rcases List.mem_append.mp hc with hc' | hc'
      · rcases List.mem_append.mp hc' with hc' | hc'
        · have h3 := hc12 c hc' b List.mem_cons_self
          have h4 := hc1.size_ge hc'
          unfold Block.fin at h3
          omega
        · have := mem_carve htb hc'
          omega
      · have := hgap c hc'
        unfold Block.fin at this
        omega
    have hcin : R.base ≤ c.addr ∧ c.addr + 16 ≤ R.base + R.size := by
      have h3 := hcan.size_ge hc
      have h4 : R.base ≤ c.addr ∧ c.fin ≤ R.base + R.size := by
        rcases List.mem_append.mp hc with hc' | hc'
        · rcases List.mem_append.mp hc' with hc' | hc'
          · exact h.free_in (List.mem_append_left _ hc')
          · have := mem_carve htb hc'
            unfold Block.fin at *
            omega
        · exact h.free_in (List.mem_append_right _ (List.mem_cons_of_mem _ hc'))
      unfold Block.fin at h4
      omega
    have hRap := R.apart
    exact hout x (by omega) (by omega)
  · rw [← hm2, Mem.load_store_apart (by unfold blockSize blockMagic; omega),
      Mem.load4_store4 (by decide)]
  · rw [← hm2, Mem.load4_store4 (by omega)]

/-- Rebuilding the invariant after a successful allocation: `m1` is the memory after the search,
`m2` after the used header and the byte count are written. -/
theorem HeapInv.carved (h : HeapInv R m live (pre ++ b :: post)) {m' : Mem} {k : Nat} (htd : 16 ∣ t)
    (htb : t ≤ b.size) (hk : 0 < k ∧ k + 16 ≤ t)
    (hstruct : ∀ x, R.heap ≤ x → x < R.heap + 16 ∨ R.heap + 24 ≤ x → x < R.heap + 32 → m' x = m x)
    (hbytes : m'.load 8 (heapFreeBytes R.heap) = total (pre ++ b :: post) - t)
    (hchain : FreeSeg m' (m'.load 8 (heapFreeList R.heap)) (pre ++ carve t b ++ post) 0)
    (hmagic : m'.load 4 (blockMagic b.addr) = magicUsed) (hsz : m'.load 4 (blockSize b.addr) = t)
    (hframe : ∀ x, ¬ (R.heap ≤ x ∧ x < R.heap + 40) ∧ ¬ Covers (pre ++ b :: post) x → m' x = m x) :
    HeapInv R m' (⟨b.addr + 16, k⟩ :: live) (pre ++ carve t b ++ post) := by
  have hbmem : b ∈ pre ++ b :: post := by simp
  obtain ⟨hc1, hc2, hc12⟩ := canonical_append.mp h.canonical
  obtain ⟨-, -, hgap⟩ := canonical_cons.mp hc2
  have hlive : ∀ a ∈ live, Used m' a ∧ usedBlock m' a = usedBlock m a := by
    intro a ha
    refine (h.used a ha).congr fun x hx1 hx2 => hframe x ⟨fun hh => ?_, fun ⟨c, hc, hcx⟩ => ?_⟩
    · have hclear := R.clear (h.live_in ha)
      have hx := (h.used a ha).has_header hx1 hx2
      unfold Block.Has at hx
      omega
    · exact (h.freeApart c hc a ha).not_has hcx ((h.used a ha).has_header hx1 hx2)
  have hmap : live.map (usedBlock m') = live.map (usedBlock m) :=
    List.map_congr_left fun a ha => (hlive a ha).2
  have hnew : usedBlock m' ⟨b.addr + 16, k⟩ = ⟨b.addr, t⟩ := by
    simp only [usedBlock, usedHeaderSize, Nat.add_sub_cancel, hsz]
  obtain ⟨w1, w2, w3⟩ := h.words hstruct
  refine ⟨w1, w2, w3, ?_, hchain, canonical_carve h.canonical htb htd, ?_, ?_, ?_, ?_⟩
  · rw [hbytes, total_carve htb, Nat.add_sub_cancel]
  · intro a ha
    rcases List.mem_cons.mp ha with rfl | ha
    · refine ⟨Nat.le_add_left _ _, ?_, ?_, ?_⟩
      · simpa only [usedHeaderSize, Nat.add_sub_cancel] using hmagic
      · rw [hnew]
        exact ⟨(h.canonical.aligned b hbmem).1, htd⟩
      · rw [hnew]
        exact hk
    · exact (hlive a ha).1
  · rw [List.map_cons, List.pairwise_cons, hmap, hnew]
    refine ⟨?_, h.liveApart⟩
    intro c hc
    obtain ⟨a, ha, rfl⟩ := List.mem_map.mp hc
    have := h.freeApart b hbmem a ha
    simp only [Block.Apart, Block.fin] at this ⊢
    omega
  · intro c hc a ha
    have hcb : c ∈ pre ++ b :: post ∨ (c.addr = b.addr + t ∧ c.fin = b.fin) := by
      rcases List.mem_append.mp hc with hc | hc
      · rcases List.mem_append.mp hc with hc | hc
        · exact Or.inl (by simp [hc])
        · have := mem_carve htb hc
          exact Or.inr ⟨this.1, this.2.1⟩
      · exact Or.inl (by simp [hc])
    rcases List.mem_cons.mp ha with rfl | ha
    · rw [hnew]
      simp only [Block.Apart, Block.fin] at hcb ⊢
      rcases List.mem_append.mp hc with hc | hc
      · rcases List.mem_append.mp hc with hc | hc
        · have := hc12 c hc b List.mem_cons_self
          unfold Block.fin at this
          omega
        · have := mem_carve htb hc
          omega
      · have := hgap c hc
        unfold Block.fin at this
        omega
    · rw [(hlive a ha).2]
      rcases hcb with hcb | ⟨h1, h2⟩
      · exact h.freeApart c hcb a ha
      · have := h.freeApart b hbmem a ha
        simp only [Block.Apart] at this ⊢
        omega
  · intro x
    rw [h.tiles x, covers_carve htb, List.map_cons, covers_cons, hmap, hnew, or_assoc]

end fit

/-! ## The whole call -/

section call

variable {R : Region} {m : Mem} {live : List Alloc} {free : List Block} {P : Access → Prop}
    {n : Nat}

/-- The call up to the search. -/
theorem miniheapAlloc_wp (h : HeapInv R m live free) (hload : ∀ w a, P (.load w a))
    {Q : Nat → Mem → Prop} (h0 : (n + 15) % 2 ^ 32 < 16 ∨ total free < allocTotal n → Q 0 m)
    (h1 : 16 ≤ (n + 15) % 2 ^ 32 → allocTotal n ≤ total free →
      (allocLoop R.heap (allocTotal n) loopBound 0 (m.load 8 (heapFreeList R.heap))).wp P
        (fun cur m' => (allocFinish R.heap (allocTotal n) cur).wp P Q m') m) :
    (miniheapAlloc R.heap n).wp P Q m := by
  simp only [miniheapAlloc, wp_bind, wp_read, h.alignWord, roundSize_eq]
  refine ⟨hload _ _, hload _ _, ?_⟩
  split
  · exact h0 (Or.inl (by omega))
  · next hne =>
    have ht : ((n + 15) % 2 ^ 32 / 16 * 16 + usedHeaderSize) % 2 ^ 32 = allocTotal n := rfl
    simp only [wp_bind, wp_read, h.freeBytes, ht]
    refine ⟨hload _ _, ?_⟩
    split
    · next hgt => exact h0 (Or.inr hgt)
    · next hle =>
      simp only [wp_bind, wp_read]
      exact ⟨hload _ _, h1 (by omega) (by omega)⟩

/-- **No block is large enough, or the size rounds to zero**: `NULL`, and nothing is written. -/
theorem miniheapAlloc_none (h : HeapInv R m live free) (hload : ∀ w a, P (.load w a))
    (hn : (n + 15) % 2 ^ 32 < 16 ∨ ∀ b ∈ free, b.size < allocTotal n) :
    (miniheapAlloc R.heap n).wp P (fun p m' => p = 0 ∧ m' = m) m := by
  refine miniheapAlloc_wp h hload (fun _ => ⟨rfl, rfl⟩) ?_
  intro h16 hle
  have hall : ∀ b ∈ free, b.size < allocTotal n := hn.resolve_left (by omega)
  refine allocLoop_none hload hall ?_ loopBound 0 _ h.length_lt h.chain
  rw [allocFinish, if_pos rfl]
  exact ⟨rfl, rfl⟩

theorem allocTotal_lt (n : Nat) : allocTotal n < 2 ^ 32 := Nat.mod_lt _ (by decide)

theorem setLink_returns (heap prev link : Nat) {Q : Unit → Mem → Prop} {m : Mem}
    (hQ : ∀ m', Q () m') :
    (setLink heap prev link).wp (fun _ => True) Q m := by
  unfold setLink
  split
  · exact ⟨trivial, hQ _⟩
  · exact ⟨trivial, hQ _⟩

theorem allocFit_returns (heap t prev cur : Nat) {Q : Unit → Mem → Prop} {m : Mem}
    (hQ : ∀ m', Q () m') :
    (allocFit heap t prev cur).wp (fun _ => True) Q m := by
  simp only [allocFit, wp_bind, wp_read]
  refine ⟨trivial, ?_⟩
  split
  · exact ⟨trivial, setLink_returns heap prev _ hQ⟩
  · simp only [wp_bind, wp_read, wp_write, true_and]
    exact setLink_returns heap prev _ hQ

/-- **Whatever the request**, if some block has the total the code computed, the call returns the
payload of one, with that total in its header. -/
theorem miniheapAlloc_header (h : HeapInv R m live free) (hn : 16 ≤ (n + 15) % 2 ^ 32)
    {pre post : List Block} {b : Block} (hfree : free = pre ++ b :: post)
    (hpre : ∀ c ∈ pre, c.size < allocTotal n) (hb : allocTotal n ≤ b.size) :
    (miniheapAlloc R.heap n).wp (fun _ => True) (fun p m' => p = b.addr + 16 ∧
      m'.load 4 (blockSize b.addr) = allocTotal n) m := by
  subst hfree
  have hbmem : b ∈ pre ++ b :: post := by simp
  have hb0 : b.addr ≠ 0 := h.chain.addr_ne_zero b hbmem
  have hle : allocTotal n ≤ total (pre ++ b :: post) := Nat.le_trans hb (size_le_total hbmem)
  have hfin : b.addr + 16 < 2 ^ 64 := by
    have h1 := h.free_in hbmem
    have h2 := h.canonical.size_ge hbmem
    have h3 := R.fits
    unfold Block.fin at h1
    omega
  refine miniheapAlloc_wp h (fun _ _ => trivial) (fun h0 => absurd h0 (by omega)) ?_
  intro _ _
  refine allocLoop_fit (fun _ _ => trivial) hpre hb loopBound 0 _ h.prefix_length_lt h.chain ?_
  apply allocFit_returns R.heap
  intro m'
  rw [allocFinish, if_neg hb0]
  simp only [wp_bind, wp_read, wp_write, wp_pure, true_and]
  exact ⟨Nat.mod_eq_of_lt hfin, Mem.load4_store4 (allocTotal_lt n)⟩

/-- **Some block is large enough**: the first such one is taken, the bytes come off its front, and
the invariant holds with it among the live allocations. -/
theorem miniheapAlloc_fit {pre post : List Block} {b : Block} {k : Nat}
    (h : HeapInv R m live (pre ++ b :: post)) (hsize : R.size < 2 ^ 32)
    (hn : 16 ≤ (n + 15) % 2 ^ 32) (ht : 16 ≤ allocTotal n) (hpre : ∀ c ∈ pre, c.size < allocTotal n)
    (hb : allocTotal n ≤ b.size) (hk : 0 < k ∧ k + 16 ≤ allocTotal n) :
    (miniheapAlloc R.heap n).wp (MetaStore R.heap (pre ++ b :: post)) (fun p m' => p = b.addr + 16 ∧
      (usedBlock m' ⟨p, k⟩).size = allocTotal n ∧
      HeapInv R m' (⟨p, k⟩ :: live) (pre ++ carve (allocTotal n) b ++ post)) m := by
  have hload : ∀ w a, MetaStore R.heap (pre ++ b :: post) (.load w a) := fun _ _ => trivial
  have hbmem : b ∈ pre ++ b :: post := by simp
  have htd : 16 ∣ allocTotal n := by
    unfold allocTotal
    omega
  have htlt := allocTotal_lt n
  have hle : allocTotal n ≤ total (pre ++ b :: post) := Nat.le_trans hb (size_le_total hbmem)
  have hwp := miniheapAlloc_wp h hload (fun h0 => absurd h0 (by omega)) fun _ _ =>
    allocLoop_fit hload hpre hb loopBound 0 _ h.prefix_length_lt h.chain
      (wp_mono (allocFit_wp h hsize ht htd hb) fun _ m1 hm1 =>
        allocFinish_wp h hsize ht htd hb hm1.1 hm1.2)
  refine wp_mono (wp_frame hwp fun w a v hs y hy => metaStore_frame hs y hy) ?_
  rintro p m' ⟨⟨rfl, h1, h2, h3, h4, h5⟩, h6⟩
  exact ⟨rfl, h5, h.carved htd hb hk h1 h2 h3 h4 h5 h6⟩

end call

end ZHyper
