import ZHyper.Heap.Alloc

/-!
# `miniheap_free` on a well-formed heap

Freeing the live allocation `a` gives its block back to the free list: with
`pre` the free blocks below it and `post` those above, the list in memory
becomes `release pre.reverse (usedBlock m a) post` (`miniheapFree_wp`), merged to
the left by `freeInsert` and to the right by `freeMergeRight`.
-/

namespace ZHyper

open LowLevel LowLevel.Prog

section

variable {R : Region} {m : Mem} {live : List Alloc} {pre post : List Block} {u : Block}
  {P : Access → Prop}

/-- What the list surgery of `free` needs: the free list around the block `u`, and `u` itself
inside the region, already marked FREE. -/
structure Gap (R : Region) (m : Mem) (pre : List Block) (u : Block) (post : List Block) : Prop where
  chain : FreeSeg m (m.load 8 (heapFreeList R.heap)) (pre ++ post) 0
  canonical : Canonical 16 (pre ++ post)
  inRegion : ∀ b ∈ pre ++ post, R.base ≤ b.addr ∧ b.fin ≤ R.base + R.size
  here : R.base ≤ u.addr ∧ u.fin ≤ R.base + R.size
  block : 0 < u.size ∧ 16 ∣ u.addr ∧ 16 ∣ u.size
  magic : m.load 4 (blockMagic u.addr) = magicFree
  below : ∀ b ∈ pre, b.fin ≤ u.addr
  above : ∀ b ∈ post, u.fin ≤ b.addr

theorem Gap.size_ge (g : Gap R m pre u post) : 16 ≤ u.size := Nat.le_of_dvd g.block.1 g.block.2.2

theorem Gap.header_clear (g : Gap R m pre u post) {b : Block} (hb : b ∈ pre ++ post) :
    R.heap + 40 ≤ b.addr ∨ b.addr + 16 ≤ R.heap := by
  have h1 := R.clear (g.inRegion b hb)
  have h2 := g.canonical.size_ge hb
  unfold Block.fin at h1
  omega

theorem Gap.header_below (g : Gap R m pre u post) {b : Block} (hb : b ∈ pre) :
    b.addr + 16 ≤ u.addr := by
  have h1 := g.below b hb
  have h2 := g.canonical.size_ge (List.mem_append_left _ hb)
  unfold Block.fin at h1
  omega

theorem Gap.headAddr_lt (g : Gap R m pre u post) : headAddr post < 2 ^ 64 := by
  cases post with
  | nil => simp [headAddr]
  | cons c post =>
    have h1 := (g.inRegion c (by simp)).2
    have h2 := R.fits
    unfold Block.fin at h1
    simp only [headAddr]
    omega

theorem Gap.spaced (g : Gap R m pre u post) : Spaced (pre ++ u :: post) := by
  obtain ⟨hsp1, hsp2, hsp3⟩ := List.pairwise_append.mp (spaced_of_canonical g.canonical)
  have hu16 := g.size_ge
  refine List.pairwise_append.mpr ⟨hsp1, List.pairwise_cons.mpr ⟨?_, hsp2⟩, ?_⟩
  · intro c hc
    have := g.above c hc
    unfold Block.fin at this
    omega
  · intro b hb c hc
    rcases List.mem_cons.mp hc with rfl | hc
    · exact g.header_below hb
    · exact hsp3 b hb c hc

/-- The link slot of the free list. -/
theorem linkSlot_listAccess {heap v : Nat} {l bs : List Block} (hsub : ∀ b ∈ l, b ∈ bs) :
    ListAccess heap bs (.store 8 (linkSlot (heapFreeList heap) l) v) := by
  rcases linkSlot_mem (heapFreeList heap) l with e | ⟨b, hb, e⟩
  · left
    rw [e]
    unfold heapFreeList
    omega
  · rw [e]
    exact listAccess_store (hsub b hb) (by decide)

/-- The branch of `free` that links `u` in between `pre` and `post`. -/
theorem freeLink_wp (g : Gap R m pre u post) (hsize : R.size < 2 ^ 32) :
    (write 4 (blockSize u.addr) u.size >>= fun _ =>
      write 8 (blockNext u.addr) (headAddr post) >>= fun _ =>
      setLink R.heap (lastAddr 0 pre) u.addr >>= fun _ => pure (u.addr, u.fin)).wp
      (ListAccess R.heap (u :: (pre ++ post))) (fun r m' => r = (u.addr, u.fin) ∧
        FreeSeg m' (m'.load 8 (heapFreeList R.heap)) (pre ++ u :: post) 0 ∧
        ∀ x, R.heap ≤ x → x < R.heap + 32 → m' x = m x) m := by
  obtain ⟨q, hpre, hpost⟩ := FreeSeg.append.mp g.chain
  have hq := hpost.head
  subst hq
  have hu16 := g.size_ge
  have hhere := g.here
  have hfits := R.fits
  have huclear := R.clear g.here
  have hmemu : u ∈ u :: (pre ++ post) := List.mem_cons_self
  have hne : ∀ c ∈ pre, c.addr ≠ 0 := fun c hc => hpre.addr_ne_zero c hc
  unfold Block.fin at hhere huclear
  simp only [wp_bind, wp_write, wp_pure, setLink_eq R.heap _ hne, blockSize, blockNext]
  refine ⟨listAccess_store hmemu (by decide), listAccess_store hmemu (by decide),
    linkSlot_listAccess (fun b hb => by simp [hb]), trivial, ?_⟩
  generalize hm1 : (m.store 4 (u.addr + 4) u.size).store 8 (u.addr + 8) (headAddr post) = m1
  have hout : ∀ x, x < u.addr + 4 ∨ u.addr + 16 ≤ x → m1 x = m x := by
    intro x hx
    rw [← hm1, Mem.store_apply_out (by omega), Mem.store_apply_out (by omega)]
  have hpre1 : FreeSeg m1 (m1.load 8 (heapFreeList R.heap)) pre (headAddr post) := by
    have hfl : m1.load 8 (heapFreeList R.heap) = m.load 8 (heapFreeList R.heap) := by
      refine Mem.load_congr 8 _ fun x h1 h2 => hout x ?_
      unfold heapFreeList at *
      omega
    rw [hfl]
    refine hpre.congr fun c hc x h1 h2 => hout x ?_
    have := g.header_below hc
    omega
  have hpost1 : FreeSeg m1 u.addr (u :: post) 0 := by
    refine ⟨rfl, by have := R.base_pos; omega, ?_, ?_, ?_⟩
    · rw [← hm1, Mem.load_store_apart (by unfold blockMagic; omega),
        Mem.load_store_apart (by unfold blockMagic; omega), g.magic]
    · unfold blockSize
      rw [← hm1, Mem.load_store_apart (by omega), Mem.load4_store4 (by omega)]
    · unfold blockNext
      have hnext : m1.load 8 (u.addr + 8) = headAddr post := by
        rw [← hm1, Mem.load8_store8 g.headAddr_lt]
      rw [hnext]
      refine hpost.congr fun c hc x h1 h2 => hout x ?_
      have := g.above c hc
      unfold Block.fin at this
      omega
  obtain ⟨g1, g2⟩ := hpre1.redirect hpost1 (by omega) g.spaced fun c hc => by
    rcases List.mem_append.mp hc with hc | hc
    · exact g.header_clear (List.mem_append_left _ hc)
    · rcases List.mem_cons.mp hc with rfl | hc
      · omega
      · exact g.header_clear (List.mem_append_right _ hc)
  refine ⟨g1, ?_⟩
  intro x h1 h2
  rw [g2 x h1 h2]
  exact hout x (by omega)

/-- The branch of `free` that gives `u` to the free block `p` it touches. -/
theorem freeJoin_wp {r : List Block} {p : Block} (g : Gap R m (r ++ [p]) u post)
    (hsize : R.size < 2 ^ 32) (htouch : p.fin = u.addr) :
    (read 4 (blockSize p.addr) >>= fun prevSize =>
      write 4 (blockSize p.addr) ((prevSize + u.size) % 2 ^ 32) >>= fun _ =>
      read 4 (blockSize p.addr) >>= fun newSize => pure (p.addr, (p.addr + newSize) % 2 ^ 64)).wp
      (ListAccess R.heap (u :: (r ++ [p] ++ post))) (fun x m' => x = (p.addr, u.fin) ∧
        FreeSeg m' (m'.load 8 (heapFreeList R.heap)) (r ++ ⟨p.addr, p.size + u.size⟩ :: post) 0 ∧
        ∀ x, R.heap ≤ x → x < R.heap + 32 → m' x = m x) m := by
  obtain ⟨q, hpre, hpost⟩ := FreeSeg.append.mp g.chain
  have hq := hpost.head
  subst hq
  have hpmem : p ∈ r ++ [p] ++ post := by simp
  have hpin := g.inRegion p hpmem
  have hp16 := g.canonical.size_ge hpmem
  have hpclear := g.header_clear hpmem
  have hhere := g.here
  have hfits := R.fits
  have hps : m.load 4 (blockSize p.addr) = p.size := hpre.size_eq p (by simp)
  obtain ⟨hsp1, -, hsp3⟩ := List.pairwise_append.mp (spaced_of_canonical g.canonical)
  obtain ⟨q, hr, hq, hp0, hpm, -, hpn⟩ := FreeSeg.append.mp hpre
  subst hq
  unfold Block.fin at hpin hhere htouch
  have hsum : (p.size + u.size) % 2 ^ 32 = p.size + u.size := by omega
  simp only [wp_bind, wp_read, wp_write, wp_pure, hps, hsum]
  generalize hm1 : m.store 4 (blockSize p.addr) (p.size + u.size) = m1
  have hnew : m1.load 4 (blockSize p.addr) = p.size + u.size := by
    rw [← hm1, Mem.load4_store4 (by omega)]
  have hout : ∀ x, x < p.addr + 4 ∨ p.addr + 8 ≤ x → m1 x = m x := fun x hx => by
    rw [← hm1, Mem.store_apply_out (by unfold blockSize; omega)]
  have hload : ∀ w a, a + w ≤ p.addr + 4 ∨ p.addr + 8 ≤ a → m1.load w a = m.load w a :=
    fun w a ha =>
    Mem.load_congr w a fun x h1 h2 => hout x (by omega)
  rw [hnew]
  have hpmem' : p ∈ u :: (r ++ [p] ++ post) := List.mem_cons_of_mem _ hpmem
  refine ⟨listAccess_load hpmem' (by decide), listAccess_store hpmem' (by decide),
    listAccess_load hpmem' (by decide), ?_, ?_, fun x h1 h2 => hout x (by omega)⟩
  · simp only [Block.fin, Prod.mk.injEq, true_and]
    omega
  · rw [hload 8 (heapFreeList R.heap) (by unfold heapFreeList; omega)]
    refine FreeSeg.replace hr hp0 ?_ hnew ?_ ?_
      ?_
    · exact (hload 4 p.addr (by omega)).trans hpm
    · have hnext : m1.load 8 (blockNext p.addr) = headAddr post :=
        (hload 8 (p.addr + 8) (by omega)).trans hpn
      rw [hnext]
      exact hpost
    · intro c hc x h1 h2
      have := (List.pairwise_append.mp hsp1).2.2 c hc p (by simp)
      exact hout x (by omega)
    · intro c hc x h1 h2
      have := hsp3 p (by simp) c hc
      exact hout x (by omega)

/-- `freeInsert` gives `u` to the block below it or links it in. -/
theorem freeInsert_wp (g : Gap R m pre u post) (hsize : R.size < 2 ^ 32) :
    (freeInsert R.heap u.addr u.size u.fin (lastAddr 0 pre) (headAddr post)).wp
      (ListAccess R.heap (u :: (pre ++ post))) (fun r m' =>
        let left := absorbLeft pre.reverse u
        r = (left.2.addr, left.2.fin) ∧
        FreeSeg m' (m'.load 8 (heapFreeList R.heap)) (left.1.reverse ++ left.2 :: post) 0 ∧
        ∀ x, R.heap ≤ x → x < R.heap + 32 → m' x = m x) m := by
  have hlink := freeLink_wp g hsize
  simp only [freeInsert, wp_bind]
  rcases List.eq_nil_or_concat pre with rfl | ⟨r, p, rfl⟩
  · rw [lastAddr, touchesLeft, if_pos rfl]
    simp only [wp_pure, Bool.false_eq_true, if_false]
    simpa only [List.reverse_nil, absorbLeft, lastAddr] using hlink
  · rw [List.concat_eq_append] at *
    have hpmem : p ∈ (r ++ [p]) ++ post := by simp
    have hp0 : p.addr ≠ 0 := g.chain.addr_ne_zero p hpmem
    have hps : m.load 4 (blockSize p.addr) = p.size := g.chain.size_eq p hpmem
    have hmod : (p.addr + p.size) % 2 ^ 64 = p.fin := by
      have h1 := (g.inRegion p hpmem).2
      have h2 := R.fits
      unfold Block.fin at *
      omega
    rw [lastAddr_concat, touchesLeft, if_neg hp0]
    simp only [wp_bind, wp_read, wp_pure, hps, hmod, beq_iff_eq, List.reverse_append,
      List.reverse_singleton, List.singleton_append, absorbLeft]
    refine ⟨listAccess_load (List.mem_cons_of_mem _ hpmem) (by decide), ?_⟩
    split
    · next htouch =>
      have hfin : Block.fin ⟨p.addr, p.size + u.size⟩ = u.fin := by
        simp only [Block.fin] at htouch ⊢
        omega
      rw [List.reverse_reverse, hfin]
      exact freeJoin_wp g hsize htouch
    · next hno =>
      simpa only [lastAddr_concat, List.reverse_cons, List.reverse_reverse] using hlink

/-- `freeMergeRight` takes the block above into `b`, if they touch. -/
theorem freeMergeRight_wp {l : List Block} {b : Block}
    (hchain : FreeSeg m (m.load 8 (heapFreeList R.heap)) (l ++ b :: post) 0)
    (hspaced : Spaced (l ++ b :: post)) (hb16 : 16 ≤ b.size)
    (hin : ∀ c ∈ b :: post, R.base ≤ c.addr ∧ c.fin ≤ R.base + R.size) (hsize : R.size < 2 ^ 32)
    (hstore : ∀ d w v, d + w ≤ 16 → P (.store w (b.addr + d) v))
    (hload : ∀ c ∈ b :: post, ∀ d w, d + w ≤ 16 → P (.load w (c.addr + d))) :
    (freeMergeRight b.addr b.fin (headAddr post)).wp P (fun _ m' =>
      let right := absorbRight b post
      FreeSeg m' (m'.load 8 (heapFreeList R.heap)) (l ++ right.1 :: right.2) 0 ∧
      ∀ x, R.heap ≤ x → x < R.heap + 32 → m' x = m x) m := by
  have hfits := R.fits
  have hclear := R.clear (hin b List.mem_cons_self)
  obtain ⟨q, hl, rfl, hb0, hbm, hbs, hpost⟩ := FreeSeg.append.mp hchain
  obtain ⟨-, hsp2, hsp3⟩ := List.pairwise_append.mp hspaced
  cases post with
  | nil =>
    rw [headAddr, freeMergeRight, if_neg (by simp)]
    exact ⟨hchain, fun x _ _ => rfl⟩
  | cons c post =>
    obtain ⟨hc1, hc0, hcm, hcs, hcn⟩ := hpost
    have hcin := (hin c (by simp)).2
    have hbin := (hin b (by simp)).1
    rw [headAddr, freeMergeRight]
    by_cases htouch : b.fin = c.addr
    · rw [if_pos ⟨hc0, htouch⟩]
      simp only [absorbRight, if_pos htouch]
      unfold Block.fin at htouch hclear hcin
      have hsum : (b.size + c.size) % 2 ^ 32 = b.size + c.size := by omega
      simp only [wp_bind, wp_read, wp_write, hbs, hcs, hsum]
      have hnx : (m.store 4 (blockSize b.addr) (b.size + c.size)).load 8 (blockNext c.addr) =
          m.load 8 (blockNext c.addr) :=
        Mem.load_store_apart (by unfold blockSize blockNext; omega)
      rw [hnx]
      generalize hm1 : (m.store 4 (blockSize b.addr) (b.size + c.size)).store 8 (blockNext b.addr)
        (m.load 8 (blockNext c.addr)) = m1
      have hout : ∀ x, x < b.addr + 4 ∨ b.addr + 16 ≤ x → m1 x = m x := fun x hx => by
        rw [← hm1, Mem.store_apply_out (by unfold blockNext; omega),
          Mem.store_apply_out (by unfold blockSize; omega)]
      have hfl : m1.load 8 (heapFreeList R.heap) = m.load 8 (heapFreeList R.heap) :=
        Mem.load_congr 8 _ fun x h1 h2 => hout x (by unfold heapFreeList at *; omega)
      rw [hfl]
      refine ⟨hload b (by simp) 4 4 (by decide), hload c (by simp) 4 4 (by decide),
        hstore 4 4 _ (by decide),
        hload c (by simp) 8 8 (by decide), hstore 8 8 _ (by decide), ?_, fun x h1 h2 =>
        hout x (by omega)⟩
      refine FreeSeg.replace hl hb0 ?_ ?_ ?_ ?_
        ?_
      · exact (Mem.load_congr 4 _ fun x h1 h2 =>
          hout x (by unfold blockMagic at *; omega)).trans hbm
      · rw [← hm1, Mem.load_store_apart (by unfold blockNext blockSize; omega),
          Mem.load4_store4 (by omega)]
      · rw [← hm1, Mem.load8_store8 (Mem.load8_lt _ _)]
        exact hcn
      · intro d hd x h1 h2
        have := hsp3 d hd b List.mem_cons_self
        exact hout x (by omega)
      · intro d hd x h1 h2
        have := (List.pairwise_cons.mp hsp2).1 d (List.mem_cons_of_mem _ hd)
        exact hout x (by omega)
    · rw [if_neg fun he => htouch he.2]
      simp only [absorbRight, if_neg htouch]
      exact ⟨hchain, fun x _ _ => rfl⟩

/-- The list surgery of `free` as a whole. -/
theorem freeSurgery_wp (g : Gap R m pre u post) (hsize : R.size < 2 ^ 32) :
    (freeInsert R.heap u.addr u.size u.fin (lastAddr 0 pre) (headAddr post) >>= fun r =>
      freeMergeRight r.1 r.2 (headAddr post)).wp (ListAccess R.heap (u :: (pre ++ post)))
        (fun _ m' =>
        FreeSeg m' (m'.load 8 (heapFreeList R.heap)) (release pre.reverse u post) 0 ∧
        ∀ x, R.heap ≤ x → x < R.heap + 32 → m' x = m x) m := by
  obtain ⟨hc1, hc2, -⟩ := canonical_append.mp g.canonical
  rw [← List.reverse_reverse pre] at hc1
  obtain ⟨l1, l2, l3, l4, l5, l6, -⟩ := absorbLeft_spec hc1 g.block fun p hp =>
    g.below p (List.mem_reverse.mp hp)
  have haddr := absorbLeft_addr pre.reverse u
  have hb16 : 16 ≤ (absorbLeft pre.reverse u).2.size := Nat.le_of_dvd l2.1 l2.2.2
  have hu16 := g.size_ge
  rw [wp_bind]
  apply wp_mono (freeInsert_wp g hsize)
  rintro r m1 ⟨rfl, hchain, hm1⟩
  generalize hleft : absorbLeft pre.reverse u = left at *
  have hspaced : Spaced (left.1.reverse ++ left.2 :: post) := by
    have hsp2 := (List.pairwise_append.mp (spaced_of_canonical g.canonical)).2.1
    have hab : ∀ c ∈ post, left.2.addr + 16 ≤ c.addr := by
      intro c hc
      have h1 := g.above c hc
      rw [← l3] at h1
      unfold Block.fin at h1
      omega
    refine List.pairwise_append.mpr ⟨spaced_of_canonical l1, List.pairwise_cons.mpr ⟨hab, hsp2⟩, ?_⟩
    intro p hp c hc
    have h1 := l4 p (List.mem_reverse.mp hp)
    have h2 := l1.size_ge hp
    unfold Block.fin at h1
    rcases List.mem_cons.mp hc with rfl | hc
    · omega
    · have := hab c hc
      omega
  have hin : ∀ c ∈ left.2 :: post, R.base ≤ c.addr ∧ c.fin ≤ R.base + R.size := by
    intro c hc
    rcases List.mem_cons.mp hc with rfl | hc
    · rw [l3]
      refine ⟨?_, g.here.2⟩
      rcases haddr with e | ⟨p, hp, e⟩
      · rw [e]
        exact g.here.1
      · rw [e]
        exact (g.inRegion p (List.mem_append_left _ (List.mem_reverse.mp hp))).1
    · exact g.inRegion c (List.mem_append_right _ hc)
  -- the block that now holds the memory starts where one of the list or `u` does
  have hleftmem : ∃ b ∈ u :: (pre ++ post), left.2.addr = b.addr := by
    rcases haddr with e | ⟨p, hp, e⟩
    · exact ⟨u, List.mem_cons_self, e⟩
    · exact ⟨p, List.mem_cons_of_mem _ (List.mem_append_left _ (List.mem_reverse.mp hp)), e⟩
  obtain ⟨b, hb, hbaddr⟩ := hleftmem
  have hstore : ∀ d w v, d + w ≤ 16 →
      ListAccess R.heap (u :: (pre ++ post)) (.store w (left.2.addr + d) v) := by
    intro d w v hd
    rw [hbaddr]
    exact listAccess_store hb hd
  have hload : ∀ c ∈ left.2 :: post, ∀ d w, d + w ≤ 16 →
      ListAccess R.heap (u :: (pre ++ post)) (.load w (c.addr + d)) := by
    intro c hc d w hd
    rcases List.mem_cons.mp hc with rfl | hc
    · rw [hbaddr]
      exact listAccess_load hb hd
    · exact listAccess_load (by simp [hc]) hd
  refine wp_mono (freeMergeRight_wp hchain hspaced hb16 hin hsize hstore hload) ?_
  rintro _ m2 ⟨h1, h2⟩
  refine ⟨?_, fun x hx hx' => (h2 x hx hx').trans (hm1 x hx hx')⟩
  rw [release, hleft]
  exact h1

end

/-! ## The whole call -/

section call

variable {R : Region} {m : Mem} {live : List Alloc} {pre post : List Block} {a : Alloc}

/-- The live allocations without the pointer `p`. -/
def dropLive (p : Nat) (live : List Alloc) : List Alloc := live.filter fun a => a.ptr ≠ p

theorem mem_dropLive {p : Nat} {live : List Alloc} {a : Alloc} :
    a ∈ dropLive p live ↔ a ∈ live ∧ a.ptr ≠ p := by
  simp [dropLive]

/-- Rebuilding the invariant after a free. -/
theorem HeapInv.released (h : HeapInv R m live (pre ++ post)) (ha : a ∈ live) {m' : Mem}
    (hpre : ∀ b ∈ pre, b.fin ≤ (usedBlock m a).addr)
    (hpost : ∀ b ∈ post, (usedBlock m a).fin ≤ b.addr)
    (hstruct : ∀ x, R.heap ≤ x → x < R.heap + 16 ∨ R.heap + 24 ≤ x → x < R.heap + 32 → m' x = m x)
    (hbytes : m'.load 8 (heapFreeBytes R.heap) = total (pre ++ post) + (usedBlock m a).size)
    (hchain : FreeSeg m' (m'.load 8 (heapFreeList R.heap))
      (release pre.reverse (usedBlock m a) post) 0)
    (hframe : ∀ x, ¬ (R.heap ≤ x ∧ x < R.heap + 40) ∧
      ¬ Covers (usedBlock m a :: (pre ++ post)) x → m' x = m x) :
    HeapInv R m' (dropLive a.ptr live) (release pre.reverse (usedBlock m a) post) := by
  have hu := h.used a ha
  obtain ⟨r1, r2, r3⟩ := release_spec (by rw [← List.reverse_reverse pre] at h; exact h.canonical)
    ⟨hu.pos, hu.aligned⟩ (fun p hp => hpre p (List.mem_reverse.mp hp)) hpost
  rw [List.reverse_reverse] at r2 r3
  -- a remaining allocation shares no address with the freed block or a free one
  have hother : ∀ c ∈ dropLive a.ptr live, ∀ x, (usedBlock m c).Has x →
      ¬ Covers (usedBlock m a :: (pre ++ post)) x := by
    intro c hc x hx
    obtain ⟨hc, hne⟩ := mem_dropLive.mp hc
    rw [covers_cons]
    rintro (hax | ⟨b, hb, hbx⟩)
    · exact (h.live_apart hc ha hne).not_has hx hax
    · exact (h.freeApart b hb c hc).not_has hbx hx
  have hlive : ∀ c ∈ dropLive a.ptr live, Used m' c ∧ usedBlock m' c = usedBlock m c := by
    intro c hc
    have hc' := (mem_dropLive.mp hc).1
    refine (h.used c hc').congr ?_
    intro x hx1 hx2
    have hx := (h.used c hc').has_header hx1 hx2
    refine hframe x ⟨?_, hother c hc x hx⟩
    intro hh
    have := R.clear (h.live_in hc')
    unfold Block.Has at hx
    omega
  have hmap : (dropLive a.ptr live).map (usedBlock m') = (dropLive a.ptr live).map (usedBlock m) :=
    List.map_congr_left fun c hc => (hlive c hc).2
  obtain ⟨w1, w2, w3⟩ := h.words hstruct
  refine ⟨w1, w2, w3, ?_, hchain, r1, fun c hc => (hlive c hc).1, ?_, ?_, ?_⟩
  · rw [hbytes, r3]
  · rw [hmap]
    exact h.liveApart.sublist (List.filter_sublist.map _)
  · intro b hb c hc
    rw [(hlive c hc).2]
    apply Block.apart_of_disjoint (r1.pos b hb) (h.used c (mem_dropLive.mp hc).1).pos
    intro x hbx hcx
    have hcov := (r2 x).mp ⟨b, hb, hbx⟩
    exact hother c hc x hcx (covers_cons _ _ _ |>.mpr hcov.symm)
  · intro x
    rw [h.tiles x, r2 x, hmap]
    have hsplit : Covers (live.map (usedBlock m)) x ↔
        (usedBlock m a).Has x ∨ Covers ((dropLive a.ptr live).map (usedBlock m)) x := by
      constructor
      · rintro ⟨b, hb, hbx⟩
        obtain ⟨c, hc, rfl⟩ := List.mem_map.mp hb
        by_cases hp : c.ptr = a.ptr
        · left
          have : usedBlock m c = usedBlock m a := by simp only [usedBlock, hp]
          rwa [← this]
        · exact Or.inr ⟨_, List.mem_map_of_mem (mem_dropLive.mpr ⟨hc, hp⟩), hbx⟩
      · rintro (hax | ⟨b, hb, hbx⟩)
        · exact ⟨_, List.mem_map_of_mem ha, hax⟩
        · obtain ⟨c, hc, rfl⟩ := List.mem_map.mp hb
          exact ⟨_, List.mem_map_of_mem (mem_dropLive.mp hc).1, hbx⟩
    rw [hsplit, or_assoc]

/-- A live block lies in a gap of the free list, which is intact once its magic says FREE. -/
theorem HeapInv.gap {free : List Block} (h : HeapInv R m live free) (ha : a ∈ live) :
    ∃ pre post, free = pre ++ post ∧ (∀ b ∈ pre, b.addr < (usedBlock m a).addr) ∧
      (∀ b ∈ post, (usedBlock m a).addr ≤ b.addr) ∧
      Gap R (m.store 4 (blockMagic (usedBlock m a).addr) magicFree) pre (usedBlock m a) post := by
  have hu := h.used a ha
  have hin := h.live_in ha
  have huclear := R.clear hin
  have hu16 : 16 ≤ (usedBlock m a).size := Nat.le_of_dvd hu.pos hu.aligned.2
  obtain ⟨pre, post, rfl, hpre, hpost⟩ := h.canonical.split (usedBlock m a).addr
  have hpre' : ∀ b ∈ pre, b.fin ≤ (usedBlock m a).addr := by
    intro b hb
    have h1 := hpre b hb
    have h2 := h.freeApart b (List.mem_append_left _ hb) a ha
    unfold Block.Apart Block.fin at *
    omega
  have hpost' : ∀ b ∈ post, (usedBlock m a).fin ≤ b.addr := by
    intro b hb
    have h1 := hpost b hb
    have h2 := h.freeApart b (List.mem_append_right _ hb) a ha
    have h3 := h.canonical.pos b (List.mem_append_right _ hb)
    unfold Block.Apart Block.fin at *
    omega
  refine ⟨pre, post, rfl, hpre, hpost, ?_, h.canonical, fun b hb => h.free_in hb, hin,
    ⟨hu.pos, hu.aligned⟩, Mem.load4_store4 (by decide), hpre', hpost'⟩
  unfold Block.fin at huclear
  rw [Mem.load_store_apart (by unfold blockMagic heapFreeList; omega)]
  refine h.chain.congr fun b hb x h1 h2 => Mem.store_apply_out ?_
  have h16 := h.canonical.size_ge hb
  unfold blockMagic
  rcases List.mem_append.mp hb with hb | hb
  · have := hpre' b hb
    unfold Block.fin at this
    omega
  · have := hpost' b hb
    unfold Block.fin at this
    omega

/-- `miniheap_free` up to its last access to the free list; what comes out is the size it then adds
to `free_bytes`. -/
def releaseList (heap ptr : Nat) : Prog (Option Nat) :=
  if ptr = 0 then pure none
  else do
    let block := (ptr + 2 ^ 64 - usedHeaderSize) % 2 ^ 64
    let magic ← read 4 (blockMagic block)
    if magic ≠ magicUsed then .panic "miniheap_free: invalid free\n"
    else
      let first ← read 8 (heapFreeList heap)
      let blockBytes ← read 4 (blockSize block)
      let rear := (block + blockBytes) % 2 ^ 64
      let (prev, cur) ← freeLoop block rear loopBound 0 first
      let size ← read 4 (blockSize block)
      write 4 (blockMagic block) magicFree
      let (newBlock, rear) ← freeInsert heap block size rear prev cur
      freeMergeRight newBlock rear cur
      return some size

/-- `heap->free_bytes += size` -/
def addFreeBytes (heap size : Nat) : Prog Unit := do
  let freeBytes ← read 8 (heapFreeBytes heap)
  write 8 (heapFreeBytes heap) ((freeBytes + size) % 2 ^ 64)

theorem miniheapFree_eq (heap ptr : Nat) :
    miniheapFree heap ptr = releaseList heap ptr >>= fun r =>
      (r.elim (pure ()) (addFreeBytes heap)) := by
  unfold miniheapFree releaseList
  split
  · rfl
  · simp only [bind_bind]
    congr 1
    funext magic
    split
    · rfl
    · simp only [bind_bind]
      rfl

/-- The list surgery of `miniheap_free`; it touches the free list and the header of the block
only. -/
theorem releaseList_wp (h : HeapInv R m live (pre ++ post)) (hsize : R.size < 2 ^ 32)
    (ha : a ∈ live) (hpre : ∀ b ∈ pre, b.addr < (usedBlock m a).addr)
    (hpost : ∀ b ∈ post, (usedBlock m a).addr ≤ b.addr)
    (hg : Gap R (m.store 4 (blockMagic (usedBlock m a).addr) magicFree) pre (usedBlock m a) post) :
    (releaseList R.heap a.ptr).wp (ListAccess R.heap (usedBlock m a :: (pre ++ post))) (fun r m' =>
      r = some (usedBlock m a).size ∧ (∀ x, R.heap ≤ x → x < R.heap + 32 → m' x = m x) ∧
      FreeSeg m' (m'.load 8 (heapFreeList R.heap))
      (release pre.reverse (usedBlock m a) post) 0) m := by
  obtain ⟨hptr, hblock, hmagic, hrear⟩ := h.free_entry ha
  have hin := h.live_in ha
  have hapart := R.apart
  have hu16 := hg.size_ge
  have hsz : m.load 4 (blockSize (usedBlock m a).addr) = (usedBlock m a).size := rfl
  rw [hsz] at hrear
  unfold Block.fin at hin
  have hmem : usedBlock m a ∈ usedBlock m a :: (pre ++ post) := List.mem_cons_self
  have hnext : ∀ c ∈ pre, ListAccess R.heap (usedBlock m a :: (pre ++ post))
      (.load 8 (blockNext c.addr)) :=
    fun c hc => listAccess_load (by simp [hc]) (by decide)
  rw [releaseList, if_neg hptr]
  simp only [wp_bind, wp_read, hblock, if_neg hmagic, hsz, hrear]
  refine ⟨listAccess_load (d := 0) hmem (by decide), Or.inl (by unfold heapFreeList; omega),
    listAccess_load hmem (by decide),
      freeLoop_wp hnext (Nat.le_add_right _ _) hpre hpost loopBound 0 _
      h.prefix_length_lt h.chain ?_⟩
  simp only [wp_write, hsz, wp_pure]
  refine ⟨listAccess_load hmem (by decide), listAccess_store (d := 0) hmem (by decide), ?_⟩
  have hsurgery := freeSurgery_wp hg hsize
  rw [wp_bind] at hsurgery
  apply wp_mono hsurgery
  rintro ⟨newBlock, rear⟩ m1 hmerge
  apply wp_mono hmerge
  rintro _ m2 ⟨hchain, hm2⟩
  refine ⟨trivial, ?_, hchain⟩
  intro x h1 h2
  rw [hm2 x h1 h2, Mem.store_apply_out]
  unfold blockMagic
  omega

/-- **Freeing a live allocation** returns, and the invariant holds without it. -/
theorem miniheapFree_wp {free : List Block} (h : HeapInv R m live free) (hsize : R.size < 2 ^ 32)
    (ha : a ∈ live) :
    (miniheapFree R.heap a.ptr).wp (MetaStore R.heap (usedBlock m a :: free)) (fun _ m' =>
      ∃ free', HeapInv R m' (dropLive a.ptr live) free') m := by
  obtain ⟨pre, post, rfl, hpre, hpost, hg⟩ := h.gap ha
  have hin := h.live_in ha
  have hfits := R.fits
  have hapart := R.apart
  have htot := h.total_le
  have hu16 := hg.size_ge
  unfold Block.fin at hin
  obtain ⟨r1, r2, -⟩ := release_spec (by rw [← List.reverse_reverse pre] at h; exact h.canonical)
    hg.block (fun p hp => hg.below p (List.mem_reverse.mp hp)) hg.above
  rw [List.reverse_reverse] at r2
  have hsz : ∀ b ∈ usedBlock m a :: (pre ++ post), 16 ≤ b.size := by
    intro b hb
    rcases List.mem_cons.mp hb with rfl | hb
    · exact hu16
    · exact h.canonical.size_ge hb
  have hlist := wp_access (releaseList_wp h hsize ha hpre hpost hg) fun _ hacc => hacc.metaStore hsz
  have hwp : (miniheapFree R.heap a.ptr).wp (MetaStore R.heap (usedBlock m a :: (pre ++ post)))
    (fun _ m' =>
      (∀ x, R.heap ≤ x → x < R.heap + 16 ∨ R.heap + 24 ≤ x → x < R.heap + 32 → m' x = m x) ∧
      m'.load 8 (heapFreeBytes R.heap) = total (pre ++ post) + (usedBlock m a).size ∧
      FreeSeg m' (m'.load 8 (heapFreeList R.heap))
      (release pre.reverse (usedBlock m a) post) 0) m := by
    rw [miniheapFree_eq, wp_bind]
    apply wp_mono hlist
    rintro _ m2 ⟨rfl, hkeep, hchain⟩
    have hbytes : m2.load 8 (heapFreeBytes R.heap) = total (pre ++ post) := by
      rw [← h.freeBytes]
      apply Mem.load_congr 8
      intro x h1 h2
      unfold heapFreeBytes at h1 h2
      exact hkeep x (by omega) (by omega)
    have hsum : (total (pre ++ post) + (usedBlock m a).size) % 2 ^ 64 =
        total (pre ++ post) + (usedBlock m a).size := Nat.mod_eq_of_lt (by omega)
    simp only [Option.elim_some, addFreeBytes, wp_bind, wp_read, wp_write, hbytes, hsum]
    refine ⟨trivial, Or.inl (by unfold heapFreeBytes; omega), ?_, ?_, ?_⟩
    · intro x h1 h2 h3
      rw [Mem.store_apply_out (by unfold heapFreeBytes; omega), hkeep x h1 h3]
    · rw [Mem.load8_store8 (by omega)]
    · rw [Mem.load_store_apart (by unfold heapFreeBytes heapFreeList; omega)]
      refine hchain.congr fun b hb x h1 h2 => Mem.store_apply_out ?_
      -- a header on the new list lies in the region
      have hx : R.base ≤ x ∧ x < R.base + R.size := by
        have h16 := r1.size_ge hb
        rcases (r2 x).mp ⟨b, hb, h1, by unfold Block.fin; omega⟩ with hc | hc
        · exact (h.tiles x).mpr (Or.inl hc)
        · unfold Block.Has Block.fin at hc
          omega
      unfold heapFreeBytes
      omega
  refine wp_mono (wp_frame hwp fun w a v hs y hy => metaStore_frame hs y hy) ?_
  rintro _ m' ⟨⟨h1, h2, h3⟩, h4⟩
  exact ⟨_, h.released ha hg.below hg.above h1 h2 h3 h4⟩

end call

end ZHyper
