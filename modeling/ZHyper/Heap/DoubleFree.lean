import ZHyper.Heap.Canonical
import ZHyper.Heap.FirstFit

/-!
# Double frees are caught

`miniheap_free` writes the FREE magic into the header it is given, and from then on every store of
the allocator that touches that word writes FREE again, as long as no block is handed out there:
headers start at multiples of 16, so the other fields of one never overlap the magic of another
(`HeaderStore`).  User writes stay in live blocks.  So however the block was merged and split since,
a second `free` of the pointer panics before it has written anything (`double_free_caught`).
-/

namespace ZHyper

open LowLevel LowLevel.Prog

/-- The accesses of the allocator: loads, and stores into `struct miniheap` or into one field of a
header at a multiple of 16, where a magic other than FREE goes only to `used`. -/
def HeaderStore (heap : Nat) (used : Option Nat) : Access → Prop
  | .load _ _ => True
  | .store w x v => (heap ≤ x ∧ x + w ≤ heap + 40) ∨
      ∃ a, 16 ∣ a ∧ ((a + 4 ≤ x ∧ x + w ≤ a + 16) ∨
        (w = 4 ∧ x = a ∧ (v = magicFree ∨ used = some a)))

/-- Such a store does not take the FREE magic away. -/
theorem HeaderStore.keeps {heap q w x v : Nat} {used : Option Nat} {m : Mem}
    (h : HeaderStore heap used (.store w x v)) (hq : 16 ∣ q) (hu : used ≠ some q)
    (hclear : q + 4 ≤ heap ∨ heap + 40 ≤ q) (hm : m.load 4 (blockMagic q) = magicFree) :
    (m.store w x v).load 4 (blockMagic q) = magicFree := by
  unfold blockMagic at *
  rcases h with hx | ⟨a, ha, hx⟩
  · rw [Mem.load_store_apart (by omega), hm]
  · by_cases haq : a = q
    · subst haq
      rcases hx with hx | ⟨rfl, rfl, rfl | hv⟩
      · rw [Mem.load_store_apart (by omega), hm]
      · exact Mem.load4_store4 (by decide)
      · exact absurd hv hu
    · rw [Mem.load_store_apart (by omega), hm]

section headers

variable {heap t prev cur block size rear : Nat} {used : Option Nat} {m : Mem}

theorem headerStore_field {d w v a : Nat} (ha : 16 ∣ a) (hd : 4 ≤ d ∧ d + w ≤ 16) :
    HeaderStore heap used (.store w (a + d) v) :=
  Or.inr ⟨a, ha, Or.inl (by omega)⟩

theorem setLink_headers {link : Nat} {Q : Unit → Mem → Prop} (hprev : 16 ∣ prev)
    (hQ : ∀ m', Q () m') :
    (setLink heap prev link).wp (HeaderStore heap used) Q m := by
  unfold setLink
  split
  · exact ⟨headerStore_field hprev (by decide), hQ _⟩
  · exact ⟨Or.inl (by unfold heapFreeList; omega), hQ _⟩

theorem allocFit_headers {Q : Unit → Mem → Prop} (hprev : 16 ∣ prev) (hcur : 16 ∣ cur) (ht : 16 ∣ t)
    (hQ : ∀ m', Q () m') : (allocFit heap t prev cur).wp (HeaderStore heap used) Q m := by
  have hnew : 16 ∣ (cur + t) % 2 ^ 64 := by omega
  simp only [allocFit, wp_bind, wp_read]
  refine ⟨trivial, ?_⟩
  split
  · exact ⟨trivial, setLink_headers hprev hQ⟩
  · simp only [wp_bind, wp_read, wp_write]
    exact ⟨Or.inr ⟨_, hnew, Or.inr ⟨rfl, rfl, Or.inl rfl⟩⟩, trivial,
      headerStore_field hnew (by decide),
      trivial, headerStore_field hnew (by decide), setLink_headers hprev hQ⟩

theorem allocFinish_headers {Q : Nat → Mem → Prop} (hcur : 16 ∣ cur) (hQ : ∀ p m', Q p m') :
    (allocFinish heap t cur).wp (HeaderStore heap (some cur)) Q m := by
  unfold allocFinish
  split
  · exact hQ _ _
  · simp only [wp_bind, wp_read, wp_write, wp_pure]
    exact ⟨trivial, Or.inl (by unfold heapFreeBytes; omega),
      Or.inr ⟨cur, hcur, Or.inr ⟨rfl, rfl, Or.inr rfl⟩⟩,
      headerStore_field hcur (by decide), hQ _ _⟩

theorem freeInsert_headers (hblock : 16 ∣ block) (hprev : 16 ∣ prev) :
    (freeInsert heap block size rear prev cur).wp (HeaderStore heap used)
      (fun r _ => 16 ∣ r.1) m := by
  have hlink : (write 4 (blockSize block) size >>= fun _ =>
    write 8 (blockNext block) cur >>= fun _ =>
      setLink heap prev block >>= fun _ => pure (block, rear)).wp (HeaderStore heap used)
        (fun r _ => 16 ∣ r.1) m := by
    simp only [wp_bind, wp_write, wp_pure]
    exact ⟨headerStore_field hblock (by decide), headerStore_field hblock (by decide),
      setLink_headers hprev fun _ => hblock⟩
  simp only [freeInsert, wp_bind]
  unfold touchesLeft
  split
  · simpa using hlink
  · simp only [wp_bind, wp_read, wp_pure]
    refine ⟨trivial, ?_⟩
    split
    · simp only [wp_bind, wp_read, wp_write, wp_pure]
      exact ⟨trivial, headerStore_field hprev (by decide), trivial, hprev⟩
    · simpa using hlink

theorem freeMergeRight_headers {Q : Unit → Mem → Prop} (hblock : 16 ∣ block) (hQ : ∀ m', Q () m') :
    (freeMergeRight block rear cur).wp (HeaderStore heap used) Q m := by
  unfold freeMergeRight
  split
  · simp only [wp_bind, wp_read, wp_write]
    exact ⟨trivial, trivial, headerStore_field hblock (by decide), trivial,
      headerStore_field hblock (by decide), hQ _⟩
  · exact hQ _

theorem lastAddr_aligned {l : List Block} (hl : ∀ b ∈ l, 16 ∣ b.addr) (hprev : 16 ∣ prev) :
    16 ∣ lastAddr prev l := by
  induction l generalizing prev with
  | nil => exact hprev
  | cons b l ih => exact ih (fun c hc => hl c (List.mem_cons_of_mem _ hc)) (hl b List.mem_cons_self)

end headers

/-! ## The two calls -/

section calls

variable {R : Region} {m : Mem} {live : List Alloc} {free pre post : List Block} {a : Alloc}
    {b : Block}
  {n : Nat}

theorem HeapInv.malloc_headers (h : HeapInv R m live (pre ++ b :: post))
    (hpre : ∀ c ∈ pre, c.size < allocTotal n) (hb : allocTotal n ≤ b.size) :
    (malloc R.heap n).wp (HeaderStore R.heap (some b.addr)) (fun _ _ => True) m := by
  have hbmem : b ∈ pre ++ b :: post := List.mem_append_right _ List.mem_cons_self
  have hal : ∀ c ∈ pre ++ b :: post, 16 ∣ c.addr := fun c hc => (h.canonical.aligned c hc).1
  have htd : 16 ∣ allocTotal n := by
    unfold allocTotal
    omega
  have hle : allocTotal n ≤ total (pre ++ b :: post) := Nat.le_trans hb (size_le_total hbmem)
  refine miniheapAlloc_wp h (fun _ _ => trivial) (fun _ => trivial) ?_
  intro _ _
  refine allocLoop_fit (fun _ _ => trivial) hpre hb loopBound 0 _ h.prefix_length_lt h.chain ?_
  have hprev := lastAddr_aligned (fun c hc => hal c (List.mem_append_left _ hc)) (Nat.dvd_zero 16)
  exact allocFit_headers hprev (hal b hbmem) htd fun _ =>
    allocFinish_headers (hal b hbmem) fun _ _ => trivial

/-- The freed header ends with the FREE magic. -/
theorem HeapInv.free_headers (h : HeapInv R m live free) (ha : a ∈ live) :
    (ZHyper.free R.heap a.ptr).wp (HeaderStore R.heap none)
      (fun _ m' => m'.load 4 (blockMagic (usedBlock m a).addr) = magicFree) m := by
  obtain ⟨pre, post, rfl, hpre, hpost, -⟩ := h.gap ha
  obtain ⟨hptr, hblock, hmagic, hrear⟩ := h.free_entry ha
  have hu := h.used a ha
  have hclear := R.clear (h.live_in ha)
  have h16 := hu.size_ge
  have hsz : m.load 4 (blockSize (usedBlock m a).addr) = (usedBlock m a).size := rfl
  rw [hsz] at hrear
  unfold Block.fin at hclear hrear
  unfold usedHeaderSize at h16
  have hal : ∀ c ∈ pre ++ post, 16 ∣ c.addr := fun c hc => (h.canonical.aligned c hc).1
  have hprev := lastAddr_aligned (fun c hc => hal c (List.mem_append_left _ hc)) (Nat.dvd_zero 16)
  unfold ZHyper.free
  rw [miniheapFree, if_neg hptr]
  simp only [wp_bind, wp_read, hblock, if_neg hmagic, hsz, hrear]
  refine ⟨trivial, trivial, trivial, freeLoop_wp (fun _ _ => trivial) (Nat.le_add_right _ _) hpre
    hpost loopBound 0 _ h.prefix_length_lt h.chain ?_⟩
  simp only [wp_write]
  refine ⟨trivial, Or.inr ⟨_, hu.aligned.1, Or.inr ⟨rfl, rfl, Or.inl rfl⟩⟩, ?_⟩
  -- the stores that follow keep the magic
  have hrest : (freeInsert R.heap (usedBlock m a).addr (m.load 4 (blockSize (usedBlock m a).addr))
      ((usedBlock m a).addr + (usedBlock m a).size) (lastAddr 0 pre) (headAddr post) >>= fun r =>
      freeMergeRight r.1 r.2 (headAddr post) >>= fun _ =>
        Prog.read 8 (heapFreeBytes R.heap) >>= fun freeBytes =>
      Prog.write 8 (heapFreeBytes R.heap)
        ((freeBytes + m.load 4 (blockSize (usedBlock m a).addr)) % 2 ^ 64)).wp
        (HeaderStore R.heap none) (fun _ _ => True)
        (m.store 4 (blockMagic (usedBlock m a).addr) magicFree) := by
    simp only [wp_bind, wp_read, wp_write]
    apply wp_mono (freeInsert_headers hu.aligned.1 hprev)
    intro r _ hr
    exact freeMergeRight_headers hr fun _ =>
      ⟨trivial, Or.inl (by unfold heapFreeBytes; omega), trivial⟩
  have hkeep :=
    wp_invariant (I := fun n => n.load 4 (blockMagic (usedBlock m a).addr) = magicFree) hrest
    (fun w x v n hs hn => hs.keeps hu.aligned.1 (by simp) (by omega) hn)
      (Mem.load4_store4 (by decide))
  simp only [wp_bind, wp_read, wp_write] at hkeep
  apply wp_mono hkeep
  intro r m1 h1
  apply wp_mono h1
  rintro _ m2 ⟨-, h2, -, h3⟩
  exact ⟨trivial, h2, h3⟩

end calls

/-! ## Runs -/

/-- A step after which no live block holds the address `q`: what `malloc` hands out lies
elsewhere. -/
def SparingHeapStep (heap q : Nat) (s : HeapSys) (e : HeapEvent) (s' : HeapSys) : Prop :=
  HeapStep heap s e s' ∧ ∀ a ∈ s'.live, ¬ (usedBlock s'.mem a).Has q

/-- `q` was a header, is in free space, and says so. -/
structure FreedHeader (R : Region) (q : Nat) (s : HeapSys) : Prop where
  inv : ∃ free, HeapInv R s.mem s.live free
  aligned : 16 ∣ q
  inRegion : R.base ≤ q ∧ q + 16 ≤ R.base + R.size
  unheld : ∀ a ∈ s.live, ¬ (usedBlock s.mem a).Has q
  magic : s.mem.load 4 (blockMagic q) = magicFree

section runs

variable {R : Region} {s s' : HeapSys} {e : HeapEvent} {q : Nat}

theorem FreedHeader.clear (h : FreedHeader R q s) : q + 4 ≤ R.heap ∨ R.heap + 40 ≤ q := by
  have h1 := h.inRegion
  have h2 := R.apart
  omega

/-- A live block that does not hold `q` is clear of the whole header there. -/
theorem FreedHeader.live_clear (h : FreedHeader R q s) {a : Alloc} (ha : a ∈ s.live) :
    q + 16 ≤ (usedBlock s.mem a).addr ∨ (usedBlock s.mem a).fin ≤ q := by
  obtain ⟨free, hinv⟩ := h.inv
  have h1 := (hinv.used a ha).aligned
  have h2 := h.aligned
  have h3 := h.unheld a ha
  unfold Block.Has Block.fin at *
  omega

/-- A call whose stores are of headers, none of them handed out at `q`. -/
theorem FreedHeader.keeps (h : FreedHeader R q s) {used : Option Nat} (hu : used ≠ some q)
    {α : Type} {p : Prog α} {Q : α → Mem → Prop} {x : α} {m' : Mem}
    (hp : p.wp (HeaderStore R.heap used) Q s.mem)
    (he : p.exec s.mem = .ret x m') : m'.load 4 (blockMagic q) = magicFree :=
  (wp_ret (wp_invariant (I := fun n => n.load 4 (blockMagic q) = magicFree) hp
    (fun _ _ _ _ hs hn => hs.keeps h.aligned hu h.clear hn) h.magic) he).2

/-- **Every step keeps the FREE magic.** -/
theorem FreedHeader.step (hsize : R.size < 2 ^ 32) (h : FreedHeader R q s)
    (hstep : SparingHeapStep R.heap q s e s') : FreedHeader R q s' := by
  obtain ⟨hstep, hunheld⟩ := hstep
  have hinv' := heapStep_inv hsize h.inv hstep
  refine ⟨hinv', h.aligned, h.inRegion, hunheld, ?_⟩
  obtain ⟨free, hinv⟩ := h.inv
  cases hstep with
  | @malloc n p m hn he =>
    have hn : (n + 15) / 16 * 16 + 16 < 2 ^ 32 := hn
    have ht := allocTotal_eq hn
    by_cases h0 : n = 0 ∨ ∀ b ∈ free, b.size < allocTotal n
    · obtain ⟨-, rfl⟩ := wp_ret (miniheapAlloc_none (P := fun _ => True) hinv (fun _ _ => trivial)
        (h0.imp (fun h => by omega) id)) he
      exact h.magic
    · rw [not_or] at h0
      obtain ⟨pre, b, post, rfl, hpre, hb⟩ :=
        exists_first_fit free (allocTotal n) (by simpa using h0.2)
      obtain ⟨rfl, hused, -⟩ :=
        wp_ret (miniheapAlloc_fit (k := n) hinv hsize (by omega) (by omega) hpre hb
        (by omega)) he
      refine h.keeps ?_ (hinv.malloc_headers hpre hb) he
      -- the block handed out starts at `b`
      intro hbq
      have hnew : (⟨b.addr + 16, n⟩ : Alloc) ∈ if b.addr + 16 = 0 then s.live
          else ⟨b.addr + 16, n⟩ :: s.live := by
        rw [if_neg (Nat.succ_ne_zero _)]
        exact List.mem_cons_self
      apply hunheld _ hnew
      have haddr : (usedBlock m ⟨b.addr + 16, n⟩).addr = q := Option.some.inj hbq
      unfold Block.Has Block.fin
      dsimp only
      rw [hused, haddr]
      omega
  | @free p m hp he =>
    rcases hp with rfl | ⟨a, ha, rfl⟩
    · rw [free_null] at he
      injection he with _ he
      exact he ▸ h.magic
    · exact h.keeps (by simp) (hinv.free_headers ha) he
  | @write p i v hw =>
    obtain ⟨a, ha, rfl, hi⟩ := hw
    obtain ⟨hhas, -⟩ := (hinv.used a ha).has_payload hi
    have hclear := h.live_clear ha
    unfold Block.Has at hhas
    rw [← h.magic]
    refine Mem.load_congr 4 _ fun x h1 h2 => Function.update_of_ne ?_ _ _
    unfold blockMagic at h1 h2
    omega

/-- `free` of a live pointer leaves a freed header. -/
theorem HeapInv.freedHeader {m : Mem} {live : List Alloc} {free : List Block} {a : Alloc}
    (h : HeapInv R m live free) (hsize : R.size < 2 ^ 32) (ha : a ∈ live) {m' : Mem}
    (he : (ZHyper.free R.heap a.ptr).exec m = .ret () m') :
    FreedHeader R (a.ptr - usedHeaderSize) ⟨m', dropLive a.ptr live⟩ := by
  have hu := h.used a ha
  have hin := h.live_in ha
  have hsz := hu.size_ge
  have hinv' : ∃ free', HeapInv R m' (dropLive a.ptr live) free' :=
    wp_ret (miniheapFree_wp h hsize ha) he
  unfold usedHeaderSize at hsz
  unfold Block.fin at hin
  refine ⟨hinv', hu.aligned.1, ⟨hin.1, ?_⟩, ?_, wp_ret (h.free_headers ha) he⟩
  · have haddr : (usedBlock m a).addr = a.ptr - usedHeaderSize := rfl
    omega
  · intro c hc
    have hkeep := h.block_frame (mem_dropLive.mp hc).1 (fun b hb => h.freed_apart ha b hb c hc)
      (miniheapFree_wp h hsize ha) he
    have hblock := ((h.used c (mem_dropLive.mp hc).1).congr fun x h1 h2 =>
      hkeep x ((h.used c (mem_dropLive.mp hc).1).has_header h1 h2)).2
    show ¬ (usedBlock m' c).Has _
    rw [hblock]
    have hap := h.live_apart ha (mem_dropLive.mp hc).1 (Ne.symm (mem_dropLive.mp hc).2)
    refine hap.not_has ?_
    show (usedBlock m a).Has (usedBlock m a).addr
    unfold Block.Has Block.fin
    omega

/-- `free` of a pointer whose header says FREE. -/
theorem free_panics {heap p : Nat} {m : Mem} (hp : 16 < p) (hlt : p < 2 ^ 64)
    (hm : m.load 4 (blockMagic (p - usedHeaderSize)) = magicFree) :
    (free heap p).exec m = .panic "miniheap_free: invalid free\n" m := by
  have hblock : (p + 2 ^ 64 - usedHeaderSize) % 2 ^ 64 = p - usedHeaderSize := by
    unfold usedHeaderSize
    omega
  have hne : m.load 4 (blockMagic (p - usedHeaderSize)) ≠ magicUsed := by
    rw [hm]
    decide
  unfold free
  rw [miniheapFree, if_neg (by omega)]
  dsimp only
  rw [hblock]
  show (if m.load 4 (blockMagic (p - usedHeaderSize)) ≠ magicUsed then
    (Prog.panic "miniheap_free: invalid free\n" : Prog Unit) else _).exec m = _
  rw [if_pos hne]
  rfl

end runs

/-- **Double frees are caught.**  However the heap goes on after `free(p)`, as long as no block
handed out holds the old header of `p`: that header still has the FREE magic, and `free(p)` panics
with the memory as it is. -/
theorem double_free_caught (R : Region) (hsize : R.size < 2 ^ 32) (s₀ s₁ s₂ : HeapSys) (p : Nat)
    (es : List HeapEvent) (h : HeapReachable R s₀) (hp : ∃ a ∈ s₀.live, a.ptr = p)
    (hfree : HeapStep R.heap s₀ (.free p) s₁)
    (hrun : Runs (SparingHeapStep R.heap (p - usedHeaderSize)) s₁ es s₂) :
    s₂.mem.load 4 (blockMagic (p - usedHeaderSize)) = magicFree ∧
      (free R.heap p).exec s₂.mem = .panic "miniheap_free: invalid free\n" s₂.mem := by
  obtain ⟨free, hinv⟩ := reachable_inv hsize h
  obtain ⟨a, ha, rfl⟩ := hp
  have hfreed : FreedHeader R (a.ptr - usedHeaderSize) s₁ := by
    cases hfree with
    | free _ he => exact hinv.freedHeader hsize ha he
  have hend := hrun.invariant (fun _ _ _ hI hs => hI.step hsize hs) hfreed
  refine ⟨hend.magic, free_panics ?_ ?_ hend.magic⟩
  · have h1 := hend.inRegion
    have h2 := R.base_pos
    unfold usedHeaderSize at h1
    omega
  · have h1 := hend.inRegion
    have h2 := R.fits
    unfold usedHeaderSize at h1
    omega

/-- A `malloc` that the first free block fits. -/
theorem HeapInv.malloc_first_exec {R : Region} {m : Mem} {live : List Alloc} {b : Block}
    {post : List Block} (h : HeapInv R m live (b :: post)) (hsize : R.size < 2 ^ 32) {n : Nat}
    (hn : 0 < n) (hlt : (n + 15) / 16 * 16 + 16 < 2 ^ 32) (hb : allocTotal n ≤ b.size) :
    ∃ m', (malloc R.heap n).exec m = .ret (b.addr + 16) m' ∧
      (usedBlock m' ⟨b.addr + 16, n⟩).size = allocTotal n ∧
      HeapInv R m' (⟨b.addr + 16, n⟩ :: live) (carve (allocTotal n) b ++ post) := by
  have ht := allocTotal_eq hlt
  have h' : HeapInv R m live ([] ++ b :: post) := h
  obtain ⟨p, m', hm, rfl, hused, hinv⟩ :=
    wp_exec (miniheapAlloc_fit (n := n) (k := n) h' hsize (by omega) (by omega)
    (fun _ hc => by cases hc) hb ⟨hn, by omega⟩)
  exact ⟨m', hm, hused, hinv⟩

theorem HeapInv.malloc_first {R : Region} {m : Mem} {live : List Alloc} {b : Block}
    {post : List Block} (h : HeapInv R m live (b :: post)) (hsize : R.size < 2 ^ 32) {n : Nat}
    (hn : 0 < n) (hlt : (n + 15) / 16 * 16 + 16 < 2 ^ 32) (hb : allocTotal n ≤ b.size) :
    ∃ m', HeapStep R.heap ⟨m, live⟩ (.malloc n) ⟨m', ⟨b.addr + 16, n⟩ :: live⟩ ∧
      (usedBlock m' ⟨b.addr + 16, n⟩).size = allocTotal n ∧
      HeapInv R m' (⟨b.addr + 16, n⟩ :: live) (carve (allocTotal n) b ++ post) := by
  obtain ⟨m', hm, hused, hinv⟩ := h.malloc_first_exec hsize hn hlt hb
  refine ⟨m', ?_, hused, hinv⟩
  have hstep : HeapStep R.heap ⟨m, live⟩ (.malloc n) _ := .malloc hlt hm
  rwa [if_neg (Nat.succ_ne_zero _)] at hstep

/-- Two allocations; the upper one is freed, then the lower one, which merges the old header into a
larger block, of which a small allocation is then cut. -/
theorem double_free_example :
    ∃ s₀ s₁ s₂, HeapReachable exampleRegion s₀ ∧ s₀.live = [⟨4240, 100⟩, ⟨4112, 100⟩] ∧
      HeapStep 64 s₀ (.free 4240) s₁ ∧
      Runs (SparingHeapStep 64 4224) s₁ [.free 4112, .malloc 16] s₂ ∧
      s₂.live = [⟨4112, 16⟩] ∧
      (free 64 4240).exec s₂.mem = .panic "miniheap_free: invalid free\n" s₂.mem := by
  have hsize : exampleRegion.size < 2 ^ 32 := by decide
  obtain ⟨_, m₀, he, rfl, hinit⟩ := wp_exec (miniheapInit_wp exampleRegion (by decide) fun _ => 0)
  have hinv₀ : HeapInv exampleRegion m₀ [] [⟨4096, 4096⟩] := hinit
  obtain ⟨m₁, hstep₁, -, hinv₁⟩ :=
    hinv₀.malloc_first hsize (n := 100) (by decide) (by decide) (by decide)
  have hcarved : HeapInv exampleRegion m₁ [⟨4112, 100⟩] [⟨4224, 3968⟩] := hinv₁
  obtain ⟨m₂, hstep₂, -, hinv₂⟩ :=
    hcarved.malloc_first hsize (n := 100) (by decide) (by decide) (by decide)
  have hreach : HeapReachable exampleRegion ⟨m₂, [⟨4240, 100⟩, ⟨4112, 100⟩]⟩ :=
    ⟨⟨m₀, []⟩, _, ⟨rfl, _, he⟩, .cons hstep₁ (.single hstep₂)⟩
  have ha : (⟨4240, 100⟩ : Alloc) ∈ [⟨4240, 100⟩, ⟨4112, 100⟩] := List.mem_cons_self
  obtain ⟨s₁, hfree⟩ :=
    heapStep_exists (R := exampleRegion) hsize (s := ⟨m₂, [⟨4240, 100⟩, ⟨4112, 100⟩]⟩)
    ⟨_, hinv₂⟩ (.free 4240) (Or.inr ⟨_, ha, rfl⟩)
  have hinv₃ := heapStep_inv hsize ⟨_, hinv₂⟩ hfree
  have hlive₃ : s₁.live = [⟨4112, 100⟩] := by
    cases hfree
    rfl
  have ha' : (⟨4112, 100⟩ : Alloc) ∈ s₁.live := hlive₃ ▸ List.mem_singleton_self _
  obtain ⟨⟨m₄, live₄⟩, hfree'⟩ := heapStep_exists hsize hinv₃ (.free 4112) (Or.inr ⟨_, ha', rfl⟩)
  obtain ⟨free₄, hinv₄⟩ := heapStep_inv hsize hinv₃ hfree'
  obtain rfl : live₄ = [] := by
    cases hfree'
    rw [hlive₃]
    rfl
  obtain rfl := HeapInv.freeList_nil hinv₄
  obtain ⟨m₅, hstep₅, hused, -⟩ :=
    HeapInv.malloc_first hinv₄ hsize (n := 16) (by decide) (by decide) (by decide)
  -- the block handed out ends at 4128, below the old header
  have hsparing : ∀ a ∈ [(⟨4112, 16⟩ : Alloc)], ¬ (usedBlock m₅ a).Has 4224 := by
    intro a ha hhas
    rw [List.mem_singleton.mp ha] at hhas
    unfold Block.Has Block.fin at hhas
    have hsize₅ : (usedBlock m₅ ⟨4112, 16⟩).size = 32 := hused
    have haddr₅ : (usedBlock m₅ ⟨4112, 16⟩).addr = 4096 := rfl
    omega
  have hruns : Runs (SparingHeapStep 64 4224) s₁ [.free 4112, .malloc 16] ⟨m₅, [⟨4112, 16⟩]⟩ :=
    .cons ⟨hfree', fun _ ha => nomatch ha⟩ (.single ⟨hstep₅, hsparing⟩)
  exact ⟨_, s₁, _, hreach, rfl, hfree, hruns, rfl,
    (double_free_caught exampleRegion hsize _ s₁ _ 4240 _ hreach ⟨_, ha, rfl⟩ hfree hruns).2⟩

end ZHyper
