import ZHyper.Heap.Free
import ZHyper.Lib.Runs

/-!
# The heap over whole runs

The system is the memory and the allocations its users hold.  A run starts from
`miniheap_init` on any memory and takes `malloc`, `free` of a live pointer or
`NULL`, and user writes of single bytes inside live payloads, in any order.

* `heap_invariant`: in every state reached the live blocks and the free list tile
  the region, and every admissible call returns.
* `payload_undisturbed`: the bytes of a live payload are those its owner last
  wrote, until it is freed; no store of the allocator touches one.
-/

namespace ZHyper

open LowLevel LowLevel.Prog

structure HeapSys where
  mem : Mem
  live : List Alloc

inductive HeapEvent where
  | malloc (n : Nat)
  | free (p : Nat)
  | write (p i : Nat) (v : UInt8)
deriving DecidableEq

/-- The calls a user may make: requests whose block fits 32 bits, frees of what is live, writes
inside what was asked for. -/
def Admissible (s : HeapSys) : HeapEvent → Prop
  | .malloc n => (n + 15) / 16 * 16 + 16 < 2 ^ 32
  | .free p => p = 0 ∨ ∃ a ∈ s.live, a.ptr = p
  | .write p i _ => ∃ a ∈ s.live, a.ptr = p ∧ i < a.n

inductive HeapStep (heap : Nat) (s : HeapSys) : HeapEvent → HeapSys → Prop where
  | malloc {n p : Nat} {m : Mem} : Admissible s (.malloc n) →
    (malloc heap n).exec s.mem = .ret p m →
      HeapStep heap s (.malloc n) ⟨m, if p = 0 then s.live else ⟨p, n⟩ :: s.live⟩
  | free {p : Nat} {m : Mem} : Admissible s (.free p) → (free heap p).exec s.mem = .ret () m →
      HeapStep heap s (.free p) ⟨m, dropLive p s.live⟩
  | write {p i : Nat} {v : UInt8} : Admissible s (.write p i v) →
      HeapStep heap s (.write p i v) ⟨Function.update s.mem (p + i) v, s.live⟩

/-- What `miniheap_init` leaves of any memory. -/
def HeapInitial (R : Region) (s : HeapSys) : Prop :=
  s.live = [] ∧ ∃ m, (miniheapInit R.heap R.base R.size).exec m = .ret 0 s.mem

def HeapReachable (R : Region) (s : HeapSys) : Prop :=
  ∃ s₀ es, HeapInitial R s₀ ∧ Runs (HeapStep R.heap) s₀ es s

/-! ## The initial state -/

/-- The check of `miniheap_init` lets a region pass. -/
theorem Region.accepted (R : Region) : ¬ (R.size = 0 ∨ R.size &&& (heapAlignment - 1) ≠ 0) := by
  have h1 := R.size_pos
  have h2 := R.size_aligned
  have hmod : R.size &&& (heapAlignment - 1) = R.size % 2 ^ 4 :=
    Nat.and_two_pow_sub_one_eq_mod R.size 4
  rw [hmod]
  omega

theorem miniheapInit_wp (R : Region) (hsize : R.size < 2 ^ 32) (m : Mem) :
    (miniheapInit R.heap R.base R.size).wp (fun _ => True) (fun r m' => r = 0 ∧
      HeapInv R m' [] [⟨R.base, R.size⟩]) m := by
  have h0 := R.base_pos
  have h1 := R.base_aligned
  have h2 := R.size_pos
  have h3 := R.size_aligned
  have h4 := R.fits
  have h5 := R.apart
  have h16 : 16 ≤ R.size := Nat.le_of_dvd h2 h3
  rw [miniheapInit, if_neg R.accepted]
  simp only [wp_bind, wp_write, wp_pure, true_and, heapBase, heapSize, heapFreeBytes, heapAlign,
    heapFreeList, blockMagic, blockSize, blockNext]
  refine ⟨?_, ?_, ?_, ?_, ?_, canonical_singleton h2 ⟨h1, h3⟩, fun a ha => (by cases ha),
    List.Pairwise.nil, fun b _ a ha => (by cases ha), ?_⟩
  · simp (disch := omega) only [heapBase, Mem.load_store_apart, Mem.load8_store8]
  · simp (disch := omega) only [heapSize, Mem.load_store_apart, Mem.load8_store8]
  · simp (disch := omega) only [heapAlign, Mem.load_store_apart, Mem.load4_store4, heapAlignment]
  · simp (disch := omega) only [heapFreeBytes, Mem.load_store_apart, Mem.load8_store8, total_cons,
      total_nil, Nat.add_zero]
  · have hmagic : magicFree < 2 ^ 32 := by decide
    simp (disch := omega) only [FreeSeg, heapFreeList, blockMagic, blockSize, blockNext,
      Mem.load_store_apart, Mem.load8_store8, Mem.load4_store4]
    exact ⟨trivial, Nat.pos_iff_ne_zero.mp h0, trivial, trivial, trivial⟩
  · intro x
    simp [Block.Has, Block.fin]

/-! ## One step -/

section step

variable {R : Region} {m : Mem} {live : List Alloc} {free : List Block} {n p : Nat}

theorem allocTotal_eq (h : (n + 15) / 16 * 16 + 16 < 2 ^ 32) :
    allocTotal n = (n + 15) / 16 * 16 + 16 := by
  unfold allocTotal
  omega

/-- The first block of at least `t` bytes. -/
theorem exists_first_fit (free : List Block) (t : Nat) (h : ∃ b ∈ free, t ≤ b.size) :
    ∃ pre b post, free = pre ++ b :: post ∧ (∀ c ∈ pre, c.size < t) ∧ t ≤ b.size := by
  have hsome : (free.find? fun b => t ≤ b.size).isSome := by simpa using h
  obtain ⟨b, hb⟩ := Option.isSome_iff_exists.mp hsome
  obtain ⟨h1, pre, post, h2, h3⟩ := List.find?_eq_some_iff_append.mp hb
  exact ⟨pre, b, post, h2, fun c hc => by simpa using h3 c hc, by simpa using h1⟩

/-- `malloc` keeps the invariant; its stores stay in `struct miniheap` and the free blocks. -/
theorem malloc_wp (h : HeapInv R m live free) (hsize : R.size < 2 ^ 32)
    (hn : (n + 15) / 16 * 16 + 16 < 2 ^ 32) :
    (malloc R.heap n).wp (MetaStore R.heap free) (fun p m' =>
      ∃ free', HeapInv R m' (if p = 0 then live else ⟨p, n⟩ :: live) free') m := by
  have hload : ∀ w a, MetaStore R.heap free (.load w a) := fun _ _ => trivial
  unfold malloc
  have ht := allocTotal_eq hn
  by_cases h0 : n = 0 ∨ ∀ b ∈ free, b.size < allocTotal n
  · refine wp_mono (miniheapAlloc_none h hload (h0.imp (fun h => by omega) id)) ?_
    rintro p m' ⟨rfl, rfl⟩
    exact ⟨free, by simpa using h⟩
  · rw [not_or] at h0
    obtain ⟨pre, b, post, rfl, hpre, hb⟩ :=
      exists_first_fit free (allocTotal n) (by simpa using h0.2)
    apply wp_mono (miniheapAlloc_fit (k := n) h hsize (by omega) (by omega) hpre hb (by omega))
    rintro p m' ⟨rfl, -, h1⟩
    refine ⟨pre ++ carve (allocTotal n) b ++ post, ?_⟩
    rw [if_neg (by omega)]
    exact h1

theorem free_null (heap : Nat) (m : Mem) : (ZHyper.free heap 0).exec m = .ret () m := rfl

/-- The invariant reads the struct and the headers only. -/
theorem HeapInv.congr (h : HeapInv R m live free) {m' : Mem}
    (hstruct : ∀ x, R.heap ≤ x → x < R.heap + 40 → m' x = m x)
    (hfree : ∀ b ∈ free, SameHeader m m' b)
    (hlive : ∀ a ∈ live, SameHeader m m' (usedBlock m a)) : HeapInv R m' live free := by
  have hload : ∀ w a, R.heap ≤ a → a + w ≤ R.heap + 40 → m'.load w a = m.load w a :=
    fun w a h1 h2 =>
    Mem.load_congr w a fun x h3 h4 => hstruct x (by omega) (by omega)
  have hused : ∀ a ∈ live, Used m' a ∧ usedBlock m' a = usedBlock m a := fun a ha =>
    (h.used a ha).congr (hlive a ha)
  have hmap : live.map (usedBlock m') = live.map (usedBlock m) :=
    List.map_congr_left fun a ha => (hused a ha).2
  obtain ⟨w1, w2, w3⟩ := h.words fun x h1 _ h2 => hstruct x h1 (by omega)
  refine ⟨w1, w2, w3, ?_, ?_, h.canonical, fun a ha => (hused a ha).1, ?_, ?_, ?_⟩
  · rw [hload 8 _ (by simp [heapFreeBytes]) (by simp [heapFreeBytes]), h.freeBytes]
  · rw [hload 8 _ (by simp [heapFreeList]) (by simp [heapFreeList])]
    exact h.chain.congr hfree
  · rw [hmap]
    exact h.liveApart
  · intro b hb a ha
    rw [(hused a ha).2]
    exact h.freeApart b hb a ha
  · rw [hmap]
    exact h.tiles

/-- A user's write into its own payload changes no used header. -/
theorem HeapInv.write_header (h : HeapInv R m live free) {a c : Alloc} (ha : a ∈ live)
    (hc : c ∈ live) {i : Nat} (hi : i < a.n) (v : UInt8) :
    SameHeader m (Function.update m (a.ptr + i) v) (usedBlock m c) := by
  intro x h1 h2
  obtain ⟨hhas, hbehind⟩ := (h.used a ha).has_payload hi
  refine Function.update_of_ne ?_ _ _
  rintro rfl
  by_cases hp : c.ptr = a.ptr
  · have : (usedBlock m c).addr = (usedBlock m a).addr := by simp only [usedBlock, hp]
    omega
  · exact (h.live_apart hc ha hp).not_has ((h.used c hc).has_header h1 h2) hhas

/-- A user's write into its own payload keeps the invariant. -/
theorem HeapInv.write (h : HeapInv R m live free) {a : Alloc} (ha : a ∈ live) {i : Nat}
    (hi : i < a.n)
    (v : UInt8) : HeapInv R (Function.update m (a.ptr + i) v) live free := by
  obtain ⟨hhas, -⟩ := (h.used a ha).has_payload hi
  have hne : ∀ x, x ≠ a.ptr + i → Function.update m (a.ptr + i) v x = m x := fun x hx =>
    Function.update_of_ne hx _ _
  refine h.congr (fun x h1 h2 => hne x ?_) (fun b hb x h1 h2 => hne x ?_)
    fun c hc => h.write_header ha hc hi v
  · have := R.clear (h.live_in ha)
    unfold Block.Has at hhas
    omega
  · rintro rfl
    have h16 := h.canonical.size_ge hb
    exact (h.freeApart b hb a ha).not_has ⟨h1, by unfold Block.fin; omega⟩ hhas

theorem dropLive_zero (h : HeapInv R m live free) : dropLive 0 live = live := by
  apply List.filter_eq_self.mpr
  intro a ha
  have := (h.used a ha).header
  unfold usedHeaderSize at this
  exact decide_eq_true (by omega)

/-- **Every step keeps the invariant.** -/
theorem heapStep_inv {s s' : HeapSys} {e : HeapEvent} (hsize : R.size < 2 ^ 32)
    (h : ∃ free, HeapInv R s.mem s.live free) (hstep : HeapStep R.heap s e s') :
    ∃ free, HeapInv R s'.mem s'.live free := by
  obtain ⟨free, h⟩ := h
  cases hstep with
  | malloc hn he => exact wp_ret (malloc_wp h hsize hn) he
  | free hp he =>
    rcases hp with rfl | ⟨a, ha, rfl⟩
    · rw [free_null] at he
      injection he with _ he
      subst he
      exact ⟨free, by rw [dropLive_zero h]; exact h⟩
    · exact wp_ret (miniheapFree_wp h hsize ha) he
  | write hw =>
    obtain ⟨a, ha, rfl, hi⟩ := hw
    exact ⟨free, h.write ha hi _⟩

/-- Every admissible event can be taken: the calls return. -/
theorem heapStep_exists {s : HeapSys} (hsize : R.size < 2 ^ 32)
    (h : ∃ free, HeapInv R s.mem s.live free) (e : HeapEvent) (he : Admissible s e) :
    ∃ s', HeapStep R.heap s e s' := by
  obtain ⟨free, h⟩ := h
  cases e with
  | malloc n =>
    obtain ⟨p, m', h1, -⟩ := wp_exec (malloc_wp h hsize he)
    exact ⟨_, .malloc he h1⟩
  | free p =>
    rcases he with rfl | ⟨a, ha, rfl⟩
    · exact ⟨_, .free (Or.inl rfl) (free_null R.heap s.mem)⟩
    · obtain ⟨_, m', h1, -⟩ := wp_exec (miniheapFree_wp h hsize ha)
      exact ⟨_, .free (Or.inr ⟨a, ha, rfl⟩) h1⟩
  | write p i v => exact ⟨_, .write he⟩

end step

/-! ## Whole runs -/

theorem heapInitial_inv {R : Region} {s : HeapSys} (hsize : R.size < 2 ^ 32) (h : HeapInitial R s) :
    ∃ free, HeapInv R s.mem s.live free := by
  obtain ⟨h1, m, h2⟩ := h
  rw [h1]
  exact ⟨_, (wp_ret (miniheapInit_wp R hsize m) h2).2⟩

theorem reachable_inv {R : Region} {s : HeapSys} (hsize : R.size < 2 ^ 32) (h : HeapReachable R s) :
    ∃ free, HeapInv R s.mem s.live free := by
  obtain ⟨s₀, es, h0, hr⟩ := h
  exact hr.invariant (fun _ _ _ hi hs => heapStep_inv hsize hi hs) (heapInitial_inv hsize h0)

/-- A page at `0x1000`, managed by a `struct miniheap` below it. -/
def exampleRegion : Region where
  heap := 64
  base := 4096
  size := 4096
  base_pos := by decide
  base_aligned := by decide
  size_pos := by decide
  size_aligned := by decide
  fits := by decide
  apart := Or.inl (by decide)

/-- A run of one `malloc` of 100 bytes. -/
theorem exampleRegion_reachable :
    ∃ s, HeapReachable exampleRegion s ∧ s.live = [⟨4112, 100⟩] := by
  obtain ⟨_, m, he, rfl, hinv⟩ := wp_exec (miniheapInit_wp exampleRegion (by decide) fun _ => 0)
  have hinv : HeapInv exampleRegion m [] ([] ++ ⟨4096, 4096⟩ :: []) := hinv
  obtain ⟨p, m', hm, rfl, -⟩ := wp_exec (miniheapAlloc_fit (n := 100) (k := 100) hinv
    (by decide) (by decide) (by decide) (fun _ hc => by cases hc) (by decide) (by decide))
  have hstep : HeapStep 64 ⟨m, []⟩ (.malloc 100) ⟨m', [⟨4112, 100⟩]⟩ :=
    .malloc (n := 100) (p := 4112) (s := ⟨m, []⟩) (by simp [Admissible]) hm
  exact ⟨_, ⟨_, _, ⟨rfl, _, he⟩, Runs.single hstep⟩, rfl⟩

/-- **The heap invariant.**  In every state of every run the live blocks and the free list tile the
region, and every admissible call returns. -/
theorem heap_invariant (R : Region) (hsize : R.size < 2 ^ 32) (s : HeapSys)
    (h : HeapReachable R s) :
    (∃ free, HeapInv R s.mem s.live free) ∧
      ∀ e, Admissible s e → ∃ s', HeapStep R.heap s e s' :=
  ⟨reachable_inv hsize h, fun e he => heapStep_exists hsize (reachable_inv hsize h) e he⟩

theorem heap_invariant_example :
    ∃ s, HeapReachable exampleRegion s ∧ s.live = [⟨4112, 100⟩] ∧
      ∃ free, HeapInv exampleRegion s.mem s.live free := by
  obtain ⟨s, h, hl⟩ := exampleRegion_reachable
  exact ⟨s, h, hl, (heap_invariant exampleRegion (by decide) s h).1⟩

/-! ## Payloads -/

/-- No store reaches into the payload of an allocation of `live`. -/
def Spares (live : List Alloc) : Access → Prop
  | .load _ _ => True
  | .store w x _ => ∀ a ∈ live, a.ptr + a.n ≤ x ∨ x + w ≤ a.ptr

/-- What the event writes at offset `i` of the allocation `p`, if its owner writes there. -/
def ownWrite (p i : Nat) : HeapEvent → Option UInt8
  | .write q j v => if q = p ∧ j = i then some v else none
  | _ => none

/-- The byte at offset `i` of `p` that its owner last wrote in the course of `es`, `v` if it wrote
none. -/
def ownerByte (p i : Nat) (v : UInt8) : List HeapEvent → UInt8
  | [] => v
  | e :: es => ownerByte p i ((ownWrite p i e).getD v) es

section payload

variable {R : Region} {m : Mem} {live : List Alloc} {free : List Block}

/-- Stores into the struct and into blocks apart from those of `live` reach none of them. -/
theorem HeapInv.store_clear (h : HeapInv R m live free) {bs : List Block} {a : Alloc}
    (ha : a ∈ live) (hbs : ∀ b ∈ bs, b.Apart (usedBlock m a)) {w x v : Nat}
    (hs : MetaStore R.heap bs (.store w x v)) :
    (usedBlock m a).fin ≤ x ∨ x + w ≤ (usedBlock m a).addr := by
  rcases hs with hx | ⟨b, hb, hx⟩
  · have := R.clear (h.live_in ha)
    omega
  · have := hbs b hb
    unfold Block.Apart at this
    omega

/-- A program with such stores leaves the block of `a` as it is. -/
theorem HeapInv.block_frame (h : HeapInv R m live free) {bs : List Block} {a : Alloc}
    (ha : a ∈ live) (hbs : ∀ b ∈ bs, b.Apart (usedBlock m a)) {α : Type} {p : Prog α}
    {Q : α → Mem → Prop} {x : α} {m' : Mem} (hp : p.wp (MetaStore R.heap bs) Q m)
    (he : p.exec m = .ret x m') :
    ∀ y, (usedBlock m a).Has y → m' y = m y := by
  refine (wp_ret (wp_frame hp ?_) he).2
  intro w x v hs y hy
  have := h.store_clear ha hbs hs
  unfold Block.Has at hy
  omega

/-- A program with such stores spares the payloads of `live'`. -/
theorem HeapInv.spares (h : HeapInv R m live free) {bs : List Block} {live' : List Alloc}
    (hsub : ∀ a ∈ live', a ∈ live) (hbs : ∀ b ∈ bs, ∀ a ∈ live', b.Apart (usedBlock m a)) {α : Type}
    {p : Prog α} {Q : α → Mem → Prop} (hp : p.wp (MetaStore R.heap bs) Q m) :
    p.wp (Spares live') (fun _ _ => True) m := by
  refine wp_mono (wp_access hp ?_) fun _ _ _ => trivial
  intro acc hacc
  cases acc with
  | load w x => trivial
  | store w x v =>
    intro a ha
    have hu := h.used a (hsub a ha)
    have h1 := hu.header
    have h2 := hu.room.2
    have h3 : (usedBlock m a).addr = a.ptr - usedHeaderSize := rfl
    have := h.store_clear (hsub a ha) (fun b hb => hbs b hb a ha) hacc
    unfold Block.fin at this
    omega

theorem HeapInv.freed_apart (h : HeapInv R m live free) {a : Alloc} (ha : a ∈ live) :
    ∀ b ∈ usedBlock m a :: free, ∀ c ∈ dropLive a.ptr live, b.Apart (usedBlock m c) := by
  intro b hb c hc
  obtain ⟨hc, hne⟩ := mem_dropLive.mp hc
  rcases List.mem_cons.mp hb with rfl | hb
  · exact h.live_apart ha hc (Ne.symm hne)
  · exact h.freeApart b hb c hc

theorem payloads_apart (h : HeapInv R m live free) :
    live.Pairwise fun a c => a.ptr + a.n ≤ c.ptr ∨ c.ptr + c.n ≤ a.ptr := by
  refine (List.pairwise_map.mp h.liveApart).imp_of_mem ?_
  intro a c ha hc hap
  have h1 := h.used a ha
  have h2 := h.used c hc
  have h3 := h1.header
  have h4 := h2.header
  have h5 := h1.room.2
  have h6 := h2.room.2
  have h7 : (usedBlock m a).addr = a.ptr - usedHeaderSize := rfl
  have h8 : (usedBlock m c).addr = c.ptr - usedHeaderSize := rfl
  unfold Block.Apart Block.fin at hap
  omega

/-- **One step.**  An allocation stays live with its block unless it is freed, and its bytes change
only by its owner's writes. -/
theorem payload_step {s s' : HeapSys} {e : HeapEvent} (hsize : R.size < 2 ^ 32)
    (h : ∃ free, HeapInv R s.mem s.live free) (hstep : HeapStep R.heap s e s') {a : Alloc}
    (ha : a ∈ s.live) (hne : e ≠ .free a.ptr) :
    a ∈ s'.live ∧ usedBlock s'.mem a = usedBlock s.mem a ∧
      ∀ i, i < a.n → s'.mem (a.ptr + i) = (ownWrite a.ptr i e).getD (s.mem (a.ptr + i)) := by
  obtain ⟨free, h⟩ := h
  have hu := h.used a ha
  -- a call that leaves the whole block alone
  have hcall : ∀ m' : Mem, (∀ y, (usedBlock s.mem a).Has y → m' y = s.mem y) →
      usedBlock m' a = usedBlock s.mem a ∧ ∀ i, i < a.n → m' (a.ptr + i) = s.mem (a.ptr + i) :=
    fun m' hm => ⟨(hu.congr fun x h1 h2 => hm x (hu.has_header h1 h2)).2,
      fun i hi => hm _ (hu.has_payload hi).1⟩
  cases hstep with
  | @malloc n p m' hn he =>
    refine ⟨?_, hcall m' (h.block_frame ha (fun b hb => h.freeApart b hb a ha)
      (malloc_wp h hsize hn) he)⟩
    show a ∈ if p = 0 then s.live else ⟨p, n⟩ :: s.live
    split
    · exact ha
    · exact List.mem_cons_of_mem _ ha
  | @free p m' hp he =>
    have ha' : a ∈ dropLive p s.live := mem_dropLive.mpr ⟨ha, fun e => hne (by rw [e])⟩
    refine ⟨ha', hcall m' ?_⟩
    rcases hp with rfl | ⟨c, hc, rfl⟩
    · rw [free_null] at he
      injection he with _ he
      subst he
      exact fun _ _ => rfl
    · exact h.block_frame ha (fun b hb => h.freed_apart hc b hb a ha')
        (miniheapFree_wp h hsize hc) he
  | @write q j v hw =>
    obtain ⟨c, hc, rfl, hj⟩ := hw
    refine ⟨ha, (hu.congr (h.write_header hc ha hj v)).2, ?_⟩
    intro i hi
    show Function.update s.mem (c.ptr + j) v (a.ptr + i) = _
    by_cases hp : c.ptr = a.ptr
    · by_cases hij : j = i
      · simp [ownWrite, hp, hij]
      · rw [Function.update_of_ne (by omega)]
        simp [ownWrite, hij]
    · -- another owner's payload is elsewhere
      have hapart := h.live_apart hc ha hp
      have h1 := ((h.used c hc).has_payload hj).1
      have h2 := (hu.has_payload hi).1
      have hne : a.ptr + i ≠ c.ptr + j := fun he => hapart.not_has h1 (by rw [← he]; exact h2)
      rw [Function.update_of_ne hne]
      simp [ownWrite, hp]

theorem payload_run {s s' : HeapSys} {es : List HeapEvent} (hsize : R.size < 2 ^ 32)
    (hrun : Runs (HeapStep R.heap) s es s') (h : ∃ free, HeapInv R s.mem s.live free) {a : Alloc}
    (ha : a ∈ s.live) (hne : HeapEvent.free a.ptr ∉ es) :
    a ∈ s'.live ∧ ∀ i, i < a.n → s'.mem (a.ptr + i) = ownerByte a.ptr i (s.mem (a.ptr + i)) es := by
  induction hrun with
  | nil s => exact ⟨ha, fun _ _ => rfl⟩
  | cons hstep _ ih =>
    rw [List.mem_cons, not_or] at hne
    obtain ⟨he, hes⟩ := hne
    obtain ⟨h1, -, h2⟩ := payload_step hsize h hstep ha (Ne.symm he)
    obtain ⟨h3, h4⟩ := ih (heapStep_inv hsize h hstep) h1 hes
    refine ⟨h3, ?_⟩
    intro i hi
    rw [h4 i hi, h2 i hi, ownerByte]

end payload

/-- **Live payloads are never disturbed.**  In every state reached the live payloads are apart, and
no store of a `malloc` or a `free` lands in one that stays live; and from there on, until it is
freed, every byte of an allocation is the one its owner last wrote. -/
theorem payload_undisturbed (R : Region) (hsize : R.size < 2 ^ 32) (s : HeapSys)
    (h : HeapReachable R s) :
    (s.live.Pairwise fun a c => a.ptr + a.n ≤ c.ptr ∨ c.ptr + c.n ≤ a.ptr) ∧
    (∀ n, Admissible s (.malloc n) →
      (malloc R.heap n).wp (Spares s.live) (fun _ _ => True) s.mem) ∧
    (∀ p, Admissible s (.free p) →
      (free R.heap p).wp (Spares (dropLive p s.live)) (fun _ _ => True) s.mem) ∧
    ∀ a ∈ s.live, ∀ es s', Runs (HeapStep R.heap) s es s' → HeapEvent.free a.ptr ∉ es →
      a ∈ s'.live ∧ ∀ i, i < a.n →
        s'.mem (a.ptr + i) = ownerByte a.ptr i (s.mem (a.ptr + i)) es := by
  obtain ⟨free, hinv⟩ := reachable_inv hsize h
  refine ⟨payloads_apart hinv, ?_, ?_, ?_⟩
  · intro n hn
    exact hinv.spares (fun _ ha => ha) hinv.freeApart (malloc_wp hinv hsize hn)
  · intro p hp
    rcases hp with rfl | ⟨a, ha, rfl⟩
    · exact trivial
    · exact hinv.spares (fun c hc => (mem_dropLive.mp hc).1) (hinv.freed_apart ha)
        (miniheapFree_wp hinv hsize ha)
  · intro a ha es s' hrun hne
    exact payload_run hsize hrun ⟨free, hinv⟩ ha hne

theorem payload_undisturbed_example :
    ∃ s, HeapReachable exampleRegion s ∧ s.live = [⟨4112, 100⟩] ∧
      ∀ es s', Runs (HeapStep 64) s es s' → HeapEvent.free 4112 ∉ es →
        ⟨4112, 100⟩ ∈ s'.live ∧
          ∀ i, i < 100 → s'.mem (4112 + i) = ownerByte 4112 i (s.mem (4112 + i)) es := by
  obtain ⟨s, h, hl⟩ := exampleRegion_reachable
  obtain ⟨-, -, -, hrun⟩ := payload_undisturbed exampleRegion (by decide) s h
  exact ⟨s, h, hl, hrun ⟨4112, 100⟩ (hl ▸ List.mem_singleton_self _)⟩

end ZHyper
