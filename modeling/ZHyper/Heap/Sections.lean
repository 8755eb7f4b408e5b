import ZHyper.Heap.DoubleFree
import ZHyper.Lib.Interrupts

/-!
# `malloc` and `free`, interrupted by `free`

A call of the mainline is taken apart at its accesses to the free list: `listPart` is all up to the
last of them, and what it comes out with is what the call does then, to `free_bytes` and to the
header of the new block.  `Waiting` says of a heap that a call waits in it, for other blocks to be
freed: it stays so with every such `free` (`Waiting.after_free`), and the call, resumed, leaves a
good heap (`Waiting.completes`).

A call may wait before it has loaded `free_list`, since all it has loaded by then can only have
become truer, and when it is through with the list, since what is left is a patch of bytes that a
`free` of another block does not touch, `free_bytes` apart, and there both add
(`waiting_of_outside`).
-/

namespace ZHyper

open LowLevel LowLevel.Prog

/-! ## The parts of a call -/

/-- `miniheap_alloc` from its check of `free_bytes` on. -/
def allocBelow (heap totalSize freeBytes : Nat) : Prog Nat :=
  if totalSize > freeBytes then pure 0
  else do
    let first ← read 8 (heapFreeList heap)
    let cur ← allocLoop heap totalSize loopBound 0 first
    allocFinish heap totalSize cur

/-- `miniheap_alloc` once it has loaded `align` twice. -/
def allocAligned (heap size align align' : Nat) : Prog Nat :=
  let totalSize := roundSize size align align'
  if totalSize = 0 then pure 0
  else do
    let freeBytes ← read 8 (heapFreeBytes heap)
    allocBelow heap ((totalSize + usedHeaderSize) % 2 ^ 32) freeBytes

theorem miniheapAlloc_eq (heap size : Nat) : miniheapAlloc heap size =
    .load 4 (heapAlign heap) fun align => .load 4 (heapAlign heap) fun align' =>
      allocAligned heap size align align' := rfl

inductive HeapCall where
  | malloc (n : Nat)
  | free (p : Nat)
deriving DecidableEq

namespace HeapCall

def event : HeapCall → HeapEvent
  | malloc n => .malloc n
  | free p => .free p

def prog (heap : Nat) : HeapCall → Prog Nat
  | malloc n => ZHyper.malloc heap n
  | free p => do
    ZHyper.free heap p
    return 0

/-- What is live when the call has returned `x`. -/
def live (x : Nat) (l : List Alloc) : HeapCall → List Alloc
  | malloc n => if x = 0 then l else ⟨x, n⟩ :: l
  | free p => dropLive p l

/-- The call up to its last access to the free list. -/
def listPart (heap : Nat) : HeapCall → Prog (Prog Nat)
  | malloc n => do
    let align ← read 4 (heapAlign heap)
    let align' ← read 4 (heapAlign heap)
    let totalSize := roundSize n align align'
    if totalSize = 0 then return pure 0
    else
      let totalSize := (totalSize + usedHeaderSize) % 2 ^ 32
      let freeBytes ← read 8 (heapFreeBytes heap)
      if totalSize > freeBytes then return pure 0
      else
        let first ← read 8 (heapFreeList heap)
        let cur ← allocLoop heap totalSize loopBound 0 first
        return allocFinish heap totalSize cur
  | free p => do
    let size ← releaseList heap p
    return do
      size.elim (pure ()) (addFreeBytes heap)
      return 0

theorem prog_eq (heap : Nat) (c : HeapCall) : c.prog heap = c.listPart heap >>= fun rest =>
    rest := by
  cases c with
  | malloc n =>
    show miniheapAlloc heap n = _
    unfold miniheapAlloc listPart
    simp only [bind_bind]
    congr 1
    funext align
    congr 1
    funext align'
    split
    · rfl
    · simp only [bind_bind]
      congr 1
      funext freeBytes
      split
      · rfl
      · simp only [bind_bind]
        rfl
  | free p =>
    show (miniheapFree heap p >>= fun _ => pure 0) = _
    rw [miniheapFree_eq, listPart, bind_bind, bind_bind]
    rfl

/-- The number of accesses before the load of `free_list`. -/
def before : HeapCall → Nat
  | malloc _ => 3
  | free _ => 1

/-- The number of accesses up to the last one to the free list. -/
def listSteps (heap : Nat) (c : HeapCall) (m : Mem) : Nat := (c.listPart heap).steps m

end HeapCall

/-- After `k` accesses of the call, started in `m`, it is not between the load of `free_list` and
its last access to the list, and not between the load and the store of `free_bytes`. -/
def Outside (heap : Nat) (c : HeapCall) (m : Mem) (k : Nat) : Prop :=
  k ≤ c.before ∨
    c.listSteps heap m ≤ k ∧ (k = c.listSteps heap m + 1 → (c.prog heap).steps m ≤ k)

section

variable {R : Region} {m : Mem} {s : HeapSys} {live : List Alloc} {free free' : List Block}
    {a : Alloc}
  {c : HeapCall} {q : Prog Nat} {k x : Nat}

/-! ## A single `free` -/

/-- `free_bytes += d` -/
def credit (heap d : Nat) (m : Mem) : Mem :=
  m.store 8 (heapFreeBytes heap) ((m.load 8 (heapFreeBytes heap) + d) % 2 ^ 64)

theorem addFreeBytes_exec (heap d : Nat) (m : Mem) :
    (addFreeBytes heap d).exec m = .ret () (credit heap d m) :=
  rfl

/-- The run of a `free`: the list first, `free_bytes` after. -/
theorem HeapInv.free_run (h : HeapInv R m live free) (hsize : R.size < 2 ^ 32) (ha : a ∈ live) :
    (releaseList R.heap a.ptr).wp (ListAccess R.heap (usedBlock m a :: free)) (fun r m₁ =>
      r = some (usedBlock m a).size ∧ m₁.load 8 (heapFreeBytes R.heap) = total free ∧
      ∃ free', HeapInv R (credit R.heap (usedBlock m a).size m₁) (dropLive a.ptr live) free' ∧
        total free' = total free + (usedBlock m a).size) m := by
  obtain ⟨_, m', hexec, free', h'⟩ := wp_exec (miniheapFree_wp h hsize ha)
  obtain ⟨pre, post, rfl, hpre, hpost, hg⟩ := h.gap ha
  have hlist := releaseList_wp h hsize ha hpre hpost hg
  obtain ⟨r, m₁, hlexec, rfl, hkeep, -⟩ := wp_exec hlist
  rw [miniheapFree_eq, exec_bind hlexec] at hexec
  have hm' : credit R.heap (usedBlock m a).size m₁ = m' := by
    injection hexec
  have hbytes : m₁.load 8 (heapFreeBytes R.heap) = total (pre ++ post) := by
    rw [← h.freeBytes]
    apply Mem.load_congr 8
    intro y h1 h2
    unfold heapFreeBytes at h1 h2
    exact hkeep y (by omega) (by omega)
  -- no overflow: the block lies in the region
  have hin := h.live_in ha
  have htot := h.total_le
  unfold Block.fin at hin
  have hsum : total free' = total (pre ++ post) + (usedBlock m a).size := by
    rw [← h'.freeBytes, ← hm', credit, hbytes, Mem.load8_store8 (Nat.mod_lt _ (by decide))]
    exact Nat.mod_eq_of_lt (by omega)
  apply wp_mono (wp_run hlist hlexec)
  rintro _ _ ⟨rfl, rfl⟩
  exact ⟨rfl, hbytes, free', hm'.symm ▸ h', hsum⟩

/-! ## Waiting calls -/

/-- `q` brings the call to its end in a good heap. -/
def Completes (R : Region) (c : HeapCall) (q : Prog Nat) (s : HeapSys) : Prop :=
  ∃ x m' free', q.exec s.mem = .ret x m' ∧ HeapInv R m' (c.live x s.live) free'

/-- The call waits in a good heap, and can go on in every one that has as much free. -/
def WaitsEarly (R : Region) (c : HeapCall) (q : Prog Nat) (s : HeapSys) : Prop :=
  ∃ free, HeapInv R s.mem s.live free ∧ Admissible s c.event ∧
    ∀ t free', HeapInv R t.mem t.live free' → Admissible t c.event → total free ≤ total free' →
      Completes R c q t

/-- The bytes of `free_bytes`, and of the header of the new block. -/
def LateBytes (heap : Nat) (new : Option Alloc) (y : Nat) : Prop :=
  (heap + 16 ≤ y ∧ y < heap + 24) ∨ ∃ a ∈ new, a.ptr ≤ y + 16 ∧ y < a.ptr

/-- What is left of the call is a patch of those bytes, and with it the heap is good. -/
def WaitsLate (R : Region) (c : HeapCall) (q : Prog Nat) (s : HeapSys) : Prop :=
  ∃ x f new free, (∀ n, q.exec n = .ret x (f n)) ∧ Patch (LateBytes R.heap new) f ∧
    (∀ d n, f (credit R.heap d n) = credit R.heap d (f n)) ∧
      HeapInv R (f s.mem) (c.live x s.live) free ∧
    ∀ a ∈ new, a ∈ c.live x s.live ∧ ∀ b ∈ s.live, b.ptr ≠ a.ptr

def Waiting (R : Region) (c : HeapCall) (q : Prog Nat) (s : HeapSys) : Prop :=
  WaitsEarly R c q s ∨ WaitsLate R c q s

theorem Waiting.completes (h : Waiting R c q s) : Completes R c q s := by
  rcases h with ⟨free, h, hadm, hgo⟩ | ⟨x, f, new, free, hq, -, -, h, -⟩
  · exact hgo s free h hadm (Nat.le_refl _)
  · exact ⟨x, f s.mem, free, hq _, h⟩

theorem HeapCall.mem_live (ha : a ∈ live) (hc : c ≠ .free a.ptr) : a ∈ c.live x live := by
  cases c with
  | malloc n =>
    show a ∈ if x = 0 then live else ⟨x, n⟩ :: live
    split
    · exact ha
    · exact List.mem_cons_of_mem _ ha
  | free p => exact mem_dropLive.mpr ⟨ha, fun e => hc (by rw [e])⟩

/-- A block freed meanwhile is gone at the end. -/
theorem HeapCall.live_drop (h : HeapInv R m (c.live x live) free) (ha : a ∈ live) :
    c.live x (dropLive a.ptr live) = dropLive a.ptr (c.live x live) := by
  cases c with
  | malloc n =>
    have h : HeapInv R m (if x = 0 then live else ⟨x, n⟩ :: live) free := h
    show (if x = 0 then dropLive a.ptr live else ⟨x, n⟩ :: dropLive a.ptr live) =
      dropLive a.ptr (if x = 0 then live else ⟨x, n⟩ :: live)
    split
    · rfl
    · next hx =>
      rw [if_neg hx] at h
      have hne : x ≠ a.ptr := by
        intro e
        exact (List.nodup_cons.mp h.ptrs_nodup).1 (List.mem_map.mpr ⟨a, ha, e.symm⟩)
      exact (List.filter_cons_of_pos (by simpa using hne)).symm
  | free p => exact List.filter_comm _ _ _

theorem WaitsEarly.after_free (h : WaitsEarly R c q s) (hsize : R.size < 2 ^ 32) (ha : a ∈ s.live)
    (hc : c ≠ .free a.ptr) : ∃ m', (ZHyper.free R.heap a.ptr).exec s.mem = .ret () m' ∧
      WaitsEarly R c q ⟨m', dropLive a.ptr s.live⟩ := by
  obtain ⟨free, h, hadm, hgo⟩ := h
  obtain ⟨_, m₁, hexec, rfl, -, free', h', htot⟩ := wp_exec (h.free_run hsize ha)
  refine ⟨_, ?_, free', h', ?_, ?_⟩
  · unfold ZHyper.free
    rw [miniheapFree_eq, exec_bind hexec]
    exact addFreeBytes_exec _ _ _
  · cases c with
    | malloc n => exact hadm
    | free p =>
      refine hadm.imp_right ?_
      rintro ⟨b, hb, rfl⟩
      exact ⟨b, mem_dropLive.mpr ⟨hb, fun e => hc (by rw [e])⟩, rfl⟩
  · intro t free'' ht hadm' hle
    exact hgo t free'' ht hadm' (by omega)

/-- A `free` touches no byte that a call has still to write. -/
theorem HeapInv.listAccess_within (h : HeapInv R m live free) (ha : a ∈ live) {new : Option Alloc}
    (hnew : ∀ b ∈ new, b ∈ live ∧ a.ptr ≠ b.ptr) {acc : Access}
    (hacc : ListAccess R.heap (usedBlock m a :: free) acc) :
    Access.Within (fun y => ¬ LateBytes R.heap new y) acc := by
  have hblock : ∀ b ∈ usedBlock m a :: free, R.base ≤ b.addr ∧ b.fin ≤ R.base + R.size ∧
    16 ≤ b.size ∧
      ∀ d ∈ new, b.Apart (usedBlock m d) := by
    intro b hb
    rcases List.mem_cons.mp hb with rfl | hb
    · have hin := h.live_in ha
      exact ⟨hin.1, hin.2, (h.used a ha).size_ge, fun d hd =>
        h.live_apart ha (hnew d hd).1 (hnew d hd).2⟩
    · have hin := h.free_in hb
      exact ⟨hin.1, hin.2, h.canonical.size_ge hb, fun d hd => h.freeApart b hb d (hnew d hd).1⟩
  have hin : ∀ w x, ((R.heap + 32 ≤ x ∧ x + w ≤ R.heap + 40) ∨
      ∃ b ∈ usedBlock m a :: free, b.addr ≤ x ∧ x + w ≤ b.addr + 16) →
      ∀ y, x ≤ y → y < x + w → ¬ LateBytes R.heap new y := by
    intro w x hx y h1 h2 hlate
    have hapart := R.apart
    -- the header of the new block lies in its block
    have hhdr : ∀ d ∈ new, d.ptr ≤ y + 16 → y < d.ptr → (usedBlock m d).Has y ∧
        R.base ≤ (usedBlock m d).addr ∧ (usedBlock m d).fin ≤ R.base + R.size := by
      intro d hd h3 h4
      have hu := h.used d (hnew d hd).1
      have hsz := hu.size_ge
      have hhead := hu.header
      have haddr : (usedBlock m d).addr = d.ptr - usedHeaderSize := rfl
      have hlive := h.live_in (hnew d hd).1
      unfold usedHeaderSize at *
      unfold Block.Has Block.fin at *
      omega
    rcases hx with hx | ⟨b, hb, hx⟩
    · rcases hlate with hlate | ⟨d, hd, h3, h4⟩
      · omega
      · obtain ⟨hhas, h5, h6⟩ := hhdr d hd h3 h4
        unfold Block.Has at hhas
        omega
    · obtain ⟨hb1, hb2, hb3, hb4⟩ := hblock b hb
      rcases hlate with hlate | ⟨d, hd, h3, h4⟩
      · unfold Block.fin at hb2
        omega
      · refine (hb4 d hd).not_has ?_ (hhdr d hd h3 h4).1
        unfold Block.Has Block.fin
        omega
  cases acc with
  | load w x => exact hin w x hacc
  | store w x v => exact hin w x hacc

theorem WaitsLate.after_free (h : WaitsLate R c q s) (hsize : R.size < 2 ^ 32) (ha : a ∈ s.live)
    (hc : c ≠ .free a.ptr) : ∃ m', (ZHyper.free R.heap a.ptr).exec s.mem = .ret () m' ∧
      WaitsLate R c q ⟨m', dropLive a.ptr s.live⟩ := by
  obtain ⟨x, f, new, free, hq, hpatch, hcredit, h, hnew⟩ := h
  have ha' : a ∈ c.live x s.live := HeapCall.mem_live ha hc
  have hkeep : ∀ b ∈ new, b ∈ c.live x s.live ∧ a.ptr ≠ b.ptr :=
    fun b hb => ⟨(hnew b hb).1, (hnew b hb).2 a ha⟩
  obtain ⟨r, n', hexec, -, rfl, -, free', h', -⟩ :=
    hpatch.exec_patch (wp_access (h.free_run hsize ha') fun _ hacc =>
      h.listAccess_within ha' hkeep hacc)
  refine ⟨credit R.heap (usedBlock (f s.mem) a).size n', ?_, x, f, new, free', hq, hpatch, hcredit,
    ?_, ?_⟩
  · unfold ZHyper.free
    rw [miniheapFree_eq, exec_bind hexec]
    exact addFreeBytes_exec _ _ _
  · rw [hcredit, HeapCall.live_drop h ha]
    exact h'
  · intro b hb
    obtain ⟨hb1, hb2⟩ := hkeep b hb
    rw [HeapCall.live_drop h ha]
    exact ⟨mem_dropLive.mpr ⟨hb1, Ne.symm hb2⟩, fun d hd => (hnew b hb).2 d (mem_dropLive.mp hd).1⟩

/-- **A waiting call still waits after a `free` of another block.** -/
theorem Waiting.after_free (h : Waiting R c q s) (hsize : R.size < 2 ^ 32) (ha : a ∈ s.live)
    (hc : c ≠ .free a.ptr) : ∃ m', (ZHyper.free R.heap a.ptr).exec s.mem = .ret () m' ∧
      Waiting R c q ⟨m', dropLive a.ptr s.live⟩ := by
  rcases h with h | h
  · obtain ⟨m', hexec, h'⟩ := h.after_free hsize ha hc
    exact ⟨m', hexec, .inl h'⟩
  · obtain ⟨m', hexec, h'⟩ := h.after_free hsize ha hc
    exact ⟨m', hexec, .inr h'⟩

/-! ## Where a call may wait -/

theorem HeapInv.completes (h : HeapInv R s.mem s.live free) (hsize : R.size < 2 ^ 32)
    (hadm : Admissible s c.event) : Completes R c (c.prog R.heap) s := by
  cases c with
  | malloc n =>
    obtain ⟨p, m', hexec, free', h'⟩ := wp_exec (malloc_wp h hsize hadm)
    exact ⟨p, m', free', hexec, h'⟩
  | free p =>
    rcases hadm with rfl | ⟨a, ha, rfl⟩
    · refine ⟨0, s.mem, free, rfl, ?_⟩
      show HeapInv R s.mem (dropLive 0 s.live) free
      rw [dropLive_zero h]
      exact h
    · obtain ⟨_, m', hexec, free', h'⟩ := wp_exec (miniheapFree_wp h hsize ha)
      exact ⟨0, m', free', exec_bind hexec, h'⟩

theorem Completes.of_exec (h : Completes R c (c.prog R.heap) s)
    (hq : q.exec s.mem = (c.prog R.heap).exec s.mem) : Completes R c q s := by
  obtain ⟨x, m', free', hexec, h'⟩ := h
  exact ⟨x, m', free', hq.trans hexec, h'⟩

/-- A request that is refused. -/
theorem HeapInv.completes_refused (h : HeapInv R s.mem s.live free) (n : Nat) :
    Completes R (.malloc n) (pure 0) s := ⟨0, s.mem, free, rfl, h⟩

/-- A request starts with two loads of `align`. -/
theorem HeapInv.malloc_exec (h : HeapInv R m live free) (n : Nat) :
    (malloc R.heap n).exec m = (allocAligned R.heap n heapAlignment heapAlignment).exec m := by
  unfold malloc
  rw [miniheapAlloc_eq, exec_load, exec_load, h.alignWord]

/-- Until it loads `free_list`, a request can be refused or goes on as one that starts now. -/
theorem HeapInv.malloc_waitsEarly (h : HeapInv R s.mem s.live free) (hsize : R.size < 2 ^ 32)
    {n : Nat} (hadm : Admissible s (.malloc n)) (hk : k ≤ 3) :
    ∃ q, (malloc R.heap n).after k s.mem = (q, s.mem) ∧ WaitsEarly R (.malloc n) q s := by
  -- what is left runs like the whole call
  have hlike : ∀ q : Prog Nat, (∀ (t : HeapSys) free', HeapInv R t.mem t.live free' →
      total free ≤ total free' → q = pure 0 ∨ q.exec t.mem = (malloc R.heap n).exec t.mem) →
      WaitsEarly R (.malloc n) q s := by
    intro q hq
    refine ⟨free, h, hadm, ?_⟩
    intro t free' ht hadm' hle
    rcases hq t free' ht hle with rfl | he
    · exact ht.completes_refused n
    · exact (HeapInv.completes (c := .malloc n) ht hsize hadm').of_exec he
  have hprog : malloc R.heap n = .load 4 (heapAlign R.heap) fun align =>
    .load 4 (heapAlign R.heap) fun align' =>
      allocAligned R.heap n align align' := miniheapAlloc_eq R.heap n
  match k, hk with
  | 0, _ => exact ⟨_, after_zero _ _, hlike _ fun t free' _ _ => .inr rfl⟩
  | 1, _ =>
    refine ⟨.load 4 (heapAlign R.heap) fun align' => allocAligned R.heap n heapAlignment align', ?_,
      hlike _ ?_⟩
    · rw [hprog, after_load, h.alignWord, after_zero]
    · intro t free' ht _
      right
      rw [ht.malloc_exec, exec_load, ht.alignWord]
  | 2, _ =>
    refine ⟨allocAligned R.heap n heapAlignment heapAlignment, ?_, hlike _ ?_⟩
    · rw [hprog, after_load, after_load, h.alignWord, after_zero]
    · intro t free' ht _
      exact .inr (ht.malloc_exec n).symm
  | 3, _ =>
    have hafter : (malloc R.heap n).after 3 s.mem =
        (allocAligned R.heap n heapAlignment heapAlignment).after 1 s.mem := by
      rw [hprog, after_load, after_load, h.alignWord]
    rw [hafter]
    by_cases hzero : roundSize n heapAlignment heapAlignment = 0
    · have hrest : allocAligned R.heap n heapAlignment heapAlignment = pure 0 := by
        unfold allocAligned
        simp only [hzero, if_true]
      rw [hrest]
      exact ⟨pure 0, rfl, hlike _ fun t free' _ _ => .inl rfl⟩
    · obtain ⟨total', hrest⟩ : ∃ total', allocAligned R.heap n heapAlignment heapAlignment =
          .load 8 (heapFreeBytes R.heap) (allocBelow R.heap total') := by
        unfold allocAligned
        simp only [hzero, if_false]
        exact ⟨_, rfl⟩
      refine ⟨allocBelow R.heap total' (total free), ?_, hlike _ ?_⟩
      · rw [hrest, after_load, h.freeBytes, after_zero]
      · intro t free' ht hle
        rw [ht.malloc_exec, hrest, exec_load, ht.freeBytes]
        unfold allocBelow
        by_cases hgt : total' > total free
        · rw [if_pos hgt]
          exact .inl rfl
        · rw [if_neg hgt, if_neg (by omega)]
          exact .inr rfl

theorem HeapInv.free_waitsEarly (h : HeapInv R s.mem s.live free) (hsize : R.size < 2 ^ 32)
    {p : Nat} (hadm : Admissible s (.free p)) (hk : k ≤ 1) :
    ∃ q, (HeapCall.prog R.heap (.free p)).after k s.mem = (q, s.mem) ∧
      WaitsEarly R (.free p) q s := by
  have hlike : ∀ q : Prog Nat, (∀ (t : HeapSys) free', HeapInv R t.mem t.live free' →
    Admissible t (.free p) →
      q.exec t.mem = (HeapCall.prog R.heap (.free p)).exec t.mem) → WaitsEarly R (.free p) q s := by
    intro q hq
    refine ⟨free, h, hadm, ?_⟩
    intro t free' ht hadm' _
    exact (HeapInv.completes (c := .free p) ht hsize hadm').of_exec (hq t free' ht hadm')
  match k, hk with
  | 0, _ => exact ⟨_, after_zero _ _, hlike _ fun t free' _ _ => rfl⟩
  | 1, _ =>
    rcases hadm with rfl | ⟨a, ha, rfl⟩
    · exact ⟨_, rfl, hlike _ fun t free' _ _ => rfl⟩
    · have hhdr := (h.used a ha).header
      have hin := h.live_in ha
      have hfits := R.fits
      have haddr : (usedBlock s.mem a).addr = a.ptr - usedHeaderSize := rfl
      have hptr : a.ptr ≠ 0 := by
        unfold usedHeaderSize at hhdr
        omega
      have hblock : (a.ptr + 2 ^ 64 - usedHeaderSize) % 2 ^ 64 = a.ptr - usedHeaderSize := by
        have hsz := (h.used a ha).size_ge
        unfold Block.fin at hin
        unfold usedHeaderSize at *
        omega
      -- the magic of a live block is the same whenever it is loaded
      have hload : ∃ rest : Nat → Prog Nat, HeapCall.prog R.heap (.free a.ptr) =
          .load 4 (blockMagic (a.ptr - usedHeaderSize)) rest := by
        show ∃ rest, (miniheapFree R.heap a.ptr >>= fun _ => pure 0) = _
        unfold miniheapFree
        rw [if_neg hptr, hblock]
        exact ⟨_, rfl⟩
      obtain ⟨rest, hrest⟩ := hload
      refine ⟨rest magicUsed, ?_, hlike _ ?_⟩
      · rw [hrest]
        show (rest (s.mem.load 4 (blockMagic (a.ptr - usedHeaderSize)))).after 0 s.mem = _
        rw [(h.used a ha).magic, after_zero]
      · intro t free' ht hadm'
        obtain ⟨b, hb, hba⟩ := hadm'.resolve_left hptr
        rw [hrest]
        show _ = (rest (t.mem.load 4 (blockMagic (a.ptr - usedHeaderSize)))).exec t.mem
        rw [← hba, (ht.used b hb).magic]

/-- What is left of a call that is through with the list: a patch that commutes with other
credits. -/
def LatePart (R : Region) (c : HeapCall) (q : Prog Nat) : Prop :=
  ∃ x f new, (∀ n, q.exec n = .ret x (f n)) ∧ Patch (LateBytes R.heap new) f ∧
    (∀ d n, f (credit R.heap d n) = credit R.heap d (f n)) ∧ ∀ a ∈ new, x ≠ 0 ∧ a.ptr = x ∧
      c = .malloc a.n

theorem latePart_ret (x : Nat) : LatePart R c (pure x) :=
  ⟨x, fun n => n, none, fun _ => rfl, .id, fun _ _ => rfl, fun a ha => by cases ha⟩

theorem load_credit (heap d : Nat) (m : Mem) : (credit heap d m).load 8 (heapFreeBytes heap) =
    (m.load 8 (heapFreeBytes heap) + d) % 2 ^ 64 :=
  Mem.load8_store8 (Nat.mod_lt _ (by decide))

/-- A store to `free_bytes` covers a credit. -/
theorem store_credit (heap d v : Nat) (m : Mem) :
    (credit heap d m).store 8 (heapFreeBytes heap) v = m.store 8 (heapFreeBytes heap) v := by
  funext y
  unfold credit Mem.store
  split
  · rfl
  · rfl

theorem credit_comm (heap d e : Nat) (m : Mem) :
    credit heap d (credit heap e m) = credit heap e (credit heap d m) := by
  have hsum : ((m.load 8 (heapFreeBytes heap) + e) % 2 ^ 64 + d) % 2 ^ 64 =
      ((m.load 8 (heapFreeBytes heap) + d) % 2 ^ 64 + e) % 2 ^ 64 := by omega
  show (credit heap e m).store 8 _ (((credit heap e m).load 8 _ + d) % 2 ^ 64) =
    (credit heap d m).store 8 _ (((credit heap d m).load 8 _ + e) % 2 ^ 64)
  rw [load_credit, load_credit, hsum, store_credit, store_credit]

theorem patch_credit (heap d : Nat) (new : Option Alloc) :
    Patch (LateBytes heap new) (credit heap d) := by
  have hword : ∀ y, heapFreeBytes heap ≤ y → y < heapFreeBytes heap + 8 → LateBytes heap new y := by
    intro y h1 h2
    unfold heapFreeBytes at h1 h2
    exact .inl (by omega)
  refine .store hword ?_
  intro n n' h
  rw [Mem.load_congr 8 _ fun y h1 h2 => h y (hword y h1 h2)]

/-- A store elsewhere commutes with a credit. -/
theorem credit_store {heap w x v : Nat} (hx : x + w ≤ heap + 16 ∨ heap + 24 ≤ x) (d : Nat)
    (m : Mem) :
    (credit heap d m).store w x v = credit heap d (m.store w x v) := by
  have hload : (m.store w x v).load 8 (heapFreeBytes heap) = m.load 8 (heapFreeBytes heap) :=
    Mem.load_store_apart (by unfold heapFreeBytes; omega)
  funext y
  unfold credit
  rw [hload]
  unfold Mem.store heapFreeBytes
  by_cases hy : x ≤ y ∧ y < x + w
  · rw [if_pos hy, if_neg (by omega), if_pos hy]
  · rw [if_neg hy, if_neg hy]

/-- `malloc` once it has found the block at `cur`. -/
theorem latePart_alloc {total' cur n j : Nat} (hcur : 0 < cur ∧ cur + 16 < 2 ^ 64)
    (hapart : R.heap + 40 ≤ cur ∨ cur + 16 ≤ R.heap) (htotal : total' ≤ 2 ^ 64) (hj : j ≠ 1)
    (m : Mem) :
    LatePart R (.malloc n) ((allocFinish R.heap total' cur).after j m).1 := by
  have hptr : (cur + usedHeaderSize) % 2 ^ 64 = cur + 16 := Nat.mod_eq_of_lt hcur.2
  obtain ⟨new, hnewEq⟩ : ∃ new : Option Alloc, new = some ⟨cur + 16, n⟩ := ⟨_, rfl⟩
  have hnew : ∀ a ∈ new, cur + 16 ≠ 0 ∧ a.ptr = cur + 16 ∧ HeapCall.malloc n = .malloc a.n := by
    intro a ha
    rw [hnewEq] at ha
    cases ha
    exact ⟨by omega, rfl, rfl⟩
  have hheader : ∀ d v, d + 4 ≤ 16 → Patch (LateBytes R.heap new) fun n =>
      n.store 4 (cur + d) v := by
    intro d v hd
    refine .store (v := fun _ => v) ?_ fun _ _ _ => rfl
    intro y h1 h2
    exact .inr ⟨_, hnewEq, by show cur + 16 ≤ y + 16; omega, by show y < cur + 16; omega⟩
  have hclear : ∀ d v e n, d + 4 ≤ 16 →
      (credit R.heap e n).store 4 (cur + d) v = credit R.heap e (n.store 4 (cur + d) v) :=
    fun d v e n hd => credit_store (by omega) e n
  -- the two stores into the header
  have hsize : LatePart R (.malloc n) (write 4 (blockSize cur) total' >>= fun _ =>
      pure (cur + 16)) :=
    ⟨cur + 16, _, new, fun _ => rfl, hheader 4 total' (by decide), fun d n =>
      hclear 4 _ d n (by decide), hnew⟩
  have hmagic : LatePart R (.malloc n) (write 4 (blockMagic cur) magicUsed >>= fun _ =>
      write 4 (blockSize cur) total' >>= fun _ => pure (cur + 16)) := by
    refine ⟨cur + 16, _, new, fun _ => rfl,
      (hheader 4 total' (by decide)).comp (hheader 0 magicUsed (by decide)),
      ?_, hnew⟩
    intro d n
    show ((credit R.heap d n).store 4 (cur + 0) magicUsed).store 4 (cur + 4) total' = _
    rw [hclear 0 _ d n (by decide), hclear 4 _ d _ (by decide)]
    rfl
  have hrest : allocFinish R.heap total' cur = .load 8 (heapFreeBytes R.heap) fun freeBytes =>
      .store 8 (heapFreeBytes R.heap) ((freeBytes + 2 ^ 64 - total') % 2 ^ 64)
        (write 4 (blockMagic cur) magicUsed >>= fun _ =>
          write 4 (blockSize cur) total' >>= fun _ => pure (cur + 16)) := by
    unfold allocFinish
    rw [if_neg (by omega), hptr]
    rfl
  rw [hrest]
  match j, hj with
  | 0, _ =>
    rw [after_zero]
    obtain ⟨x, f, new', hq, hpatch, hcredit, hnew'⟩ := hmagic
    refine ⟨x, fun n => f (credit R.heap (2 ^ 64 - total') n), new', ?_,
      hpatch.comp (patch_credit _ _ _), ?_, hnew'⟩
    · intro n
      rw [exec_load, Nat.add_sub_assoc htotal]
      exact hq _
    · intro d n
      show f (credit R.heap (2 ^ 64 - total') (credit R.heap d n)) = _
      rw [credit_comm, hcredit]
  | 2, _ => exact hmagic
  | 3, _ => exact hsize
  | j + 4, _ => exact latePart_ret (cur + 16)

/-- `free` once the block is on the list. -/
theorem latePart_free {d j : Nat} (hj : j ≠ 1) (m : Mem) :
    LatePart R c ((addFreeBytes R.heap d >>= fun _ => pure 0).after j m).1 := by
  match j, hj with
  | 0, _ =>
    rw [after_zero]
    exact ⟨0, credit R.heap d, none, fun _ => rfl, patch_credit _ _ _, fun e n =>
      credit_comm _ d e n,
      fun a ha => by cases ha⟩
  | j + 2, _ => exact latePart_ret 0

/-- What the list part of a call comes out with. -/
theorem HeapInv.listPart_wp (h : HeapInv R s.mem s.live free) (hsize : R.size < 2 ^ 32)
    (hadm : Admissible s c.event) : (c.listPart R.heap).wp (fun _ => True)
      (fun rest _ => ∀ j, j ≠ 1 → ∀ n, LatePart R c (rest.after j n).1) s.mem := by
  have hnothing : ∀ j, j ≠ 1 → ∀ n, LatePart R c ((pure 0 : Prog Nat).after j n).1 :=
    fun _ _ _ => latePart_ret 0
  cases c with
  | malloc n =>
    unfold HeapCall.listPart
    simp only [wp_bind, wp_read, h.alignWord, roundSize_eq]
    refine ⟨trivial, trivial, ?_⟩
    split
    · exact hnothing
    · have ht : ((n + 15) % 2 ^ 32 / 16 * 16 + usedHeaderSize) % 2 ^ 32 = allocTotal n := rfl
      simp only [wp_bind, wp_read, h.freeBytes, ht]
      refine ⟨trivial, ?_⟩
      split
      · exact hnothing
      · simp only [wp_bind, wp_read]
        refine ⟨trivial, ?_⟩
        by_cases hfit : ∃ b ∈ free, allocTotal n ≤ b.size
        · obtain ⟨pre, b, post, rfl, hpre, hb⟩ := exists_first_fit free (allocTotal n) hfit
          have hbmem : b ∈ pre ++ b :: post := List.mem_append_right _ List.mem_cons_self
          have hin := h.free_in hbmem
          have hclear := R.clear hin
          have hfits := R.fits
          have h16 := h.canonical.size_ge hbmem
          have hpos := R.base_pos
          have hlen := h.length_lt
          rw [List.length_append] at hlen
          have hlt := allocTotal_lt n
          unfold Block.fin at hin hclear
          refine allocLoop_fit (fun _ _ => trivial) hpre hb loopBound 0 _ (by omega) h.chain ?_
          apply allocFit_returns R.heap
          intro m' j hj n'
          exact latePart_alloc (by omega) (by omega) (by omega) hj n'
        · have hall : ∀ b ∈ free, b.size < allocTotal n := by simpa using hfit
          refine allocLoop_none (fun _ _ => trivial) hall ?_ loopBound 0 _ h.length_lt h.chain
          show ∀ j, j ≠ 1 →
            ∀ n', LatePart R (.malloc n) ((allocFinish R.heap (allocTotal n) 0).after j n').1
          rw [allocFinish, if_pos rfl]
          exact hnothing
  | free p =>
    unfold HeapCall.listPart
    rw [wp_bind]
    rcases hadm with rfl | ⟨a, ha, rfl⟩
    · exact hnothing
    · apply wp_mono (wp_access (h.free_run hsize ha) fun _ _ => trivial)
      rintro _ m' ⟨rfl, -⟩ j hj n'
      exact latePart_free hj n'

/-- **Outside its two critical sections a call waits** for other blocks to be freed. -/
theorem HeapInv.waiting_of_outside (h : HeapInv R s.mem s.live free) (hsize : R.size < 2 ^ 32)
    (hadm : Admissible s c.event) (hout : Outside R.heap c s.mem k) :
    Waiting R c ((c.prog R.heap).after k s.mem).1 ⟨((c.prog R.heap).after k s.mem).2, s.live⟩ := by
  rcases hout with hk | ⟨hk, hlast⟩
  · left
    cases c with
    | malloc n =>
      obtain ⟨q, hq, hwait⟩ := h.malloc_waitsEarly hsize hadm hk
      show WaitsEarly R _ ((malloc R.heap n).after k s.mem).1
        ⟨((malloc R.heap n).after k s.mem).2, s.live⟩
      rw [hq]
      exact hwait
    | free p =>
      obtain ⟨q, hq, hwait⟩ := h.free_waitsEarly hsize hadm hk
      rw [hq]
      exact hwait
  · right
    obtain ⟨rest, m₁, hlist, hlate⟩ := wp_exec (h.listPart_wp hsize hadm)
    obtain ⟨x, m', free', hexec, h'⟩ := h.completes hsize hadm
    have hpart : LatePart R c ((c.prog R.heap).after k s.mem).1 := by
      by_cases hj : k = c.listSteps R.heap s.mem + 1
      · rw [after_end hexec (hlast hj)]
        exact latePart_ret x
      · rw [c.prog_eq, after_bind hlist hk]
        unfold HeapCall.listSteps at hk hj
        exact hlate _ (by omega) _
    obtain ⟨x', f, new, hq, hpatch, hcredit, hnew⟩ := hpart
    -- resumed at once, the call ends as if it had not been interrupted
    have hall := exec_after (c.prog R.heap) k s.mem
    rw [hexec, hq] at hall
    injection hall with hx hm
    subst hx hm
    refine ⟨x', f, new, free', hq, hpatch, hcredit, h', ?_⟩
    intro a ha
    obtain ⟨hx, hptr, rfl⟩ := hnew a ha
    have hlive : (HeapCall.malloc a.n).live x' s.live = a :: s.live := by
      show (if x' = 0 then s.live else ⟨x', a.n⟩ :: s.live) = _
      rw [if_neg hx, ← hptr]
    rw [hlive] at h' ⊢
    refine ⟨List.mem_cons_self, ?_⟩
    intro b hb hba
    exact (List.nodup_cons.mp h'.ptrs_nodup).1 (List.mem_map.mpr ⟨b, hb, hba⟩)

/-! ## A lost update -/

/-- A good heap is not good with another number in `free_bytes`. -/
theorem HeapInv.wrong_bytes (h : HeapInv R m live free) {v : Nat} (hv : v < 2 ^ 64)
    (hne : v ≠ total free)
    (free' : List Block) : ¬ HeapInv R (m.store 8 (heapFreeBytes R.heap) v) live free' := by
  have hblock : ∀ a ∈ live, usedBlock (m.store 8 (heapFreeBytes R.heap) v) a = usedBlock m a := by
    intro a ha
    refine ((h.used a ha).congr ?_).2
    intro x h1 h2
    have hclear := R.clear (h.live_in ha)
    have hsz := (h.used a ha).size_ge
    unfold Block.fin at hclear
    unfold usedHeaderSize at hsz
    exact Mem.store_apply_out (by unfold heapFreeBytes; omega)
  intro h'
  obtain ⟨-, hsame⟩ := h.same_of_mem h' (fun _ => Iff.rfl) hblock
  unfold freeByteCount at hsame
  rw [Mem.load8_store8 hv, h.freeBytes] at hsame
  exact hne hsame.symm

/-- **Between the load and the store of `free_bytes`** a `free` of another block is forgotten: its
bytes are on the list, but not in the sum. -/
theorem HeapInv.lost_update (h : HeapInv R m live free) (hsize : R.size < 2 ^ 32) (ha : a ∈ live)
    {b : Alloc} (hb : b ∈ live) (hne : b.ptr ≠ a.ptr) :
    ∃ q mk m₁ m₂, (HeapCall.prog R.heap (.free a.ptr)).after
        (HeapCall.listSteps R.heap (.free a.ptr) m + 1) m = (q, mk) ∧
      (ZHyper.free R.heap b.ptr).exec mk = .ret () m₁ ∧ q.exec m₁ = .ret 0 m₂ ∧
      ∀ free', ¬ HeapInv R m₂ (dropLive a.ptr (dropLive b.ptr live)) free' := by
  obtain ⟨_, m₁, hexec, rfl, hbytes, free₁, h₁, htot₁⟩ := wp_exec (h.free_run hsize ha)
  have hb₁ : b ∈ dropLive a.ptr live := mem_dropLive.mpr ⟨hb, hne⟩
  have hoff := wp_access (h₁.free_run hsize hb₁) fun _ hacc =>
    h₁.listAccess_within hb₁ (fun _ (hd : _ ∈ (none : Option Alloc)) => by cases hd) hacc
  obtain ⟨_, n', hexec', -, rfl, -, free₂, h₂, htot₂⟩ :=
    (patch_credit R.heap _ none).exec_patch hoff
  have hpos := (h₁.used b hb₁).pos
  -- the sizes of the two blocks
  generalize (usedBlock m a).size = d at hexec h₁ htot₁ hexec' h₂ htot₂ hpos
  generalize (usedBlock (credit R.heap d m₁) b).size = e at hexec' h₂ htot₂ hpos
  have hlist : (HeapCall.listPart R.heap (.free a.ptr)).exec m =
      .ret (addFreeBytes R.heap d >>= fun _ => pure 0) m₁ := exec_bind hexec
  refine ⟨.store 8 (heapFreeBytes R.heap) ((total free + d) % 2 ^ 64) (pure 0), m₁,
    credit R.heap e n',
    (credit R.heap e n').store 8 (heapFreeBytes R.heap) ((total free + d) % 2 ^ 64), ?_, ?_, rfl,
    ?_⟩
  · unfold HeapCall.listSteps
    rw [HeapCall.prog_eq, after_bind hlist (Nat.le_add_right _ _), Nat.add_sub_cancel_left,
      ← hbytes]
    rfl
  · unfold ZHyper.free
    rw [miniheapFree_eq, exec_bind hexec']
    exact addFreeBytes_exec _ _ _
  · intro free'
    have htot := h₂.total_le
    have hfits := R.fits
    have hlive : dropLive a.ptr (dropLive b.ptr live) = dropLive b.ptr (dropLive a.ptr live) :=
      List.filter_comm _ _ _
    have hv : (total free + d) % 2 ^ 64 ≠ total free₂ := by
      rw [Nat.mod_eq_of_lt (by omega)]
      omega
    rw [hlive, store_credit, ← store_credit R.heap d, ← store_credit R.heap e]
    exact h₂.wrong_bytes (Nat.mod_lt _ (by decide)) hv free'

end

end ZHyper
