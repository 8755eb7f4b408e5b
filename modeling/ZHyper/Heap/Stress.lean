import Mathlib.Data.List.Perm.Basic
import ZHyper.Heap.Dump
import ZHyper.Lib.StateProg
import ZHyper.Libc.Rand

/-!
# `miniheap_reliability_stress_test`: the test

The stress test is a client of the heap: 20000 rounds of `malloc`s and `free`s that the random
numbers choose, with the bytes of every allocation set and checked.  Here are the test, what filling
and checking a pattern do to the heap's memory, and the allocations that the slots stand for.
-/

namespace ZHyper

open LowLevel LowLevel.Prog

/-! ## The test -/

def stressSlotCount : Nat := 128
def stressIterations : Nat := 20000
def stressMaxAlloc : Nat := 512

/-- `stress_slot_t` -/
structure StressSlot where
  ptr : Nat
  size : Nat
  pattern : Nat

def StressSlot.clear : StressSlot := ⟨0, 0, 0⟩

/-- `g_slots`, the state of `rand` and the counters. -/
structure StressState where
  slots : List StressSlot
  next : BitVec 64
  allocOk : UInt32
  allocFail : UInt32
  freeOk : UInt32
  verifyOk : UInt32

abbrev Stress : Type → Type := StateT StressState Prog

/-- `for (i; n > 0; i++, n--) bytes[i] = pattern;` -/
def fillFrom (ptr pattern : Nat) : (n i : Nat) → Prog Unit
  | 0, _ => pure ()
  | n + 1, i => do
    write 1 (ptr + i) pattern
    fillFrom ptr pattern n (i + 1)

def fillPattern (ptr size pattern : Nat) : Prog Unit := fillFrom ptr pattern size 0

/-- `for (i; n > 0; i++, n--) if (bytes[i] != pattern) return -1;` -/
def verifyFrom (ptr pattern : Nat) : (n i : Nat) → Prog Int
  | 0, _ => pure 0
  | n + 1, i => do
    let b ← read 1 (ptr + i)
    if b ≠ pattern then return -1
    else verifyFrom ptr pattern n (i + 1)

def verifyPattern (ptr size pattern : Nat) : Prog Int := verifyFrom ptr pattern size 0

def stressRand : Stress Int := do
  let s ← get
  let (r, next) := rand.run s.next
  set { s with next := next }
  return r

/-- The loop of `find_slot`. -/
def findSlotFrom (findUsed : Bool) (slots : List StressSlot) (start : Nat) : (n i : Nat) → Int
  | 0, _ => -1
  | n + 1, i =>
    let idx := (start + i) % stressSlotCount
    let used := (slots.getD idx .clear).ptr != 0
    if (findUsed && used) || (!findUsed && !used) then idx
      else findSlotFrom findUsed slots start n (i + 1)

def findSlot (findUsed : Bool) : Stress Int := do
  let r ← stressRand
  let s ← get
  return findSlotFrom findUsed s.slots (r % stressSlotCount).toNat stressSlotCount 0

/-- `if (verify_pattern(...) != 0) panic(msg); verify_ok++;` -/
def verifySlot (slot : Nat) (msg : String) : Stress Unit := do
  let s ← get
  let sl := s.slots.getD slot .clear
  let bad ← liftM (verifyPattern sl.ptr sl.size sl.pattern)
  if bad ≠ 0 then liftM (Prog.panic msg : Prog Unit)
  else modify fun s => { s with verifyOk := s.verifyOk + 1 }

/-- What stands at three places with three messages: check the slot, free it and clear it. -/
def releaseSlot (g slot : Nat) (msg : String) : Stress Unit := do
  verifySlot slot msg
  let s ← get
  liftM (free g (s.slots.getD slot .clear).ptr)
  modify fun s => { s with slots := s.slots.set slot .clear, freeOk := s.freeOk + 1 }

/-- `malloc` into a slot, and the pattern into the allocation. -/
def allocSlot (g iter slot : Nat) : Stress Unit := do
  let r ← stressRand
  let size := (r % stressMaxAlloc).toNat + 1
  let pattern := ((iter + slot) % 2 ^ 32 &&& 0x7F) + 1
  let ptr ← liftM (malloc g size)
  if ptr = 0 then modify fun s => { s with allocFail := s.allocFail + 1 }
  else
    liftM (fillPattern ptr size pattern)
    modify fun s =>
      { s with slots := s.slots.set slot ⟨ptr, size, pattern⟩, allocOk := s.allocOk + 1 }

/-- `find_slot(0)`, or a used slot that is freed for it. -/
def freeSlotFor (g : Nat) : Stress Int := do
  let slot ← findSlot false
  if slot < 0 then
    let slot ← findSlot true
    if 0 ≤ slot then
      releaseSlot g slot.toNat "miniheap stress: data corrupted before forced free"
      return slot
    else return slot
  else return slot

/-- The half of a round that allocates, -/
def stressAlloc (g iter : Nat) : Stress Unit := do
  let slot ← freeSlotFor g
  if 0 ≤ slot then allocSlot g iter slot.toNat else return ()

/-- the half that frees, -/
def stressFree (g : Nat) : Stress Unit := do
  let slot ← findSlot true
  if 0 ≤ slot then releaseSlot g slot.toNat "miniheap stress: data corrupted before free"
    else return ()

/-- which of the two, -/
def stressChoice (g iter : Nat) : Stress Unit := do
  let r ← stressRand
  if r % 100 < 65 then stressAlloc g iter else stressFree g

/-- and the checks of every 256th round. -/
def stressVerify : Stress Unit := do
  let slot ← findSlot true
  if 0 ≤ slot then verifySlot slot.toNat "miniheap stress: periodic verify failed" else return ()

def stressFreeBytes (g : Nat) : Stress Unit := do
  let freeBytes ← liftM (read 8 (heapFreeBytes g))
  let size ← liftM (read 8 (heapSize g))
  if freeBytes > size then liftM (Prog.panic "miniheap stress: invalid free_bytes" : Prog Unit)
    else return ()

def stressCheck (g : Nat) : Stress Unit := do
  stressVerify
  stressFreeBytes g

def stressRound (g iter : Nat) : Stress Unit := do
  stressChoice g iter
  if iter % 256 = 0 then stressCheck g else return ()

def stressCleanup (g i : Nat) : Stress Unit := do
  let s ← get
  if (s.slots.getD i .clear).ptr ≠ 0 then
    releaseSlot g i "miniheap stress: data corrupted in cleanup" else return ()

/-- The slots cleared and `srand(tick_el2() ^ 0xA5A55A5A)`. -/
def stressStart (tick : BitVec 64) : Stress Unit := do
  let s ← get
  let (_, next) := (srand (tick.setWidth 32 ^^^ 0xA5A55A5A)).run s.next
  set (⟨List.replicate stressSlotCount .clear, next, 0, 0, 0, 0⟩ : StressState)

/-- All up to the last check. -/
def stressRounds (g : Nat) (tick : BitVec 64) : Stress Unit := do
  stressStart tick
  forUp (stressRound g) stressIterations 0
  forUp (stressCleanup g) stressSlotCount 0

/-- The last check, and the dump of both branches. -/
def stressFinish (g : Nat) : Prog HeapDump := do
  let freeBytes ← read 8 (heapFreeBytes g)
  let size ← read 8 (heapSize g)
  if freeBytes ≠ size then
    let _ ← dumpMiniheap g
    Prog.panic "miniheap stress: heap bytes not fully recovered"
  else dumpMiniheap g

def miniheapReliabilityStressTest (g : Nat) (tick : BitVec 64) : Stress HeapDump := do
  stressRounds g tick
  liftM (stressFinish g)

/-! ## Bytes -/

/-- The writes of `fill_pattern`, as events of the heap's users. -/
def fillEvents (p pattern n i : Nat) : List HeapEvent :=
  (List.range' i n).map fun j => .write p j (UInt8.ofNat pattern)

theorem ownerByte_fill_other {p q pattern n i j : Nat} {v : UInt8} (hq : q ≠ p) :
    ownerByte q j v (fillEvents p pattern n i) = v := by
  unfold fillEvents
  induction n generalizing i v with
  | zero => rfl
  | succ n ih =>
    rw [List.range'_succ, List.map_cons, ownerByte, ih]
    simp [ownWrite, hq.symm]

theorem ownerByte_fill {p pattern n i j : Nat} {v : UInt8} :
    ownerByte p j v (fillEvents p pattern n i) = if i ≤ j ∧ j < i + n then UInt8.ofNat pattern
      else v := by
  unfold fillEvents
  induction n generalizing i v with
  | zero =>
    rw [if_neg (by omega)]
    rfl
  | succ n ih =>
    rw [List.range'_succ, List.map_cons, ownerByte, ih]
    by_cases hij : i = j
    · subst hij
      rw [if_neg (by omega), if_pos (by omega)]
      simp [ownWrite]
    · have hrest : (i + 1 ≤ j ∧ j < i + 1 + n) ↔ (i ≤ j ∧ j < i + (n + 1)) := by omega
      rw [if_congr hrest rfl rfl]
      simp [ownWrite, hij]

theorem store_one (m : Mem) (a v : Nat) : m.store 1 a v = Function.update m a (UInt8.ofNat v) := by
  funext x
  by_cases h : x = a
  · subst h
    have := Mem.store_apply_in (m := m) (w := 1) (a := x) (v := v) (i := 0) (by decide)
    simpa using this
  · rw [Function.update_of_ne h, Mem.store_apply_out (by omega)]

theorem load_one (m : Mem) (a : Nat) : m.load 1 a = (m a).toNat := by
  simp [Mem.load]

/-- `fill_pattern` writes inside an allocation. -/
theorem fillFrom_wp (heap : Nat) {p pattern size : Nat} {live : List Alloc} (ha : ⟨p, size⟩ ∈ live)
    {n i : Nat} {m : Mem} (hi : i + n ≤ size) : (fillFrom p pattern n i).wp (fun _ => True)
      (fun _ m' => Runs (HeapStep heap) ⟨m, live⟩ (fillEvents p pattern n i) ⟨m', live⟩) m := by
  induction n generalizing i m with
  | zero => exact .nil _
  | succ n ih =>
    rw [fillFrom]
    simp only [wp_bind, wp_write]
    refine ⟨trivial, wp_mono (ih (by omega)) fun _ m' h => ?_⟩
    rw [store_one] at h
    have hlt : i < size := by omega
    have hstep : HeapStep heap ⟨m, live⟩ (.write p i (UInt8.ofNat pattern)) _ :=
      .write ⟨_, ha, rfl, hlt⟩
    show Runs (HeapStep heap) _ ((List.range' i (n + 1)).map _) _
    rw [List.range'_succ, List.map_cons]
    exact .cons hstep h

/-- The bytes of a slot's allocation are its pattern. -/
def StressSlot.Filled (m : Mem) (sl : StressSlot) : Prop :=
  sl.pattern < 256 ∧ ∀ i, i < sl.size → m (sl.ptr + i) = UInt8.ofNat sl.pattern

theorem verifyFrom_wp {p pattern n i : Nat} {m : Mem} (hpattern : pattern < 256)
    (h : ∀ j, i ≤ j → j < i + n → m (p + j) = UInt8.ofNat pattern) :
    (verifyFrom p pattern n i).wp (fun _ => True) (fun r m' => r = 0 ∧ m' = m) m := by
  induction n generalizing i with
  | zero => exact ⟨rfl, rfl⟩
  | succ n ih =>
    have hb : m.load 1 (p + i) = pattern := by
      rw [load_one, h i (Nat.le_refl i) (by omega)]
      exact UInt8.toNat_ofNat_of_lt' hpattern
    rw [verifyFrom]
    simp only [wp_bind, wp_read]
    refine ⟨trivial, ?_⟩
    rw [hb, if_neg (not_not_intro rfl)]
    exact ih fun j h1 h2 => h j (by omega) (by omega)

/-! ## Slots -/

/-- The allocation of a slot. -/
def StressSlot.alloc (sl : StressSlot) : Option Alloc :=
  if sl.ptr = 0 then none else some ⟨sl.ptr, sl.size⟩

def slotAllocs (slots : List StressSlot) : List Alloc := slots.filterMap StressSlot.alloc

section slots
variable {slots : List StressSlot} {i : Nat} {sl sl' : StressSlot}

theorem slotAllocs_set (hi : i < slots.length) (sl' : StressSlot) :
    (slotAllocs (slots.set i sl')).Perm (sl'.alloc.toList ++ slotAllocs (slots.eraseIdx i)) := by
  have h := (List.set_perm_cons_eraseIdx hi sl').filterMap StressSlot.alloc
  rw [List.filterMap_cons] at h
  unfold slotAllocs
  cases ha : sl'.alloc with
  | none => simpa [ha] using h
  | some a => simpa [ha] using h

theorem slotAllocs_get (hi : slots[i]? = some sl) :
    (slotAllocs slots).Perm (sl.alloc.toList ++ slotAllocs (slots.eraseIdx i)) := by
  obtain ⟨hlt, hget⟩ := List.getElem?_eq_some_iff.mp hi
  have h := slotAllocs_set hlt sl
  rwa [← hget, List.set_getElem_self, hget] at h

theorem alloc_of_ne (h : sl.ptr ≠ 0) : sl.alloc = some ⟨sl.ptr, sl.size⟩ := if_neg h

theorem alloc_of_eq (h : sl.ptr = 0) : sl.alloc = none := if_pos h

theorem mem_slotAllocs (h : sl ∈ slots) (hptr : sl.ptr ≠ 0) :
    ⟨sl.ptr, sl.size⟩ ∈ slotAllocs slots :=
  List.mem_filterMap.mpr ⟨sl, h, alloc_of_ne hptr⟩

theorem getD_of_get (hi : slots[i]? = some sl) : slots.getD i .clear = sl := by
  rw [List.getD_eq_getElem?_getD, hi]
  rfl

/-- What `find_slot` finds is a slot of the kind that it looks for. -/
theorem findSlotFrom_spec (findUsed : Bool) (start n i : Nat)
    (hlen : slots.length = stressSlotCount) :
    findSlotFrom findUsed slots start n i < 0 ∨
      ∃ j sl, findSlotFrom findUsed slots start n i = (j : Nat) ∧
      slots[j]? = some sl ∧ (sl.ptr != 0) = findUsed := by
  induction n generalizing i with
  | zero => exact Or.inl (by decide : (-1 : Int) < 0)
  | succ n ih =>
    rw [findSlotFrom]
    have hlt : (start + i) % stressSlotCount < slots.length := by
      rw [hlen]
      exact Nat.mod_lt _ (by decide)
    have hget := List.getElem?_eq_getElem hlt
    rw [getD_of_get hget]
    split
    · next hfound =>
      refine Or.inr ⟨_, _, rfl, hget, ?_⟩
      revert hfound
      cases findUsed <;> simp
    · exact ih _

end slots

end ZHyper
