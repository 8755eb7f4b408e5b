import ZHyper.Heap.Stress
import ZHyper.Lib.Interrupts

/-!
# `miniheap_reliability_stress_test`: its result

Whatever the random numbers are, the test finds nothing wrong in a heap that others have used
properly.  Its invariant is that the live allocations are those of the slots and those of the
others, with their bytes (`StressInv`); every function of the test keeps it, and the cleanup leaves
the others' allocations alone:

    the test returns iff nothing was live, and panics over the bytes not recovered otherwise
                                                                              (stress_test_result)
-/

namespace ZHyper

open LowLevel LowLevel.Prog

/-! ## The invariant -/

/-- The live allocations are those of the slots and those of others; the bytes of both are as their
owners left them. -/
structure StressInv (R : Region) (s₀ : HeapSys) (st : StressState) (m : Mem) : Prop where
  live : ∃ live, HeapReachable R ⟨m, live⟩ ∧ live.Perm (slotAllocs st.slots ++ s₀.live)
  others : ∀ a ∈ s₀.live, ∀ i, i < a.n → m (a.ptr + i) = s₀.mem (a.ptr + i)
  filled : ∀ sl ∈ st.slots, sl.ptr ≠ 0 → sl.Filled m
  length : st.slots.length = stressSlotCount
  counts : st.allocOk = st.freeOk + UInt32.ofNat (slotAllocs st.slots).length

theorem HeapReachable.step {R : Region} {s s' : HeapSys} {e : HeapEvent} (h : HeapReachable R s)
    (hs : HeapStep R.heap s e s') : HeapReachable R s' := by
  obtain ⟨s₀, es, h0, hruns⟩ := h
  exact ⟨s₀, es ++ [e], h0, hruns.append (.single hs)⟩

theorem HeapReachable.runs {R : Region} {s s' : HeapSys} {es : List HeapEvent}
    (h : HeapReachable R s)
    (hs : Runs (HeapStep R.heap) s es s') : HeapReachable R s' := by
  obtain ⟨s₀, es₀, h0, hruns⟩ := h
  exact ⟨s₀, es₀ ++ es, h0, hruns.append hs⟩

section spec
variable {R : Region} {s₀ : HeapSys} {st : StressState} {m : Mem} {i iter : Nat} {sl : StressSlot}
    {msg : String}

/-- The allocations kept by a step keep their bytes, and with them the slots. -/
theorem StressInv.keeps {live live' : List Alloc} {m' : Mem} {slots : List StressSlot}
    (h : StressInv R s₀ st m) (hlive : live.Perm (slotAllocs st.slots ++ s₀.live))
    (hlive' : live'.Perm (slotAllocs slots ++ s₀.live))
    (hbytes : ∀ a ∈ live, a ∈ live' → ∀ i, i < a.n → m' (a.ptr + i) = m (a.ptr + i)) :
    (∀ a ∈ s₀.live, ∀ i, i < a.n → m' (a.ptr + i) = s₀.mem (a.ptr + i)) ∧
      ∀ sl ∈ st.slots, sl.ptr ≠ 0 → ⟨sl.ptr, sl.size⟩ ∈ live' → sl.Filled m' := by
  refine ⟨fun a ha i hi => ?_, fun sl hsl hptr hmem => ?_⟩
  · have h1 : a ∈ live := hlive.mem_iff.mpr (List.mem_append_right _ ha)
    have h2 : a ∈ live' := hlive'.mem_iff.mpr (List.mem_append_right _ ha)
    rw [hbytes a h1 h2 i hi]
    exact h.others a ha i hi
  · have h1 : ⟨sl.ptr, sl.size⟩ ∈ live :=
      hlive.mem_iff.mpr (List.mem_append_left _ (mem_slotAllocs hsl hptr))
    obtain ⟨hpattern, hfilled⟩ := h.filled sl hsl hptr
    refine ⟨hpattern, fun i hi => ?_⟩
    rw [hbytes _ h1 hmem i hi]
    exact hfilled i hi

/-- `rand` changes its own state only, and returns something from 0 on. -/
theorem stressRand_swp {Q : Int → StressState → Mem → Prop}
    (h : ∀ r next, 0 ≤ r → Q r { st with next := next } m) : swp Q stressRand st m := by
  have hr := rand_run st.next
  unfold stressRand
  rw [swp_bind, swp_get, hr]
  exact h _ _ (Int.natCast_nonneg _)

theorem findSlot_swp {findUsed : Bool} {Q : Int → StressState → Mem → Prop}
    (hlen : st.slots.length = stressSlotCount)
    (hnone : ∀ r next, r < 0 → Q r { st with next := next } m)
    (hsome : ∀ (j : Nat) sl next, st.slots[j]? = some sl → (sl.ptr != 0) = findUsed →
      Q j { st with next := next } m) :
    swp Q (findSlot findUsed) st m := by
  unfold findSlot
  rw [swp_bind]
  refine stressRand_swp fun r next _ => ?_
  rw [swp_bind, swp_get, swp_pure]
  rcases findSlotFrom_spec findUsed (r % stressSlotCount).toNat stressSlotCount 0
    hlen with hneg | ⟨j, sl, hj, hget, hused⟩
  · exact hnone _ next hneg
  · show Q (findSlotFrom findUsed st.slots _ stressSlotCount 0) _ m
    rw [hj]
    exact hsome j sl next hget hused

theorem verifySlot_swp {Q : Unit → StressState → Mem → Prop} (h : StressInv R s₀ st m)
    (hi : st.slots[i]? = some sl) (hptr : sl.ptr ≠ 0)
    (hQ : Q () { st with verifyOk := st.verifyOk + 1 } m) :
      swp Q (verifySlot i msg) st m := by
  obtain ⟨hpattern, hfilled⟩ := h.filled sl (List.mem_of_getElem? hi) hptr
  unfold verifySlot
  rw [swp_bind, swp_get, getD_of_get hi, swp_bind, swp_lift]
  refine wp_mono (verifyFrom_wp hpattern fun j _ hj => hfilled j (by omega)) ?_
  rintro r m' ⟨rfl, rfl⟩
  rw [if_neg (not_not_intro rfl), swp_modify]
  exact hQ

/-- One of the live allocations goes, the others stay. -/
theorem dropLive_perm {live rest : List Alloc} {a : Alloc} (hnodup : (live.map Alloc.ptr).Nodup)
    (h : live.Perm (a :: rest)) : (dropLive a.ptr live).Perm rest := by
  have hnd := (h.map Alloc.ptr).nodup_iff.mp hnodup
  rw [List.map_cons, List.nodup_cons] at hnd
  refine (h.filter _).trans ?_
  rw [List.filter_cons_of_neg (by simp), List.filter_eq_self.mpr]
  intro b hb
  exact decide_eq_true fun hp => hnd.1 (hp ▸ List.mem_map_of_mem hb)

theorem ofNat_succ32 (n : Nat) : UInt32.ofNat (n + 1) = UInt32.ofNat n + 1 := UInt32.ofNat_add n 1

/-- The slot of a live allocation is freed. -/
theorem releaseSlot_swp (hsize : R.size < 2 ^ 32) (h : StressInv R s₀ st m)
    (hi : st.slots[i]? = some sl) (hptr : sl.ptr ≠ 0) :
    swp (fun _ st' m' => StressInv R s₀ st' m' ∧ st'.slots = st.slots.set i .clear)
      (releaseSlot R.heap i msg) st m := by
  obtain ⟨live, hreach, hlive⟩ := h.live
  obtain ⟨free, hinv⟩ := reachable_inv hsize hreach
  have hlt : i < st.slots.length := (List.getElem?_eq_some_iff.mp hi).1
  have hslots := slotAllocs_get hi
  rw [alloc_of_ne hptr] at hslots
  have hrest : (slotAllocs (st.slots.set i .clear)).Perm (slotAllocs (st.slots.eraseIdx i)) :=
    slotAllocs_set hlt _
  have hlive₁ : live.Perm (⟨sl.ptr, sl.size⟩ :: (slotAllocs (st.slots.set i .clear) ++ s₀.live)) :=
    hlive.trans ((hslots.trans (hrest.symm.cons _)).append_right _)
  have hlive' := dropLive_perm hinv.ptrs_nodup hlive₁
  have hmem : ⟨sl.ptr, sl.size⟩ ∈ live := hlive₁.mem_iff.mpr List.mem_cons_self
  obtain ⟨s', hstep⟩ := heapStep_exists hsize ⟨free, hinv⟩ (.free sl.ptr) (Or.inr ⟨_, hmem, rfl⟩)
  have hreach' := hreach.step hstep
  -- the allocations that stay keep their bytes
  have hbytes : ∀ a ∈ live, a ∈ dropLive sl.ptr live → ∀ i, i < a.n →
      s'.mem (a.ptr + i) = m (a.ptr + i) := by
    intro a ha hdrop
    have hne : HeapEvent.free sl.ptr ≠ .free a.ptr := fun he =>
      (mem_dropLive.mp hdrop).2 (HeapEvent.free.inj he).symm
    exact (payload_step hsize ⟨free, hinv⟩ hstep ha hne).2.2
  have hcount : st.allocOk = st.freeOk + 1 + UInt32.ofNat
      (slotAllocs (st.slots.set i .clear)).length := by
    rw [h.counts, hslots.length_eq, hrest.length_eq, Option.toList_some, List.singleton_append,
      List.length_cons, ofNat_succ32]
    ac_rfl
  cases hstep with
  | free _ he =>
    obtain ⟨hothers, hfilled⟩ := h.keeps hlive hlive' hbytes
    unfold releaseSlot
    rw [swp_bind]
    refine verifySlot_swp h hi hptr ?_
    rw [swp_bind, swp_get, swp_bind, swp_lift, getD_of_get hi]
    refine wp_mono (wp_of_exec he) ?_
    rintro _ _ ⟨-, rfl⟩
    refine (swp_modify _).mpr
      ⟨⟨⟨_, hreach', hlive'⟩, hothers, fun sl' hsl' hptr' => ?_, ?_, hcount⟩, rfl⟩
    · have hmem' : sl' ∈ st.slots := (List.mem_or_eq_of_mem_set hsl').resolve_right fun hc =>
        hptr' (hc ▸ rfl)
      exact hfilled sl' hmem' hptr'
        (hlive'.mem_iff.mpr (List.mem_append_left _ (mem_slotAllocs hsl' hptr')))
    · exact (List.length_set ..).trans h.length

/-- A free slot gets an allocation with its pattern, or there is no memory for one. -/
theorem allocSlot_swp (hsize : R.size < 2 ^ 32) (h : StressInv R s₀ st m)
    (hi : st.slots[i]? = some sl) (hptr : sl.ptr = 0) :
      swp (fun _ st' m' => StressInv R s₀ st' m') (allocSlot R.heap iter i) st m := by
  obtain ⟨live, hreach, hlive⟩ := h.live
  obtain ⟨free, hinv⟩ := reachable_inv hsize hreach
  have hlt : i < st.slots.length := (List.getElem?_eq_some_iff.mp hi).1
  unfold allocSlot
  rw [swp_bind]
  refine stressRand_swp fun r next hr => ?_
  have hmod : r % (stressMaxAlloc : Int) < 512 := Int.emod_lt_of_pos r (by decide)
  have hn : (r % stressMaxAlloc).toNat + 1 ≤ 512 := by omega
  generalize (r % stressMaxAlloc).toNat + 1 = n at hn ⊢
  have hpattern : ((iter + i) % 2 ^ 32 &&& 0x7F) + 1 < 256 := by
    have := Nat.and_le_right (n := (iter + i) % 2 ^ 32) (m := 0x7F)
    omega
  generalize ((iter + i) % 2 ^ 32 &&& 0x7F) + 1 = pattern at hpattern ⊢
  have hadm : Admissible ⟨m, live⟩ (.malloc n) := by
    show (n + 15) / 16 * 16 + 16 < 2 ^ 32
    omega
  obtain ⟨s', hstep⟩ := heapStep_exists hsize ⟨free, hinv⟩ (.malloc n) hadm
  have hreach' := hreach.step hstep
  have hbytes : ∀ a ∈ live, ∀ i, i < a.n → s'.mem (a.ptr + i) = m (a.ptr + i) := fun a ha =>
    (payload_step hsize ⟨free, hinv⟩ hstep ha nofun).2.2
  cases hstep with
  | malloc _ he =>
    rw [swp_bind, swp_lift]
    refine wp_mono (wp_of_exec he) ?_
    rintro p _ ⟨rfl, rfl⟩
    by_cases hp : p = 0
    · rw [if_pos hp] at hreach' ⊢
      obtain ⟨hothers, hfilled⟩ := h.keeps hlive hlive fun a ha _ => hbytes a ha
      refine (swp_modify _).mpr ⟨⟨live, hreach', hlive⟩, hothers, fun sl' hsl' hptr' =>
        ?_, h.length, h.counts⟩
      exact hfilled sl' hsl' hptr'
        (hlive.mem_iff.mpr (List.mem_append_left _ (mem_slotAllocs hsl' hptr')))
    · rw [if_neg hp] at hreach' ⊢
      rw [swp_bind, swp_lift]
      have hmem : (⟨p, n⟩ : Alloc) ∈ ⟨p, n⟩ :: live := List.mem_cons_self
      refine wp_mono (fillFrom_wp R.heap hmem (Nat.zero_add n).le) ?_
      intro _ m₂ hfill
      obtain ⟨free₁, hinv₁⟩ := reachable_inv hsize hreach'
      have hnodup := List.nodup_cons.mp hinv₁.ptrs_nodup
      have hnofree : ∀ q, HeapEvent.free q ∉ fillEvents p pattern n 0 := by
        intro q hq
        obtain ⟨j, -, hj⟩ := List.mem_map.mp hq
        cases hj
      have hslots := slotAllocs_get hi
      rw [alloc_of_eq hptr] at hslots
      have hset := slotAllocs_set hlt (⟨p, n, pattern⟩ : StressSlot)
      rw [alloc_of_ne hp] at hset
      have hlive' : (⟨p, n⟩ :: live : List Alloc).Perm
          (slotAllocs (st.slots.set i ⟨p, n, pattern⟩) ++ s₀.live) :=
        ((hlive.trans (hslots.append_right _)).cons _).trans (hset.symm.append_right _)
      have hbytes' : ∀ a ∈ live, a ∈ (⟨p, n⟩ :: live : List Alloc) → ∀ i, i < a.n →
          m₂ (a.ptr + i) = m (a.ptr + i) := by
        intro a ha ha' i hi
        have hne : a.ptr ≠ p := fun he => hnodup.1 (List.mem_map.mpr ⟨a, ha, he⟩)
        have hkept := (payload_run hsize hfill ⟨free₁, hinv₁⟩ ha' (hnofree _)).2 i hi
        exact hkept.trans ((ownerByte_fill_other hne).trans (hbytes a ha i hi))
      have hnew : (⟨p, n, pattern⟩ : StressSlot).Filled m₂ := by
        refine ⟨hpattern, fun j hj => ?_⟩
        have hbyte := (payload_run hsize hfill ⟨free₁, hinv₁⟩ List.mem_cons_self (hnofree _)).2 j hj
        exact hbyte.trans (ownerByte_fill.trans (if_pos ⟨Nat.zero_le j, by rwa [Nat.zero_add]⟩))
      obtain ⟨hothers, hfilled⟩ := h.keeps hlive hlive' hbytes'
      refine (swp_modify _).mpr ⟨⟨_, hreach'.runs hfill, hlive'⟩, hothers, fun sl' hsl' hptr' =>
        ?_, ?_, ?_⟩
      · rcases List.mem_or_eq_of_mem_set hsl' with hold | rfl
        · exact hfilled sl' hold hptr'
            (hlive'.mem_iff.mpr (List.mem_append_left _ (mem_slotAllocs hsl' hptr')))
        · exact hnew
      · exact (List.length_set ..).trans h.length
      · show st.allocOk + 1 = st.freeOk + UInt32.ofNat (slotAllocs (st.slots.set i _)).length
        rw [h.counts, hset.length_eq, hslots.length_eq, Option.toList_some, List.singleton_append,
          List.length_cons, ofNat_succ32]
        exact UInt32.add_assoc ..

/-- A slot was found where one was looked for. -/
theorem used_of_found (h : (sl.ptr != 0) = true) : sl.ptr ≠ 0 := bne_iff_ne.mp h

theorem unused_of_found (h : (sl.ptr != 0) = false) : sl.ptr = 0 := bne_eq_false_iff_eq.mp h

theorem StressInv.rand (h : StressInv R s₀ st m) (next : BitVec 64) :
    StressInv R s₀ { st with next := next } m :=
  ⟨h.live, h.others, h.filled, h.length, h.counts⟩

theorem StressInv.verified (h : StressInv R s₀ st m) :
    StressInv R s₀ { st with verifyOk := st.verifyOk + 1 } m :=
  ⟨h.live, h.others, h.filled, h.length, h.counts⟩

/-- The slot that a round allocates into is free. -/
theorem freeSlotFor_swp (hsize : R.size < 2 ^ 32) (h : StressInv R s₀ st m) :
    swp (fun r st' m' => StressInv R s₀ st' m' ∧
      (0 ≤ r → ∃ sl, st'.slots[r.toNat]? = some sl ∧ sl.ptr = 0))
      (freeSlotFor R.heap) st m := by
  unfold freeSlotFor
  rw [swp_bind]
  refine findSlot_swp h.length (fun r next hneg => ?_) fun j sl next hj hfree => ?_
  · rw [if_pos hneg, swp_bind]
    refine findSlot_swp h.length (fun r' next' hneg' => ?_) fun j sl next' hj hused => ?_
    · rw [if_neg (Int.not_le.mpr hneg'), swp_pure]
      exact ⟨(h.rand next).rand next', fun h0 => absurd h0 (Int.not_le.mpr hneg')⟩
    · rw [if_pos (Int.natCast_nonneg j), swp_bind]
      refine swp_mono (releaseSlot_swp hsize ((h.rand next).rand next') hj (used_of_found hused)) ?_
      rintro - st' m' ⟨h', hslots⟩
      rw [swp_pure]
      refine ⟨h', fun _ => ⟨.clear, ?_, rfl⟩⟩
      rw [hslots, Int.toNat_natCast]
      exact List.getElem?_set_self (List.getElem?_eq_some_iff.mp hj).1
  · rw [if_neg (Int.not_lt.mpr (Int.natCast_nonneg j)), swp_pure]
    exact ⟨h.rand next, fun _ => ⟨sl, by rwa [Int.toNat_natCast], unused_of_found hfree⟩⟩

theorem stressAlloc_swp (hsize : R.size < 2 ^ 32) (h : StressInv R s₀ st m) :
    swp (fun _ st' m' => StressInv R s₀ st' m') (stressAlloc R.heap iter) st m := by
  unfold stressAlloc
  rw [swp_bind]
  refine swp_mono (freeSlotFor_swp hsize h) ?_
  rintro r st' m' ⟨h', hslot⟩
  split
  · next h0 =>
    obtain ⟨sl, hi, hptr⟩ := hslot h0
    exact allocSlot_swp hsize h' hi hptr
  · exact h'

theorem stressFree_swp (hsize : R.size < 2 ^ 32) (h : StressInv R s₀ st m) :
    swp (fun _ st' m' => StressInv R s₀ st' m') (stressFree R.heap) st m := by
  unfold stressFree
  rw [swp_bind]
  refine findSlot_swp h.length (fun r next hneg => ?_) fun j sl next hj hused => ?_
  · rw [if_neg (Int.not_le.mpr hneg)]
    exact h.rand next
  · rw [if_pos (Int.natCast_nonneg j)]
    exact swp_mono (releaseSlot_swp hsize (h.rand next) hj (used_of_found hused)) fun _ _ _ h' =>
      h'.1

theorem stressChoice_swp (hsize : R.size < 2 ^ 32) (h : StressInv R s₀ st m) :
    swp (fun _ st' m' => StressInv R s₀ st' m') (stressChoice R.heap iter) st m := by
  unfold stressChoice
  rw [swp_bind]
  refine stressRand_swp fun r next _ => ?_
  split
  · exact stressAlloc_swp hsize (h.rand next)
  · exact stressFree_swp hsize (h.rand next)

theorem stressVerify_swp (h : StressInv R s₀ st m) :
    swp (fun _ st' m' => StressInv R s₀ st' m') stressVerify st m := by
  unfold stressVerify
  rw [swp_bind]
  refine findSlot_swp h.length (fun r next hneg => ?_) fun j sl next hj hused => ?_
  · rw [if_neg (Int.not_le.mpr hneg)]
    exact h.rand next
  · rw [if_pos (Int.natCast_nonneg j)]
    exact verifySlot_swp (h.rand next) hj (used_of_found hused) (h.rand next).verified

theorem stressFreeBytes_swp (hsize : R.size < 2 ^ 32) (h : StressInv R s₀ st m) :
    swp (fun _ st' m' => StressInv R s₀ st' m') (stressFreeBytes R.heap) st m := by
  obtain ⟨live, hreach, -⟩ := h.live
  obtain ⟨free, hinv⟩ := reachable_inv hsize hreach
  have hfree : m.load 8 (heapFreeBytes R.heap) = total free := hinv.freeBytes
  have hword : m.load 8 (heapSize R.heap) = R.size := hinv.sizeWord
  have hle : ¬ total free > R.size := Nat.not_lt.mpr hinv.total_le
  unfold stressFreeBytes
  rw [swp_bind, swp_lift, wp_read]
  refine ⟨trivial, ?_⟩
  rw [swp_bind, swp_lift, wp_read]
  refine ⟨trivial, ?_⟩
  rw [hfree, hword, if_neg hle]
  exact h

theorem stressRound_swp (hsize : R.size < 2 ^ 32) (h : StressInv R s₀ st m) :
    swp (fun _ st' m' => StressInv R s₀ st' m') (stressRound R.heap iter) st m := by
  unfold stressRound
  rw [swp_bind]
  refine swp_mono (stressChoice_swp hsize h) fun _ st' m' h' => ?_
  split
  · unfold stressCheck
    rw [swp_bind]
    exact swp_mono (stressVerify_swp h') fun _ _ _ h'' => stressFreeBytes_swp hsize h''
  · exact h'

/-- The cleanup frees the slots one after the other. -/
theorem stressCleanup_swp (hsize : R.size < 2 ^ 32) {i : Nat} (hi : i < stressSlotCount)
    (h : StressInv R s₀ st m ∧ ∀ j, j < i → (st.slots.getD j .clear).ptr = 0) :
    swp (fun _ st' m' => StressInv R s₀ st' m' ∧ ∀ j, j < i + 1 → (st'.slots.getD j .clear).ptr = 0)
      (stressCleanup R.heap i) st m := by
  have hlt : i < st.slots.length := h.1.length ▸ hi
  have hget := List.getElem?_eq_getElem hlt
  unfold stressCleanup
  rw [swp_bind, swp_get, getD_of_get hget]
  split
  · next hptr =>
    refine swp_mono (releaseSlot_swp hsize h.1 hget hptr) ?_
    rintro - st' m' ⟨h', hslots⟩
    refine ⟨h', fun j hj => ?_⟩
    rw [hslots]
    rcases Nat.lt_succ_iff_lt_or_eq.mp hj with hj | rfl
    · rw [List.getD_eq_getElem?_getD, List.getElem?_set_ne (Nat.ne_of_gt hj),
        ← List.getD_eq_getElem?_getD]
      exact h.2 j hj
    · rw [getD_of_get (List.getElem?_set_self hlt)]
      rfl
  · next hptr =>
    refine ⟨h.1, fun j hj => ?_⟩
    rcases Nat.lt_succ_iff_lt_or_eq.mp hj with hj | rfl
    · exact h.2 j hj
    · rw [getD_of_get hget]
      exact not_not.mp hptr

theorem srand_run (seed : BitVec 32) (next : BitVec 64) :
    (srand seed).run next = ((), seed.setWidth 64) := rfl

theorem stressInv_start (h : HeapReachable R s₀) (next : BitVec 64) :
    StressInv R s₀ ⟨List.replicate stressSlotCount .clear, next, 0, 0, 0, 0⟩ s₀.mem := by
  have hnone : slotAllocs (List.replicate stressSlotCount .clear) = [] := by
    rw [slotAllocs, List.filterMap_replicate]
    rfl
  refine ⟨⟨s₀.live, h, ?_⟩, fun _ _ _ _ => rfl, fun sl hsl hptr => ?_, List.length_replicate .., ?_⟩
  · rw [hnone]
    exact List.Perm.refl _
  · rw [List.eq_of_mem_replicate hsl] at hptr
    exact absurd rfl hptr
  · rw [hnone]
    rfl

/-- Up to the last check nothing goes wrong, and what the test has allocated is freed. -/
theorem stressRounds_swp (hsize : R.size < 2 ^ 32) (h : HeapReachable R s₀) (tick : BitVec 64)
    (st : StressState) :
    swp (fun _ st' m' => StressInv R s₀ st' m' ∧ slotAllocs st'.slots = [])
      (stressRounds R.heap tick) st s₀.mem := by
  unfold stressRounds stressStart
  rw [swp_bind, swp_bind, swp_get, srand_run, swp_set, swp_bind]
  refine swp_mono (swp_forUp (I := fun _ st m => StressInv R s₀ st m)
    (fun _ _ _ _ _ h' => stressRound_swp hsize h') (stressInv_start h _)) fun _ st' m' h' => ?_
  refine swp_mono (swp_forUp
    (I := fun i st m => StressInv R s₀ st m ∧ ∀ j, j < i → (st.slots.getD j .clear).ptr = 0)
    (fun i _ _ _ hi h' => stressCleanup_swp hsize (by omega) h') ⟨h', fun j hj => by omega⟩) ?_
  rintro - st'' m'' ⟨h'', hclear⟩
  refine ⟨h'', List.filterMap_eq_nil_iff.mpr fun sl hsl => ?_⟩
  obtain ⟨j, hj, hget⟩ := List.mem_iff_getElem.mp hsl
  have hptr := hclear j (by rw [Nat.zero_add, ← h''.length]; exact hj)
  rw [getD_of_get (List.getElem?_eq_getElem hj), hget] at hptr
  exact alloc_of_eq hptr

end spec

/-! ## The result -/

section result
variable {R : Region} {m : Mem} {live : List Alloc} {free : List Block}

/-- Where anything is live not all bytes are free. -/
theorem HeapInv.total_lt (h : HeapInv R m live free) (hlive : live ≠ []) : total free < R.size := by
  obtain ⟨a, ha⟩ := List.exists_mem_of_ne_nil live hlive
  obtain ⟨pre, post, rfl, -, -, g⟩ := h.gap ha
  obtain ⟨hpre, hpost, -⟩ := canonical_append.mp g.canonical
  have hbefore := hpre.total_le g.here.1 fun b hb =>
    ⟨(g.inRegion b (List.mem_append_left _ hb)).1, g.below b hb⟩
  have hafter := hpost.total_le g.here.2 fun b hb =>
    ⟨g.above b hb, (g.inRegion b (List.mem_append_right _ hb)).2⟩
  have hpos := g.block.1
  have hsum : total (pre ++ post) = total pre + total post := by simp [total]
  unfold Block.fin at hafter
  omega

/-- The last check is whether the heap is empty. -/
theorem HeapInv.finish_empty (h : HeapInv R m [] free) :
    (stressFinish R.heap).exec m = .ret ⟨R.base, R.size, R.size, [⟨R.base, R.size⟩]⟩ m := by
  obtain rfl := h.freeList_nil
  have htotal : total [⟨R.base, R.size⟩] = R.size := by simp [total]
  have hwp : (stressFinish R.heap).wp (fun _ => True)
      (fun d m' => d = ⟨R.base, R.size, R.size, [⟨R.base, R.size⟩]⟩ ∧ m' = m) m := by
    unfold stressFinish
    simp only [wp_bind, wp_read]
    refine ⟨trivial, trivial, ?_⟩
    rw [h.freeBytes, h.sizeWord, if_neg (not_not_intro htotal)]
    refine wp_mono (wp_access h.dump_wp fun _ _ => trivial) ?_
    rintro d m' ⟨rfl, rfl⟩
    rw [htotal]
    exact ⟨rfl, rfl⟩
  obtain ⟨d, m', he, rfl, rfl⟩ := wp_exec hwp
  exact he

theorem HeapInv.finish_live (h : HeapInv R m live free) (hlive : live ≠ []) :
    (stressFinish R.heap).exec m = .panic "miniheap stress: heap bytes not fully recovered" m := by
  obtain ⟨d, m', he, -, rfl⟩ := wp_exec h.dump_wp
  have hne : m'.load 8 (heapFreeBytes R.heap) ≠ m'.load 8 (heapSize R.heap) := by
    rw [h.freeBytes, h.sizeWord]
    exact Nat.ne_of_lt (h.total_lt hlive)
  unfold stressFinish
  rw [exec_read_bind, exec_read_bind, if_pos hne, exec_bind he]
  rfl

end result

/-- **The stress test.**  Whatever the heap has been used for and whatever the random numbers are,
the rounds find no byte changed, and up to the last check the test has freed all that it has
allocated, with what others hold keeping its bytes.  It returns, with one block in the dump, if
nothing was live at its start; if anything was, it panics over the bytes not recovered. -/
theorem stress_test_result (R : Region) (hsize : R.size < 2 ^ 32) (s : HeapSys)
    (h : HeapReachable R s) (st : StressState) (tick : BitVec 64) :
    ∃ st' m' live', HeapReachable R ⟨m', live'⟩ ∧ live'.Perm s.live ∧
      (∀ a ∈ s.live, ∀ i, i < a.n → m' (a.ptr + i) = s.mem (a.ptr + i)) ∧
      ((stressRounds R.heap tick).run st).exec s.mem = .ret ((), st') m' ∧
      st'.allocOk = st'.freeOk ∧
      ((miniheapReliabilityStressTest R.heap tick).run st).exec s.mem =
        if s.live = [] then .ret (⟨R.base, R.size, R.size, [⟨R.base, R.size⟩]⟩, st') m'
        else .panic "miniheap stress: heap bytes not fully recovered" m' := by
  obtain ⟨_, st', m', he, hinv, hempty⟩ := swp_exec (stressRounds_swp hsize h tick st)
  obtain ⟨live', hreach, hlive⟩ := hinv.live
  rw [hempty, List.nil_append] at hlive
  obtain ⟨free, hheap⟩ := reachable_inv hsize hreach
  refine ⟨st', m', live', hreach, hlive, hinv.others, he, ?_, ?_⟩
  · rw [hinv.counts, hempty]
    exact UInt32.add_zero _
  · unfold miniheapReliabilityStressTest
    rw [run_bind, exec_bind he, run_lift]
    split
    · next hnil =>
      rw [hnil] at hlive
      obtain rfl := hlive.eq_nil
      exact exec_bind hheap.finish_empty
    · next hne =>
      refine exec_bind_panic (hheap.finish_live ?_)
      rintro rfl
      exact hne hlive.symm.eq_nil

theorem stress_test_result_example :
    ∃ (s : HeapSys) (st' : StressState) (m' : Mem) (live' : List Alloc),
    HeapReachable exampleRegion s ∧ s.live = [⟨4112, 100⟩] ∧
    HeapReachable exampleRegion ⟨m', live'⟩ ∧
    ((stressRounds 64 0).run ⟨[], 0, 0, 0, 0, 0⟩).exec s.mem = .ret ((), st') m' ∧
    st'.allocOk = st'.freeOk ∧
    ((miniheapReliabilityStressTest 64 0).run ⟨[], 0, 0, 0, 0, 0⟩).exec s.mem =
      .panic "miniheap stress: heap bytes not fully recovered" m' := by
  obtain ⟨s, h, hl⟩ := exampleRegion_reachable
  obtain ⟨st', m', live', hreach, -, -, hrounds, hcount, hend⟩ :=
    stress_test_result exampleRegion (by decide) s h ⟨[], 0, 0, 0, 0, 0⟩ 0
  rw [if_neg (by rw [hl]; exact List.cons_ne_nil _ _)] at hend
  exact ⟨s, st', m', live', h, hl, hreach, hrounds, hcount, hend⟩

end ZHyper
