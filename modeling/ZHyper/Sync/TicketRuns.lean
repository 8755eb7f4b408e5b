import Mathlib.Data.Fintype.Card
import ZHyper.Sync.TicketLock

/-!
# Runs of the ticket lock

Any number of CPUs use one ticket lock, one instruction at a time in any order:

    the tickets, the calls and the returns are those of a fair lock   (ticket_lock_fair)
    two CPUs never have the lock                                      (ticket_lock_exclusive)
    a CPU whose ticket is served gets it, and waits for nothing       (spin_lock_served)
    the word tells who has a ticket, up to a wrap of the tickets      (spin_word_tells)

Who has a ticket, and when it took it and gave it back, is read off the machine (`Ticketed`,
`lockHistory`).
-/

namespace ZHyper

open LowLevel

section queue
variable {C : Type} [DecidableEq C]

/-! ## The lock and the machine -/

/-- The lock and the machine: the word is the queue, an idle CPU is outside or has the lock, and the
others know what they know at their instruction. -/
structure Spins (s : Multicore 32 C Bool LockOp) (a : FifoLock C) : Prop where
  shape : LockShape s.word a
  idle {c : C} : s.running c = none → a.phase c = if s.mode c then .inside else .idle
  note {c : C} {op : LockOp} : s.running c = some op → spinNote s.word a c op (s.core c)

omit [DecidableEq C] in
theorem spins_init {word : BitVec 32} (hword : spinValueUnlocked word = true) :
    Spins (.init word false : Multicore 32 C Bool LockOp) .init where
  shape := by
    refine ⟨FifoLock.ok_init, ?_⟩
    show lockNext word = (lockOwner word + 0) % 2 ^ 16
    rw [Nat.add_zero, Nat.mod_eq_of_lt (lockOwner_lt word)]
    exact (beq_iff_eq.mp hword).symm
  idle _ := rfl
  note h := by cases h

/-! ## Tickets and history on the machine -/

/-- CPU `c` has the lock or a ticket for it: it is past the exclusive store that took the ticket,
and not past the store that gives it back. -/
def Ticketed (s : Multicore 32 C Bool LockOp) (c : C) : Prop :=
  match s.running c with
  | none => s.mode c = true
  | some .lock => (s.core c).pc = 4 ∧ (s.core c).reg 2 = 0 ∨ 5 ≤ (s.core c).pc
  | some .trylock => 6 ≤ (s.core c).pc ∧ (s.core c).reg 1 = 0
  | some .unlock => (s.core c).pc < 3

/-- What an event of the machine is for the lock: a call, a return with the lock, without it or
after giving it back, or what the instruction is. -/
def lockHistory (s : Multicore 32 C Bool LockOp) : MachineEvent C LockOp Bool → List (FifoEvent C)
  | .call c op => [.call c op]
  | .ret c r => [if s.running c = some .unlock then .exit c else if r then .enter c else .fail c]
  | .exec c ok =>
    match s.running c with
    | none => []
    | some op =>
      match (spinRoutines.code op)[(s.core c).pc]? with
      | none => []
      | some i =>
        match i.exec s.word ok (s.core c) with
        | none => []
        | some (_, stored) => lockEvent c s.word op i stored
  | .lose _ => []

section notes
variable {word : BitVec 32} {a : FifoLock C} {c : C} {k : Core 32}

omit [DecidableEq C] in
theorem spinLock_waits (hn : spinLockNote word a c k) :
    (k.pc = 4 ∧ k.reg 2 = 0 ∨ 5 ≤ k.pc) ↔ (a.phase c).Waits := by
  obtain ⟨pc, reg, monitor, event⟩ := k
  match pc, hn with
  | 0, hn | 1, hn =>
    have hphase : a.phase c = .asking .lock := hn
    simp [hphase, Phase.Waits]
  | 2, hn | 3, hn => simp [hn.1, Phase.Waits]
  | 4, hn =>
    by_cases h2 : reg 2 = 0
    · simp [(hn.1 h2).1, h2, Phase.Waits]
    · simpa [hn.2 h2, Phase.Waits] using h2
  | 5, hn | 7, hn | 9, hn | 12, hn => simp [hn.1, Phase.Waits]
  | 6, hn | 8, hn | 10, hn | 11, hn => simp [hn.1.1, Phase.Waits]
  | _ + 13, hn => exact hn.elim

omit [DecidableEq C] in
theorem spinTrylock_waits (hn : spinTrylockNote word a c k) :
    (6 ≤ k.pc ∧ k.reg 1 = 0) ↔ (a.phase c).Waits := by
  obtain ⟨pc, reg, monitor, event⟩ := k
  match pc, hn with
  | 0, hn | 1, hn =>
    have hphase : a.phase c = .asking .trylock := hn
    simp [hphase, Phase.Waits]
  | 2, hn =>
    by_cases he : lockOwner (reg 0) = lockNext (reg 0)
    · simp [(hn.1 he).1, Phase.Waits]
    · simp [hn.2 he, Phase.Waits]
  | 3, hn =>
    by_cases h1 : reg 1 = 0
    · simp [(hn.1 h1).1, Phase.Waits]
    · simp [hn.2 h1, Phase.Waits]
  | 4, hn | 5, hn => simp [hn.1, Phase.Waits]
  | 6, hn | 7, hn =>
    by_cases h1 : reg 1 = 0
    · simp [(hn.1 h1).1, h1, Phase.Waits]
    · simpa [hn.2 h1, Phase.Waits] using h1
  | _ + 8, hn => exact hn.elim

omit [DecidableEq C] in
theorem spinUnlock_waits (hn : spinUnlockNote word a c k) : k.pc < 3 ↔ (a.phase c).Waits := by
  obtain ⟨pc, reg, monitor, event⟩ := k
  match pc, hn with
  | 0, hn | 1, hn | 2, hn => simp [hn.1, Phase.Waits]
  | 3, hn =>
    have hphase : a.phase c = .left := hn
    simp [hphase, Phase.Waits]
  | _ + 4, hn => exact hn.elim

end notes

omit [DecidableEq C] in
/-- The queue is of those with tickets. -/
theorem Spins.mem_queue {s : Multicore 32 C Bool LockOp} {a : FifoLock C} (h : Spins s a) (c : C) :
    c ∈ a.queue ↔ Ticketed s c := by
  rw [h.shape.ok.mem]
  unfold Ticketed
  split
  · next hrun =>
    rw [h.idle hrun]
    cases s.mode c with
    | true => exact iff_of_true trivial rfl
    | false => exact iff_of_false id Bool.false_ne_true
  · next hrun => exact (spinLock_waits (h.note hrun)).symm
  · next hrun => exact (spinTrylock_waits (h.note hrun)).symm
  · next hrun => exact (spinUnlock_waits (h.note hrun)).symm

section runs
variable [Fintype C] {s s' : Multicore 32 C Bool LockOp} {a a' : FifoLock C} {c d : C}
    {e : MachineEvent C LockOp Bool}
  {p : Phase}

omit [DecidableEq C] in
theorem length_le_of_card (hC : Fintype.card C ≤ 2 ^ 16) (l : List C) (h : l.Nodup) :
    l.length ≤ 2 ^ 16 :=
  h.length_le_card.trans hC

omit [Fintype C] in
/-- The CPU itself, and what the others see of its step. -/
theorem Spins.update (h : Spins s a) (hshape : LockShape s'.word a')
    (hother : ∀ d, d ≠ c → s'.running d = s.running d ∧ s'.mode d = s.mode d ∧
      Kept d s.word s'.word a a' (s.core d) (s'.core d))
    (hidle : s'.running c = none → a'.phase c = if s'.mode c then .inside else .idle)
    (hnote : ∀ op, s'.running c = some op → spinNote s'.word a' c op (s'.core c)) :
      Spins s' a' where
  shape := hshape
  idle {d} hd := by
    by_cases hdc : d = c
    · subst hdc
      exact hidle hd
    · obtain ⟨hrun, hmode, hkept⟩ := hother d hdc
      rw [hkept.phase, hmode]
      exact h.idle (hrun.symm.trans hd)
  note {d op} hd := by
    by_cases hdc : d = c
    · subst hdc
      exact hnote op hd
    · obtain ⟨hrun, -, hkept⟩ := hother d hdc
      exact hkept.note (h.note (hrun.symm.trans hd))

omit [Fintype C] in
/-- A CPU that changes its phase only is not seen by the others. -/
theorem kept_goto {word : BitVec 32} {k : Core 32} (hne : d ≠ c) :
    Kept d word word a (a.goto c p) k k :=
  ⟨FifoLock.goto_phase_ne _ _ hne, rfl, rfl, Or.inl rfl, id, fun h => ⟨h, rfl⟩, id⟩

omit [Fintype C] in
theorem Spins.call (h : Spins s a) {op : LockOp} (hstep : FifoStep a (.call c op) (a.goto c p))
    (hnote : spinNote s.word (a.goto c p) c op ⟨0, fun _ =>
      0, (s.core c).monitor, (s.core c).event⟩) :
    Spins (s.start spinRoutines c op) (a.goto c p) := by
  refine h.update (c := c) ⟨h.shape.ok.step hstep, h.shape.next⟩ (fun d hd => ?_)
    (fun hc => ?_) fun op' hop => ?_
  · refine ⟨Function.update_of_ne hd .., rfl, ?_⟩
    show Kept d s.word s.word a (a.goto c p) (s.core d) (Function.update s.core c _ d)
    rw [Function.update_of_ne hd]
    exact kept_goto hd
  · cases (Function.update_self c _ s.running).symm.trans hc
  · obtain rfl : op = op' := Option.some.inj ((Function.update_self c _ s.running).symm.trans hop)
    show spinNote s.word (a.goto c p) c op (Function.update s.core c _ c)
    rw [Function.update_self]
    exact hnote

omit [Fintype C] in
theorem Spins.ret (h : Spins s a) {f : FifoEvent C} {m : Bool} (hstep : FifoStep a f (a.goto c p))
    (hp : p = if m then .inside else .idle) : Spins (s.finish c m) (a.goto c p) := by
  refine h.update (c := c) ⟨h.shape.ok.step hstep, h.shape.next⟩ (fun d hd => ?_)
    (fun _ => ?_) fun op' hop => ?_
  · exact ⟨Function.update_of_ne hd .., Function.update_of_ne hd .., kept_goto hd⟩
  · show (a.goto c p).phase c = if Function.update s.mode c m c then .inside else .idle
    rw [FifoLock.goto_phase_same, Function.update_self]
    exact hp
  · cases (Function.update_self c _ s.running).symm.trans hop

theorem Spins.exec (hC : Fintype.card C ≤ 2 ^ 16) (h : Spins s a) {op : LockOp} {i : Insn 32}
    {ok : Bool} {k : Core 32} {stored : Option (BitVec 32)} (hrun : s.running c = some op)
    (hi : (spinRoutines.code op)[(s.core c).pc]? = some i)
    (he : i.exec s.word ok (s.core c) = some (k, stored)) :
    ∃ a', QueueMove c s.word a stored a' (lockEvent c s.word op i stored) ∧
      Spins (s.put c k stored) a' ∧
      ∀ d, d ≠ c → Kept d s.word (stored.getD s.word) a a' (s.core d)
      ((s.put c k stored).core d) := by
  obtain ⟨a', hmove, hnote⟩ := spin_exec (length_le_of_card hC) h.shape (h.note hrun) hi he
  have hothers : ∀ d, d ≠ c →
      Kept d s.word (stored.getD s.word) a a' (s.core d) ((s.put c k stored).core d) := by
    intro d hd
    rw [Multicore.put_core_ne hd]
    exact hmove.kept h.shape hd
  refine ⟨a', hmove, ?_, hothers⟩
  refine h.update (c := c) (hmove.shape h.shape) (fun d hd => ⟨rfl, rfl, hothers d hd⟩)
    (fun hc => ?_)
    fun op' hop => ?_
  · cases hrun.symm.trans hc
  · obtain rfl : op = op' := Option.some.inj (hrun.symm.trans hop)
    rw [Multicore.put_core_same]
    exact hnote

/-- One step of the machine: the lock takes its events, and a CPU that does not take the step knows
what it knew. -/
theorem Spins.step (hC : Fintype.card C ≤ 2 ^ 16) (h : Spins s a)
    (hs : MachineStep spinRoutines lockClient s e s') :
    ∃ a', Runs FifoStep a (lockHistory s e) a' ∧
      (lockHistory s e).filterMap FifoEvent.visible = e.visible.toList ∧ Spins s' a' ∧
      ∀ d, e.actor ≠ some d → Kept d s.word s'.word a a' (s.core d) (s'.core d) := by
  cases hs with
  | @call c op hrun hmay =>
    have hphase := h.idle hrun
    have hothers : ∀ p d, some c ≠ some d →
        Kept d s.word s.word a (a.goto c p) (s.core d) ((s.start spinRoutines c op).core d) := by
      intro p d hcd
      have hd : d ≠ c := fun h => hcd (congrArg some h.symm)
      rw [show (s.start spinRoutines c op).core d = s.core d from Function.update_of_ne hd ..]
      exact kept_goto hd
    by_cases hmode : s.mode c = true
    · obtain rfl : op = .unlock := hmay.mpr hmode
      rw [hmode] at hphase
      have hholds : (a.phase c).Holds := by
        rw [hphase]
        trivial
      have hstep : FifoStep a (.call c .unlock) (a.goto c .leaving) := .giveBack hphase
      exact ⟨_, .single hstep, rfl,
        h.call hstep ⟨FifoLock.goto_phase_same .., h.shape.ok.head hholds⟩,
        hothers _⟩
    · have hne : op ≠ .unlock := fun he => hmode (hmay.mp he)
      rw [if_neg hmode] at hphase
      have hstep : FifoStep a (.call c op) (a.goto c (.asking op)) := .ask hphase hne
      refine ⟨_, .single hstep, rfl, h.call hstep ?_, hothers _⟩
      cases op with
      | lock | trylock => exact FifoLock.goto_phase_same ..
      | unlock => exact absurd rfl hne
  | @ret c op r hrun hpc hr =>
    have hnote := h.note hrun
    have hothers : ∀ p d, some c ≠ some d →
        Kept d s.word s.word a (a.goto c p) (s.core d) (s.core d) :=
      fun p d hcd => kept_goto fun h => hcd (congrArg some h.symm)
    have hevent : lockHistory s (.ret c r) =
        [if op = .unlock then .exit c else if r then .enter c else .fail c] := by
      show [if s.running c = some .unlock then _ else _] = _
      rw [hrun]
      simp only [Option.some.injEq]
    rw [hevent]
    generalize hcore : s.core c = k at hnote hpc hr
    obtain ⟨pc, reg, monitor, event⟩ := k
    obtain rfl : pc = (spinRoutines.code op).length := hpc
    cases op with
    | lock =>
      obtain rfl : true = r := hr
      have hstep : FifoStep a (.enter c) (a.goto c .inside) := .enter hnote.1 hnote.2
      exact ⟨_, .single hstep, rfl, h.ret hstep rfl, hothers _⟩
    | trylock =>
      by_cases h1 : reg 1 = 0
      · obtain rfl : true = r := hr ▸ (beq_iff_eq.mpr h1).symm
        have hstep : FifoStep a (.enter c) (a.goto c .inside) :=
          .enter (hnote.1 h1).1 (hnote.1 h1).2
        exact ⟨_, .single hstep, rfl, h.ret hstep rfl, hothers _⟩
      · obtain rfl : false = r := hr ▸ (beq_eq_false_iff_ne.mpr h1).symm
        have hstep : FifoStep a (.fail c) (a.goto c .idle) := .fail (hnote.2 h1)
        exact ⟨_, .single hstep, rfl, h.ret hstep rfl, hothers _⟩
    | unlock =>
      obtain rfl : true = r := hr
      have hstep : FifoStep a (.exit c) (a.goto c .idle) := .exit hnote
      exact ⟨_, .single hstep, rfl, h.ret hstep rfl, hothers _⟩
  | @exec c op i ok k stored hrun hi he =>
    obtain ⟨a', hmove, hspins, hothers⟩ := h.exec hC hrun hi he
    have hevent : lockHistory s (.exec c ok) = lockEvent c s.word op i stored := by
      unfold lockHistory
      simp only [hrun, hi, he]
    rw [hevent]
    exact ⟨a', hmove.runs, hmove.hidden, hspins, fun d hcd => hothers d fun h =>
      hcd (congrArg some h.symm)⟩
  | @lose c =>
    have hall : ∀ d, Kept d s.word s.word a a (s.core d) ((s.lose c).core d) := by
      intro d
      by_cases hd : d = c
      · subst hd
        rw [show (s.lose d).core d =
          { s.core d with monitor := false, event := true } from Function.update_self ..]
        exact ⟨rfl, rfl, rfl, Or.inr rfl, id, fun h => ⟨h, rfl⟩, fun _ => Or.inl rfl⟩
      · rw [show (s.lose c).core d = s.core d from Function.update_of_ne hd ..]
        exact ⟨rfl, rfl, rfl, Or.inl rfl, id, fun h => ⟨h, rfl⟩, id⟩
    refine ⟨a, .nil a, rfl, ?_, fun d _ => hall d⟩
    exact ⟨h.shape, fun hc => h.idle hc, fun hop => (hall _).note (h.note hop)⟩

/-- A run with its history is one of the lock, -/
theorem spins_of_recorded (hC : Fintype.card C ≤ 2 ^ 16) {word : BitVec 32}
    (hword : spinValueUnlocked word = true) {es : List (MachineEvent C LockOp Bool)}
    {fs : List (FifoEvent C)}
    (h : Runs (Recorded (MachineStep spinRoutines lockClient) lockHistory) (.init word false, []) es
      (s, fs)) :
    ∃ a, Runs FifoStep (.init : FifoLock C) fs a ∧
      fs.filterMap FifoEvent.visible = es.filterMap MachineEvent.visible ∧ Spins s a := by
  refine h.trace (I := fun es t => ∃ a, Runs FifoStep .init t.2 a ∧
    t.2.filterMap FifoEvent.visible = es.filterMap MachineEvent.visible ∧ Spins t.1 a) ?_
    ⟨.init, .nil _, rfl, spins_init hword⟩
  rintro es ⟨s, fs⟩ e ⟨s', fs'⟩ ⟨a, hruns, hvis, hspins⟩ ⟨hstep, rfl⟩
  obtain ⟨a', hmore, hvis', hspins', -⟩ := hspins.step hC hstep
  refine ⟨a', hruns.append hmore, ?_, hspins'⟩
  show (fs ++ lockHistory s e).filterMap FifoEvent.visible =
    (es ++ [e]).filterMap MachineEvent.visible
  rw [List.filterMap_append, List.filterMap_append, hvis, hvis']
  cases he : e.visible <;> simp [he]

/-- and every run has a history. -/
theorem spins_of_runs (hC : Fintype.card C ≤ 2 ^ 16) {word : BitVec 32}
    (hword : spinValueUnlocked word = true) {es : List (MachineEvent C LockOp Bool)}
    (h : Runs (MachineStep spinRoutines lockClient) (.init word false) es s) :
    ∃ a, Spins s a := by
  obtain ⟨fs, hfs⟩ := h.recorded lockHistory []
  obtain ⟨a, -, -, hspins⟩ := spins_of_recorded hC hword hfs
  exact ⟨a, hspins⟩

section doorway

/-- CPU `c` gets a ticket by at most `n` of its own instructions. -/
def Doorway (c : C) (n : Nat) (s : Multicore 32 C Bool LockOp) : Prop :=
  ∃ m ≤ n, ∃ t, Runs (MachineStep spinRoutines lockClient) s (List.replicate m (.exec c true)) t ∧
    Ticketed t c

omit [Fintype C] in
theorem Doorway.exec {n : Nat} {i : Insn 32} {k : Core 32} {stored : Option (BitVec 32)}
    (hrun : s.running c = some .lock) (hi : spinLockAsm[(s.core c).pc]? = some i)
    (he : i.exec s.word true (s.core c) = some (k, stored)) (h : Doorway c n (s.put c k stored)) :
    Doorway c (n + 1) s := by
  obtain ⟨m, hm, t, ht, htick⟩ := h
  exact ⟨m + 1, Nat.succ_le_succ hm, t, .cons (.exec hrun hi he) ht, htick⟩

omit [Fintype C] in
/-- With its monitor held the next store of CPU `c` takes the ticket. -/
theorem doorway_store {r : Nat → BitVec 32} {v : Bool} (hrun : s.running c = some .lock)
    (hk : s.core c = ⟨3, r, true, v⟩) : Doorway c 1 s := by
  refine .exec (i := .stxr 2 1) hrun (by rw [hk]; rfl) (by rw [hk]; rfl)
    ⟨0, Nat.le_refl _, _, .nil _, ?_⟩
  unfold Ticketed
  rw [Multicore.put_running, hrun, Multicore.put_core_same]
  exact Or.inl ⟨rfl, rfl⟩

omit [Fintype C] in
theorem doorway_add {r : Nat → BitVec 32} {v : Bool} (hrun : s.running c = some .lock)
    (hk : s.core c = ⟨2, r, true, v⟩) : Doorway c 2 s := by
  refine .exec (i := .addImm 1 0 ticketInc) hrun (by rw [hk]; rfl) (by rw [hk]; rfl) ?_
  exact doorway_store hrun Multicore.put_core_same

omit [Fintype C] in
theorem doorway_load {r : Nat → BitVec 32} {m v : Bool} (hrun : s.running c = some .lock)
    (hk : s.core c = ⟨1, r, m, v⟩) : Doorway c 3 s := by
  refine .exec (i := .ldxr 0) hrun (by rw [hk]; rfl) (by rw [hk]; rfl) ?_
  exact doorway_add hrun Multicore.put_core_same

omit [Fintype C] in
theorem doorway_retry {r : Nat → BitVec 32} {m v : Bool} (hrun : s.running c = some .lock)
    (hk : s.core c = ⟨4, r, m, v⟩) (h2 : r 2 ≠ 0) : Doorway c 4 s := by
  have he : (Insn.cbnz 2 1).exec s.word true (s.core c) = some (⟨1, r, m, v⟩, none) := by
    rw [hk]
    show some ((⟨if r 2 != 0 then 1 else 5, r, m, v⟩ : Core 32), none) = _
    rw [if_pos (bne_iff_ne.mpr h2)]
  exact .exec hrun (by rw [hk]; rfl) he (doorway_load hrun Multicore.put_core_same)

omit [Fintype C] in
theorem doorway_try {r : Nat → BitVec 32} {m v : Bool} (hrun : s.running c = some .lock)
    (hk : s.core c = ⟨3, r, m, v⟩) : Doorway c 5 s := by
  cases m with
  | true =>
    obtain ⟨n, hn, t, ht⟩ := doorway_store hrun hk
    exact ⟨n, by omega, t, ht⟩
  | false =>
    refine .exec (i := .stxr 2 1) hrun (by rw [hk]; rfl) (by rw [hk]; rfl) ?_
    exact doorway_retry hrun Multicore.put_core_same (by decide : (1 : BitVec 32) ≠ 0)

omit [Fintype C] in
/-- **The doorway.**  A CPU in `arch_spin_lock` has a ticket or can take one by itself, whoever has
the lock. -/
theorem spin_doorway (hrun : s.running c = some .lock) (h : ¬ Ticketed s c) : Doorway c 6 s := by
  unfold Ticketed at h
  rw [hrun] at h
  have hweaken : ∀ {n}, n ≤ 6 → Doorway c n s → Doorway c 6 s := by
    rintro n hn ⟨m, hm, t, ht⟩
    exact ⟨m, hm.trans hn, t, ht⟩
  generalize hk : s.core c = k at h
  obtain ⟨pc, r, m, v⟩ := k
  match pc, hk, h with
  | 0, hk, _ =>
    refine hweaken (n := 4) (by decide)
      (.exec (i := .prfm) hrun (by rw [hk]; rfl) (by rw [hk]; rfl) ?_)
    exact doorway_load hrun Multicore.put_core_same
  | 1, hk, _ => exact hweaken (by decide) (doorway_load hrun hk)
  | 2, hk, _ =>
    refine .exec (i := .addImm 1 0 ticketInc) hrun (by rw [hk]; rfl) (by rw [hk]; rfl) ?_
    exact doorway_try hrun Multicore.put_core_same
  | 3, hk, _ => exact hweaken (by decide) (doorway_try hrun hk)
  | 4, hk, h => exact hweaken (by decide) (doorway_retry hrun hk fun h2 => h (Or.inl ⟨rfl, h2⟩))
  | n + 5, _, h => exact absurd (Or.inr (Nat.le_add_left 5 n)) h

end doorway

/-- **Fairness.**  With no more CPUs than tickets, in any order of their instructions and whatever
exclusive stores fail, the calls, the tickets taken and given back, and the returns are those of a
lock whose queue is the CPUs with tickets, that lets one CPU in at a time, in the order in which
they took their tickets.  And a CPU in `arch_spin_lock` takes its ticket whoever has the lock. -/
theorem ticket_lock_fair (hC : Fintype.card C ≤ 2 ^ 16) {word : BitVec 32}
    (hword : spinValueUnlocked word = true) {es : List (MachineEvent C LockOp Bool)}
    {fs : List (FifoEvent C)}
    (h : Runs (Recorded (MachineStep spinRoutines lockClient) lockHistory) (.init word false, []) es
      (s, fs)) :
    (∃ a, Runs FifoStep (.init : FifoLock C) fs a ∧ ∀ c, c ∈ a.queue ↔ Ticketed s c) ∧
      fs.filterMap FifoEvent.visible = es.filterMap MachineEvent.visible ∧
      fs.filterMap FifoEvent.entered <+: fs.filterMap FifoEvent.joined ∧
      ∀ c, s.running c = some .lock → ¬ Ticketed s c → Doorway c 6 s := by
  obtain ⟨a, hruns, hvis, hspins⟩ := spins_of_recorded hC hword h
  exact ⟨⟨a, hruns, hspins.mem_queue⟩, hvis, FifoLock.entered_prefix hruns, fun c => spin_doorway⟩

/-- From the return of the call that took the lock to the store that gives it back. -/
def HasLock (s : Multicore 32 C Bool LockOp) (c : C) : Prop :=
  s.running c = none ∧ s.mode c = true ∨ s.running c = some .unlock ∧ (s.core c).pc < 3

omit [Fintype C] [DecidableEq C] in
theorem Spins.holds (h : Spins s a) (hc : HasLock s c) : (a.phase c).Holds := by
  rcases hc with ⟨hrun, hmode⟩ | ⟨hrun, hpc⟩
  · rw [h.idle hrun, hmode]
    trivial
  · have hnote : spinUnlockNote s.word a c (s.core c) := h.note hrun
    have hleaving : a.phase c = .leaving := by
      unfold spinUnlockNote at hnote
      match hpc' : (s.core c).pc, hnote with
      | 0, hnote | 1, hnote | 2, hnote => exact hnote.1
      | _ + 3, _ => omega
    rw [hleaving]
    trivial

/-- **Mutual exclusion.** -/
theorem ticket_lock_exclusive (hC : Fintype.card C ≤ 2 ^ 16) {word : BitVec 32}
    (hword : spinValueUnlocked word = true) {es : List (MachineEvent C LockOp Bool)}
    (h : Runs (MachineStep spinRoutines lockClient) (.init word false) es s)
    (hc : HasLock s c) (hd : HasLock s d) : c = d := by
  obtain ⟨a, hspins⟩ := spins_of_runs hC hword h
  exact hspins.shape.ok.exclusive (hspins.holds hc) (hspins.holds hd)

/-! ## Progress -/

/-- The instructions that are left at most of `arch_spin_lock`, once the ticket is the one
served. -/
def spinSteps (k : Core 32) : Nat :=
  match k.pc with
  | 5 => 7
  | 6 => 6
  | 7 => 5
  | 8 => 4
  | 9 => 3
  | 10 => if (k.reg 2).toNat = lockNext (k.reg 0) then 2 else 6
  | 11 => if k.reg 1 = 0 then 1 else 5
  | _ => 0

section next
variable {word : BitVec 32} {k k' : Core 32} {i : Insn 32} {ok : Bool} {stored : Option (BitVec 32)}

omit [DecidableEq C] [Fintype C] in
/-- At the head no instruction waits, -/
theorem spinLock_enabled (hn : spinLockNote word a c k) (hhead : AtHead a c) (h12 : k.pc < 12) :
    ∃ i k' stored, spinLockAsm[k.pc]? = some i ∧ i.exec word ok k = some (k', stored) := by
  have hwfe : ∀ i, spinLockAsm[k.pc]? = some i → i = .wfe → k.event = true := by
    rintro i hi rfl
    obtain ⟨pc, reg, monitor, event⟩ := k
    match pc, hi, hn with
    | 8, _, hn => exact hn.2.resolve_right fun h => h.2 hhead
    | 0, hi, _ | 1, hi, _ | 2, hi, _ | 3, hi, _ | 4, hi, _ | 5, hi, _ | 6, hi, _ | 7, hi, _
    | 9, hi, _ | 10, hi, _
    | 11, hi, _ | _ + 12, hi, _ => cases hi
  have hi : spinLockAsm[k.pc]? = some (spinLockAsm.get ⟨k.pc, h12⟩) := List.getElem?_eq_getElem h12
  obtain ⟨k', stored, he⟩ := Insn.exists_exec _ word ok (hwfe _ hi)
  exact ⟨_, k', stored, hi, he⟩

omit [DecidableEq C] [Fintype C] in
/-- and each brings the CPU nearer to the end. -/
theorem spinLock_nearer (hC : ∀ l : List C, l.Nodup → l.length ≤ 2 ^ 16) (hs : LockShape word a)
    (hn : spinLockNote word a c k) (hhead : AtHead a c) (h5 : 5 ≤ k.pc)
    (hi : spinLockAsm[k.pc]? = some i) (he : i.exec word ok k = some (k', stored)) :
      stored = none ∧ 5 ≤ k'.pc ∧ spinSteps k' < spinSteps k := by
  obtain ⟨pc, reg, monitor, event⟩ := k
  match pc, h5, hi, hn with
  | 5, _, hi, _ =>
    obtain rfl := Option.some.inj hi
    obtain ⟨rfl, rfl⟩ := Prod.mk.inj (Option.some.inj he)
    exact ⟨rfl, (by decide : 5 ≤ 6), (by decide : 6 < 7)⟩
  | 6, _, hi, _ =>
    obtain rfl := Option.some.inj hi
    rcases Insn.exec_cbz he with ⟨⟨-, rfl⟩ | ⟨-, rfl⟩, rfl⟩
    · exact ⟨rfl, (by decide : 5 ≤ 12), (by decide : 0 < 6)⟩
    · exact ⟨rfl, (by decide : 5 ≤ 7), (by decide : 5 < 6)⟩
  | 7, _, hi, _ =>
    obtain rfl := Option.some.inj hi
    obtain ⟨rfl, rfl⟩ := Prod.mk.inj (Option.some.inj he)
    exact ⟨rfl, (by decide : 5 ≤ 8), (by decide : 4 < 5)⟩
  | 8, _, hi, _ =>
    obtain rfl := Option.some.inj hi
    obtain ⟨-, rfl, rfl⟩ := Insn.exec_wfe he
    exact ⟨rfl, (by decide : 5 ≤ 9), (by decide : 3 < 4)⟩
  | 9, _, hi, hn =>
    obtain rfl := Option.some.inj hi
    obtain ⟨rfl, rfl⟩ := Prod.mk.inj (Option.some.inj he)
    refine ⟨rfl, (by decide : 5 ≤ 10), ?_⟩
    have hserved : (lowHalf word).toNat = lockNext (reg 0) :=
      (toNat_lowHalf word).trans ((hs.served_iff hC hn.2.1).mpr hhead)
    show (if (lowHalf word).toNat = lockNext (reg 0) then 2 else 6) < 3
    rw [if_pos hserved]
    decide
  | 10, _, hi, _ =>
    obtain rfl := Option.some.inj hi
    obtain ⟨rfl, rfl⟩ := Prod.mk.inj (Option.some.inj he)
    refine ⟨rfl, (by decide : 5 ≤ 11), ?_⟩
    show (if reg 2 ^^^ reg 0 >>> 16 = 0 then 1 else 5) < if (reg 2).toNat = lockNext (reg 0) then 2
      else 6
    simp only [xor_shift_eq_zero]
    split <;> decide
  | 11, _, hi, _ =>
    obtain rfl := Option.some.inj hi
    rcases Insn.exec_cbnz he with ⟨⟨h1, rfl⟩ | ⟨h1, rfl⟩, rfl⟩
    · refine ⟨rfl, (by decide : 5 ≤ 8), ?_⟩
      show 4 < if reg 1 = 0 then 1 else 5
      rw [if_neg h1]
      decide
    · refine ⟨rfl, (by decide : 5 ≤ 12), ?_⟩
      show 0 < if reg 1 = 0 then 1 else 5
      rw [if_pos h1]
      decide
  | _ + 12, _, hi, _ => cases hi

end next

/-- CPU `c` is in `arch_spin_lock`, with the ticket that is served. -/
structure Turn (s : Multicore 32 C Bool LockOp) (a : FifoLock C) (c : C) : Prop where
  spins : Spins s a
  running : s.running c = some .lock
  pc : 5 ≤ (s.core c).pc
  head : AtHead a c

omit [DecidableEq C] [Fintype C] in
theorem Turn.keep (h : Turn s a c) (hspins : Spins s' a') (hrun : s'.running c = s.running c)
    (hkept : Kept c s.word s'.word a a' (s.core c) (s'.core c)) :
    Turn s' a' c ∧ spinSteps (s'.core c) = spinSteps (s.core c) := by
  refine ⟨⟨hspins, hrun.trans h.running, ?_, (hkept.head h.head).1⟩, ?_⟩
  · rw [hkept.pc]
    exact h.pc
  · unfold spinSteps
    rw [hkept.pc, hkept.reg]

/-- A step of any CPU leaves it the turn, and one of its own brings it nearer to the end. -/
theorem Turn.step (hC : Fintype.card C ≤ 2 ^ 16) (h : Turn s a c)
    (hs : MachineStep spinRoutines lockClient s e s') (hret : ∀ r, e ≠ .ret c r) :
    ∃ a', Turn s' a' c ∧ spinSteps (s'.core c) + (if e.execs c then 1 else 0) ≤
      spinSteps (s.core c) := by
  obtain ⟨a', -, -, hspins, hothers⟩ := h.spins.step hC hs
  cases hs with
  | @call d op hrun =>
    have hcd : d ≠ c := by
      rintro rfl
      cases hrun.symm.trans h.running
    obtain ⟨hturn, hsteps⟩ :=
      h.keep hspins (Function.update_of_ne hcd.symm ..) (hothers c fun h => hcd (Option.some.inj h))
    exact ⟨a', hturn, hsteps.le⟩
  | @ret d op r =>
    have hcd : d ≠ c := by
      rintro rfl
      exact hret r rfl
    obtain ⟨hturn, hsteps⟩ :=
      h.keep hspins (Function.update_of_ne hcd.symm ..) (hothers c fun h => hcd (Option.some.inj h))
    exact ⟨a', hturn, hsteps.le⟩
  | @lose d =>
    obtain ⟨hturn, hsteps⟩ := h.keep hspins rfl (hothers c nofun)
    exact ⟨a', hturn, hsteps.le⟩
  | @exec d op i ok k stored hrun hi he =>
    by_cases hcd : d = c
    · subst hcd
      obtain rfl : op = .lock := Option.some.inj (hrun.symm.trans h.running)
      obtain ⟨rfl, h5, hlt⟩ :=
        spinLock_nearer (length_le_of_card hC) h.spins.shape
          (h.spins.note h.running) h.head h.pc hi he
      obtain ⟨a', hmove, hspins, -⟩ := h.spins.exec hC hrun hi he
      refine ⟨a', ⟨hspins, h.running, ?_, ?_⟩, ?_⟩
      · rw [Multicore.put_core_same]
        exact h5
      · unfold AtHead
        rw [hmove.queue_eq]
        exact h.head
      · rw [Multicore.put_core_same,
          show (MachineEvent.exec d ok : MachineEvent C LockOp Bool).execs d = true from
          decide_eq_true rfl, if_pos rfl]
        exact hlt
    · obtain ⟨hturn, hsteps⟩ := h.keep hspins rfl (hothers c fun h => hcd (Option.some.inj h))
      refine ⟨a', hturn, ?_⟩
      rw [show (MachineEvent.exec d ok : MachineEvent C LockOp Bool).execs c =
        false from decide_eq_false hcd]
      exact hsteps.le

omit [DecidableEq C] [Fintype C] in
theorem spinLock_head (hC : ∀ l : List C, l.Nodup → l.length ≤ 2 ^ 16) {word : BitVec 32}
    {k : Core 32} (hs : LockShape word a) (hn : spinLockNote word a c k) (h5 : 5 ≤ k.pc)
    (hserved : lockOwner word = lockNext (k.reg 0)) : AtHead a c := by
  unfold spinLockNote at hn
  match hpc : k.pc, h5, hn with
  | 5, _, hn | 7, _, hn | 9, _, hn => exact (hs.served_iff hC hn.2.1).mp hserved
  | 6, _, hn | 8, _, hn | 10, _, hn | 11, _, hn => exact (hs.served_iff hC hn.1.2.1).mp hserved
  | 12, _, hn => exact hn.2
  | _ + 13, _, hn => exact hn.elim

/-- At most `spinSteps` are 7. -/
theorem spinSteps_le (k : Core 32) : spinSteps k ≤ 7 := by
  unfold spinSteps
  repeat' split
  all_goals decide

omit [DecidableEq C] [Fintype C] in
theorem spinLock_pc_le {word : BitVec 32} {k : Core 32} (hn : spinLockNote word a c k) :
    k.pc ≤ 12 := by
  unfold spinLockNote at hn
  by_contra h
  obtain ⟨n, hn'⟩ : ∃ n, k.pc = n + 13 := ⟨k.pc - 13, by omega⟩
  rw [hn'] at hn
  exact hn

/-- **No wake-up is lost.**  Once the ticket of a CPU in `arch_spin_lock` is the one served,
whatever the others do, it has at most 7 instructions to go, and can always execute the next one or
return. -/
theorem spin_lock_served (hC : Fintype.card C ≤ 2 ^ 16) {word : BitVec 32}
    (hword : spinValueUnlocked word = true) {es es' : List (MachineEvent C LockOp Bool)}
    (h : Runs (MachineStep spinRoutines lockClient) (.init word false) es s)
    (hrun : s.running c = some .lock) (hticket : 5 ≤ (s.core c).pc)
    (hserved : lockOwner s.word = lockNext ((s.core c).reg 0))
    (h' : Runs (MachineStep spinRoutines lockClient) s es' s') (hret : ∀ r, .ret c r ∉ es') :
    es'.countP (MachineEvent.execs c) ≤ 7 ∧
      ∃ e t, MachineStep spinRoutines lockClient s' e t ∧ (e = .exec c true ∨ e = .ret c true) := by
  obtain ⟨a, hspins⟩ := spins_of_runs hC hword h
  have hhead : AtHead a c :=
    spinLock_head (length_le_of_card hC) hspins.shape (hspins.note hrun) hticket hserved
  obtain ⟨⟨a', hturn⟩, hcount⟩ := h'.count_le (I := fun s => ∃ a, Turn s a c)
    (m := fun s => spinSteps (s.core c)) (p := MachineEvent.execs c)
      (fun s e t he ⟨a, hturn⟩ hs => by
      obtain ⟨a', hturn', hm⟩ := hturn.step hC hs fun r hr => hret r (hr ▸ he)
      exact ⟨⟨a', hturn'⟩, hm⟩) ⟨a, hspins, hrun, hticket, hhead⟩
  refine ⟨?_, ?_⟩
  · have := spinSteps_le (s.core c)
    omega
  · have hnote : spinLockNote s'.word a' c (s'.core c) := hturn.spins.note hturn.running
    rcases (spinLock_pc_le hnote).lt_or_eq with hpc | hpc
    · obtain ⟨i, k', stored, hi, he⟩ : ∃ i k' stored, spinLockAsm[(s'.core c).pc]? = some i ∧
          i.exec s'.word true (s'.core c) = some (k', stored) :=
            spinLock_enabled hnote hturn.head hpc
      exact ⟨_, _, .exec hturn.running hi he, Or.inl rfl⟩
    · exact ⟨_, _, .ret hturn.running hpc rfl, Or.inr rfl⟩

/-- **What the word tells.**  With a ticket to spare, `arch_spin_is_locked` is whether any CPU has a
ticket; and `arch_spin_is_contended` is whether two have, unless `next` has wrapped around and
`owner` has not. -/
theorem spin_word_tells (hC : Fintype.card C < 2 ^ 16) {word : BitVec 32}
    (hword : spinValueUnlocked word = true) {es : List (MachineEvent C LockOp Bool)}
    (h : Runs (MachineStep spinRoutines lockClient) (.init word false) es s) :
    (spinIsLocked s.word = true ↔ ∃ c, Ticketed s c) ∧
    (spinIsContended s.word = true ↔
      (∃ c d, Ticketed s c ∧ Ticketed s d ∧ c ≠ d) ∧ lockOwner s.word ≤ lockNext s.word) := by
  obtain ⟨a, hspins⟩ := spins_of_runs hC.le hword h
  have hlen : a.queue.length < 2 ^ 16 := hspins.shape.ok.nodup.length_le_card.trans_lt hC
  have hnext := hspins.shape.next
  have howner := lockOwner_lt s.word
  simp only [← hspins.mem_queue]
  constructor
  · rw [spinIsLocked_iff, ← List.length_pos_iff_exists_mem]
    omega
  · have htwo : 2 ≤ a.queue.length ↔ ∃ c d, c ∈ a.queue ∧ d ∈ a.queue ∧ c ≠ d := by
      rw [← List.toFinset_card_of_nodup hspins.shape.ok.nodup]
      refine Finset.one_lt_card_iff.trans ?_
      simp only [List.mem_toFinset]
    rw [← htwo]
    unfold spinIsContended
    rw [decide_eq_true_iff]
    omega

end runs

end queue

/-! ## Two CPUs -/

/-- CPU `c` executes `n` instructions. -/
def spinGo (c : Bool) (n : Nat) : List (MachineEvent Bool LockOp Bool) :=
  List.replicate n (.exec c true)

/-- CPU `true` takes the lock. -/
def spinOnce : List (MachineEvent Bool LockOp Bool) :=
  .call true .lock :: spinGo true 7 ++ [.ret true true]

/-- CPU `false` takes a ticket too. -/
def spinBoth : List (MachineEvent Bool LockOp Bool) :=
  spinOnce ++ .call false .lock :: spinGo false 4

/-- CPU `false` takes a ticket and waits for an event, and CPU `true` unlocks. -/
def spinTwice : List (MachineEvent Bool LockOp Bool) :=
  spinOnce ++ .call false .lock :: spinGo false 12 ++ .call true .unlock :: spinGo true 3

/-- CPU `false` wakes up. -/
def spinWake : List (MachineEvent Bool LockOp Bool) := spinGo false 4

theorem spinOnce_run : ∃ s : Multicore 32 Bool Bool LockOp,
    Runs (MachineStep spinRoutines lockClient) (.init 0 false) spinOnce s ∧ HasLock s true :=
  ⟨_, .cons (.call rfl ⟨nofun, nofun⟩) <|
    .cons (.exec rfl rfl rfl) <| .cons (.exec rfl rfl rfl) <| .cons (.exec rfl rfl rfl) <|
    .cons (.exec rfl rfl rfl) <| .cons (.exec rfl rfl rfl) <| .cons (.exec rfl rfl rfl) <|
    .cons (.exec rfl rfl rfl) <|
    .single (.ret rfl rfl rfl), Or.inl ⟨rfl, rfl⟩⟩

theorem spinBoth_run : ∃ s : Multicore 32 Bool Bool LockOp,
    Runs (MachineStep spinRoutines lockClient) (.init 0 false) spinBoth s ∧
      spinIsContended s.word = true :=
  ⟨_, .cons (.call rfl ⟨nofun, nofun⟩) <|
    .cons (.exec rfl rfl rfl) <| .cons (.exec rfl rfl rfl) <| .cons (.exec rfl rfl rfl) <|
    .cons (.exec rfl rfl rfl) <| .cons (.exec rfl rfl rfl) <| .cons (.exec rfl rfl rfl) <|
    .cons (.exec rfl rfl rfl) <|
    .cons (.ret rfl rfl rfl) <| .cons (.call rfl ⟨nofun, nofun⟩) <|
    .cons (.exec rfl rfl rfl) <| .cons (.exec rfl rfl rfl) <| .cons (.exec rfl rfl rfl) <|
    .single (.exec rfl rfl rfl), rfl⟩

theorem spinTwice_run : ∃ s s' : Multicore 32 Bool Bool LockOp,
    Runs (MachineStep spinRoutines lockClient) (.init 0 false) spinTwice s ∧
      s.running false = some .lock ∧
      5 ≤ (s.core false).pc ∧ lockOwner s.word = lockNext ((s.core false).reg 0) ∧
      Runs (MachineStep spinRoutines lockClient) s spinWake s' :=
  ⟨_, _, .cons (.call rfl ⟨nofun, nofun⟩) <|
    .cons (.exec rfl rfl rfl) <| .cons (.exec rfl rfl rfl) <| .cons (.exec rfl rfl rfl) <|
    .cons (.exec rfl rfl rfl) <| .cons (.exec rfl rfl rfl) <| .cons (.exec rfl rfl rfl) <|
    .cons (.exec rfl rfl rfl) <|
    .cons (.ret rfl rfl rfl) <| .cons (.call rfl ⟨nofun, nofun⟩) <|
    .cons (.exec rfl rfl rfl) <| .cons (.exec rfl rfl rfl) <| .cons (.exec rfl rfl rfl) <|
    .cons (.exec rfl rfl rfl) <| .cons (.exec rfl rfl rfl) <| .cons (.exec rfl rfl rfl) <|
    .cons (.exec rfl rfl rfl) <| .cons (.exec rfl rfl rfl) <| .cons (.exec rfl rfl rfl) <|
    .cons (.exec rfl rfl rfl) <| .cons (.exec rfl rfl rfl) <| .cons (.exec rfl rfl rfl) <|
    .cons (.call rfl ⟨fun _ => rfl, fun _ => rfl⟩) <| .cons (.exec rfl rfl rfl) <|
      .cons (.exec rfl rfl rfl) <|
    .single (.exec rfl rfl rfl), rfl, (by decide : 5 ≤ 8), rfl, .cons (.exec rfl rfl rfl) <|
    .cons (.exec rfl rfl rfl) <| .cons (.exec rfl rfl rfl) <| .single (.exec rfl rfl rfl)⟩

/-- What the lock sees of the first two. -/
def spinTwiceHistory : List (FifoEvent Bool) :=
  [.call true .lock, .join true, .enter true, .call false .lock, .join false, .call true .unlock,
    .leave true]

theorem spinTwice_recorded : ∃ s : Multicore 32 Bool Bool LockOp,
    Runs (Recorded (MachineStep spinRoutines lockClient) lockHistory) (.init 0 false, []) spinTwice
      (s, spinTwiceHistory) :=
  ⟨_, .cons_recorded (.call rfl ⟨nofun, nofun⟩) <|
    .cons_recorded (.exec rfl rfl rfl) <| .cons_recorded (.exec rfl rfl rfl) <|
      .cons_recorded (.exec rfl rfl rfl) <|
    .cons_recorded (.exec rfl rfl rfl) <| .cons_recorded (.exec rfl rfl rfl) <|
      .cons_recorded (.exec rfl rfl rfl) <|
    .cons_recorded (.exec rfl rfl rfl) <|
    .cons_recorded (.ret rfl rfl rfl) <| .cons_recorded (.call rfl ⟨nofun, nofun⟩) <|
    .cons_recorded (.exec rfl rfl rfl) <| .cons_recorded (.exec rfl rfl rfl) <|
      .cons_recorded (.exec rfl rfl rfl) <|
    .cons_recorded (.exec rfl rfl rfl) <| .cons_recorded (.exec rfl rfl rfl) <|
      .cons_recorded (.exec rfl rfl rfl) <|
    .cons_recorded (.exec rfl rfl rfl) <| .cons_recorded (.exec rfl rfl rfl) <|
      .cons_recorded (.exec rfl rfl rfl) <|
    .cons_recorded (.exec rfl rfl rfl) <| .cons_recorded (.exec rfl rfl rfl) <|
      .cons_recorded (.exec rfl rfl rfl) <|
    .cons_recorded (.call rfl ⟨fun _ => rfl, fun _ => rfl⟩) <| .cons_recorded (.exec rfl rfl rfl) <|
    .cons_recorded (.exec rfl rfl rfl) <| .cons_recorded (.exec rfl rfl rfl) <| .nil _⟩

theorem ticket_lock_fair_two : ∃ s : Multicore 32 Bool Bool LockOp,
    Runs (Recorded (MachineStep spinRoutines lockClient) lockHistory) (.init 0 false, []) spinTwice
      (s, spinTwiceHistory) ∧
    ∃ a, Runs FifoStep (.init : FifoLock Bool) spinTwiceHistory a ∧ ∀ c, c ∈ a.queue ↔
      Ticketed s c := by
  obtain ⟨s, h⟩ := spinTwice_recorded
  exact ⟨s, h, (ticket_lock_fair (by decide) rfl h).1⟩

theorem ticket_lock_exclusive_two : ∃ s : Multicore 32 Bool Bool LockOp,
    Runs (MachineStep spinRoutines lockClient) (.init 0 false) spinOnce s ∧ HasLock s true ∧
      ¬ HasLock s false := by
  obtain ⟨s, h, htrue⟩ := spinOnce_run
  refine ⟨s, h, htrue, fun hfalse => ?_⟩
  cases ticket_lock_exclusive (by decide) rfl h htrue hfalse

theorem spin_lock_served_two : ∃ s s' : Multicore 32 Bool Bool LockOp,
    Runs (MachineStep spinRoutines lockClient) (.init 0 false) spinTwice s ∧
      Runs (MachineStep spinRoutines lockClient) s spinWake s' ∧
      ∃ e t, MachineStep spinRoutines lockClient s' e t ∧
      (e = .exec false true ∨ e = .ret false true) := by
  obtain ⟨s, s', h, hrun, hpc, hserved, h'⟩ := spinTwice_run
  have hret : ∀ r, (.ret false r : MachineEvent Bool LockOp Bool) ∉ spinWake := fun r hr => by
    simp [spinWake, spinGo] at hr
  exact ⟨s, s', h, h', (spin_lock_served (by decide) rfl h hrun hpc hserved h' hret).2⟩

theorem spin_word_tells_two : ∃ s : Multicore 32 Bool Bool LockOp,
    Runs (MachineStep spinRoutines lockClient) (.init 0 false) spinBoth s ∧
      spinIsContended s.word = true ∧
      ∃ c d, Ticketed s c ∧ Ticketed s d ∧ c ≠ d := by
  obtain ⟨s, h, hcontended⟩ := spinBoth_run
  exact ⟨s, h, hcontended, ((spin_word_tells (by decide) rfl h).2.mp hcontended).1⟩

end ZHyper
