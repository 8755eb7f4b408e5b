import ZHyper.Lib.FifoLock

/-!
# The ticket lock

`arch_spin_lock`, `arch_spin_trylock` and `arch_spin_unlock` as their instructions: the halfword
`next` is the ticket that is given out next, `owner` the one that is served.  With no more CPUs than
there are tickets the word is a queue.  A note says what a CPU knows at each instruction; an
instruction of one CPU takes a ticket, serves one or leaves the queue alone (`QueueMove`), it leads
from note to note (`spin_exec`), and what the other CPUs know still holds (`QueueMove.kept`).
-/

namespace ZHyper

open LowLevel

/-! ## `arch_spinlock_t` -/

/-- `lock->owner` -/
def lockOwner (v : BitVec 32) : Nat := v.toNat % 2 ^ 16

/-- `lock->next` -/
def lockNext (v : BitVec 32) : Nat := v.toNat / 2 ^ 16

/-- `1 << TICKET_SHIFT` -/
def ticketInc : BitVec 32 := 1#32 <<< 16

/-- `arch_spin_value_unlocked`, and its negation `arch_spin_is_locked` -/
def spinValueUnlocked (lock : BitVec 32) : Bool := lockOwner lock == lockNext lock

def spinIsLocked (lock : BitVec 32) : Bool := !spinValueUnlocked lock

/-- `arch_spin_is_contended`: the halfwords are promoted to `int`. -/
def spinIsContended (lock : BitVec 32) : Bool := (lockNext lock : Int) - lockOwner lock > 1

/-! ## Instructions

Registers are the operands of the `asm` statements. -/

def spinLockAsm : List (Insn 32) :=
  [.prfm,
    .ldxr 0,                                         -- 1:
    .addImm 1 0 ticketInc,
    .stxr 2 1,
    .cbnz 2 1,
    .alu 1 fun r => r 0 ^^^ (r 0).rotateRight 16,
    .cbz 1 12,
    .sevl,
    .wfe,                                            -- 2:
    .ldxrh 2,
    .alu 1 fun r => r 2 ^^^ (r 0) >>> 16,
    .cbnz 1 8]                                       -- 3:

def spinTrylockAsm : List (Insn 32) :=
  [.prfm,
    .ldxr 0,                                         -- 1:
    .alu 1 fun r => r 0 ^^^ (r 0).rotateRight 16,
    .cbnz 1 7,
    .addImm 0 0 ticketInc,
    .stxr 1 0,
    .cbnz 1 1]                                       -- 2:

/-- The operand `lock->owner + 1` is computed before the store. -/
def spinUnlockAsm : List (Insn 32) :=
  [.ldrh 1, .addImm 1 1 1, .strh 1]

/-- Of the three only `trylock` returns something: `!tmp`. -/
def spinRoutines : Routines 32 LockOp Bool where
  code
    | .lock => spinLockAsm
    | .trylock => spinTrylockAsm
    | .unlock => spinUnlockAsm
  args _ _ := 0
  result
    | .trylock, r => r 1 == 0
    | .lock, _ | .unlock, _ => true

/-- The mode of a CPU is whether it has the lock: it asks for it if it has not, and gives it back if
it has. -/
def lockClient : Client Bool LockOp Bool where
  may m op := op = .unlock ↔ m = true
  after
    | _, .lock, _ => true
    | _, .trylock, r => r
    | _, .unlock, _ => false

/-! ## The halfwords -/

theorem lockNext_lt (v : BitVec 32) : lockNext v < 2 ^ 16 := by
  have := v.isLt
  unfold lockNext
  omega

theorem lockOwner_lt (v : BitVec 32) : lockOwner v < 2 ^ 16 := Nat.mod_lt _ (by decide)

/-- Rotating by 16 swaps the halfwords. -/
theorem toNat_rotate (v : BitVec 32) :
    (v.rotateRight 16).toNat = lockOwner v * 2 ^ 16 + lockNext v := by
  have hlow : v.toNat <<< 16 % 2 ^ 32 = lockOwner v <<< 16 := by
    unfold lockOwner
    rw [Nat.shiftLeft_eq, Nat.shiftLeft_eq]
    omega
  have hhigh : v.toNat >>> 16 = lockNext v := Nat.shiftRight_eq_div_pow ..
  rw [BitVec.toNat_rotateRight]
  show v.toNat >>> 16 ||| v.toNat <<< 16 % 2 ^ 32 = _
  rw [hlow, hhigh, Nat.or_comm, ← Nat.shiftLeft_add_eq_or_of_lt (lockNext_lt v), Nat.shiftLeft_eq]

theorem xor_rotate_eq_zero {v : BitVec 32} : v ^^^ v.rotateRight 16 = 0 ↔
    lockOwner v = lockNext v := by
  have hv := v.isLt
  refine BitVec.xor_eq_zero_iff.trans ?_
  rw [← BitVec.toNat_inj, toNat_rotate]
  unfold lockOwner lockNext
  omega

theorem xor_shift_eq_zero {u v : BitVec 32} : u ^^^ v >>> 16 = 0 ↔ u.toNat = lockNext v := by
  refine BitVec.xor_eq_zero_iff.trans ?_
  rw [← BitVec.toNat_inj, BitVec.toNat_ushiftRight, Nat.shiftRight_eq_div_pow]
  rfl

theorem lockOwner_add (v : BitVec 32) : lockOwner (v + ticketInc) = lockOwner v := by
  have h1 : ticketInc.toNat = 65536 := rfl
  unfold lockOwner
  rw [BitVec.toNat_add, h1]
  omega

theorem lockNext_add (v : BitVec 32) : lockNext (v + ticketInc) = (lockNext v + 1) % 2 ^ 16 := by
  have hv := v.isLt
  have h1 : ticketInc.toNat = 65536 := rfl
  unfold lockNext
  rw [BitVec.toNat_add, h1]
  omega

theorem toNat_lowHalf (v : BitVec 32) : (lowHalf v).toNat = lockOwner v := by
  unfold lowHalf lockOwner
  rw [BitVec.toNat_ofNat]
  omega

theorem lockOwner_lowHalf (v : BitVec 32) : lockOwner (lowHalf v) = lockOwner v := by
  rw [lockOwner, toNat_lowHalf]
  exact Nat.mod_eq_of_lt (lockOwner_lt v)

theorem lockOwner_succ (v : BitVec 32) : lockOwner (v + 1) = (lockOwner v + 1) % 2 ^ 16 := by
  have h1 : (1 : BitVec 32).toNat = 1 := rfl
  unfold lockOwner
  rw [BitVec.toNat_add, h1]
  omega

theorem lockOwner_setLowHalf (v h : BitVec 32) : lockOwner (setLowHalf v h) = lockOwner h := by
  have hv := v.isLt
  unfold setLowHalf lockOwner
  rw [BitVec.toNat_ofNat]
  omega

theorem lockNext_setLowHalf (v h : BitVec 32) : lockNext (setLowHalf v h) = lockNext v := by
  have hv := v.isLt
  unfold setLowHalf lockNext
  rw [BitVec.toNat_ofNat]
  omega

/-! ## The queue in the word -/

section queue
variable {C : Type} [DecidableEq C]

/-- `c` is in the queue with the ticket `t`. -/
def HasTicket (word : BitVec 32) (queue : List C) (c : C) (t : Nat) : Prop :=
  ∃ i, queue[i]? = some c ∧ t = (lockOwner word + i) % 2 ^ 16

def AtHead (a : FifoLock C) (c : C) : Prop := a.queue.head? = some c

/-- `c` has taken the ticket of `lockval`, and is at the head if that was the one served. -/
def Queued (word : BitVec 32) (a : FifoLock C) (c : C) (lockval : BitVec 32) : Prop :=
  a.phase c = .queued ∧ HasTicket word a.queue c (lockNext lockval) ∧
    (lockOwner lockval = lockNext lockval → AtHead a c)

/-- What CPU `c` knows at each point of `arch_spin_lock`. -/
def spinLockNote (word : BitVec 32) (a : FifoLock C) (c : C) (k : Core 32) : Prop :=
  match k.pc with
  | 0 | 1 => a.phase c = .asking .lock
  | 2 => a.phase c = .asking .lock ∧ ∀ v ∈ k.view word, k.reg 0 = v
  | 3 => a.phase c = .asking .lock ∧ ∀ v ∈ k.view word, k.reg 0 = v ∧ k.reg 1 = v + ticketInc
  | 4 => (k.reg 2 = 0 → Queued word a c (k.reg 0)) ∧ (k.reg 2 ≠ 0 → a.phase c = .asking .lock)
  | 5 | 7 | 9 => Queued word a c (k.reg 0)
  | 6 => Queued word a c (k.reg 0) ∧ (k.reg 1 = 0 → AtHead a c)
  | 8 => Queued word a c (k.reg 0) ∧ k.Awake (¬ AtHead a c)
  | 10 => Queued word a c (k.reg 0) ∧ ((k.reg 2).toNat = lockNext (k.reg 0) → AtHead a c) ∧
      ((k.reg 2).toNat ≠ lockNext (k.reg 0) → k.Awake (¬ AtHead a c))
  | 11 => Queued word a c (k.reg 0) ∧ (k.reg 1 = 0 → AtHead a c) ∧ (k.reg 1 ≠ 0 →
    k.Awake (¬ AtHead a c))
  | 12 => a.phase c = .queued ∧ AtHead a c
  | _ => False

/-- What it knows in `arch_spin_trylock`. -/
def spinTrylockNote (word : BitVec 32) (a : FifoLock C) (c : C) (k : Core 32) : Prop :=
  match k.pc with
  | 0 | 1 => a.phase c = .asking .trylock
  | 2 => (lockOwner (k.reg 0) = lockNext (k.reg 0) →
        a.phase c = .asking .trylock ∧ ∀ v ∈ k.view word, k.reg 0 = v) ∧
      (lockOwner (k.reg 0) ≠ lockNext (k.reg 0) → a.phase c = .refused)
  | 3 => (k.reg 1 = 0 → a.phase c = .asking .trylock ∧
        ∀ v ∈ k.view word, k.reg 0 = v ∧ lockOwner v = lockNext v) ∧
      (k.reg 1 ≠ 0 → a.phase c = .refused)
  | 4 => a.phase c = .asking .trylock ∧ ∀ v ∈ k.view word, k.reg 0 = v ∧ lockOwner v = lockNext v
  | 5 =>
    a.phase c = .asking .trylock ∧
      ∀ v ∈ k.view word, k.reg 0 = v + ticketInc ∧ lockOwner v = lockNext v
  | 6 => (k.reg 1 = 0 → a.phase c = .queued ∧ AtHead a c) ∧ (k.reg 1 ≠ 0 →
    a.phase c = .asking .trylock)
  | 7 => (k.reg 1 = 0 → a.phase c = .queued ∧ AtHead a c) ∧ (k.reg 1 ≠ 0 → a.phase c = .refused)
  | _ => False

/-- What it knows in `arch_spin_unlock`. -/
def spinUnlockNote (word : BitVec 32) (a : FifoLock C) (c : C) (k : Core 32) : Prop :=
  match k.pc with
  | 0 => a.phase c = .leaving ∧ AtHead a c
  | 1 => a.phase c = .leaving ∧ AtHead a c ∧ lockOwner (k.reg 1) = lockOwner word
  | 2 => a.phase c = .leaving ∧ AtHead a c ∧ lockOwner (k.reg 1) = (lockOwner word + 1) % 2 ^ 16
  | 3 => a.phase c = .left
  | _ => False

def spinNote (word : BitVec 32) (a : FifoLock C) (c : C) : LockOp → Core 32 → Prop
  | .lock => spinLockNote word a c
  | .trylock => spinTrylockNote word a c
  | .unlock => spinUnlockNote word a c

/-! ## What another CPU's step leaves -/

/-- What `c` knew of the word, the queue and its own core still holds. -/
structure Kept (c : C) (word word' : BitVec 32) (a a' : FifoLock C) (k k' : Core 32) : Prop where
  phase : a'.phase c = a.phase c
  pc : k'.pc = k.pc
  reg : k'.reg = k.reg
  view : k'.view word' = k.view word ∨ k'.view word' = none
  ticket {t : Nat} : HasTicket word a.queue c t → HasTicket word' a'.queue c t
  head : AtHead a c → AtHead a' c ∧ lockOwner word' = lockOwner word
  awake : k.Awake (¬ AtHead a c) → k'.Awake (¬ AtHead a' c)

section kept
variable {c : C} {word word' : BitVec 32} {a a' : FifoLock C} {k k' : Core 32} {op : LockOp}

omit [DecidableEq C] in
theorem Kept.views (h : Kept c word word' a a' k k') {P : BitVec 32 → Prop}
    (hP : ∀ v ∈ k.view word, P v) :
    ∀ v ∈ k'.view word', P v := by
  rcases h.view with hv | hv
  · rw [hv]
    exact hP
  · rw [hv]
    exact nofun

omit [DecidableEq C] in
theorem Kept.queued (h : Kept c word word' a a' k k') {v : BitVec 32} (hq : Queued word a c v) :
    Queued word' a' c v :=
  ⟨h.phase.trans hq.1, h.ticket hq.2.1, fun he => (h.head (hq.2.2 he)).1⟩

omit [DecidableEq C] in
theorem Kept.lockNote (h : Kept c word word' a a' k k') (hn : spinLockNote word a c k) :
    spinLockNote word' a' c k' := by
  unfold spinLockNote at hn ⊢
  rw [h.pc, h.reg]
  match hpc : k.pc, hn with
  | 0, hn | 1, hn => exact h.phase.trans hn
  | 2, hn | 3, hn => exact ⟨h.phase.trans hn.1, h.views hn.2⟩
  | 4, hn => exact ⟨fun h2 => h.queued (hn.1 h2), fun h2 => h.phase.trans (hn.2 h2)⟩
  | 5, hn | 7, hn | 9, hn => exact h.queued hn
  | 6, hn => exact ⟨h.queued hn.1, fun h1 => (h.head (hn.2 h1)).1⟩
  | 8, hn => exact ⟨h.queued hn.1, h.awake hn.2⟩
  | 10, hn | 11, hn =>
    exact ⟨h.queued hn.1, fun h1 => (h.head (hn.2.1 h1)).1, fun h1 => h.awake (hn.2.2 h1)⟩
  | 12, hn => exact ⟨h.phase.trans hn.1, (h.head hn.2).1⟩
  | _ + 13, hn => exact hn.elim

omit [DecidableEq C] in
theorem Kept.trylockNote (h : Kept c word word' a a' k k') (hn : spinTrylockNote word a c k) :
    spinTrylockNote word' a' c k' := by
  unfold spinTrylockNote at hn ⊢
  rw [h.pc, h.reg]
  match hpc : k.pc, hn with
  | 0, hn | 1, hn => exact h.phase.trans hn
  | 2, hn | 3, hn =>
    exact ⟨fun he => ⟨h.phase.trans (hn.1 he).1, h.views (hn.1 he).2⟩, fun he =>
      h.phase.trans (hn.2 he)⟩
  | 4, hn | 5, hn => exact ⟨h.phase.trans hn.1, h.views hn.2⟩
  | 6, hn | 7, hn =>
    exact ⟨fun h1 => ⟨h.phase.trans (hn.1 h1).1, (h.head (hn.1 h1).2).1⟩, fun h1 =>
      h.phase.trans (hn.2 h1)⟩
  | _ + 8, hn => exact hn.elim

omit [DecidableEq C] in
theorem Kept.unlockNote (h : Kept c word word' a a' k k') (hn : spinUnlockNote word a c k) :
    spinUnlockNote word' a' c k' := by
  unfold spinUnlockNote at hn ⊢
  rw [h.pc, h.reg]
  match hpc : k.pc, hn with
  | 0, hn => exact ⟨h.phase.trans hn.1, (h.head hn.2).1⟩
  | 1, hn | 2, hn =>
    refine ⟨h.phase.trans hn.1, (h.head hn.2.1).1, ?_⟩
    rw [(h.head hn.2.1).2]
    exact hn.2.2
  | 3, hn => exact h.phase.trans hn
  | _ + 4, hn => exact hn.elim

omit [DecidableEq C] in
theorem Kept.note (h : Kept c word word' a a' k k') (hn : spinNote word a c op k) :
    spinNote word' a' c op k' := by
  cases op with
  | lock => exact h.lockNote hn
  | trylock => exact h.trylockNote hn
  | unlock => exact h.unlockNote hn

end kept

/-! ## Steps of the queue -/

/-- What an instruction of `c` does to the queue, by what it stores: it takes the next ticket, or
serves it. -/
inductive QueueMove (c : C) (word : BitVec 32) (a : FifoLock C) :
    Option (BitVec 32) → FifoLock C → List (FifoEvent C) → Prop where
  | keep : QueueMove c word a none a []
  | refuse : a.phase c = .asking .trylock → a.queue ≠ [] →
      QueueMove c word a none (a.goto c .refused) [.refuse c]
  | join {op : LockOp} : a.phase c = .asking op → (op = .trylock → a.queue = []) →
      QueueMove c word a (some (word + ticketInc))
        ({ a with queue := a.queue ++ [c] }.goto c .queued) [.join c]
  | leave {v : BitVec 32} : a.phase c = .leaving → lockOwner v = (lockOwner word + 1) % 2 ^ 16 →
      lockNext v = lockNext word →
      QueueMove c word a (some v) ({ a with queue := a.queue.tail }.goto c .left) [.leave c]

/-- The tickets in the queue are those from `owner` up to `next`. -/
structure LockShape (word : BitVec 32) (a : FifoLock C) : Prop where
  ok : a.Ok
  next : lockNext word = (lockOwner word + a.queue.length) % 2 ^ 16

section moves
variable {c d : C} {word : BitVec 32} {a a' : FifoLock C} {stored : Option (BitVec 32)}
    {fs : List (FifoEvent C)}
  {k : Core 32}

theorem QueueMove.runs (h : QueueMove c word a stored a' fs) : Runs FifoStep a fs a' := by
  cases h with
  | keep => exact .nil a
  | refuse hc hq => exact .single (.refuse hc hq)
  | join hc htry => exact .single (.join hc htry)
  | leave hc => exact .single (.leave hc)

theorem QueueMove.queue_eq (h : QueueMove c word a none a' fs) : a'.queue = a.queue := by
  cases h <;> rfl

theorem QueueMove.hidden (h : QueueMove c word a stored a' fs) :
    fs.filterMap FifoEvent.visible = [] := by
  cases h <;> rfl

theorem QueueMove.shape (hs : LockShape word a) (h : QueueMove c word a stored a' fs) :
    LockShape (stored.getD word) a' := by
  refine ⟨h.runs.invariant (fun _ _ _ hok hstep => hok.step hstep) hs.ok, ?_⟩
  have hnext := hs.next
  cases h with
  | keep => exact hnext
  | refuse => exact hnext
  | join =>
    show lockNext (word + ticketInc) = (lockOwner (word + ticketInc) + (a.queue ++ [c]).length) %
      2 ^ 16
    rw [lockOwner_add, lockNext_add, List.length_append, List.length_singleton]
    omega
  | @leave v hc howner hnext' =>
    show lockNext v = (lockOwner v + a.queue.tail.length) % 2 ^ 16
    have hholds : (a.phase c).Holds := by
      rw [hc]
      trivial
    rw [hs.ok.queue_eq hholds, List.length_cons] at hnext
    rw [howner, hnext', hnext]
    omega

/-- Taking a ticket leaves the others in the queue where they are. -/
theorem kept_join (hne : d ≠ c) :
    Kept d word (word + ticketInc) a ({ a with queue := a.queue ++ [c] }.goto c .queued) k
      k.disturbed where
  phase := FifoLock.goto_phase_ne _ _ hne
  pc := Core.disturbed_pc k
  reg := Core.disturbed_reg k
  view := Or.inr (Core.disturbed_view k _)
  ticket := by
    rintro t ⟨i, hi, ht⟩
    refine ⟨i, ?_, by rwa [lockOwner_add]⟩
    show (a.queue ++ [c])[i]? = some d
    rwa [List.getElem?_append_left (List.getElem?_eq_some_iff.mp hi).1]
  head h := by
    refine ⟨?_, lockOwner_add word⟩
    show (a.queue ++ [c]).head? = some d
    rw [List.head?_append, h]
    rfl
  awake := Core.Awake.disturbed

/-- Serving the next ticket moves the others up by one. -/
theorem kept_leave {v : BitVec 32} (hs : LockShape word a) (hc : a.phase c = .leaving) (hne : d ≠ c)
    (howner : lockOwner v = (lockOwner word + 1) % 2 ^ 16) :
    Kept d word v a ({ a with queue := a.queue.tail }.goto c .left) k k.disturbed where
  phase := FifoLock.goto_phase_ne _ _ hne
  pc := Core.disturbed_pc k
  reg := Core.disturbed_reg k
  view := Or.inr (Core.disturbed_view k _)
  ticket := by
    rintro t ⟨i, hi, rfl⟩
    have hq := hs.ok.queue_eq (by rw [hc]; trivial : (a.phase c).Holds)
    rw [hq] at hi
    cases i with
    | zero => exact absurd (Option.some.inj hi).symm hne
    | succ i =>
      refine ⟨i, hi, ?_⟩
      rw [howner]
      omega
  head h := by
    have hq := hs.ok.head (by rw [hc]; trivial : (a.phase c).Holds)
    exact absurd (Option.some.inj (h.symm.trans hq)) hne
  awake := Core.Awake.disturbed

theorem QueueMove.kept (hs : LockShape word a) (h : QueueMove c word a stored a' fs) (hne : d ≠ c) :
    Kept d word (stored.getD word) a a' k (if stored.isSome then k.disturbed else k) := by
  cases h with
  | keep => exact ⟨rfl, rfl, rfl, Or.inl rfl, id, fun h => ⟨h, rfl⟩, id⟩
  | refuse => exact ⟨FifoLock.goto_phase_ne _ _ hne, rfl, rfl, Or.inl rfl, id, fun h =>
    ⟨h, rfl⟩, id⟩
  | join => exact kept_join hne
  | leave hc howner => exact kept_leave hs hc hne howner

end moves

/-! ## One instruction -/

/-- What an instruction of `op` on CPU `c` is for the lock: an exclusive store that succeeds takes a
ticket, the store of `owner` serves the next one, and a load of a locked word refuses a
`trylock`. -/
def lockEvent (c : C) (word : BitVec 32) (op : LockOp) (i : Insn 32) (stored : Option (BitVec 32)) :
    List (FifoEvent C) :=
  match op, i, stored with
  | _, .stxr _ _, some _ => [.join c]
  | _, .strh _, _ => [.leave c]
  | .trylock, .ldxr _, _ => if spinIsLocked word then [.refuse c] else []
  | _, _, _ => []

theorem spinIsLocked_iff {word : BitVec 32} : spinIsLocked word = true ↔
    lockOwner word ≠ lockNext word := by
  unfold spinIsLocked spinValueUnlocked
  rw [Bool.not_eq_true', beq_eq_false_iff_ne]

section exec
variable {c : C} {word : BitVec 32} {a : FifoLock C} {stored : Option (BitVec 32)} {k k' : Core 32}
    {i : Insn 32}
  {ok : Bool} (hC : ∀ l : List C, l.Nodup → l.length ≤ 2 ^ 16) (hs : LockShape word a)

include hC hs

omit [DecidableEq C] in
/-- With a CPU outside the queue there is a ticket to spare, so the word is unlocked just when the
queue is empty. -/
theorem LockShape.unlocked_iff (hc : ¬ (a.phase c).Waits) : lockOwner word = lockNext word ↔
    a.queue = [] := by
  have hmem : c ∉ a.queue := fun h => hc ((hs.ok.mem c).mp h)
  have hlen := hC (c :: a.queue) (List.nodup_cons.mpr ⟨hmem, hs.ok.nodup⟩)
  have howner := lockOwner_lt word
  rw [List.length_cons] at hlen
  rw [hs.next, ← List.length_eq_zero_iff]
  omega

omit [DecidableEq C] in
/-- A CPU's ticket is the one served just when it is at the head. -/
theorem LockShape.served_iff {t : Nat} (ht : HasTicket word a.queue c t) : lockOwner word = t ↔
    AtHead a c := by
  obtain ⟨i, hi, rfl⟩ := ht
  have hlen := hC a.queue hs.ok.nodup
  obtain ⟨hlt, hget⟩ := List.getElem?_eq_some_iff.mp hi
  have howner := lockOwner_lt word
  unfold AtHead
  rw [List.head?_eq_getElem?]
  constructor
  · intro h
    have h0 : i = 0 := by omega
    rw [← h0]
    exact hi
  · intro h
    obtain ⟨h0, hget0⟩ := List.getElem?_eq_some_iff.mp h
    have hi0 : i = 0 := (hs.ok.nodup.getElem_inj_iff).mp (hget.trans hget0.symm)
    rw [hi0]
    omega

theorem spinLock_exec (hn : spinLockNote word a c k) (hi : spinLockAsm[k.pc]? = some i)
    (he : i.exec word ok k = some (k', stored)) :
    ∃ a', QueueMove c word a stored a' (lockEvent c word .lock i stored) ∧
      spinLockNote (stored.getD word) a' c k' := by
  obtain ⟨pc, reg, monitor, event⟩ := k
  match pc, hi, hn with
  | 0, hi, hn =>
    obtain rfl := Option.some.inj hi
    obtain ⟨rfl, rfl⟩ := Prod.mk.inj (Option.some.inj he)
    exact ⟨a, .keep, hn⟩
  | 1, hi, hn =>
    obtain rfl := Option.some.inj hi
    obtain ⟨rfl, rfl⟩ := Prod.mk.inj (Option.some.inj he)
    exact ⟨a, .keep, hn, fun v hv => Option.some.inj hv⟩
  | 2, hi, hn =>
    obtain rfl := Option.some.inj hi
    obtain ⟨rfl, rfl⟩ := Prod.mk.inj (Option.some.inj he)
    exact ⟨a, .keep, hn.1, fun v hv => ⟨hn.2 v hv, congrArg (· + ticketInc) (hn.2 v hv)⟩⟩
  | 3, hi, hn =>
    obtain rfl := Option.some.inj hi
    rcases Insn.exec_stxr he with ⟨hmon, rfl, rfl⟩ | ⟨rfl, rfl⟩
    · -- the ticket is taken
      have h0 : reg 0 = word := (hn.2 word (Core.view_eq_some.mpr ⟨hmon, rfl⟩)).1
      have h1 : reg 1 = word + ticketInc := (hn.2 word (Core.view_eq_some.mpr ⟨hmon, rfl⟩)).2
      have hout : ¬ (a.phase c).Waits := by
        rw [hn.1]
        exact id
      have hmove : QueueMove c word a _ _ _ := .join hn.1 nofun
      rw [← h1] at hmove
      refine ⟨_, hmove, fun _ => ?_, fun h => absurd rfl h⟩
      show Queued (reg 1) _ c (reg 0)
      rw [h0, h1]
      refine ⟨FifoLock.goto_phase_same .., ⟨a.queue.length, ?_, ?_⟩, fun heq => ?_⟩
      · show (a.queue ++ [c])[a.queue.length]? = some c
        simp
      · rw [lockOwner_add]
        exact hs.next
      · show (a.queue ++ [c]).head? = some c
        rw [(hs.unlocked_iff hC hout).mp heq]
        rfl
    · exact ⟨a, .keep, fun h => absurd h (by decide : (1 : BitVec 32) ≠ 0), fun _ => hn.1⟩
  | 4, hi, hn =>
    obtain rfl := Option.some.inj hi
    rcases Insn.exec_cbnz he with ⟨⟨h2, rfl⟩ | ⟨h2, rfl⟩, rfl⟩
    · exact ⟨a, .keep, hn.2 h2⟩
    · exact ⟨a, .keep, hn.1 h2⟩
  | 5, hi, hn =>
    obtain rfl := Option.some.inj hi
    obtain ⟨rfl, rfl⟩ := Prod.mk.inj (Option.some.inj he)
    exact ⟨a, .keep, hn, fun h1 => hn.2.2 (xor_rotate_eq_zero.mp h1)⟩
  | 6, hi, hn =>
    obtain rfl := Option.some.inj hi
    rcases Insn.exec_cbz he with ⟨⟨h1, rfl⟩ | ⟨h1, rfl⟩, rfl⟩
    · exact ⟨a, .keep, hn.1.1, hn.2 h1⟩
    · exact ⟨a, .keep, hn.1⟩
  | 7, hi, hn =>
    obtain rfl := Option.some.inj hi
    obtain ⟨rfl, rfl⟩ := Prod.mk.inj (Option.some.inj he)
    exact ⟨a, .keep, hn, Or.inl rfl⟩
  | 8, hi, hn =>
    obtain rfl := Option.some.inj hi
    obtain ⟨-, rfl, rfl⟩ := Insn.exec_wfe he
    exact ⟨a, .keep, hn.1⟩
  | 9, hi, hn =>
    obtain rfl := Option.some.inj hi
    obtain ⟨rfl, rfl⟩ := Prod.mk.inj (Option.some.inj he)
    have hserved := hs.served_iff hC hn.2.1
    -- the monitor is claimed, so the store that serves this ticket will leave an event
    refine ⟨a, .keep, hn, fun h2 => ?_, fun h2 => Or.inr ⟨rfl, fun hhead => ?_⟩⟩
    · exact hserved.mp ((toNat_lowHalf word).symm.trans h2)
    · exact h2 ((toNat_lowHalf word).trans (hserved.mpr hhead))
  | 10, hi, hn =>
    obtain rfl := Option.some.inj hi
    obtain ⟨rfl, rfl⟩ := Prod.mk.inj (Option.some.inj he)
    exact ⟨a, .keep, hn.1, fun h1 => hn.2.1 (xor_shift_eq_zero.mp h1),
      fun h1 => hn.2.2 fun h2 => h1 (xor_shift_eq_zero.mpr h2)⟩
  | 11, hi, hn =>
    obtain rfl := Option.some.inj hi
    rcases Insn.exec_cbnz he with ⟨⟨h1, rfl⟩ | ⟨h1, rfl⟩, rfl⟩
    · exact ⟨a, .keep, hn.1, hn.2.2 h1⟩
    · exact ⟨a, .keep, hn.1.1, hn.2.1 h1⟩
  | 12, hi, _ => cases hi
  | _ + 13, _, hn => exact hn.elim

theorem spinTrylock_exec (hn : spinTrylockNote word a c k) (hi : spinTrylockAsm[k.pc]? = some i)
    (he : i.exec word ok k = some (k', stored)) :
    ∃ a', QueueMove c word a stored a' (lockEvent c word .trylock i stored) ∧
      spinTrylockNote (stored.getD word) a' c k' := by
  obtain ⟨pc, reg, monitor, event⟩ := k
  match pc, hi, hn with
  | 0, hi, hn =>
    obtain rfl := Option.some.inj hi
    obtain ⟨rfl, rfl⟩ := Prod.mk.inj (Option.some.inj he)
    exact ⟨a, .keep, hn⟩
  | 1, hi, hn =>
    obtain rfl := Option.some.inj hi
    obtain ⟨rfl, rfl⟩ := Prod.mk.inj (Option.some.inj he)
    have hphase : a.phase c = .asking .trylock := hn
    have hunlocked := hs.unlocked_iff hC (c := c) (by rw [hphase]; exact id)
    show ∃ a', QueueMove c word a none a' (if spinIsLocked word then [.refuse c] else []) ∧ _
    by_cases hq : a.queue = []
    · rw [if_neg fun hlocked => spinIsLocked_iff.mp hlocked (hunlocked.mpr hq)]
      exact ⟨a, .keep, fun _ => ⟨hn, fun v hv => Option.some.inj hv⟩, fun h =>
        absurd (hunlocked.mpr hq) h⟩
    · -- the load has seen the lock taken
      rw [if_pos (spinIsLocked_iff.mpr fun h => hq (hunlocked.mp h))]
      exact ⟨_, .refuse hn hq, fun h => absurd (hunlocked.mp h) hq, fun _ =>
        FifoLock.goto_phase_same ..⟩
  | 2, hi, hn =>
    obtain rfl := Option.some.inj hi
    obtain ⟨rfl, rfl⟩ := Prod.mk.inj (Option.some.inj he)
    refine ⟨a, .keep, fun h1 => ?_, fun h1 => hn.2 fun heq => h1 (xor_rotate_eq_zero.mpr heq)⟩
    have heq := xor_rotate_eq_zero.mp h1
    obtain ⟨hphase, hview⟩ := hn.1 heq
    exact ⟨hphase, fun v hv => ⟨hview v hv, hview v hv ▸ heq⟩⟩
  | 3, hi, hn =>
    obtain rfl := Option.some.inj hi
    rcases Insn.exec_cbnz he with ⟨⟨h1, rfl⟩ | ⟨h1, rfl⟩, rfl⟩
    · exact ⟨a, .keep, fun h => absurd h h1, fun _ => hn.2 h1⟩
    · exact ⟨a, .keep, hn.1 h1⟩
  | 4, hi, hn =>
    obtain rfl := Option.some.inj hi
    obtain ⟨rfl, rfl⟩ := Prod.mk.inj (Option.some.inj he)
    exact ⟨a, .keep, hn.1, fun v hv => ⟨congrArg (· + ticketInc) (hn.2 v hv).1, (hn.2 v hv).2⟩⟩
  | 5, hi, hn =>
    obtain rfl := Option.some.inj hi
    rcases Insn.exec_stxr he with ⟨hmon, rfl, rfl⟩ | ⟨rfl, rfl⟩
    · have h0 : reg 0 = word + ticketInc := (hn.2 word (Core.view_eq_some.mpr ⟨hmon, rfl⟩)).1
      have heq : lockOwner word = lockNext word := (hn.2 word (Core.view_eq_some.mpr ⟨hmon, rfl⟩)).2
      have hout : ¬ (a.phase c).Waits := by
        rw [hn.1]
        exact id
      have hq := (hs.unlocked_iff hC hout).mp heq
      have hmove : QueueMove c word a _ _ _ := .join hn.1 fun _ => hq
      rw [← h0] at hmove
      refine ⟨_, hmove, fun _ => ⟨FifoLock.goto_phase_same .., ?_⟩, fun h => absurd rfl h⟩
      show (a.queue ++ [c]).head? = some c
      rw [hq]
      rfl
    · exact ⟨a, .keep, fun h => absurd h (by decide : (1 : BitVec 32) ≠ 0), fun _ => hn.1⟩
  | 6, hi, hn =>
    obtain rfl := Option.some.inj hi
    rcases Insn.exec_cbnz he with ⟨⟨h1, rfl⟩ | ⟨h1, rfl⟩, rfl⟩
    · exact ⟨a, .keep, hn.2 h1⟩
    · exact ⟨a, .keep, fun _ => hn.1 h1, fun h => absurd h1 h⟩
  | 7, hi, _ => cases hi
  | _ + 8, _, hn => exact hn.elim

omit hC hs in
theorem spinUnlock_exec (hn : spinUnlockNote word a c k) (hi : spinUnlockAsm[k.pc]? = some i)
    (he : i.exec word ok k = some (k', stored)) :
    ∃ a', QueueMove c word a stored a' (lockEvent c word .unlock i stored) ∧
      spinUnlockNote (stored.getD word) a' c k' := by
  obtain ⟨pc, reg, monitor, event⟩ := k
  match pc, hi, hn with
  | 0, hi, hn =>
    obtain rfl := Option.some.inj hi
    obtain ⟨rfl, rfl⟩ := Prod.mk.inj (Option.some.inj he)
    exact ⟨a, .keep, hn.1, hn.2, lockOwner_lowHalf word⟩
  | 1, hi, hn =>
    obtain rfl := Option.some.inj hi
    obtain ⟨rfl, rfl⟩ := Prod.mk.inj (Option.some.inj he)
    refine ⟨a, .keep, hn.1, hn.2.1, ?_⟩
    show lockOwner (reg 1 + 1) = (lockOwner word + 1) % 2 ^ 16
    rw [lockOwner_succ, show lockOwner (reg 1) = lockOwner word from hn.2.2]
  | 2, hi, hn =>
    obtain rfl := Option.some.inj hi
    obtain ⟨rfl, rfl⟩ := Prod.mk.inj (Option.some.inj he)
    exact ⟨_, .leave hn.1 ((lockOwner_setLowHalf ..).trans hn.2.2) (lockNext_setLowHalf ..),
      FifoLock.goto_phase_same ..⟩
  | 3, hi, _ => cases hi
  | _ + 4, _, hn => exact hn.elim

theorem spin_exec {op : LockOp} (hn : spinNote word a c op k)
    (hi : (spinRoutines.code op)[k.pc]? = some i) (he : i.exec word ok k = some (k', stored)) :
    ∃ a', QueueMove c word a stored a' (lockEvent c word op i stored) ∧
      spinNote (stored.getD word) a' c op k' := by
  cases op with
  | lock => exact spinLock_exec hC hs hn hi he
  | trylock => exact spinTrylock_exec hC hs hn hi he
  | unlock => exact spinUnlock_exec hn hi he

end exec

end queue

end ZHyper
