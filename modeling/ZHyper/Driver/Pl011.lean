import ZHyper.Console.Model
import ZHyper.Lib.Driver

/-!
# `pl011.c`

The routines as lists of register accesses, by their offsets; `g_pl011_base_addr` is left out.  The
UART moves bytes between its FIFOs and its lines while they run, and interrupt handlers print in
between.

    what is sent  =  what was stored in `DR`, in order, without the bytes that found the FIFO full
    those are no more than the interrupts between the check of `TXFF` and the store
                                                                                    (pl011_output)
-/

namespace ZHyper

open LowLevel

/-! ## The UART -/

def pl011Dr : Nat := 0x00
def pl011Fr : Nat := 0x18
def pl011Ibrd : Nat := 0x24
def pl011Fbrd : Nat := 0x28
def pl011Lcrh : Nat := 0x2C
def pl011Cr : Nat := 0x30
def pl011Imsc : Nat := 0x38

def pl011FrRxfe : BitVec 32 := 1 <<< 4
def pl011FrTxff : BitVec 32 := 1 <<< 5
def pl011FrRxff : BitVec 32 := 1 <<< 6
def pl011FrTxfe : BitVec 32 := 1 <<< 7

def pl011LcrhFen : BitVec 32 := 1 <<< 4
def pl011LcrhWlen8 : BitVec 32 := 3 <<< 5

def pl011IntrxEnabled : BitVec 32 := 1 <<< 4
def pl011InttxEnabled : BitVec 32 := 1 <<< 5

/-- What `pl011_init` sets. -/
structure UartConfig where
  cr : BitVec 32
  imsc : BitVec 32
  lcrh : BitVec 32
  ibrd : BitVec 32
  fbrd : BitVec 32

def UartConfig.set (c : UartConfig) (r : Nat × BitVec 32) : UartConfig :=
  if r.1 = pl011Cr then { c with cr := r.2 }
  else if r.1 = pl011Imsc then { c with imsc := r.2 }
  else if r.1 = pl011Lcrh then { c with lcrh := r.2 }
  else if r.1 = pl011Ibrd then { c with ibrd := r.2 }
  else if r.1 = pl011Fbrd then { c with fbrd := r.2 }
  else c

/-- A received character has its error flags above the byte. -/
structure Uart where
  config : UartConfig
  /-- The bits of `FR` that are not about the FIFOs. -/
  modem : BitVec 32
  tx : List (BitVec 8)
  shifter : Option (BitVec 8)
  line : List (BitVec 8)
  rx : List (BitVec 12)
  /-- The bytes that were stored into a full FIFO. -/
  lost : Nat
  /-- The reads of an empty FIFO. -/
  stale : Nat

namespace Uart

/-- The places in a FIFO, `depth` of them unless the FIFOs are disabled. -/
def room (depth : Nat) (u : Uart) : Nat := if u.config.lcrh.getLsbD 4 then depth else 1

def fifoFlags (rxfe txff rxff txfe : Bool) : BitVec 32 :=
  (if rxfe then pl011FrRxfe else 0) ||| (if txff then pl011FrTxff else 0) |||
    (if rxff then pl011FrRxff else 0) |||
    (if txfe then pl011FrTxfe else 0)

def fr (depth : Nat) (u : Uart) : BitVec 32 :=
  (u.modem &&& ~~~0xF0) ||| fifoFlags u.rx.isEmpty (u.room depth ≤ u.tx.length)
    (u.room depth ≤ u.rx.length) u.tx.isEmpty

def configReg (c : UartConfig) (a : Nat) : BitVec 32 :=
  if a = pl011Cr then c.cr
  else if a = pl011Imsc then c.imsc
  else if a = pl011Lcrh then c.lcrh
  else if a = pl011Ibrd then c.ibrd
  else if a = pl011Fbrd then c.fbrd
  else 0

def read (depth a : Nat) (u : Uart) : BitVec 32 × Uart :=
  if a = pl011Dr then
    match u.rx with
    | [] => (0, { u with stale := u.stale + 1 })
    | b :: rx => (b.setWidth 32, { u with rx })
  else if a = pl011Fr then (u.fr depth, u)
  else (configReg u.config a, u)

def write (depth a : Nat) (v : BitVec 32) (u : Uart) : Uart :=
  if a = pl011Dr then
    if u.tx.length < u.room depth then { u with tx := u.tx ++ [v.setWidth 8] }
      else { u with lost := u.lost + 1 }
  else { u with config := u.config.set (a, v) }

/-- `UARTEN` and the enable bit of a direction. -/
def enabled (u : Uart) (bit : Nat) : Bool := u.config.cr.getLsbD 0 && u.config.cr.getLsbD bit

/-- All that was accepted for sending, on the line or not yet. -/
def sent (u : Uart) : List (BitVec 8) := u.line ++ u.shifter.toList ++ u.tx

end Uart

inductive UartEvent where
  | shift
  | send
  | receive (b : BitVec 12)
  | overrun
  | modem (f : BitVec 32)

inductive UartMoves (depth : Nat) : Uart → UartEvent → Uart → Prop where
  | shift {u : Uart} {b : BitVec 8} {bs : List (BitVec 8)} : u.enabled 8 = true → u.tx = b :: bs →
    u.shifter = none →
      UartMoves depth u .shift { u with tx := bs, shifter := some b }
  | send {u : Uart} {b : BitVec 8} : u.shifter = some b →
      UartMoves depth u .send { u with shifter := none, line := u.line ++ [b] }
  | receive {u : Uart} {b : BitVec 12} : u.enabled 9 = true → u.rx.length < u.room depth →
      UartMoves depth u (.receive b) { u with rx := u.rx ++ [b] }
  | overrun {u : Uart} : u.enabled 9 = true → u.room depth ≤ u.rx.length →
    UartMoves depth u .overrun u
  | modem {u : Uart} (f : BitVec 32) : UartMoves depth u (.modem f) { u with modem := f }

def uart (depth : Nat) : Device Uart Nat (BitVec 32) UartEvent :=
  ⟨Uart.read depth, Uart.write depth, UartMoves depth⟩

/-! ## The driver -/

abbrev UartOp := RegOp Nat (BitVec 32)

def pl011Init : List UartOp :=
  let baudRateDivisorInt : BitVec 32 := 27
  let baudRateDivisorFrac : BitVec 32 := 8
  [.store pl011Cr 0, .store pl011Imsc 0, .store pl011Imsc (pl011IntrxEnabled ||| pl011InttxEnabled),
    .store pl011Lcrh (pl011LcrhFen ||| pl011LcrhWlen8), .store pl011Ibrd baudRateDivisorInt,
    .store pl011Fbrd baudRateDivisorFrac, .store pl011Cr ((1 <<< 0) ||| (1 <<< 8) ||| (1 <<< 9))]

def pl011Putchar (c : Int) : List UartOp :=
  [.wait pl011Fr fun fr => fr &&& pl011FrTxff != 0, .store pl011Dr (BitVec.ofInt 32 c)]

def pl011Getchar : List UartOp := [.wait pl011Fr fun fr => fr &&& pl011FrRxfe != 0, .load pl011Dr]

def pl011Flush : List UartOp := [.wait pl011Fr fun fr => fr &&& pl011FrTxfe == 0]

inductive Pl011Op where
  | init
  | putchar (c : Int)
  | getchar
  | flush

def pl011Code : Pl011Op → List UartOp
  | .init => pl011Init
  | .putchar c => pl011Putchar c
  | .getchar => pl011Getchar
  | .flush => pl011Flush

/-- What `__pl011_init`, `__pl011_putc`, `__pl011_getc` and `__pl011_flush` return. -/
def pl011Result (op : Pl011Op) (dr : Option (BitVec 32)) : Int :=
  match op, dr with
  | .getchar, some dr => (dr &&& 0xFF).toInt
  | _, _ => 0

abbrev Pl011State := Driven Uart Pl011Op Nat (BitVec 32)

abbrev Pl011Event := DrivenEvent Pl011Op Nat (BitVec 32) UartEvent

/-- Handlers print, and call neither `__pl011_init` nor `__pl011_getc`. -/
def handlersPrint (level : Nat) : Pl011Op → Prop
  | .putchar _ => True
  | .flush => True
  | _ => level = 0

/-- A CPU, its interrupts and the UART. -/
def Pl011Step (depth : Nat) : Pl011State → Pl011Event → Pl011State → Prop :=
  DrivenStep (uart depth) pl011Code handlersPrint

variable {depth : Nat} {u u' : Uart}

/-! ## The flags -/

theorem fr_and {m : BitVec 32} (hm : ~~~0xF0 &&& m = 0) : u.fr depth &&& m =
    Uart.fifoFlags u.rx.isEmpty (u.room depth ≤ u.tx.length)
      (u.room depth ≤ u.rx.length) u.tx.isEmpty &&& m := by
  unfold Uart.fr
  have hmodem : u.modem &&& 0 = 0 := BitVec.and_zero
  rw [BitVec.and_or_distrib_right, BitVec.and_assoc, hm, hmodem]
  exact BitVec.zero_or

theorem fifoFlags_bits :
    ∀ rxfe txff rxff txfe, (Uart.fifoFlags rxfe txff rxff txfe &&& pl011FrRxfe != 0) = rxfe ∧
    (Uart.fifoFlags rxfe txff rxff txfe &&& pl011FrTxff != 0) = txff ∧
    (Uart.fifoFlags rxfe txff rxff txfe &&& pl011FrTxfe == 0) = !txfe := by
  decide

theorem fr_full : (u.fr depth &&& pl011FrTxff != 0) = decide (u.room depth ≤ u.tx.length) := by
  rw [fr_and (by decide)]
  exact (fifoFlags_bits ..).2.1

theorem fr_noInput : (u.fr depth &&& pl011FrRxfe != 0) = u.rx.isEmpty := by
  rw [fr_and (by decide)]
  exact (fifoFlags_bits ..).1

theorem fr_notDrained : (u.fr depth &&& pl011FrTxfe == 0) = !u.tx.isEmpty := by
  rw [fr_and (by decide)]
  exact (fifoFlags_bits ..).2.2

/-! ## Output -/

/-- The bytes that an event stores in `DR`. -/
def storedByte : Pl011Event → Option (BitVec 8)
  | .exec _ (.store a v) => if a = pl011Dr then some (v.setWidth 8) else none
  | _ => none

/-- At the store of `pl011_putchar`, behind its check. -/
def atStore (k : RoutineCall Pl011Op Nat (BitVec 32)) : Bool :=
  match k.op, k.rest with
  | .putchar _, [_] => true
  | _, _ => false

/-- The character of a call that has stored it. -/
def putDone (k : RoutineCall Pl011Op Nat (BitVec 32)) : Option Int :=
  match k.op, k.rest with
  | .putchar c, [] => some c
  | _, _ => none

/-- The characters that level `n` has printed. -/
def charsAt (n : Nat) (es : List Pl011Event) (s : Pl011State) : List Int :=
  (returnsAt n es).filterMap (fun op => if let .putchar c := op then some c else none) ++
    ((s.context n).bind putDone).toList

/-- What level `n` has stored in `DR`. -/
def dataAt (n : Nat) (es : List Pl011Event) : List (BitVec 32) :=
  (storesAt n es).filterMap fun r => if r.1 = pl011Dr then some r.2 else none

/-- Accepted bytes stay, and a byte is accepted or counted as lost. -/
structure Accepts (u u' : Uart) (stored : List (BitVec 8)) : Prop where
  kept : ∃ kept, u'.sent = u.sent ++ kept ∧ kept.Sublist stored ∧
    kept.length + u'.lost = stored.length + u.lost

theorem Accepts.none (hsent : u'.sent = u.sent) (hlost : u'.lost = u.lost) : Accepts u u' [] :=
  ⟨[], by rw [hsent, List.append_nil], .slnil, by rw [hlost]⟩

theorem Accepts.trans {u'' : Uart} {stored stored' : List (BitVec 8)} (h : Accepts u u' stored)
    (h' : Accepts u' u'' stored') : Accepts u u'' (stored ++ stored') := by
  obtain ⟨kept, hsent, hsub, hlost⟩ := h
  obtain ⟨kept', hsent', hsub', hlost'⟩ := h'
  refine ⟨kept ++ kept', ?_, hsub.append hsub', ?_⟩
  · rw [hsent', hsent, List.append_assoc]
  · rw [List.length_append, List.length_append]
    omega

theorem read_accepts (a : Nat) : Accepts u (Uart.read depth a u).2 [] := by
  unfold Uart.read
  split
  · split <;> exact .none rfl rfl
  · split <;> exact .none rfl rfl

theorem write_accepts (a : Nat) (v : BitVec 32) :
    Accepts u (Uart.write depth a v u) (if a = pl011Dr then [v.setWidth 8] else []) := by
  unfold Uart.write
  by_cases ha : a = pl011Dr
  · rw [if_pos ha, if_pos ha]
    split
    · exact ⟨[v.setWidth 8], by simp [Uart.sent], .refl _, rfl⟩
    · exact ⟨[], by simp [Uart.sent], List.nil_sublist _, by simp; omega⟩
  · rw [if_neg ha, if_neg ha]
    exact .none rfl rfl

theorem exec_accepts {n : Nat} (i : UartOp) :
    Accepts u (i.effect (uart depth) u) (storedByte (.exec n i)).toList := by
  cases i with
  | wait a busy => exact read_accepts a
  | load a => exact read_accepts a
  | store a v =>
    have hbyte : (storedByte (.exec n (.store a v))).toList = if a = pl011Dr then [v.setWidth 8]
        else [] := by
      unfold storedByte
      dsimp only
      split <;> rfl
    rw [hbyte]
    exact write_accepts a v

theorem moves_accepts {d : UartEvent} (h : UartMoves depth u d u') : Accepts u u' [] := by
  cases h with
  | @shift b bs _ htx hshifter => exact .none (by simp [Uart.sent, htx, hshifter]) rfl
  | @send b hshifter => exact .none (by simp [Uart.sent, hshifter]) rfl
  | receive => exact .none rfl rfl
  | overrun => exact .none rfl rfl
  | modem f => exact .none rfl rfl

theorem pl011_accepts {s t : Pl011State} {es : List Pl011Event}
    (h : Runs (Pl011Step depth) s es t) :
    Accepts s.device t.device (es.filterMap storedByte) := by
  induction h with
  | nil s => exact .none rfl rfl
  | @cons s t v e es h1 _ ih =>
    have hstep : Accepts s.device t.device (storedByte e).toList := by
      cases h1 with
      | exec => exact exec_accepts _
      | dev hd => exact moves_accepts hd
      | call => exact .none rfl rfl
      | ret => exact .none rfl rfl
      | irq => exact .none rfl rfl
      | eret => exact .none rfl rfl
    have happend : (e :: es).filterMap storedByte = (storedByte e).toList ++
        es.filterMap storedByte := by
      cases he : storedByte e <;> simp [he]
    rw [happend]
    exact hstep.trans ih

/-- What is left of a call of `pl011_putchar`. -/
theorem putchar_rest {c : Int} {r : List UartOp} (h : r <:+ pl011Code (.putchar c)) :
    r = pl011Putchar c ∨ r = [.store pl011Dr (BitVec.ofInt 32 c)] ∨ r = [] := by
  obtain h | h := List.suffix_cons_iff.mp h
  · exact Or.inl h
  · obtain h | h := List.suffix_cons_iff.mp h
    · exact Or.inr (Or.inl h)
    · exact Or.inr (Or.inr (List.suffix_nil.mp h))

theorem atStore_code (op : Pl011Op) : atStore ⟨op, pl011Code op, none⟩ = false := by
  cases op <;> rfl

theorem eq_of_atStore {k : RoutineCall Pl011Op Nat (BitVec 32)} (h : atStore k = true) :
    ∃ c i, k.op = .putchar c ∧ k.rest = [i] := by
  obtain ⟨op, rest, value⟩ := k
  match op, rest, h with
  | .putchar c, [i], _ => exact ⟨c, i, rfl, rfl⟩

/-- Only `pl011_putchar` stores in `DR`. -/
theorem putchar_of_store {op : Pl011Op} {v : BitVec 32} {is : List UartOp}
    (h : .store pl011Dr v :: is <:+ pl011Code op) : ∃ c, op = .putchar c ∧ is = [] := by
  have hmem : RegOp.store pl011Dr v ∈ pl011Code op := h.mem List.mem_cons_self
  cases op with
  | init =>
    simp [pl011Code, pl011Init, pl011Dr, pl011Cr, pl011Imsc, pl011Lcrh, pl011Ibrd,
      pl011Fbrd] at hmem
  | getchar => simp [pl011Code, pl011Getchar] at hmem
  | flush => simp [pl011Code, pl011Flush] at hmem
  | putchar c =>
    refine ⟨c, rfl, ?_⟩
    obtain h | h | h := putchar_rest h
    · cases h
    · exact (List.cons.inj h).2
    · cases h

/-- `pl011_putchar` stores once it has found room in the FIFO. -/
theorem putchar_checked (depth : Nat) :
    Checked (uart depth) pl011Code atStore (fun u =>
      decide (u.tx.length < u.room depth)) Uart.lost where
  start := atStore_code
  arms := by
    intro k i is u hsuffix hi harmed
    obtain ⟨c, j, hop, hj⟩ := eq_of_atStore harmed
    rw [RoutineCall.next_op] at hop
    rw [hop] at hsuffix
    obtain h | h | h := putchar_rest hsuffix
    · obtain ⟨rfl, rfl⟩ := List.cons.inj h
      cases hpass : RegOp.passes (uart depth) u (.wait pl011Fr fun fr =>
        fr &&& pl011FrTxff != 0) with
      | false =>
        rw [RoutineCall.next_wait hpass, hi] at hj
        cases hj
      | true =>
        have hroom : (!(u.fr depth &&& pl011FrTxff != 0)) = true := hpass
        rw [fr_full] at hroom
        show decide (u.tx.length < u.room depth) = true
        simpa using hroom
    · obtain ⟨rfl, rfl⟩ := List.cons.inj h
      rw [RoutineCall.next_pass rfl] at hj
      cases hj
    · cases h
  exec := by
    intro k i is u hsuffix hi
    have hread (a : Nat) : (Uart.read depth a u).2.lost = u.lost := by
      unfold Uart.read
      split
      · split <;> rfl
      · split <;> rfl
    cases i with
    | wait a busy => exact (hread a).le.trans (Nat.le_add_right _ _)
    | load a => exact (hread a).le.trans (Nat.le_add_right _ _)
    | store a v =>
      show (Uart.write depth a v u).lost ≤ _
      unfold Uart.write
      by_cases ha : a = pl011Dr
      · subst ha
        obtain ⟨c, hop, rfl⟩ := putchar_of_store hsuffix
        have harmed : atStore k = true := by
          unfold atStore
          rw [hop, hi]
        rw [if_pos rfl, harmed]
        by_cases hroom : u.tx.length < u.room depth
        · rw [if_pos hroom]
          exact Nat.le_add_right _ _
        · rw [if_neg hroom, decide_eq_false hroom]
          exact Nat.le_refl _
      · rw [if_neg ha]
        exact Nat.le_add_right _ _
  dev := by
    intro u u' d h
    cases h with
    | shift _ htx _ => exact ⟨Nat.le_refl _, by simp [htx, Uart.room]; omega⟩
    | send => exact ⟨Nat.le_refl _, id⟩
    | receive => exact ⟨Nat.le_refl _, id⟩
    | overrun => exact ⟨Nat.le_refl _, id⟩
    | modem f => exact ⟨Nat.le_refl _, id⟩

/-- The data that a part of a routine stores in `DR`. -/
def dataOf (is : List UartOp) : List (BitVec 32) :=
  (storesOf is).filterMap fun r => if r.1 = pl011Dr then some r.2 else none

theorem dataOf_append (is js : List UartOp) : dataOf (is ++ js) = dataOf is ++ dataOf js := by
  unfold dataOf storesOf
  rw [List.filterMap_append, List.filterMap_append]

theorem dataOf_code (op : Pl011Op) :
    dataOf (pl011Code op) = if let .putchar c := op then [BitVec.ofInt 32 c] else [] := by
  cases op <;> rfl

theorem dataOf_done {k : RoutineCall Pl011Op Nat (BitVec 32)} {done : List UartOp}
    (h : pl011Code k.op = done ++ k.rest) :
      dataOf done = (putDone k).toList.map (BitVec.ofInt 32) := by
  have hdata := dataOf_code k.op
  rw [h, dataOf_append] at hdata
  obtain ⟨op, rest, value⟩ := k
  cases op with
  | putchar c =>
    have hsuffix : rest <:+ pl011Code (.putchar c) := ⟨done, h.symm⟩
    obtain rfl | rfl | rfl := putchar_rest hsuffix
    · exact List.append_left_eq_self.mp hdata
    · exact List.append_left_eq_self.mp hdata
    · exact (List.append_nil _).symm.trans hdata
  | init => exact (List.append_eq_nil_iff.mp hdata).1
  | getchar => exact (List.append_eq_nil_iff.mp hdata).1
  | flush => exact (List.append_eq_nil_iff.mp hdata).1

/-- A level stores in `DR` what it prints. -/
theorem dataAt_eq {s : Pl011State} {es : List Pl011Event}
    (h : Runs (Pl011Step depth) (.init u) es s) (n : Nat) :
    dataAt n es = (charsAt n es s).map (BitVec.ofInt 32) := by
  obtain ⟨done, hstores, hdone⟩ := storesAt_eq h n
  have hcurrent : dataOf done = ((s.context n).bind putDone).toList.map (BitVec.ofInt 32) := by
    cases hk : s.context n with
    | none =>
      rw [(done_none hk).mp hdone]
      rfl
    | some k => exact dataOf_done ((done_some hk).mp hdone)
  have hreturned (ops : List Pl011Op) : (ops.flatMap fun op => storesOf (pl011Code op)).filterMap
      (fun r => if r.1 = pl011Dr then some r.2 else none) =
      (ops.filterMap fun op => if let .putchar c := op then some c else none).map
        (BitVec.ofInt 32) := by
    induction ops with
    | nil => rfl
    | cons op ops ih =>
      have hop := dataOf_code op
      unfold dataOf at hop
      rw [List.flatMap_cons, List.filterMap_append, ih, hop]
      cases op <;> rfl
  unfold dataAt charsAt
  rw [hstores, List.filterMap_append, hreturned, List.map_append]
  congr 1

/-- `pl011Putc`, which leaves the waits out, sends what `pl011_putchar` stores. -/
theorem pl011Putc_run (cs : List Int) (sent : List (BitVec 32)) :
    ((cs.forM fun c => discard (pl011Putc c)).run sent).2 = sent ++ cs.map (BitVec.ofInt 32) := by
  induction cs generalizing sent with
  | nil => simp; rfl
  | cons c cs ih =>
    have := ih (sent ++ [BitVec.ofInt 32 c])
    rw [List.append_assoc] at this
    exact this

/-- Without interrupts the bytes are those of level 0. -/
theorem storedByte_eq {s : Pl011State} {es : List Pl011Event}
    (h : Runs (Pl011Step depth) (.init u) es s) (hirq : ∀ k, DrivenEvent.irq k ∉ es) :
      es.filterMap storedByte = (dataAt 0 es).map (·.setWidth 8) := by
  have hlevel (n : Nat) (i : UartOp) (he : .exec n i ∈ es) : n = 0 :=
    Nat.le_zero.mp ((level_of_quiet h hirq).2 n i he)
  unfold dataAt storesAt
  rw [List.filterMap_filterMap, List.map_filterMap]
  refine List.filterMap_congr fun e he => ?_
  cases e with
  | exec n i =>
    obtain rfl := hlevel n i he
    cases i with
    | store a v =>
      by_cases ha : a = pl011Dr <;> simp [storedByte, DrivenEvent.storedAt, RegOp.stored, ha]
    | wait a busy => rfl
    | load a => rfl
  | _ => rfl

/-- **What is printed is sent.**  The bytes that the UART accepted are those stored, in order,
without those that found the FIFO full: no more than the interrupts that came between the check and
the store.  Each level stores what it prints; and without interrupts all is sent, as `pl011Putc` has
it. -/
theorem pl011_output {s : Pl011State} {es : List Pl011Event}
    (h : Runs (Pl011Step depth) (.init u) es s) :
    (∃ kept, s.device.sent = u.sent ++ kept ∧ kept.Sublist (es.filterMap storedByte) ∧
      kept.length + s.device.lost = (es.filterMap storedByte).length + u.lost) ∧
    s.device.lost ≤ u.lost + es.countP (DrivenEvent.interrupts atStore) ∧
    (∀ n, dataAt n es = (charsAt n es s).map (BitVec.ofInt 32)) ∧
    ((∀ k, .irq k ∉ es) → s.device.sent =
      u.sent ++ (((charsAt 0 es s).forM fun c => discard (pl011Putc c)).run []).2.map
        (·.setWidth 8)) := by
  have hlost := bad_le (putchar_checked depth) h
  obtain ⟨kept, hsent, hsub, hcount⟩ := pl011_accepts h
  refine ⟨⟨kept, hsent, hsub, hcount⟩, hlost, dataAt_eq h, fun hirq => ?_⟩
  have hnone : es.countP (DrivenEvent.interrupts atStore) = 0 := by
    refine List.countP_eq_zero.mpr fun e he hint => ?_
    cases e with
    | irq k => exact hirq k he
    | _ => cases hint
  have hall : kept = es.filterMap storedByte := by
    refine hsub.eq_of_length (le_antisymm hsub.length_le ?_)
    have hinit : (Driven.init u : Pl011State).device.lost = u.lost := rfl
    rw [hinit] at hcount
    omega
  rw [pl011Putc_run, List.nil_append, ← dataAt_eq h 0, ← storedByte_eq h hirq, ← hall]
  exact hsent

/-- A UART with its FIFOs disabled. -/
def exampleUart : Uart := ⟨⟨0x301, 0, 0, 0, 0⟩, 0, [], none, [], [], 0, 0⟩

/-- `B` is printed by a handler between the check and the store for `A`, which is lost. -/
theorem pl011_output_lossy : ∃ (es : List Pl011Event) (s : Pl011State),
    Runs (Pl011Step 16) (.init exampleUart) es s ∧ s.device.sent = [66] ∧ s.device.lost = 1 ∧
      s.device.lost ≤ 0 + es.countP (DrivenEvent.interrupts atStore) := by
  have hrun : ∃ (es : List Pl011Event) (s : Pl011State),
      Runs (Pl011Step 16) (.init exampleUart) es s ∧ s.device.sent = [66] ∧ s.device.lost = 1 :=
    ⟨_, _, .cons (.call rfl (show handlersPrint 0 (.putchar 65) from trivial)) <|
      .cons (.exec rfl rfl) <| .cons .irq <|
      .cons (.call rfl (show handlersPrint 1 (.putchar 66) from trivial)) <|
        .cons (.exec rfl rfl) <| .cons (.exec rfl rfl) <|
      .cons (.ret rfl rfl) <| .cons (.eret rfl rfl) <| .single (.exec rfl rfl), rfl, rfl⟩
  obtain ⟨es, s, h, hsent, hlost⟩ := hrun
  exact ⟨es, s, h, hsent, hlost, (pl011_output h).2.1⟩

end ZHyper
