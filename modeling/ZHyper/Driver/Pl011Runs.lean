import ZHyper.Driver.Pl011

/-!
# `pl011.c`: what is received, what is set, and who waits for whom

Only the code at level 0 reads `DR`, once it has found a character; so each that was received is
read once, in order (`pl011_input`).  After `pl011_init` the registers stay as it leaves them, and
the UART takes out of its FIFO what `pl011_putchar` and `pl011_flush` wait for (`pl011_waits`).
-/

namespace ZHyper

open LowLevel

/-! ## Input -/

/-- What `__pl011_getc` makes of a character. -/
def charOf (b : BitVec 12) : Int := pl011Result .getchar (some (b.setWidth 32))

def receivedChar : Pl011Event → Option (BitVec 12)
  | .dev (.receive b) => some b
  | _ => none

def gottenChar : Pl011Event → Option Int
  | .ret _ .getchar dr => some (pl011Result .getchar dr)
  | _ => none

/-- What a call of `pl011_getchar` has read. -/
def getDone (k : RoutineCall Pl011Op Nat (BitVec 32)) : Option Int :=
  match k.op, k.rest with
  | .getchar, [] => some (pl011Result .getchar k.value)
  | _, _ => none

variable {depth : Nat} {u u' : Uart} {s t : Pl011State} {es : List Pl011Event} {e : Pl011Event}
  {k : RoutineCall Pl011Op Nat (BitVec 32)}

theorem getchar_rest {r : List UartOp} (h : r <:+ pl011Code .getchar) :
    r = pl011Getchar ∨ r = [.load pl011Dr] ∨ r = [] := by
  obtain h | h := List.suffix_cons_iff.mp h
  · exact Or.inl h
  · obtain h | h := List.suffix_cons_iff.mp h
    · exact Or.inr (Or.inl h)
    · exact Or.inr (Or.inr (List.suffix_nil.mp h))

/-- Waits read `FR`. -/
theorem wait_reads {op : Pl011Op} {a : Nat} {busy : BitVec 32 → Bool} {is : List UartOp}
    (h : .wait a busy :: is <:+ pl011Code op) : a = pl011Fr := by
  have hmem : RegOp.wait a busy ∈ pl011Code op := h.mem List.mem_cons_self
  cases op with
  | init => simp [pl011Code, pl011Init] at hmem
  | putchar c =>
    simp [pl011Code, pl011Putchar] at hmem
    exact hmem.1
  | getchar =>
    simp [pl011Code, pl011Getchar] at hmem
    exact hmem.1
  | flush =>
    simp [pl011Code, pl011Flush] at hmem
    exact hmem.1

/-- Only `pl011_getchar` loads. -/
theorem getchar_of_load {op : Pl011Op} {a : Nat} {is : List UartOp}
    (h : .load a :: is <:+ pl011Code op) :
    op = .getchar ∧ a = pl011Dr ∧ is = [] := by
  have hmem : RegOp.load a ∈ pl011Code op := h.mem List.mem_cons_self
  cases op with
  | init => simp [pl011Code, pl011Init] at hmem
  | putchar c => simp [pl011Code, pl011Putchar] at hmem
  | flush => simp [pl011Code, pl011Flush] at hmem
  | getchar =>
    obtain h | h | h := getchar_rest h
    · cases h
    · obtain ⟨h, rfl⟩ := List.cons.inj h
      cases h
      exact ⟨rfl, rfl, rfl⟩
    · cases h

/-- The characters received are those returned, the one read last and those that are still in the
FIFO; and no read found the FIFO empty. -/
structure Received (u : Uart) (es : List Pl011Event) (s : Pl011State) : Prop where
  stale : s.device.stale = u.stale
  chars : (u.rx ++ es.filterMap receivedChar).map charOf =
    es.filterMap gottenChar ++ ((s.context 0).bind getDone).toList ++ s.device.rx.map charOf
  /-- `pl011_getchar` reads what it has found. -/
  found {k : RoutineCall Pl011Op Nat (BitVec 32)} : s.context 0 = some k → k.op = .getchar →
    k.rest = [.load pl011Dr] → s.device.rx ≠ []

/-- A step that neither receives nor reads a character. -/
theorem Received.quiet (h : Received u es s) (hreceived : receivedChar e = none)
    (hgotten : gottenChar e = none) (hstale : t.device.stale = s.device.stale)
    (hrx : t.device.rx = s.device.rx)
    (hdone : (t.context 0).bind getDone = (s.context 0).bind getDone)
    (hfound : ∀ k, t.context 0 = some k → k.op = .getchar → k.rest = [.load pl011Dr] →
      t.device.rx ≠ []) :
    Received u (es ++ [e]) t := by
  refine ⟨hstale.trans h.stale, ?_, fun hk => hfound _ hk⟩
  have hchars := h.chars
  rw [List.filterMap_append, List.filterMap_append, hdone, hrx]
  simpa [hreceived, hgotten] using hchars

theorem getDone_of_ne (h : k.op ≠ .getchar) : getDone k = none := by
  obtain ⟨op, rest, value⟩ := k
  cases op <;> first | rfl | exact absurd rfl h

theorem getDone_of_cons {i : UartOp} {is : List UartOp} (h : k.rest = i :: is) :
    getDone k = none := by
  obtain ⟨op, rest, value⟩ := k
  cases h
  cases op <;> rfl

theorem Received.exec (h : Received u es s) (hk : s.context s.level = some k) {i : UartOp}
    {is : List UartOp} (hi : k.rest = i :: is) (hsuffix : i :: is <:+ pl011Code k.op)
    (hallowed : handlersPrint s.level k.op) :
    Received u (es ++ [.exec s.level i])
      { s.setCall (some (k.next (uart depth) s.device i is)) with
        device := i.effect (uart depth) s.device } := by
  -- an access that does not load
  have hquiet (hrx : (i.effect (uart depth) s.device).rx = s.device.rx)
      (hstale : (i.effect (uart depth) s.device).stale = s.device.stale)
      (hdone : getDone (k.next (uart depth) s.device i is) = none)
      (hfound : k.op = .getchar → (k.next (uart depth) s.device i is).rest = [.load pl011Dr] →
        s.device.rx ≠ []) :
      Received u (es ++ [.exec s.level i])
        { s.setCall (some (k.next (uart depth) s.device i is)) with
          device := i.effect (uart depth) s.device } := by
    refine h.quiet rfl rfl hstale hrx ?_ fun k' hk' hop hrest => ?_
    · by_cases hn : 0 = s.level
      · have hnone : (s.context 0).bind getDone = none := by
          rw [hn, hk]
          exact getDone_of_cons hi
        rw [hnone, hn]
        dsimp only
        rw [Driven.setCall_same]
        exact hdone
      · exact congrArg (·.bind getDone) (s.setCall_ne _ hn)
    · show (i.effect (uart depth) s.device).rx ≠ []
      rw [hrx]
      by_cases hn : 0 = s.level
      · rw [hn] at hk'
        dsimp only at hk'
        rw [Driven.setCall_same] at hk'
        cases hk'
        rw [RoutineCall.next_op] at hop
        exact hfound hop hrest
      · exact h.found ((s.setCall_ne _ hn).symm.trans hk') hop hrest
  cases i with
  | store a v =>
    have hop : k.op ≠ .getchar := by
      intro hop
      rw [hop] at hsuffix
      obtain h | h | h := getchar_rest hsuffix <;> cases h
    have hwrite : (Uart.write depth a v s.device).rx = s.device.rx ∧
        (Uart.write depth a v s.device).stale = s.device.stale := by
      unfold Uart.write
      split
      · split <;> exact ⟨rfl, rfl⟩
      · exact ⟨rfl, rfl⟩
    refine hquiet hwrite.1 hwrite.2 (getDone_of_ne ?_) fun h => absurd h hop
    rwa [RoutineCall.next_op]
  | wait a busy =>
    obtain rfl := wait_reads hsuffix
    cases hpass : RegOp.passes (uart depth) s.device (.wait pl011Fr busy) with
    | false =>
      rw [RoutineCall.next_wait hpass] at hquiet ⊢
      refine hquiet rfl rfl (getDone_of_cons hi) fun _ hrest => ?_
      rw [hi] at hrest
      cases hrest
    | true =>
      rw [RoutineCall.next_pass hpass] at hquiet ⊢
      by_cases hop : k.op = .getchar
      · rw [hop] at hsuffix
        obtain h' | h' | h' := getchar_rest hsuffix
        · obtain ⟨hwait, rfl⟩ := List.cons.inj h'
          cases hwait
          refine hquiet rfl rfl (getDone_of_cons rfl) fun _ _ hempty => ?_
          have hchar : (!(s.device.fr depth &&& pl011FrRxfe != 0)) = true := hpass
          rw [fr_noInput, hempty] at hchar
          cases hchar
        · cases h'
        · cases h'
      · exact hquiet rfl rfl (getDone_of_ne hop) fun h => absurd h hop
  | load a =>
    obtain ⟨hop, rfl, rfl⟩ := getchar_of_load hsuffix
    have hlevel : 0 = s.level := by
      rw [hop] at hallowed
      exact hallowed.symm
    have hchars := h.chars
    have hfound := h.found (hlevel ▸ hk) hop hi
    rw [hlevel, hk, Option.bind_some, getDone_of_cons hi] at hchars
    cases hrx : s.device.rx with
    | nil => exact absurd hrx hfound
    | cons b rx =>
      have hread : Uart.read depth pl011Dr s.device = (b.setWidth 32, { s.device with rx }) := by
        unfold Uart.read
        rw [if_pos rfl, hrx]
      have heffect : RegOp.effect (uart depth) s.device (.load pl011Dr) = { s.device with rx } :=
        congrArg Prod.snd hread
      have hvalue : RegOp.value (uart depth) s.device (.load pl011Dr) = some (b.setWidth 32) :=
        congrArg (fun r : BitVec 32 × Uart => some r.1) hread
      have hdone : getDone (k.next (uart depth) s.device (.load pl011Dr) []) = some (charOf b) := by
        rw [RoutineCall.next_pass rfl, hvalue]
        unfold getDone
        rw [hop]
        rfl
      rw [hrx] at hchars
      refine ⟨?_, ?_, fun hk' _ hrest => ?_⟩
      · rw [heffect]
        exact h.stale
      · rw [heffect, List.filterMap_append, List.filterMap_append]
        dsimp only
        have hreceived : [(.exec s.level (.load pl011Dr) : Pl011Event)].filterMap receivedChar =
            [] := rfl
        have hgotten : [(.exec s.level (.load pl011Dr) : Pl011Event)].filterMap gottenChar = [] :=
          rfl
        rw [hreceived, hgotten, hlevel, Driven.setCall_same, Option.bind_some, hdone]
        simpa using hchars
      · dsimp only at hk'
        rw [hlevel, Driven.setCall_same] at hk'
        cases hk'
        rw [RoutineCall.next_pass rfl] at hrest
        cases hrest

/-- What is received is read once, in order. -/
theorem Received.step (h : Received u es s) (hs : Pl011Step depth s e t)
    (hrest : ∀ k, s.context s.level = some k → k.rest <:+ pl011Code k.op)
    (hallowed : ∀ n k, s.context n = some k → handlersPrint n k.op) : Received u (es ++ [e]) t := by
  cases hs with
  | @call op hc hop =>
    by_cases hn : 0 = s.level
    · have hnew : getDone ⟨op, pl011Code op, none⟩ = none := by cases op <;> rfl
      refine h.quiet rfl rfl rfl rfl ?_ fun k' hk' hop' hrest' => ?_
      · rw [hn, Driven.setCall_same, hc, Option.bind_some, hnew]
        rfl
      · rw [hn, Driven.setCall_same] at hk'
        cases hk'
        cases hop'
        cases hrest'
    · refine h.quiet rfl rfl rfl rfl (congrArg (·.bind getDone) (s.setCall_ne _ hn)) fun k' hk' =>
        ?_
      exact h.found ((s.setCall_ne _ hn).symm.trans hk')
  | @exec k i is hk hi => exact h.exec hk hi (hi ▸ hrest k hk) (hallowed _ k hk)
  | @ret k hk hi =>
    by_cases hn : 0 = s.level
    · have hevent : [(.ret s.level k.op k.value : Pl011Event)].filterMap gottenChar =
          (getDone k).toList := by
        obtain ⟨op, rest, value⟩ := k
        cases hi
        cases op <;> rfl
      have hreceived : [(.ret s.level k.op k.value : Pl011Event)].filterMap receivedChar = [] := rfl
      have hchars := h.chars
      rw [hn, hk, Option.bind_some] at hchars
      refine ⟨h.stale, ?_, fun hk' _ _ => ?_⟩
      · rw [List.filterMap_append, List.filterMap_append, hevent, hreceived, hn,
          Driven.setCall_same]
        simpa using hchars
      · rw [hn, Driven.setCall_same] at hk'
        cases hk'
    · have hgotten : gottenChar (.ret s.level k.op k.value) = none := by
        have hprint := hallowed _ k hk
        obtain ⟨op, rest, value⟩ := k
        cases op with
        | getchar => exact absurd hprint.symm hn
        | _ => rfl
      refine h.quiet rfl hgotten rfl rfl (congrArg (·.bind getDone) (s.setCall_ne _ hn))
        fun k' hk' => ?_
      exact h.found ((s.setCall_ne _ hn).symm.trans hk')
  | irq => exact h.quiet rfl rfl rfl rfl rfl fun k' hk' => h.found hk'
  | eret => exact h.quiet rfl rfl rfl rfl rfl fun k' hk' => h.found hk'
  | @dev d v hd =>
    cases hd with
    | @receive b =>
      have hchars := h.chars
      refine ⟨h.stale, ?_, fun _ _ _ => List.append_ne_nil_of_right_ne_nil _ (List.cons_ne_nil _ _)⟩
      rw [List.filterMap_append, List.filterMap_append, ← List.append_assoc, List.map_append,
        hchars]
      simp [receivedChar, gottenChar]
    | shift => exact h.quiet rfl rfl rfl rfl rfl fun k' hk' => h.found hk'
    | send => exact h.quiet rfl rfl rfl rfl rfl fun k' hk' => h.found hk'
    | overrun => exact h.quiet rfl rfl rfl rfl rfl fun k' hk' => h.found hk'
    | modem f => exact h.quiet rfl rfl rfl rfl rfl fun k' hk' => h.found hk'

/-- **What is received is read.**  The characters that `__pl011_getc` returns, the one it has read
last and those in the FIFO are those received, in order; and no read found the FIFO empty. -/
theorem pl011_input (h : Runs (Pl011Step depth) (.init u) es s) :
    s.device.stale = u.stale ∧ (u.rx ++ es.filterMap receivedChar).map charOf =
      es.filterMap gottenChar ++ ((s.context 0).bind getDone).toList ++ s.device.rx.map charOf := by
  have hinit : Received u [] (.init u) := ⟨rfl, by simp [Driven.init], fun h => by cases h⟩
  have hall :=
    (h.trace (I := fun es s => Runs (Pl011Step depth) (.init u) es s ∧ Received u es s) ?_ ⟨.nil _,
    hinit⟩).2
  · exact ⟨hall.stale, hall.chars⟩
  · intro es s e t ⟨hrun, hreceived⟩ hs
    exact ⟨hrun.append (.single hs),
      hreceived.step hs (fun k hk => rest_suffix hrun hk) (allowed hrun)⟩

/-- An `A` with a framing error, read by `__pl011_getc`. -/
theorem pl011_input_example : ∃ (es : List Pl011Event) (s : Pl011State),
    Runs (Pl011Step 16) (.init exampleUart) es s ∧ es.filterMap gottenChar = [65] ∧
      s.device.stale = 0 := by
  have hrun : ∃ (es : List Pl011Event) (s : Pl011State), Runs (Pl011Step 16)
    (.init exampleUart) es s ∧
      es.filterMap receivedChar = [0x141] ∧ s.device.rx = [] ∧ s.context 0 = none :=
    ⟨_, _, .cons (.dev (.receive rfl (by decide))) <|
      .cons (.call rfl (show handlersPrint 0 .getchar from rfl)) <|
      .cons (.exec rfl rfl) <| .cons (.exec rfl rfl) <| .single (.ret rfl rfl), rfl, rfl, rfl⟩
  obtain ⟨es, s, h, hreceived, hrx, hcontext⟩ := hrun
  obtain ⟨hstale, hchars⟩ := pl011_input h
  rw [hreceived, hrx, hcontext] at hchars
  have hgotten : ([0x141].map charOf) = es.filterMap gottenChar := by
    simpa [exampleUart] using hchars
  exact ⟨es, s, h, hgotten.symm, hstale⟩

/-! ## Registers -/

/-- What `pl011_init` leaves in the registers. -/
def pl011Configured : UartConfig := ⟨0x301, 0x30, 0x70, 27, 8⟩

theorem set_dr (c : UartConfig) (v : BitVec 32) : c.set (pl011Dr, v) = c := rfl

theorem write_config (a : Nat) (v : BitVec 32) :
    (Uart.write depth a v u).config = u.config.set (a, v) := by
  unfold Uart.write
  by_cases ha : a = pl011Dr
  · rw [if_pos ha, ha, set_dr]
    split <;> rfl
  · rw [if_neg ha]

theorem effect_config (depth : Nat) (u : Uart) (i : UartOp) :
    (i.effect (uart depth) u).config = (i.stored.toList).foldl UartConfig.set u.config := by
  have hread (a : Nat) : (Uart.read depth a u).2.config = u.config := by
    unfold Uart.read
    split
    · split <;> rfl
    · split <;> rfl
  cases i with
  | wait a busy => exact hread a
  | load a => exact hread a
  | store a v => exact write_config a v

/-- All but `pl011_init` leave the registers as they are. -/
theorem stored_dr {op : Pl011Op} (hop : op ≠ .init) {i : UartOp} (hi : i ∈ pl011Code op)
    {r : Nat × BitVec 32}
    (hr : i.stored = some r) : r.1 = pl011Dr := by
  cases op with
  | init => exact absurd rfl hop
  | putchar c =>
    simp [pl011Code, pl011Putchar] at hi
    rcases hi with rfl | rfl
    · cases hr
    · obtain rfl := Option.some.inj hr
      rfl
  | getchar =>
    simp [pl011Code, pl011Getchar] at hi
    rcases hi with rfl | rfl <;> cases hr
  | flush =>
    simp [pl011Code, pl011Flush] at hi
    subst hi
    cases hr

theorem foldl_set_dr {rs : List (Nat × BitVec 32)} (h : ∀ r ∈ rs, r.1 = pl011Dr) (c : UartConfig) :
    rs.foldl UartConfig.set c = c := by
  induction rs with
  | nil => rfl
  | cons r rs ih =>
    have hr : c.set r = c := by
      obtain ⟨a, v⟩ := r
      obtain rfl : a = pl011Dr := h _ List.mem_cons_self
      rfl
    rw [List.foldl_cons, hr]
    exact ih fun r hr => h r (List.mem_cons_of_mem _ hr)

/-- The registers are what level 0 has stored in them. -/
theorem config_eq (h : Runs (Pl011Step depth) (.init u) es s) :
    s.device.config = (storesAt 0 es).foldl UartConfig.set u.config := by
  refine (h.trace (I := fun es s => Runs (Pl011Step depth) (.init u) es s ∧
    s.device.config = (storesAt 0 es).foldl UartConfig.set u.config) ?_ ⟨.nil _, rfl⟩).2
  intro es s e t ⟨hrun, hconfig⟩ hs
  refine ⟨hrun.append (.single hs), ?_⟩
  have hquiet (hdevice : t.device.config = s.device.config) (hstored : e.storedAt 0 = none) :
      t.device.config = (storesAt 0 (es ++ [e])).foldl UartConfig.set u.config := by
    unfold storesAt at hconfig ⊢
    simp [hstored, hdevice, hconfig]
  cases hs with
  | @exec k i is hk hi =>
    have hsuffix : i :: is <:+ pl011Code k.op := hi ▸ rest_suffix hrun hk
    have heffect := effect_config depth s.device i
    by_cases hn : s.level = 0
    · unfold storesAt at hconfig ⊢
      rw [List.filterMap_append, List.foldl_append, ← hconfig]
      cases hi : i.stored <;> rw [hi] at heffect <;>
        simpa [DrivenEvent.storedAt, hn, hi] using heffect
    · refine hquiet ?_ (if_neg hn)
      have hop : k.op ≠ .init := by
        intro hop
        have hprint := allowed hrun _ k hk
        rw [hop] at hprint
        exact hn hprint
      refine heffect.trans (foldl_set_dr (fun r hr => ?_) _)
      exact stored_dr hop (hsuffix.mem List.mem_cons_self) (Option.mem_toList.mp hr)
  | @dev d v hd => exact hquiet (by cases hd <;> rfl) rfl
  | call => exact hquiet rfl rfl
  | ret => exact hquiet rfl rfl
  | irq => exact hquiet rfl rfl
  | eret => exact hquiet rfl rfl

theorem foldl_init (c : UartConfig) :
    (storesOf (pl011Code .init)).foldl UartConfig.set c = pl011Configured := rfl

theorem foldl_other {op : Pl011Op} (hop : op ≠ .init) (c : UartConfig) :
    (storesOf (pl011Code op)).foldl UartConfig.set c = c := by
  refine foldl_set_dr (fun r hr => ?_) c
  obtain ⟨i, hi, hr⟩ := List.mem_filterMap.mp hr
  exact stored_dr hop hi hr

/-- After `pl011_init`, and until it is called again, the registers are as it leaves them. -/
theorem configured_of_init (h : Runs (Pl011Step depth) (.init u) es s)
    (hinit : .init ∈ returnsAt 0 es)
    (hnot : ∀ k, s.context 0 = some k → k.op ≠ .init) : s.device.config = pl011Configured := by
  obtain ⟨done, hstores, hdone⟩ := storesAt_eq h 0
  have hcurrent (c : UartConfig) : (storesOf done).foldl UartConfig.set c = c := by
    refine foldl_set_dr (fun r hr => ?_) c
    obtain ⟨i, hi, hr⟩ := List.mem_filterMap.mp hr
    cases hk : s.context 0 with
    | none =>
      rw [(done_none hk).mp hdone] at hi
      cases hi
    | some k =>
      have hmem : i ∈ pl011Code k.op := by
        rw [(done_some hk).mp hdone]
        exact List.mem_append_left _ hi
      exact stored_dr (hnot k hk) hmem hr
  have hreturned (ops : List Pl011Op) (c : UartConfig) (hc : .init ∈ ops ∨ c = pl011Configured) :
      (ops.flatMap fun op => storesOf (pl011Code op)).foldl UartConfig.set c = pl011Configured := by
    induction ops generalizing c with
    | nil => exact hc.resolve_left (List.not_mem_nil)
    | cons op ops ih =>
      rw [List.flatMap_cons, List.foldl_append]
      by_cases hop : op = .init
      · subst hop
        exact ih _ (Or.inr (foldl_init c))
      · rw [foldl_other hop]
        exact ih _ (hc.imp_left fun h => (List.mem_cons.mp h).resolve_left (Ne.symm hop))
  rw [config_eq h, hstores, List.foldl_append, hcurrent]
  exact hreturned _ _ (Or.inl hinit)

/-! ## Waiting -/

def isShift : Pl011Event → Bool
  | .dev .shift => true
  | _ => false

def isExec : Pl011Event → Bool
  | .exec _ _ => true
  | _ => false

/-- The bytes that have to leave the FIFO before a call goes on: those that fill it for
`pl011_putchar`, all of them for `pl011_flush`. -/
def bytesAwaited (depth : Nat) (u : Uart) : Pl011Op → Nat
  | .putchar _ => u.tx.length + 1 - u.room depth
  | .flush => u.tx.length
  | _ => 0

def Pl011Op.waitsToSend : Pl011Op → Prop
  | .putchar _ => True
  | .flush => True
  | _ => False

/-- The call is not interrupted and does not return. -/
def Undisturbed (e : Pl011Event) : Prop := (∀ k, e ≠ .irq k) ∧ ∀ n op v, e ≠ .ret n op v

/-- Level `l` is in a call of `op`. -/
structure InCall (l : Nat) (op : Pl011Op) (s : Pl011State)
    (k : RoutineCall Pl011Op Nat (BitVec 32)) : Prop where
  level : s.level = l
  context : s.context l = some k
  suffix : k.rest <:+ pl011Code op

theorem length_code {op : Pl011Op} (hop : op.waitsToSend) : (pl011Code op).length ≤ 2 := by
  cases op with
  | putchar c => exact Nat.le_refl _
  | flush => exact Nat.le_succ _
  | _ => cases hop

/-- The call passes its wait just when nothing is awaited. -/
theorem waits_head (depth : Nat) {op : Pl011Op} (hop : op.waitsToSend) :
    ∃ busy is, pl011Code op = .wait pl011Fr busy :: is ∧
    ∀ u, RegOp.passes (uart depth) u (.wait pl011Fr busy) =
    decide (bytesAwaited depth u op = 0) := by
  cases op with
  | putchar c =>
    refine ⟨_, _, rfl, fun u => ?_⟩
    show (!(u.fr depth &&& pl011FrTxff != 0)) = _
    rw [fr_full, bytesAwaited, ← decide_not]
    exact decide_eq_decide.mpr (by omega)
  | flush =>
    refine ⟨_, _, rfl, fun u => ?_⟩
    show (!(u.fr depth &&& pl011FrTxfe == 0)) = _
    rw [fr_notDrained, Bool.not_not, bytesAwaited]
    cases u.tx <;> rfl
  | _ => cases hop

/-- A byte that leaves the FIFO is awaited no longer. -/
theorem awaited_moves {d : UartEvent} (h : UartMoves depth u d u') (op : Pl011Op) :
    bytesAwaited depth u' op ≤ bytesAwaited depth u op - (isShift (.dev d)).toNat := by
  cases h with
  | @shift b bs _ htx _ =>
    cases op with
    | putchar c =>
      have hroom : Uart.room depth { u with tx := bs, shifter := some b } = u.room depth := rfl
      simp only [bytesAwaited, isShift, htx, hroom, List.length_cons, Bool.toNat_true]
      omega
    | flush => simp [bytesAwaited, isShift, htx]
    | _ => exact Nat.zero_le _
  | _ => exact Nat.le_refl _

/-- A wait is at the start of a call. -/
theorem wait_is_head {op : Pl011Op} {a : Nat} {busy : BitVec 32 → Bool} {is : List UartOp}
    (h : .wait a busy :: is <:+ pl011Code op) : .wait a busy :: is = pl011Code op := by
  have htail (j : UartOp) (hsuffix : .wait a busy :: is <:+ [j]) (hj : ∀ a busy, j ≠ .wait a busy) :
      .wait a busy :: is = pl011Code op := by
    obtain h | h := List.suffix_cons_iff.mp hsuffix
    · exact absurd (List.cons.inj h).1.symm (hj a busy)
    · cases List.suffix_nil.mp h
  cases op with
  | init =>
    have hmem : RegOp.wait a busy ∈ pl011Code .init := h.mem List.mem_cons_self
    simp [pl011Code, pl011Init] at hmem
  | putchar c =>
    obtain h | h := List.suffix_cons_iff.mp h
    · exact h
    · refine htail _ h fun a busy heq => ?_
      cases heq
  | getchar =>
    obtain h | h := List.suffix_cons_iff.mp h
    · exact h
    · refine htail _ h fun a busy heq => ?_
      cases heq
  | flush =>
    obtain h | h := List.suffix_cons_iff.mp h
    · exact h
    · cases List.suffix_nil.mp h

/-- One step of a call that waits to send. -/
theorem InCall.step {l : Nat} {op : Pl011Op} (hop : op.waitsToSend) (h : InCall l op s k)
    (hs : Pl011Step depth s e t)
    (he : Undisturbed e) : ∃ k', InCall l op t k' ∧
      (k'.rest = pl011Code op → k.rest = pl011Code op ∧
        bytesAwaited depth t.device op ≤ bytesAwaited depth s.device op - (isShift e).toNat) ∧
      (k'.rest.length + (isExec e).toNat ≤ k.rest.length ∨
        k'.rest = k.rest ∧ k.rest = pl011Code op ∧ bytesAwaited depth s.device op ≠ 0) := by
  obtain ⟨hlevel, hcontext, hsuffix⟩ := h
  subst hlevel
  obtain ⟨hlevel, ⟨i, is, hi, rfl, hnext, hdevice⟩ | ⟨d, rfl, hd, hnext⟩⟩ :=
    call_step hcontext hs he.1 he.2
  · rw [hi] at hsuffix
    have hlonger : is.length < (pl011Code op).length := hsuffix.length_le
    cases hpass : i.passes (uart depth) s.device with
    | true =>
      rw [RoutineCall.next_pass hpass] at hnext
      refine ⟨_, ⟨hlevel, hnext, (List.suffix_cons i is).trans hsuffix⟩, fun heq => ?_, Or.inl ?_⟩
      · have heq' : is = pl011Code op := heq
        exact absurd (congrArg List.length heq') hlonger.ne
      · rw [hi]
        exact Nat.le_refl _
    | false =>
      rw [RoutineCall.next_wait hpass] at hnext
      cases i with
      | store a v => cases hpass
      | load a => cases hpass
      | wait a busy =>
        have hhead := wait_is_head hsuffix
        obtain rfl := wait_reads hsuffix
        obtain ⟨busy', is', hcode, hpasses⟩ := waits_head depth hop
        rw [hcode] at hhead
        obtain ⟨hwait, rfl⟩ := List.cons.inj hhead
        cases hwait
        have hdev : t.device = s.device := hdevice
        rw [hpasses, decide_eq_false_iff_not] at hpass
        have hrest : k.rest = pl011Code op := hi.trans hcode.symm
        exact ⟨k, ⟨hlevel, hnext, hrest ▸ List.suffix_refl _⟩,
          fun _ => ⟨hrest, by rw [hdev]; exact Nat.le_refl _⟩, Or.inr ⟨rfl, hrest, hpass⟩⟩
  · exact ⟨k, ⟨hlevel, hnext, hsuffix⟩, fun hrest => ⟨hrest, awaited_moves hd op⟩,
      Or.inl (Nat.le_refl _)⟩

/-- While a call waits, each byte that leaves the FIFO is one less to wait for. -/
theorem InCall.shifts {l : Nat} {op : Pl011Op} (hop : op.waitsToSend) (h : InCall l op s k)
    (hrun : Runs (Pl011Step depth) s es t) (hes : ∀ e ∈ es, Undisturbed e) :
      ∃ k', InCall l op t k' ∧
      (k'.rest = pl011Code op → bytesAwaited depth t.device op ≤
        bytesAwaited depth s.device op - es.countP isShift) := by
  refine (hrun.restrict hes).trace (I := fun es t => ∃ k', InCall l op t k' ∧
    (k'.rest = pl011Code op →
    bytesAwaited depth t.device op ≤ bytesAwaited depth s.device op - es.countP isShift)) ?_ ⟨k, h,
    fun _ => Nat.le_refl _⟩
  intro es s' e t ⟨k', hk', hawaited⟩ ⟨hs, he⟩
  obtain ⟨k'', hk'', hwaits, -⟩ := hk'.step hop hs he
  refine ⟨k'', hk'', fun hrest => ?_⟩
  obtain ⟨hrest', hle⟩ := hwaits hrest
  have hbefore := hawaited hrest'
  rw [List.countP_append, List.countP_singleton]
  cases he : isShift e <;> rw [he] at hle <;> simp at hle ⊢ <;> omega

/-- A call that nothing is in the way of is over after what is left of it. -/
theorem InCall.execs_le {l : Nat} {op : Pl011Op} (hop : op.waitsToSend) (h : InCall l op s k)
    (hready : k.rest = pl011Code op → bytesAwaited depth s.device op = 0)
    (hrun : Runs (Pl011Step depth) s es t) (hes : ∀ e ∈ es, Undisturbed e) :
      es.countP isExec ≤ 2 := by
  have hmeasure {s : Pl011State} {k : RoutineCall Pl011Op Nat (BitVec 32)} (h : InCall l op s k) :
      ((s.context l).map fun k => k.rest.length).getD 0 = k.rest.length := by
    rw [h.context]
    rfl
  have hcount := (hrun.count_le (I := fun s => ∃ k, InCall l op s k ∧
    (k.rest = pl011Code op → bytesAwaited depth s.device op = 0))
    (m := fun s => ((s.context l).map fun k => k.rest.length).getD 0) (p := isExec) ?_
      ⟨k, h, hready⟩).2
  · have hlength := h.suffix.length_le.trans (length_code hop)
    rw [hmeasure h] at hcount
    omega
  · intro s e t he ⟨k, hk, hready⟩ hs
    obtain ⟨k', hk', hwaits, hexec⟩ := hk.step hop hs (hes e he)
    refine ⟨⟨k', hk', fun hrest => ?_⟩, ?_⟩
    · obtain ⟨hrest', hle⟩ := hwaits hrest
      have := hready hrest'
      omega
    · rw [hmeasure hk, hmeasure hk']
      rcases hexec with hle | ⟨-, hrest, hbusy⟩
      · cases he : isExec e <;> rw [he] at hle <;> exact hle
      · exact absurd (hready hrest) hbusy

/-- **Nobody waits in vain.**  After `pl011_init` the UART can take a byte out of its FIFO, or send
the one before; and a call of `pl011_putchar` or `pl011_flush`, once the bytes that it waits for
have left the FIFO, makes at most two more accesses. -/
theorem pl011_waits (h : Runs (Pl011Step depth) (.init u) es s) :
    (.init ∈ returnsAt 0 es → (∀ k, s.context 0 = some k → k.op ≠ .init) → s.device.tx ≠ [] →
      ∃ d u', (d = .shift ∨ d = .send) ∧ UartMoves depth s.device d u') ∧
    ∀ k, s.context s.level = some k → k.op.waitsToSend →
      ∀ as bs s' t, Runs (Pl011Step depth) s as s' →
      Runs (Pl011Step depth) s' bs t → (∀ e ∈ as ++ bs, Undisturbed e) →
      bytesAwaited depth s.device k.op ≤ as.countP isShift → bs.countP isExec ≤ 2 := by
  refine ⟨fun hinit hnot htx => ?_, fun k hk hop as bs s' t has hbs hes hshifts => ?_⟩
  · have hconfig := configured_of_init h hinit hnot
    cases hshifter : s.device.shifter with
    | some b => exact ⟨.send, _, Or.inr rfl, .send hshifter⟩
    | none =>
      obtain ⟨b, bs, hcons⟩ := List.exists_cons_of_ne_nil htx
      have henabled : s.device.enabled 8 = true := by
        unfold Uart.enabled
        rw [hconfig]
        rfl
      exact ⟨.shift, _, Or.inl rfl, .shift henabled hcons hshifter⟩
  · have hcall : InCall s.level k.op s k := ⟨rfl, hk, rest_suffix h hk⟩
    obtain ⟨k', hk', hawaited⟩ := hcall.shifts hop has fun e he => hes e (List.mem_append_left _ he)
    refine hk'.execs_le hop (fun hrest => ?_) hbs fun e he => hes e (List.mem_append_right _ he)
    have := hawaited hrest
    omega

/-- `B` waits for `A` to leave a FIFO with one place. -/
theorem pl011_waits_full : ∃ (es : List Pl011Event) (s : Pl011State), Runs (Pl011Step 1)
    (.init exampleUart) es s ∧
    bytesAwaited 1 s.device (.putchar 66) = 1 ∧
    (∃ d u', (d = .shift ∨ d = .send) ∧ UartMoves 1 s.device d u') ∧
    ∀ as bs s' t, Runs (Pl011Step 1) s as s' → Runs (Pl011Step 1) s' bs t →
    (∀ e ∈ as ++ bs, Undisturbed e) →
      1 ≤ as.countP isShift → bs.countP isExec ≤ 2 := by
  have hrun : ∃ (es : List Pl011Event) (s : Pl011State), Runs (Pl011Step 1)
    (.init exampleUart) es s ∧
      .init ∈ returnsAt 0 es ∧ s.level = 0 ∧
        s.context 0 = some ⟨.putchar 66, pl011Putchar 66, none⟩ ∧
      s.device.tx = [65] ∧ s.device.room 1 = 1 :=
    ⟨_, _, .cons (.call rfl (show handlersPrint 0 .init from rfl)) <| .cons (.exec rfl rfl) <|
      .cons (.exec rfl rfl) <|
      .cons (.exec rfl rfl) <| .cons (.exec rfl rfl) <| .cons (.exec rfl rfl) <|
        .cons (.exec rfl rfl) <|
      .cons (.exec rfl rfl) <| .cons (.ret rfl rfl) <|
      .cons (.call rfl (show handlersPrint 0 (.putchar 65) from trivial)) <|
        .cons (.exec rfl rfl) <|
      .cons (.exec rfl rfl) <| .cons (.ret rfl rfl) <|
      .single (.call rfl (show handlersPrint 0 (.putchar 66) from trivial)),
      List.mem_cons_self, rfl, rfl, rfl, rfl⟩
  obtain ⟨es, s, h, hinit, hlevel, hcontext, htx, hroom⟩ := hrun
  have hawaited : bytesAwaited 1 s.device (.putchar 66) = 1 := by
    rw [bytesAwaited, htx, hroom]
    rfl
  have hnot (k : RoutineCall Pl011Op Nat (BitVec 32)) (hk : s.context 0 = some k) :
      k.op ≠ .init := by
    rw [hcontext] at hk
    cases hk
    nofun
  obtain ⟨hmoves, hcall⟩ := pl011_waits h
  refine ⟨es, s, h, hawaited, hmoves hinit hnot (by simp [htx]),
    fun as bs s' t has hbs hes hshifts => ?_⟩
  rw [hlevel] at hcall
  exact hcall _ hcontext trivial as bs s' t has hbs hes (hawaited.le.trans hshifts)

end ZHyper
