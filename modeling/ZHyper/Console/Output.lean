import ZHyper.Console.Model
import ZHyper.Lib.Broadcast
import ZHyper.Libc.Compare

/-!
# Output to the consoles

A character goes to every console that is enabled and has a `putc`, as long as no `putc` fails.  So
what a console gets is what was printed while it was enabled, whoever enabled it and whatever was
enabled besides (`consoles_deliver_output`).
-/

namespace ZHyper

open LowLevel Console

variable {δ : Type} {n i k : Nat} {names : Nat → List UInt8} {w w' : ConsoleWorld δ}

/-! ## Runs -/

def putcOf (w : ConsoleWorld δ) (i : Nat) : Option (Nat → Int → StateM δ Int) :=
  (w.consoles i).ops.bind ConsoleOps.putc

/-- The devices after the `putc` functions of consoles on characters, in order. -/
def putAll (putc : Nat → Option (Nat → Int → StateM δ Int)) (ds : List (Nat × Int)) (d : δ) : δ :=
  ds.foldl (fun d p => match putc p.1 with | some f => ((f p.1 p.2).run d).2 | none => d) d

theorem putAll_append (putc : Nat → Option (Nat → Int → StateM δ Int)) (ds ds' : List (Nat × Int))
    (d : δ) :
    putAll putc (ds ++ ds') d = putAll putc ds' (putAll putc ds d) := List.foldl_append

/-- Consoles with the names `names`, each `putc` of which returns 0. -/
structure Registered (n : Nat) (names : Nat → List UInt8) (w : ConsoleWorld δ) : Prop where
  named : ∀ i < n, CStr w.mem (w.consoles i).name (names i)
  succeeds : ∀ i < n, ∀ putc, putcOf w i = some putc → ∀ c d, ((putc i c).run d).1 = 0

inductive ConsoleAct where
  | init (console : Option Nat)
  | enable (name : Nat)
  | disable (name : Nat)
  | disableById (consoleId : BitVec 32)
  | putchar (c : Int)
  | puts (s : Nat)

def ConsoleAct.exec (n : Nat) : ConsoleAct → ConsoleM δ Int
  | .init console => consoleInit console
  | .enable name => consoleEnable n name
  | .disable name => consoleDisable n name
  | .disableById consoleId => consoleDisableById n consoleId
  | .putchar c => Console.putchar n c
  | .puts s => Console.puts n s

/-- The strings that the call is given are there, and it prints `cs`. -/
def ConsoleAct.Prints (m : Mem) : ConsoleAct → List Int → Prop
  | .putchar c, cs => cs = [c]
  | .puts s, cs => ∃ str, CStr m s str ∧ cs = str.map fun c => (c.toNat : Int)
  | .enable name, cs | .disable name, cs => (∃ str, CStr m name str) ∧ cs = []
  | .init _, cs | .disableById _, cs => cs = []

/-- A call, what it prints, and the consoles that are enabled then. -/
structure ConsoleEvent where
  act : ConsoleAct
  chars : List Int
  enabled : Nat → Bool

structure ConsoleStep (n : Nat) (w : ConsoleWorld δ) (e : ConsoleEvent) (w' : ConsoleWorld δ) :
    Prop where
  prints : e.act.Prints w.mem e.chars
  enabled : e.enabled = fun i => (w.consoles i).enabled
  runs : ∃ ret, e.act.exec n w = .ok ret w'

/-- The flag of console `i` set to `b`. -/
def ConsoleWorld.switch (w : ConsoleWorld δ) (i : Nat) (b : Bool) : ConsoleWorld δ :=
  { w with consoles := Function.update w.consoles i { w.consoles i with enabled := b } }

/-- `x` sets the flag of the first console with `which` to `b` and changes nothing else; without one
it returns `-ENOENT` and changes nothing. -/
def SetsFlag (n : Nat) (w : ConsoleWorld δ) (which : Nat → Prop) (b : Bool) (x : ConsoleM δ Int) :
    Prop :=
  (∃ i, i < n ∧ which i ∧ (∀ j < i, ¬ which j) ∧ x w = .ok 0 (w.switch i b)) ∨
    (∀ i < n, ¬ which i) ∧ x w = .ok (-Console.ENOENT) w

/-! ## Finding a console -/

theorem inMemory_run {α : Type} {P : Access → Prop} {prog : Prog α} {r : α}
    (h : Returns P prog w.mem r) :
    inMemory prog w = .ok r w := by
  obtain ⟨x, m, hexec, hx, hm⟩ := Prog.wp_exec h
  unfold inMemory
  rw [bind_get, hexec, hx, hm]
  rfl

theorem findFrom_run {test : Console δ → ConsoleM δ Bool} {t : Nat → Bool}
    (htest : ∀ j, i ≤ j → j < i + k → test (w.consoles j) w = .ok (t j) w) :
    findFrom test k i w = .ok ((List.range' i k).find? t) w := by
  induction k generalizing i with
  | zero => rfl
  | succ k ih =>
    rw [findFrom, bind_get, bind_run (htest i (Nat.le_refl i) (by omega)), List.range'_succ,
      List.find?_cons]
    cases t i with
    | true => rfl
    | false => exact ih fun j hj hlt => htest j (by omega) (by omega)

/-- `find_console` finds the first console of the name. -/
theorem findConsole_run (hreg : Registered n names w) {name : Nat} {str : List UInt8}
    (hname : CStr w.mem name str) :
    findConsole n name w = .ok ((List.range n).find? fun j => names j == str) w := by
  rw [List.range_eq_range']
  refine findFrom_run fun j _ hj => ?_
  have hcmp := strcmp_compares (hreg.named j (by omega)) hname
  have hsame : (byteDiff (names j) str == 0) = (names j == str) := by
    rw [Bool.eq_iff_iff, beq_iff_eq, beq_iff_eq]
    exact hcmp.same
  rw [bind_run (inMemory_run hcmp.run), hsame]
  rfl

theorem findConsoleById_run (consoleId : BitVec 32) :
    findConsoleById n consoleId w = .ok ((List.range n).find? fun j =>
      (w.consoles j).id == consoleId) w := by
  rw [List.range_eq_range']
  exact findFrom_run fun _ _ _ => rfl

theorem setFound_run {find : ConsoleM δ (Option Nat)} {t : Nat → Bool} {which : Nat → Prop}
    {b : Bool} (hfind : find w = .ok ((List.range n).find? t) w) (ht : ∀ j, t j = true ↔ which j) :
    SetsFlag n w which b (setFound find b) := by
  unfold SetsFlag setFound
  rw [bind_run hfind]
  cases hfound : (List.range n).find? t with
  | none =>
    right
    refine ⟨fun j hj hwhich => ?_, rfl⟩
    exact List.find?_eq_none.mp hfound j (List.mem_range.mpr hj) ((ht j).mpr hwhich)
  | some j =>
    left
    obtain ⟨hj, hmem, hbefore⟩ := List.find?_range_eq_some.mp hfound
    refine ⟨j, List.mem_range.mp hmem, (ht j).mp hj, fun l hl hwhich => ?_, rfl⟩
    exact absurd ((ht l).mpr hwhich) (by simpa using hbefore l hl)

/-! ## Sending characters -/

/-- The console is enabled and has a `putc`. -/
def listens (w : ConsoleWorld δ) (i : Nat) : Bool :=
  (if (w.consoles i).enabled then putcOf w i else none).isSome

def listeners (n : Nat) (w : ConsoleWorld δ) : List Nat := (List.range n).filter (listens w)

/-- From `w` to `w'` the characters `ds` are sent, the devices are what the `putc` functions make of
them, and nothing else has changed. -/
def Sends (w : ConsoleWorld δ) (ds : List (Nat × Int)) (w' : ConsoleWorld δ) : Prop :=
  w' = { w with devices := putAll (putcOf w) ds w.devices, sent := w.sent ++ ds }

theorem Sends.refl (w : ConsoleWorld δ) : Sends w [] w := by
  unfold Sends
  rw [List.append_nil]
  rfl

theorem Sends.trans {w₁ : ConsoleWorld δ} {ds ds' : List (Nat × Int)} (h : Sends w ds w₁)
    (h' : Sends w₁ ds' w') :
    Sends w (ds ++ ds') w' := by
  subst h
  subst h'
  unfold Sends
  rw [putAll_append, ← List.append_assoc]
  rfl

theorem listens_eq (w : ConsoleWorld δ) (i : Nat) :
    listens w i = ((w.consoles i).enabled && (putcOf w i).isSome) := by
  unfold listens
  cases (w.consoles i).enabled <;> simp

theorem putcAllFrom_run (c : Int)
    (hzero : ∀ j, i ≤ j → j < i + k → ∀ putc, putcOf w j = some putc →
      ∀ d, ((putc j c).run d).1 = 0) :
    ∃ w', putcAllFrom c k i 0 w = .ok 0 w' ∧
      Sends w (((List.range' i k).filter (listens w)).map fun j => (j, c)) w' := by
  induction k generalizing i w with
  | zero => exact ⟨w, rfl, Sends.refl w⟩
  | succ k ih =>
    have hrest := fun j (hj : i + 1 ≤ j) (hlt : j < i + 1 + k) => hzero j (by omega) (by omega)
    have hlistens : listens w i = (if (w.consoles i).enabled then putcOf w i else none).isSome :=
      rfl
    have hputcOf : (w.consoles i).ops.bind ConsoleOps.putc = putcOf w i := rfl
    rw [putcAllFrom, bind_get, hputcOf, List.range'_succ, List.filter_cons, hlistens]
    cases hputc : (if (w.consoles i).enabled then putcOf w i else none) with
    | none => exact ih hrest
    | some putc =>
      -- the first one takes the character, and the loop goes on since it returned 0
      have hret : ∀ d, ((putc i c).run d).1 = 0 := by
        refine hzero i (Nat.le_refl i) (by omega) putc ?_
        split at hputc
        · exact hputc
        · cases hputc
      have hcall : callPutc putc i c w =
          .ok 0 { w with devices := ((putc i c).run w.devices).2, sent := w.sent ++ [(i, c)] } :=
        congrArg (fun r => EStateM.Result.ok r _) (hret w.devices)
      obtain ⟨w', hrun, hsends⟩ := ih
        (w := { w with devices := ((putc i c).run w.devices).2, sent := w.sent ++ [(i, c)] }) hrest
      have hfirst : Sends w [(i, c)]
          { w with devices := ((putc i c).run w.devices).2, sent := w.sent ++ [(i, c)] } := by
        have hputc' : putcOf w i = some putc := by
          split at hputc
          · exact hputc
          · cases hputc
        unfold Sends putAll
        rw [List.foldl_cons, List.foldl_nil, hputc']
      refine ⟨w', ?_, hfirst.trans hsends⟩
      exact (bind_run hcall).trans hrun

theorem putchar_run (hreg : Registered n names w) (c : Int) :
    ∃ w', Console.putchar n c w = .ok c w' ∧ Sends w (broadcast (listeners n w) [c]) w' := by
  obtain ⟨w', hrun, hsends⟩ := putcAllFrom_run (w := w) (i := 0) (k := n) c
    fun j _ hj putc hputc d => hreg.succeeds j (by omega) putc hputc c d
  rw [← List.range_eq_range'] at hsends
  refine ⟨w', ?_, ?_⟩
  · unfold Console.putchar consolePutcAll
    rw [bind_run hrun]
    rfl
  · rw [broadcast, List.flatMap_cons, List.flatMap_nil, List.append_nil]
    exact hsends

/-- Sending changes neither the strings nor the table. -/
theorem Registered.sends {ds : List (Nat × Int)} (hreg : Registered n names w) (h : Sends w ds w') :
    Registered n names w' := by
  subst h
  exact ⟨hreg.named, hreg.succeeds⟩

theorem putsFrom_run {str : List UInt8} {s : Nat} (hreg : Registered n names w)
    (hs : CStr w.mem s str) (hk : str.length < k) (count : Int) :
    ∃ ret w', putsFrom n k s count w = .ok ret w' ∧
      Sends w (broadcast (listeners n w) (str.map fun c => (c.toNat : Int))) w' := by
  have hread : ∀ v, w.mem.load 1 s = v → inMemory (Prog.read 1 s) w = .ok v w := fun v hv => by
    rw [← hv]
    rfl
  obtain ⟨k, rfl⟩ := Nat.exists_eq_succ_of_ne_zero (Nat.ne_of_gt (Nat.zero_lt_of_lt hk))
  induction str generalizing w s count k with
  | nil =>
    refine ⟨count, w, ?_, Sends.refl w⟩
    rw [putsFrom, bind_run (hread 0 hs.nil), if_pos rfl]
    rfl
  | cons c str ih =>
    obtain ⟨k, rfl⟩ :=
      Nat.exists_eq_succ_of_ne_zero (Nat.ne_of_gt (Nat.zero_lt_of_lt (Nat.lt_of_succ_lt_succ hk)))
    obtain ⟨w₁, hchar, hfirst⟩ := putchar_run hreg (c.toNat : Int)
    have hsame : w₁.mem = w.mem ∧ listeners n w₁ = listeners n w := by
      subst hfirst
      exact ⟨rfl, rfl⟩
    have htail : CStr w₁.mem (s + 1) str := by
      rw [hsame.1]
      exact hs.tail
    obtain ⟨ret, w', hrun, hrest⟩ :=
      ih (hreg.sends hfirst) htail ((count + 1).bmod 0x100000000) (fun v hv => hv ▸ rfl)
      k (Nat.lt_of_succ_lt_succ hk)
    refine ⟨ret, w', ?_, ?_⟩
    · rw [putsFrom, bind_run (hread _ hs.head.1), if_neg hs.head.2, bind_run (hread _ hs.head.1),
        bind_run hchar]
      exact hrun
    · rw [List.map_cons, broadcast_cons, ← hsame.2]
      rw [← hsame.2] at hfirst
      exact hfirst.trans hrest

/-! ## What a call does -/

/-- The devices after the `init` function that a call of `console_init` calls; no other call calls
one. -/
def ConsoleAct.initDevices (w : ConsoleWorld δ) : ConsoleAct → δ → δ
  | .init (some i), d =>
    match (w.consoles i).ops.bind ConsoleOps.init with
    | some f => ((f i).run d).2
    | none => d
  | .init none, d | .enable _, d | .disable _, d | .disableById _, d | .putchar _, d | .puts _, d =>
    d

/-- A call with the devices at `d` sends `cs` to those that listen, and changes no more than the
devices, by what it sends, and the flags. -/
structure Broadcasts (n : Nat) (w : ConsoleWorld δ) (d : δ) (cs : List Int) (w' : ConsoleWorld δ) :
    Prop where
  mem : w'.mem = w.mem
  consoles : ∀ i, w'.consoles i = { w.consoles i with enabled := (w'.consoles i).enabled }
  sent : w'.sent = w.sent ++ broadcast (listeners n w) cs
  devices : w'.devices = putAll (putcOf w) (broadcast (listeners n w) cs) d

theorem Sends.broadcasts {cs : List Int} (h : Sends w (broadcast (listeners n w) cs) w') :
    Broadcasts n w w.devices cs w' := by
  subst h
  exact ⟨rfl, fun _ => rfl, rfl, rfl⟩

theorem broadcasts_refl (w : ConsoleWorld δ) : Broadcasts n w w.devices [] w :=
  ⟨rfl, fun _ => rfl, (List.append_nil _).symm, rfl⟩

theorem broadcasts_switch (w : ConsoleWorld δ) (i : Nat) (b : Bool) (d : δ) :
    Broadcasts n w d [] { w.switch i b with devices := d } := by
  refine ⟨rfl, fun j => ?_, (List.append_nil _).symm, rfl⟩
  unfold ConsoleWorld.switch
  by_cases hj : j = i
  · simp [hj]
  · simp [Function.update_of_ne hj]

theorem SetsFlag.broadcasts {which : Nat → Prop} {b : Bool} {x : ConsoleM δ Int}
    (h : SetsFlag n w which b x) :
    ∃ ret w', x w = .ok ret w' ∧ Broadcasts n w w.devices [] w' := by
  rcases h with ⟨i, -, -, -, hrun⟩ | ⟨-, hrun⟩
  · exact ⟨0, _, hrun, broadcasts_switch w i b w.devices⟩
  · exact ⟨_, w, hrun, broadcasts_refl w⟩

theorem consoleInit_run (console : Option Nat) (w : ConsoleWorld δ) :
    ∃ ret w', consoleInit console w = .ok ret w' ∧
      Broadcasts n w ((ConsoleAct.init console).initDevices w w.devices) [] w' := by
  cases console with
  | none => exact ⟨_, w, rfl, broadcasts_refl w⟩
  | some i =>
    unfold consoleInit ConsoleAct.initDevices
    dsimp only
    rw [bind_get]
    cases (w.consoles i).ops.bind ConsoleOps.init with
    | none => exact ⟨_, w, rfl, broadcasts_refl w⟩
    | some init =>
      have hcall : callInit init i w =
          .ok ((init i).run w.devices).1 { w with devices := ((init i).run w.devices).2 } := rfl
      dsimp only
      rw [bind_run hcall]
      by_cases hret : ((init i).run w.devices).1 = 0
      · rw [if_pos hret]
        exact ⟨_, _, rfl, broadcasts_switch w i true _⟩
      · rw [if_neg hret]
        exact ⟨_, _, rfl, rfl, fun _ => rfl, (List.append_nil _).symm, rfl⟩

theorem consoleEnable_sets (hreg : Registered n names w) {name : Nat} {str : List UInt8}
    (hname : CStr w.mem name str) :
    SetsFlag n w (fun i => names i = str) true (consoleEnable n name) :=
  setFound_run (findConsole_run hreg hname) fun _ => beq_iff_eq

theorem consoleDisable_sets (hreg : Registered n names w) {name : Nat} {str : List UInt8}
    (hname : CStr w.mem name str) :
    SetsFlag n w (fun i => names i = str) false (consoleDisable n name) :=
  setFound_run (findConsole_run hreg hname) fun _ => beq_iff_eq

theorem consoleDisableById_sets (w : ConsoleWorld δ) (consoleId : BitVec 32) :
    SetsFlag n w (fun i => (w.consoles i).id = consoleId) false (consoleDisableById n consoleId) :=
  setFound_run (findConsoleById_run consoleId) fun _ => beq_iff_eq

/-- Every call returns, and sends what it prints. -/
theorem exec_broadcasts (hreg : Registered n names w) {a : ConsoleAct} {cs : List Int}
    (hp : a.Prints w.mem cs) :
    ∃ ret w', a.exec n w = .ok ret w' ∧ Broadcasts n w (a.initDevices w w.devices) cs w' := by
  cases a with
  | init console =>
    cases hp
    exact consoleInit_run console w
  | enable name =>
    obtain ⟨⟨str, hname⟩, rfl⟩ := hp
    exact (consoleEnable_sets hreg hname).broadcasts
  | disable name =>
    obtain ⟨⟨str, hname⟩, rfl⟩ := hp
    exact (consoleDisable_sets hreg hname).broadcasts
  | disableById consoleId =>
    cases hp
    exact (consoleDisableById_sets w consoleId).broadcasts
  | putchar c =>
    cases hp
    obtain ⟨w', hrun, hsends⟩ := putchar_run hreg c
    exact ⟨c, w', hrun, hsends.broadcasts⟩
  | puts s =>
    obtain ⟨str, hs, rfl⟩ := hp
    obtain ⟨ret, w', hrun, hsends⟩ := putsFrom_run hreg hs hs.length_lt 0
    exact ⟨ret, w', hrun, hsends.broadcasts⟩

/-! ## Every sequence of calls -/

theorem consoleStep_of_run {a : ConsoleAct} {ret : Int} (h : a.exec n w = .ok ret w')
    (cs : List Int)
    (hp : a.Prints w.mem cs) : ConsoleStep n w ⟨a, cs, fun i => (w.consoles i).enabled⟩ w' :=
  ⟨hp, rfl, ret, h⟩

/-- The table of `w`, but for the flags. -/
structure SameTable (n : Nat) (names : Nat → List UInt8) (w₀ w : ConsoleWorld δ) : Prop where
  registered : Registered n names w
  ops : ∀ i, (w.consoles i).ops = (w₀.consoles i).ops

theorem SameTable.putc {w₀ : ConsoleWorld δ} (h : SameTable n names w₀ w) :
    putcOf w = putcOf w₀ := by
  funext i
  unfold putcOf
  rw [h.ops]

theorem SameTable.initDevices {w₀ : ConsoleWorld δ} (h : SameTable n names w₀ w) (a : ConsoleAct)
    (d : δ) :
    a.initDevices w d = a.initDevices w₀ d := by
  cases a with
  | init console =>
    cases console with
    | none => rfl
    | some i =>
      simp only [ConsoleAct.initDevices, h.ops]
  | enable | disable | disableById | putchar | puts => rfl

theorem SameTable.broadcasts {w₀ : ConsoleWorld δ} (h : SameTable n names w₀ w) {d : δ}
    {cs : List Int}
    (hb : Broadcasts n w d cs w') : SameTable n names w₀ w' := by
  have hops : ∀ i, (w'.consoles i).ops = (w.consoles i).ops := fun i => by rw [hb.consoles i]
  refine ⟨⟨fun i hi => ?_, fun i hi putc hi' => ?_⟩, fun i => (hops i).trans (h.ops i)⟩
  · rw [hb.mem, hb.consoles i]
    exact h.registered.named i hi
  · unfold putcOf at hi'
    rw [hops i] at hi'
    exact h.registered.succeeds i hi putc hi'

/-- Those that hear an event. -/
def ConsoleEvent.rcpts (n : Nat) (w₀ : ConsoleWorld δ) (e : ConsoleEvent) : List Nat :=
  (List.range n).filter fun i => e.enabled i && (putcOf w₀ i).isSome

/-- What a call makes of the devices: its `init` function, and the `putc` functions on what it
sends. -/
def deviceStep (n : Nat) (w₀ : ConsoleWorld δ) (d : δ) (e : ConsoleEvent) : δ :=
  putAll (putcOf w₀) (broadcast (e.rcpts n w₀) e.chars) (e.act.initDevices w₀ d)

theorem SameTable.step {w₀ : ConsoleWorld δ} {e : ConsoleEvent} (h : SameTable n names w₀ w)
    (hs : ConsoleStep n w e w') : SameTable n names w₀ w' ∧
      w'.sent = w.sent ++ broadcast (e.rcpts n w₀) e.chars ∧
        w'.devices = deviceStep n w₀ w.devices e := by
  obtain ⟨ret, hexec⟩ := hs.runs
  obtain ⟨ret', w'', hexec', hb⟩ := exec_broadcasts h.registered hs.prints
  rw [run_unique hexec hexec'] at hb
  have hlisteners : listeners n w = e.rcpts n w₀ := by
    unfold listeners ConsoleEvent.rcpts
    congr 1
    funext i
    rw [listens_eq, hs.enabled, h.putc]
  have hdevices := hb.devices
  rw [h.putc, h.initDevices, hlisteners] at hdevices
  rw [← hlisteners]
  exact ⟨h.broadcasts hb, hb.sent, hdevices⟩

/-- **Every enabled console gets exactly the output**, from any table of consoles and whatever is
called; the devices are what the `init` and the `putc` functions make of it, in order.  Every call
is possible, and those that enable or disable a console set its flag and nothing else. -/
theorem consoles_deliver_output {w₀ : ConsoleWorld δ} (hreg : Registered n names w₀)
    {es : List ConsoleEvent} (hrun : Runs (ConsoleStep n) w₀ es w) :
    (∀ i < n, (putcOf w₀ i).isSome = true →
      heard i w.sent = heard i w₀.sent ++ es.flatMap fun e => if e.enabled i then e.chars else []) ∧
    w.devices = es.foldl (deviceStep n w₀) w₀.devices ∧
    (∀ a cs, a.Prints w.mem cs →
      ∃ w', ConsoleStep n w ⟨a, cs, fun i => (w.consoles i).enabled⟩ w') ∧
    (∀ name str, CStr w.mem name str →
      SetsFlag n w (fun i => names i = str) true (consoleEnable n name) ∧
      SetsFlag n w (fun i => names i = str) false (consoleDisable n name)) ∧
    ∀ consoleId, SetsFlag n w (fun i => (w.consoles i).id = consoleId) false
      (consoleDisableById n consoleId) := by
  have h₀ : SameTable n names w₀ w₀ := ⟨hreg, fun _ => rfl⟩
  have hstep : ∀ w e w', SameTable n names w₀ w → ConsoleStep n w e w' → SameTable n names w₀ w' ∧
      w'.sent = w.sent ++ broadcast (e.rcpts n w₀) e.chars := fun w e w' hw hs =>
    ⟨(hw.step hs).1, (hw.step hs).2.1⟩
  have hw : SameTable n names w₀ w ∧ w.devices = es.foldl (deviceStep n w₀) w₀.devices := by
    refine hrun.trace (I := fun es w => SameTable n names w₀ w ∧
      w.devices = es.foldl (deviceStep n w₀) w₀.devices)
      ?_ ⟨h₀, rfl⟩
    rintro es w e w' ⟨hw, hdevices⟩ hs
    obtain ⟨hw', -, hdevices'⟩ := hw.step hs
    refine ⟨hw', ?_⟩
    rw [hdevices', hdevices, List.foldl_append]
    rfl
  obtain ⟨hw, hdevices⟩ := hw
  refine ⟨fun i hi hputc => ?_, hdevices, fun a cs hp => ?_, fun name str hname =>
    ?_, consoleDisableById_sets w⟩
  · rw [heard_run (fun e => List.nodup_range.filter _) hstep hrun h₀]
    simp [hi, hputc]
  · obtain ⟨ret, w', hexec, -⟩ := exec_broadcasts hw.registered hp
    exact ⟨w', consoleStep_of_run hexec cs hp⟩
  · exact ⟨consoleEnable_sets hw.registered hname, consoleDisable_sets hw.registered hname⟩

/-- The PL011, and a console without functions. -/
def exampleConsoles : ConsoleWorld (List (BitVec 32)) where
  mem := putBytes 32 ([108, 111, 103] ++ [0]) (putBytes 16 ([112, 108, 48, 49, 49] ++ [0]) fun _ =>
    0)
  consoles i := if i = 0 then ⟨0, false, 16, some pl011Ops⟩ else ⟨1, false, 32, none⟩
  devices := []
  sent := []

/-- `H` is printed after the PL011 is initialised, and `i` after it is disabled. -/
theorem consoles_deliver_output_example :
    ∃ es w, es.map ConsoleEvent.act = [.init (some 0), .putchar 72, .disableById 0, .putchar 105] ∧
      Runs (ConsoleStep 2) exampleConsoles es w ∧ heard 0 w.sent = [72] ∧
      w.devices = es.foldl (deviceStep 2 exampleConsoles) [] := by
  have hreg : Registered 2 (fun i => if i = 0 then [112, 108, 48, 49, 49]
      else [108, 111, 103]) exampleConsoles := by
    constructor
    · intro i hi
      rcases (by omega : i = 0 ∨ i = 1) with rfl | rfl
      · exact (CStr.put (by decide) (by decide) (nonzero_of_all rfl) _).putBytes (by decide)
      · exact CStr.put (by decide) (by decide) (nonzero_of_all rfl) _
    · intro i hi putc hputc c d
      rcases (by omega : i = 0 ∨ i = 1) with rfl | rfl
      · cases hputc
        rfl
      · cases hputc
  let w₁ := exampleConsoles.switch 0 true
  let w₂ : ConsoleWorld (List (BitVec 32)) := { w₁ with devices := [72], sent := [(0, 72)] }
  have hinit : (ConsoleAct.init (some 0)).exec 2 exampleConsoles = .ok 0 w₁ := rfl
  have hH : (ConsoleAct.putchar 72).exec 2 w₁ = .ok 72 w₂ := rfl
  have hdisable : (ConsoleAct.disableById 0).exec 2 w₂ = .ok 0 (w₂.switch 0 false) := rfl
  have hi : (ConsoleAct.putchar 105).exec 2 (w₂.switch 0 false) = .ok 105 (w₂.switch 0 false) := rfl
  have hrun := Runs.cons (consoleStep_of_run hinit [] rfl) (.cons (consoleStep_of_run hH [72] rfl)
    (.cons (consoleStep_of_run hdisable [] rfl) (.single (consoleStep_of_run hi [105] rfl))))
  obtain ⟨hheard, hdevices, -⟩ := consoles_deliver_output hreg hrun
  exact ⟨_, _, rfl, hrun, hheard 0 (by decide) rfl, hdevices⟩

end ZHyper
