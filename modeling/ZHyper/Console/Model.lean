import ZHyper.Lib.Faulting
import ZHyper.Libc.Strings

/-!
# `console.c`

The consoles are the array from `__start___console` to `__stop___console`, `n` of them, by index.  A
console's `init` and `putc` are functions of its driver, which see and change the state `δ` of the
devices and nothing else; what `putc` functions are called with is recorded.  Names and strings are
in memory.
-/

namespace ZHyper

open LowLevel

/-- `console_ops_t` without what is not called here; `none` is `NULL`. -/
structure ConsoleOps (δ : Type) where
  init : Option (Nat → StateM δ Int)
  putc : Option (Nat → Int → StateM δ Int)

structure Console (δ : Type) where
  id : BitVec 32
  enabled : Bool
  name : Nat
  ops : Option (ConsoleOps δ)

structure ConsoleWorld (δ : Type) where
  mem : Mem
  consoles : Nat → Console δ
  devices : δ
  /-- The calls of `putc` functions: the console and the character. -/
  sent : List (Nat × Int)

inductive ConsoleFault where
  | panic
  | endless
deriving DecidableEq

abbrev ConsoleM (δ : Type) := EStateM ConsoleFault (ConsoleWorld δ)

variable {δ : Type}

namespace Console

/-- Of the compiler's `<errno.h>`, which is the header that `console.c` has. -/
def ENOENT : Int := 2

def ENODEV : Int := 19

/-- A routine that runs in memory. -/
def inMemory {α : Type} (prog : Prog α) : ConsoleM δ α := do
  let w ← get
  match prog.exec w.mem with
  | .ret x m =>
    set { w with mem := m }
    return x
  | .panic _ m =>
    set { w with mem := m }
    throw .panic
  | .diverge m =>
    set { w with mem := m }
    throw .endless

/-- `((console_t *)console)->enabled = b` -/
def setEnabled (i : Nat) (b : Bool) : ConsoleM δ Unit :=
  modify fun w =>
    { w with consoles := Function.update w.consoles i { w.consoles i with enabled := b } }

/-- `console->ops->init(console)` -/
def callInit (init : Nat → StateM δ Int) (i : Nat) : ConsoleM δ Int := do
  let w ← get
  set { w with devices := ((init i).run w.devices).2 }
  return ((init i).run w.devices).1

/-- `console->ops->putc(console, c)` -/
def callPutc (putc : Nat → Int → StateM δ Int) (i : Nat) (c : Int) : ConsoleM δ Int := do
  let w ← get
  set { w with devices := ((putc i c).run w.devices).2, sent := w.sent ++ [(i, c)] }
  return ((putc i c).run w.devices).1

/-- The loop of `find_console` and `find_console_by_id`: the first console with `test`, of `k` from
`i` on. -/
def findFrom (test : Console δ → ConsoleM δ Bool) : Nat → Nat → ConsoleM δ (Option Nat)
  | 0, _ => return none
  | k + 1, i => do
    let w ← get
    let found ← test (w.consoles i)
    if found then return some i else findFrom test k (i + 1)

end Console

open Console

def findConsole (n name : Nat) : ConsoleM δ (Option Nat) :=
  findFrom (fun c => do
    let diff ← inMemory (strcmp c.name name)
    return diff == 0) n 0

def findConsoleById (n : Nat) (consoleId : BitVec 32) : ConsoleM δ (Option Nat) :=
  findFrom (fun c => return c.id == consoleId) n 0

def consoleInit (console : Option Nat) : ConsoleM δ Int :=
  match console with
  | none => return -ENODEV
  | some i => do
    let w ← get
    match (w.consoles i).ops.bind ConsoleOps.init with
    | none => return -ENODEV
    | some init =>
      let ret ← callInit init i
      if ret = 0 then setEnabled i true
      return ret

/-- The loop of `console_putc_all`, for `k` consoles from `i` on. -/
def putcAllFrom (c : Int) : Nat → Nat → Int → ConsoleM δ Int
  | 0, _, ret => return ret
  | k + 1, i, ret => do
    let w ← get
    match (if (w.consoles i).enabled then (w.consoles i).ops.bind ConsoleOps.putc else none) with
    | none => putcAllFrom c k (i + 1) ret
    | some putc =>
      let ret ← callPutc putc i c
      if ret ≠ 0 then return ret
      putcAllFrom c k (i + 1) ret

def consolePutcAll (n : Nat) (c : Int) : ConsoleM δ Int := putcAllFrom c n 0 0

def Console.putchar (n : Nat) (c : Int) : ConsoleM δ Int := do
  let _ ← consolePutcAll n c
  return c

/-- `while (*s) { putchar(*s++); count++; }` -/
def putsFrom (n : Nat) : Nat → Nat → Int → ConsoleM δ Int
  | 0, _, _ => throw .endless
  | k + 1, s, count => do
    let c ← inMemory (Prog.read 1 s)
    if c = 0 then return count
    let c ← inMemory (Prog.read 1 s)
    let _ ← Console.putchar n c
    putsFrom n k (s + 1) ((count + 1).bmod 0x100000000)

def Console.puts (n s : Nat) : ConsoleM δ Int := putsFrom n Prog.loopBound s 0

/-- What the three functions below do with what they found. -/
def Console.setFound (find : ConsoleM δ (Option Nat)) (b : Bool) : ConsoleM δ Int := do
  let console ← find
  match console with
  | none => return -ENOENT
  | some i =>
    setEnabled i b
    return 0

def consoleDisable (n name : Nat) : ConsoleM δ Int := setFound (findConsole n name) false

def consoleEnable (n name : Nat) : ConsoleM δ Int := setFound (findConsole n name) true

def consoleDisableById (n : Nat) (consoleId : BitVec 32) : ConsoleM δ Int :=
  setFound (findConsoleById n consoleId) false

/-! ## The PL011 -/

/-- `__pl011_putc`: what is written to `DR`; waiting for the FIFO is left out. -/
def pl011Putc (c : Int) : StateM (List (BitVec 32)) Int := do
  modify (· ++ [BitVec.ofInt 32 c])
  return 0

/-- `s_pl011_ops`; what `pl011_init` programs is left out. -/
def pl011Ops : ConsoleOps (List (BitVec 32)) := ⟨some fun _ => return 0, some fun _ => pl011Putc⟩

end ZHyper
