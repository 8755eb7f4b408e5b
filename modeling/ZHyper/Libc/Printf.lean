import ZHyper.Lib.Emit
import Mathlib.Data.Nat.ModEq

/-!
# `printf.c`: the formatter

A `char *` into an array is the list of the characters from there to the end of the array, the
terminator the last of them: `*p` is the head, `p++` drops it, and `*p` behind the end is a fault.
A `va_list` is the list of the arguments left, one 64-bit slot for each.  `int` arithmetic wraps, as
`-O0` code for the target does.
-/

namespace ZHyper

open LowLevel

/-- What C leaves undefined, and a loop that does not end. -/
inductive PrintFault where
  | pastEnd
  | belowBuffer
  | noArgument
  | endless
  deriving DecidableEq

abbrev Print := Emit PrintFault (BitVec 64) UInt8

/-- `int` -/
def int32 (x : Int) : Int := x.bmod (2 ^ 32)

/-- `*p` -/
def deref : List UInt8 → Print UInt8
  | [] => Emit.fault .pastEnd
  | c :: _ => return c

/-- `va_arg`: the next slot. -/
def vaArg : Print (BitVec 64) := Emit.next .noArgument

/-- The device takes the low byte of what it is sent. -/
def putchar (c : Int) : Print Int := do
  Emit.emit [UInt8.ofNat (c % 256).toNat]
  return c

def puts : List UInt8 → Print Int
  | [] => Emit.fault .pastEnd
  | c :: s =>
    if c ≠ 0 then do
      let _ ← putchar c.toNat
      let count ← puts s
      return count + 1
    else return 0

def strlen : List UInt8 → Print Int
  | [] => Emit.fault .pastEnd
  | c :: s =>
    if c ≠ 0 then do
      let len ← strlen s
      return len + 1
    else return 0

/-! ## `print64` -/

/-- `enum printopt` -/
structure PrintOpt where
  print0X : Bool
  zeroPadding : Bool

/-- `buf` and `cur` -/
structure NumBuf where
  buf : List UInt8
  cur : Nat

/-- `*--cur = c;` -/
def NumBuf.push (b : NumBuf) (c : UInt8) : Print NumBuf :=
  if b.cur = 0 then Emit.fault .belowBuffer
  else return ⟨b.buf.set (b.cur - 1) c, b.cur - 1⟩

def hexDigits : List UInt8 :=
  ['0', '1', '2', '3', '4', '5', '6', '7', '8', '9', 'a', 'b', 'c', 'd', 'e', 'f'].map Char.toUInt8

/-- `do { *--cur = "0123456789abcdef"[unum % base]; } while (unum /= base);` -/
def digitLoop (base : Nat) : Nat → NumBuf → Nat → Print NumBuf
  | 0, _, _ => Emit.fault .endless
  | k + 1, b, unum => do
    let b ← b.push (hexDigits.getD (unum % base) 0)
    if unum / base ≠ 0 then digitLoop base k b (unum / base) else return b

/-- `while (digit-- > len) putchar(c);`, and what `digit` ends with. -/
def padLoop (c : Char) (len : Int) : Nat → Int → Print Int
  | 0, _ => Emit.fault .endless
  | k + 1, digit =>
    if digit > len then do
      let _ ← putchar c.toNat
      padLoop c len k (int32 (digit - 1))
    else return int32 (digit - 1)

/-- `if(opt & PRINT_0X)` -/
def NumBuf.push0X (b : NumBuf) (print0X : Bool) : Print NumBuf :=
  if print0X then do
    let b ← b.push 'x'.toUInt8
    b.push '0'.toUInt8
  else return b

/-- `if(neg)` -/
def NumBuf.pushSign (b : NumBuf) (neg : Bool) : Print NumBuf :=
  if neg then b.push '-'.toUInt8 else return b

/-- `if(digit > 0)` -/
def padLeft (zeroPadding : Bool) (len digit : Int) : Print Int :=
  if digit > 0 then padLoop (if zeroPadding then '0' else ' ') len (digit.toNat + 1) digit
    else return digit

/-- `if(digit < 0)` -/
def padRight (len digit : Int) : Print Int :=
  if digit < 0 then
    let digit := int32 (-digit)
    padLoop ' ' len (digit.toNat + 1) digit
  else return digit

def print64 (num : BitVec 64) (base : Nat) (sign : Bool) (digit : Int) (opt : PrintOpt) :
    Print Unit := do
  let b : NumBuf := ⟨List.replicate 72 0, 71⟩
  let neg := sign && num.slt 0
  let unum := if neg then -(num + 1) + 1 else num
  let b ← digitLoop base (b.cur + 1) b unum.toNat
  let b ← b.push0X opt.print0X
  let b ← b.pushSign neg
  let len ← strlen (b.buf.drop b.cur)
  let digit ← padLeft opt.zeroPadding len digit
  let _ ← puts (b.buf.drop b.cur)
  let _ ← padRight len digit
  return ()

/-! ## `vprintf` -/

def isdigit (c : UInt8) : Bool := '0'.toUInt8 ≤ c && c ≤ '9'.toUInt8

/-- `while (isdigit(*fmt)) n = n * 10 + *fmt++ - '0';` -/
def numberLoop : List UInt8 → Int → Print (List UInt8 × Int)
  | [], _ => Emit.fault .pastEnd
  | c :: fmt, n =>
    if isdigit c then numberLoop fmt (int32 (n * 10 + c.toNat - '0'.toNat))
      else return (c :: fmt, n)

/-- What `fetch_digit` returns and stores. -/
structure Width where
  fmt : List UInt8
  digit : Int
  zeroPadding : Bool

/-- `fetch_digit` behind the `-`. -/
def fetchNumber (neg : Bool) (fmt : List UInt8) : Print Width := do
  let c ← deref fmt
  let zeroPadding : Bool := c = '0'.toUInt8
  let r ← numberLoop (if zeroPadding then fmt.drop 1 else fmt) 0
  return ⟨r.1, if neg then int32 (-r.2) else r.2, zeroPadding⟩

def fetchDigit (fmt : List UInt8) : Print Width := do
  let c ← deref fmt
  let neg : Bool := c = '-'.toUInt8
  fetchNumber neg (if neg then fmt.drop 1 else fmt)

/-- The string literal `"(null)"`. -/
def nullString : List UInt8 := ['(', 'n', 'u', 'l', 'l', ')'].map Char.toUInt8

/-- The array of the string `s`. -/
def cstr (s : List UInt8) : List UInt8 := s ++ [0]

section

-- `str p` is the string that the argument `p` of a `%s` points to.
variable (str : BitVec 64 → List UInt8)

/-- The cases of `switch(c = *fmt)`, those of `l` and `L` apart. -/
def conversion (digit : Int) (zeroPadding : Bool) (c : UInt8) : Print Unit :=
  if c = 'd'.toUInt8 then do
    let v ← vaArg
    print64 ((v.setWidth 32).signExtend 64) 10 true digit ⟨false, zeroPadding⟩
  else if c = 'u'.toUInt8 then do
    let v ← vaArg
    print64 ((v.setWidth 32).setWidth 64) 10 false digit ⟨false, zeroPadding⟩
  else if c = 'x'.toUInt8 then do
    let v ← vaArg
    print64 v 16 false digit ⟨false, zeroPadding⟩
  else if c = 'p'.toUInt8 then do
    let p ← vaArg
    print64 p 16 false digit ⟨true, false⟩
  else if c = 'c'.toUInt8 then do
    let v ← vaArg
    let _ ← putchar (v.setWidth 32).toInt
    return ()
  else if c = 's'.toUInt8 then do
    let s ← vaArg
    let _ ← puts (cstr (if s = 0 then nullString else str s))
    return ()
  else if c = '%'.toUInt8 then do
    let _ ← putchar '%'.toNat
    return ()
  else do
    let _ ← putchar '%'.toNat
    let _ ← putchar c.toNat
    return ()

/-- The cases of the `switch` behind `l` or `L`. -/
def longConversion (digit : Int) (zeroPadding : Bool) (c : UInt8) : Print Unit :=
  if c = 'd'.toUInt8 then do
    let v ← vaArg
    print64 v 10 true digit ⟨false, zeroPadding⟩
  else if c = 'u'.toUInt8 then do
    let v ← vaArg
    print64 v 10 false digit ⟨false, zeroPadding⟩
  else if c = 'x'.toUInt8 then do
    let v ← vaArg
    print64 v 16 false digit ⟨false, zeroPadding⟩
  else do
    let _ ← putchar '%'.toNat
    let _ ← putchar 'l'.toNat
    let _ ← putchar c.toNat
    return ()

/-- The body of the loop behind a `%`, and where `fmt` stands after it. -/
def directive (fmt : List UInt8) : Print (List UInt8) := do
  let w ← fetchDigit fmt
  let c ← deref w.fmt
  if c = 'l'.toUInt8 ∨ c = 'L'.toUInt8 then
    let fmt := w.fmt.drop 1
    let c ← deref fmt
    longConversion w.digit w.zeroPadding c
    return fmt
  else
    conversion str w.digit w.zeroPadding c
    return w.fmt

/-- `for(; *fmt; fmt++)` -/
def vprintfLoop : Nat → List UInt8 → Print Unit
  | 0, _ => Emit.fault .endless
  | k + 1, fmt => do
    let c ← deref fmt
    if c = 0 then return ()
    else if c = '%'.toUInt8 then
      let fmt ← directive str (fmt.drop 1)
      vprintfLoop k (fmt.drop 1)
    else
      let _ ← putchar c.toNat
      vprintfLoop k (fmt.drop 1)

def vprintf (fmt : List UInt8) : Print Int := do
  vprintfLoop str (fmt.length + 1) fmt
  return 0

end

end ZHyper
