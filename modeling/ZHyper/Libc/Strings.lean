import ZHyper.Lib.CStrings
import ZHyper.Libc.Memory

/-!
# `string.c`: strings

The routines as they go through memory, one byte an access.  What an operand of `&&` does not need
is not read; what the source reads twice is read twice.
-/

namespace ZHyper

open LowLevel LowLevel.Prog

/-- `while (*s1 && (*s1 == *s2)) { s1++; s2++; }`, and where the two end. -/
def strcmpLoop : Nat → Nat → Nat → Prog (Nat × Nat)
  | 0, _, _ => .diverge
  | k + 1, s1, s2 => do
    let c ← read 1 s1
    if c = 0 then return (s1, s2)
    else
      let c1 ← read 1 s1
      let c2 ← read 1 s2
      if c1 = c2 then strcmpLoop k (s1 + 1) (s2 + 1) else return (s1, s2)

def strcmp (s1 s2 : Nat) : Prog Int := do
  let (s1, s2) ← strcmpLoop loopBound s1 s2
  let c1 ← read 1 s1
  let c2 ← read 1 s2
  return (c1 : Int) - c2

/-- `for (; i < i + k; i++)` of `strncmp`, and what it returns. -/
def strncmpLoop (s1 s2 : Nat) : Nat → Nat → Prog Int
  | 0, _ => return 0
  | k + 1, i => do
    let c1 ← read 1 (s1 + i)
    let c2 ← read 1 (s2 + i)
    if c1 ≠ c2 then
      let c1 ← read 1 (s1 + i)
      let c2 ← read 1 (s2 + i)
      return (c1 : Int) - c2
    else
      let c ← read 1 (s1 + i)
      if c = 0 then return 0 else strncmpLoop s1 s2 k (i + 1)

def strncmp (s1 s2 n : Nat) : Prog Int := strncmpLoop s1 s2 n 0

/-- `while ((*d++ = *src++) != '\0')` -/
def strcpyLoop : Nat → Nat → Nat → Prog Unit
  | 0, _, _ => .diverge
  | k + 1, d, src => do
    let c ← read 1 src
    write 1 d c
    if c = 0 then return () else strcpyLoop k (d + 1) (src + 1)

def strcpy (dest src : Nat) : Prog Nat := do
  strcpyLoop loopBound dest src
  return dest

/-- `for (; i < i + k && src[i] != '\0'; i++) d[i] = src[i];`, and the `i` it ends with. -/
def strncpyLoop (d src : Nat) : Nat → Nat → Prog Nat
  | 0, i => return i
  | k + 1, i => do
    let c ← read 1 (src + i)
    if c = 0 then return i
    else
      let c ← read 1 (src + i)
      write 1 (d + i) c
      strncpyLoop d src k (i + 1)

def strncpy (dest src n : Nat) : Prog Nat := do
  let i ← strncpyLoop dest src n 0
  fillLoop 1 dest 0 (n - i) i
  return dest

/-- `while (*d != '\0') d++;` -/
def strend : Nat → Nat → Prog Nat
  | 0, _ => .diverge
  | k + 1, d => do
    let c ← read 1 d
    if c = 0 then return d else strend k (d + 1)

def strcat (dest src : Nat) : Prog Nat := do
  let d ← strend loopBound dest
  strcpyLoop loopBound d src
  return dest

def strncat (dest src n : Nat) : Prog Nat := do
  let d ← strend loopBound dest
  let i ← strncpyLoop d src n 0
  write 1 (d + i) 0
  return dest

/-- `while (*h != '\0' && *n != '\0' && *h == *n) { h++; n++; }`, and where `n` ends. -/
def matchLoop : Nat → Nat → Nat → Prog Nat
  | 0, _, _ => .diverge
  | k + 1, h, n => do
    let c ← read 1 h
    if c = 0 then return n
    else
      let c ← read 1 n
      if c = 0 then return n
      else
        let c1 ← read 1 h
        let c2 ← read 1 n
        if c1 = c2 then matchLoop k (h + 1) (n + 1) else return n

/-- `for (; *haystack != '\0'; haystack++)` of `strstr`, and what is returned. -/
def strstrLoop (needle : Nat) : Nat → Nat → Prog Nat
  | 0, _ => .diverge
  | k + 1, haystack => do
    let c ← read 1 haystack
    if c = 0 then return 0
    else
      let c1 ← read 1 haystack
      let c2 ← read 1 needle
      if c1 = c2 then
        let n ← matchLoop loopBound haystack needle
        let c ← read 1 n
        if c = 0 then return haystack else strstrLoop needle k (haystack + 1)
      else strstrLoop needle k (haystack + 1)

def strstr (haystack needle : Nat) : Prog Nat := do
  let c ← read 1 needle
  if c = 0 then return haystack else strstrLoop needle loopBound haystack

end ZHyper
