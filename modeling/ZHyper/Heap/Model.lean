import ZHyper.Lib.Prog

/-!
# `miniheap.c`: the allocator as a program on byte memory

`struct miniheap`, the free blocks and the used headers all live in one byte
memory; every access of the C code is one access of the `Prog`, in the order the
C code makes it.  Pointers are numbers below `2^64`, `NULL` is `0`, and the
arithmetic of `uint32_t`, `uint64_t` and `uintptr_t` is cut to its width where
the C code's is.

`panic` does not return.  A loop follows `next` words through memory that it does
not change while it goes on, so one that makes more than `2^64` rounds meets an
address twice and never ends: `loopBound` rounds are all there are.
-/

namespace ZHyper

open LowLevel LowLevel.Prog

/-! ## Layout -/

/-- Fields of `struct miniheap`. -/
def heapBase (heap : Nat) : Nat := heap
def heapSize (heap : Nat) : Nat := heap + 8
def heapFreeBytes (heap : Nat) : Nat := heap + 16
def heapAlign (heap : Nat) : Nat := heap + 24
def heapFreeList (heap : Nat) : Nat := heap + 32

/-- Fields of `miniheap_freeblock_t`; `miniheap_usedheader_t` shares the first two. -/
def blockMagic (block : Nat) : Nat := block
def blockSize (block : Nat) : Nat := block + 4
def blockNext (block : Nat) : Nat := block + 8

def magicFree : Nat := 0xDEADBEEF
def magicUsed : Nat := 0xBEEFDEAD

/-- `MINIHEAP_ALIGNMENT` -/
def heapAlignment : Nat := 16

/-- `MINIHEAP_USEDHEADER_SIZE`: the 8 bytes of the used header rounded up. -/
def usedHeaderSize : Nat := 16

/-! ## `miniheap_init` -/

def miniheapInit (heap base size : Nat) : Prog Nat :=
  if size = 0 ∨ size &&& (heapAlignment - 1) ≠ 0 then .panic "miniheap_init: invalid size\n"
  else do
    write 8 (heapBase heap) base
    write 8 (heapSize heap) size
    write 8 (heapFreeBytes heap) size
    write 4 (heapAlign heap) heapAlignment
    write 4 (blockMagic base) magicFree
    write 4 (blockSize base) size
    write 8 (blockNext base) 0
    write 8 (heapFreeList heap) base
    return 0

/-! ## `miniheap_alloc` -/

/-- `if (prev) prev->next = link; else heap->free_list = link;` -/
def setLink (heap prev link : Nat) : Prog Unit :=
  if prev ≠ 0 then write 8 (blockNext prev) link else write 8 (heapFreeList heap) link

/-- The body of the search loop on a block that is large enough. -/
def allocFit (heap totalSize prev cur : Nat) : Prog Unit := do
  let size ← read 4 (blockSize cur)
  if size = totalSize then
    let next ← read 8 (blockNext cur)
    setLink heap prev next
  else
    let newBlock := (cur + totalSize) % 2 ^ 64
    write 4 (blockMagic newBlock) magicFree
    let size ← read 4 (blockSize cur)
    write 4 (blockSize newBlock) ((size + 2 ^ 32 - totalSize) % 2 ^ 32)
    let next ← read 8 (blockNext cur)
    write 8 (blockNext newBlock) next
    setLink heap prev newBlock

/-- `while (cur)`: the block the search stops at, `0` if there is none. -/
def allocLoop (heap totalSize : Nat) : (fuel prev cur : Nat) → Prog Nat
  | 0, _, _ => .diverge
  | fuel + 1, prev, cur =>
    if cur = 0 then pure 0
    else do
      let size ← read 4 (blockSize cur)
      if totalSize ≤ size then
        allocFit heap totalSize prev cur
        return cur
      else
        let next ← read 8 (blockNext cur)
        allocLoop heap totalSize fuel cur next

/-- `(size + heap->align - 1) & ~(heap->align - 1)`: the sum in 64 bits, the mask in 32, the result
cut to `uint32_t`. -/
def roundSize (size align align' : Nat) : Nat :=
  (((size + align) % 2 ^ 64 + 2 ^ 64 - 1) % 2 ^ 64 &&&
    (2 ^ 32 - 1 - (align' + 2 ^ 32 - 1) % 2 ^ 32)) %
    2 ^ 32

/-- After the search: take the bytes off `free_bytes` and write the used header. -/
def allocFinish (heap totalSize cur : Nat) : Prog Nat :=
  if cur = 0 then pure 0
  else do
    let freeBytes ← read 8 (heapFreeBytes heap)
    write 8 (heapFreeBytes heap) ((freeBytes + 2 ^ 64 - totalSize) % 2 ^ 64)
    write 4 (blockMagic cur) magicUsed
    write 4 (blockSize cur) totalSize
    return (cur + usedHeaderSize) % 2 ^ 64

def miniheapAlloc (heap size : Nat) : Prog Nat := do
  let align ← read 4 (heapAlign heap)
  let align' ← read 4 (heapAlign heap)
  let totalSize := roundSize size align align'
  if totalSize = 0 then return 0
  else
    let totalSize := (totalSize + usedHeaderSize) % 2 ^ 32
    let freeBytes ← read 8 (heapFreeBytes heap)
    if totalSize > freeBytes then return 0
    else
      let first ← read 8 (heapFreeList heap)
      let cur ← allocLoop heap totalSize loopBound 0 first
      allocFinish heap totalSize cur

/-! ## `miniheap_free` -/

/-- `while (cur && cur < block)`: the last free block below `block` and the first one not below. -/
def freeLoop (block rear : Nat) : (fuel prev cur : Nat) → Prog (Nat × Nat)
  | 0, _, _ => .diverge
  | fuel + 1, prev, cur =>
    if cur ≠ 0 ∧ cur < block then
      if rear ≤ cur then pure (prev, cur)
      else do
        let next ← read 8 (blockNext cur)
        freeLoop block rear fuel cur next
    else pure (prev, cur)

/-- `prev && prev + prev->size == block` -/
def touchesLeft (prev block : Nat) : Prog Bool :=
  if prev = 0 then pure false
  else do
    let size ← read 4 (blockSize prev)
    return (prev + size) % 2 ^ 64 == block

/-- Merge into `prev`, or link `block` between `prev` and `cur`: the block that now holds the
memory, and its end. -/
def freeInsert (heap block size rear prev cur : Nat) : Prog (Nat × Nat) := do
  let left ← touchesLeft prev block
  if left then
    let prevSize ← read 4 (blockSize prev)
    write 4 (blockSize prev) ((prevSize + size) % 2 ^ 32)
    let newSize ← read 4 (blockSize prev)
    return (prev, (prev + newSize) % 2 ^ 64)
  else
    write 4 (blockSize block) size
    write 8 (blockNext block) cur
    setLink heap prev block
    return (block, rear)

/-- `if (cur && ptr_rear == cur)`: take over the block that follows. -/
def freeMergeRight (newBlock rear cur : Nat) : Prog Unit :=
  if cur ≠ 0 ∧ rear = cur then do
    let newSize ← read 4 (blockSize newBlock)
    let curSize ← read 4 (blockSize cur)
    write 4 (blockSize newBlock) ((newSize + curSize) % 2 ^ 32)
    let next ← read 8 (blockNext cur)
    write 8 (blockNext newBlock) next
  else pure ()

def miniheapFree (heap ptr : Nat) : Prog Unit :=
  if ptr = 0 then pure ()
  else do
    let block := (ptr + 2 ^ 64 - usedHeaderSize) % 2 ^ 64
    let magic ← read 4 (blockMagic block)
    if magic ≠ magicUsed then .panic "miniheap_free: invalid free\n"
    else
      let first ← read 8 (heapFreeList heap)
      let blockBytes ← read 4 (blockSize block)
      let rear := (block + blockBytes) % 2 ^ 64
      let (prev, cur) ← freeLoop block rear loopBound 0 first
      let size ← read 4 (blockSize block)
      write 4 (blockMagic block) magicFree
      let (newBlock, rear) ← freeInsert heap block size rear prev cur
      freeMergeRight newBlock rear cur
      let freeBytes ← read 8 (heapFreeBytes heap)
      write 8 (heapFreeBytes heap) ((freeBytes + size) % 2 ^ 64)

/-! ## The C library's interface to the global heap `g_miniheap` -/

def malloc (gMiniheap size : Nat) : Prog Nat := miniheapAlloc gMiniheap size

def free (gMiniheap ptr : Nat) : Prog Unit := miniheapFree gMiniheap ptr

end ZHyper
