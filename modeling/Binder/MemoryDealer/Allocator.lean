import Binder.Lib.LinkedList
import Mathlib.Data.Int.Bitwise

/-! `SimpleBestFitAllocator`: the chunks of a heap in a linked list, with the sizes of `size_t`,
`int` and the bit-field of a chunk. Chunks are measured in units of `kMemoryAlign` bytes. -/
namespace Binder.MemoryDealer

open Lib

def kMemoryAlign : ℕ := 32

def toSizeT (x : ℤ) : ℕ := (x % 2 ^ 64).toNat

def toSSizeT (x : ℤ) : ℤ := x.bmod (2 ^ 64)

def toInt (x : ℤ) : ℤ := x.bmod (2 ^ 32)

def toField (x : ℕ) : ℕ := x % 2 ^ 28

structure Chunk where
  start : ℕ
  size : ℕ
  free : Bool
  deriving DecidableEq

def Chunk.make (start size : ℕ) : Chunk := ⟨start, toField size, true⟩

/-- `pagesize` is what `getpagesize()` returns. -/
structure SimpleBestFitAllocator where
  pagesize : ℕ
  mList : LinkedList Chunk
  mHeapSize : ℕ

namespace SimpleBestFitAllocator

def heapSize (pagesize size : ℕ) : ℕ :=
  toSizeT (size + pagesize - 1) &&& toSizeT (-(pagesize : ℤ))

/-- The constructor; `none` where a null or deleted chunk is read, here and below. -/
def make (pagesize size : ℕ) : Option SimpleBestFitAllocator := do
  let l := (LinkedList.empty : LinkedList Chunk)
  let node := l.fresh
  let l := l.new (Chunk.make 0 (heapSize pagesize size / kMemoryAlign))
  let l ← l.insertHead node
  some ⟨pagesize, l, heapSize pagesize size⟩

/-- The gap before the next page: `-start & ((pagesize/kMemoryAlign)-1)`. -/
def extra (pagesize : ℕ) (pageAligned : Bool) (start : ℕ) : ℤ :=
  if pageAligned then toInt (toSizeT (-(start : ℤ)) &&& (pagesize / kMemoryAlign - 1) : ℕ) else 0

/-- One iteration of the search; the chunk found so far comes with its pointer. -/
def bestFit (pagesize size : ℕ) (pageAligned : Bool) (freeChunk : Option (ℕ × Chunk)) (cur : ℕ)
    (chunk : Chunk) : Option (ℕ × Chunk) × Bool :=
  let extra := extra pagesize pageAligned chunk.start
  if chunk.free && chunk.size ≥ toSizeT (size + extra) then
    let freeChunk :=
      if freeChunk.all fun best => chunk.size < best.2.size then some (cur, chunk) else freeChunk
    (freeChunk, chunk.size == size)
  else (freeChunk, false)

/-- `if (extra) { … insertBefore(free_chunk, split); }` -/
def splitBefore (l : LinkedList Chunk) (freeChunk : ℕ) (chunk : Chunk) (extra : ℤ) :
    Option (Chunk × LinkedList Chunk) :=
  if extra ≠ 0 then do
    let split := l.fresh
    let l := l.new (Chunk.make chunk.start (toSizeT extra))
    let chunk := { chunk with start := toSizeT (chunk.start + extra) }
    let l ← l.setVal freeChunk chunk
    let l ← l.insertBefore freeChunk split
    some (chunk, l)
  else some (chunk, l)

/-- `if (tail_free > 0) { … insertAfter(free_chunk, split); }` -/
def splitAfter (l : LinkedList Chunk) (freeChunk : ℕ) (chunk : Chunk) (tailFree : ℤ) : Option (LinkedList Chunk) :=
  if tailFree > 0 then
    let split := l.fresh
    let l := l.new (Chunk.make (toSizeT (chunk.start + chunk.size)) (toSizeT tailFree))
    l.insertAfter freeChunk split
  else some l

def carve (pagesize : ℕ) (l : LinkedList Chunk) (freeChunk : ℕ) (found : Chunk) (size : ℕ)
    (pageAligned : Bool) : Option (ℕ × LinkedList Chunk) := do
  let freeSize := found.size
  let chunk := { found with size := toField size, free := false }
  let l ← l.setVal freeChunk chunk
  if freeSize > size then do
    let extra := extra pagesize pageAligned chunk.start
    let (chunk, l) ← splitBefore l freeChunk chunk extra
    let tailFree := toSSizeT (freeSize - (size + extra))
    let l ← splitAfter l freeChunk chunk tailFree
    some (toSizeT (chunk.start * kMemoryAlign : ℕ), l)
  else some (toSizeT (chunk.start * kMemoryAlign : ℕ), l)

/-- The inner `none` is `NO_MEMORY`. -/
def alloc (a : SimpleBestFitAllocator) (size : ℕ) (pageAligned : Bool) :
    Option (Option ℕ × SimpleBestFitAllocator) :=
  if size = 0 then some (some 0, a)
  else do
    let size := toSizeT (size + kMemoryAlign - 1) / kMemoryAlign
    let found ← a.mList.scan (bestFit a.pagesize size pageAligned) a.mList.fresh a.mList.mFirst none
    match found with
    | none => some (none, a)
    | some (freeChunk, chunk) => do
      let (offset, l) ← carve a.pagesize a.mList freeChunk chunk size pageAligned
      some (some offset, { a with mList := l })

/-- The body of the loop that merges freed blocks: `cur` goes into the chunk before it. -/
def mergeBack (l : LinkedList Chunk) (cur : ℕ) (node : Node Chunk) (freed : ℕ) : Option (ℕ × LinkedList Chunk) :=
  match node.prev with
  | none => some (freed, l)
  | some p => do
    let before ← l.nodes p
    if before.val.free || node.val.size == 0 then do
      let l ← l.setVal p { before.val with size := toField (before.val.size + node.val.size) }
      let l ← l.remove cur
      some (p, l.delete cur)
    else some (freed, l)

/-- `do { … } while (cur && cur->free);` with fuel for the iterations. -/
def mergeLoop : ℕ → LinkedList Chunk → ℕ → ℕ → Option (ℕ × LinkedList Chunk)
  | 0, _, _, _ => none
  | fuel + 1, l, cur, freed => do
    let node ← l.nodes cur
    let (freed, l) ← mergeBack l cur node freed
    match node.next with
    | none => some (freed, l)
    | some n => do
      let next ← l.nodes n
      if next.val.free then mergeLoop fuel l n freed else some (freed, l)

/-- One iteration of the search for the chunk to free. -/
def startsAt (start : ℕ) (found : Option (ℕ × Chunk)) (cur : ℕ) (chunk : Chunk) : Option (ℕ × Chunk) × Bool :=
  if chunk.start = start then (some (cur, chunk), true) else (found, false)

/-- `none` also where `LOG_FATAL_IF` fires; the inner `none` is a null result. -/
def dealloc (a : SimpleBestFitAllocator) (start : ℕ) : Option (Option ℕ × SimpleBestFitAllocator) := do
  let start := start / kMemoryAlign
  let found ← a.mList.scan (startsAt start) a.mList.fresh a.mList.mFirst none
  match found with
  | none => some (none, a)
  | some (cur, chunk) =>
    if chunk.free then none
    else do
      let l ← a.mList.setVal cur { chunk with free := true }
      let (freed, l) ← mergeLoop l.fresh l cur cur
      let node ← l.nodes freed
      if !node.val.free then none else some (some freed, { a with mList := l })

def allocate (a : SimpleBestFitAllocator) (size : ℕ) (pageAligned : Bool) :
    Option (Option ℕ × SimpleBestFitAllocator) :=
  a.alloc size pageAligned

/-- The result is true for `NO_ERROR` and false for `NAME_NOT_FOUND`. -/
def deallocate (a : SimpleBestFitAllocator) (offset : ℕ) : Option (Bool × SimpleBestFitAllocator) := do
  let (freed, a) ← a.dealloc offset
  some (freed.isSome, a)

end SimpleBestFitAllocator

end Binder.MemoryDealer
