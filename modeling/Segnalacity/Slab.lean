import Segnalacity.Lib.Memory

/-! # The slab allocator

`slab_allocator.c` on a memory of bytes.  The fields of a `Chunk` and the links through its blocks
are loads and stores at addresses, 0 is NULL, and `calloc` takes the address that it returns from
outside. -/

namespace Segnalacity

open Memory

def sizeT : ℕ := 2 ^ 64

/-- `sizeof(Chunk)`, with the padding of `aligned(64)`. -/
def sizeofChunk : ℕ := 64

/-! ### Fields of a chunk -/

def offNext : ℕ := 0
def offPrev : ℕ := 8
def offLocalFree : ℕ := 16
def offUsedCount : ℕ := 24
def offCapacity : ℕ := 28
def offData : ℕ := 32

/-- The memory, and what the pool has got from `calloc` and not freed: addresses and sizes. -/
structure Heap where
  mem : Mem
  regions : List (ℕ × ℕ)

structure SlabPool where
  blockSize : ℕ
  internalBsize : ℕ
  chunkCapacity : ℕ
  chunksHead : ℕ

structure SlabState where
  pool : SlabPool
  heap : Heap

/-- `calloc` of `size` bytes: zeroed memory at the address, or NULL. -/
def calloc (h : Heap) (size : ℕ) (address : Option ℕ) : ℕ × Heap :=
  match address with
  | none => (0, h)
  | some a => (a, ⟨fun x => if a ≤ x ∧ x < a + size then 0 else h.mem x, (a, size) :: h.regions⟩)

/-- What `calloc` promises about the address: it is not NULL, and the bytes lie in the address space
and in no other region. -/
def CallocAddress (h : Heap) (size : ℕ) (address : Option ℕ) : Prop :=
  ∀ a ∈ address, 0 < a ∧ a + size ≤ sizeT ∧ ∀ r ∈ h.regions, a + size ≤ r.1 ∨ r.1 + r.2 ≤ a

/-! ### Chunks -/

def chunkSize (pool : SlabPool) : ℕ :=
  (sizeofChunk + pool.chunkCapacity * pool.internalBsize % sizeT) % sizeT

def blockStart (pool : SlabPool) (c i : ℕ) : ℕ := c + offData + i * pool.internalBsize % sizeT

/-- The pointer that callers get for block `i`. -/
def userArea (pool : SlabPool) (c i : ℕ) : ℕ := blockStart pool c i + 8

/-- One round of the loop of `create_chunk`. -/
def threadBlock (pool : SlabPool) (c : ℕ) (m : Mem) (i : ℕ) : Mem :=
  let m := store m 8 (blockStart pool c i) c
  let m := store m 8 (userArea pool c i) (load m 8 (c + offLocalFree))
  store m 8 (c + offLocalFree) (userArea pool c i)

/-- `create_chunk`: the chunk, NULL when `calloc` fails. -/
def createChunk (pool : SlabPool) (h : Heap) (address : Option ℕ) : ℕ × Heap :=
  let (c, h) := calloc h (chunkSize pool) address
  if c = 0 then (0, h)
  else
    let m := store h.mem 4 (c + offCapacity) pool.chunkCapacity
    let m := store m 4 (c + offUsedCount) 0
    (c, { h with mem := (List.range pool.chunkCapacity).foldl (threadBlock pool c) m })

/-- `slab_pool_init`: the result and the pool. -/
def slabPoolInit (h : Heap) (blockSize chunkCapacity : ℕ) (address : Option ℕ) : ℤ × SlabState :=
  let pool : SlabPool := ⟨blockSize, (8 + blockSize) % sizeT, chunkCapacity, 0⟩
  let (c, h) := createChunk pool h address
  (if c ≠ 0 then 0 else -1, ⟨{ pool with chunksHead := c }, h⟩)

/-! ### Blocks -/

/-- The search for a chunk with a free block: the chunk or NULL, unless it goes on for more than
`fuel` chunks. -/
def findChunk (m : Mem) : ℕ → ℕ → Option ℕ
  | 0, _ => none
  | fuel + 1, c =>
      if c = 0 then some 0
      else if load m 8 (c + offLocalFree) ≠ 0 then some c
      else findChunk m fuel (load m 8 (c + offNext))

/-- The end of `slab_pool_alloc`: the first free block of the chunk. -/
def popBlock (m : Mem) (chunk : ℕ) : ℕ × Mem :=
  let userPtr := load m 8 (chunk + offLocalFree)
  let m := store m 8 (chunk + offLocalFree) (load m 8 userPtr)
  (userPtr, store m 4 (chunk + offUsedCount) (load m 4 (chunk + offUsedCount) + 1))

/-- A new chunk becomes the first one. -/
def linkChunk (m : Mem) (head chunk : ℕ) : Mem :=
  let m := store m 8 (chunk + offNext) head
  if head ≠ 0 then store m 8 (head + offPrev) chunk else m

/-- `slab_pool_alloc`: the pointer, NULL when memory runs out.  The search is given one round more
than there are chunks; it ends then or never. -/
def slabPoolAlloc (s : SlabState) (address : Option ℕ) : Option (ℕ × SlabState) := do
  let chunk ← findChunk s.heap.mem (s.heap.regions.length + 1) s.pool.chunksHead
  if chunk ≠ 0 then
    let (userPtr, m) := popBlock s.heap.mem chunk
    pure (userPtr, ⟨s.pool, { s.heap with mem := m }⟩)
  else
    let (chunk, h) := createChunk s.pool s.heap address
    if chunk = 0 then pure (0, ⟨s.pool, h⟩)
    else
      let (userPtr, m) := popBlock (linkChunk h.mem s.pool.chunksHead chunk) chunk
      pure (userPtr, ⟨{ s.pool with chunksHead := chunk }, { h with mem := m }⟩)

/-- The block goes back to the free list of its chunk. -/
def pushBlock (m : Mem) (chunk ptr : ℕ) : Mem :=
  let m := store m 8 ptr (load m 8 (chunk + offLocalFree))
  let m := store m 8 (chunk + offLocalFree) ptr
  store m 4 (chunk + offUsedCount) (load m 4 (chunk + offUsedCount) + (2 ^ 32 - 1))

def unlinkChunk (m : Mem) (chunk : ℕ) : Mem :=
  let m := if load m 8 (chunk + offPrev) ≠ 0 then
    store m 8 (load m 8 (chunk + offPrev) + offNext) (load m 8 (chunk + offNext)) else m
  if load m 8 (chunk + offNext) ≠ 0 then
    store m 8 (load m 8 (chunk + offNext) + offPrev) (load m 8 (chunk + offPrev)) else m

/-- `slab_pool_free`. -/
def slabPoolFree (s : SlabState) (ptr : ℕ) : SlabState :=
  if ptr = 0 then s
  else
    let chunk := load s.heap.mem 8 (ptr - 8)
    let m := pushBlock s.heap.mem chunk ptr
    if load m 4 (chunk + offUsedCount) = 0 ∧
        (load m 8 (chunk + offNext) ≠ 0 ∨ load m 8 (chunk + offPrev) ≠ 0) then
      let m := unlinkChunk m chunk
      ⟨if s.pool.chunksHead = chunk then
          { s.pool with chunksHead := load m 8 (chunk + offNext) } else s.pool,
        ⟨m, s.heap.regions.filter fun r => r.1 ≠ chunk⟩⟩
    else ⟨s.pool, { s.heap with mem := m }⟩

end Segnalacity
