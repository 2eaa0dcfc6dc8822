import Segnalacity.Lib.Linked
import Segnalacity.Slab
import Mathlib.Data.List.Perm.Subperm

/-! # What the slab pool keeps

A chunk holds the list of its free blocks (`ChunkHolds`), and a pool holds its chunks on a list
(`PoolHolds`).  The link of a free block takes 8 bytes of the block, which are its own when a block
has as many or is the only one of its chunk (`Sized`).  One lemma for each change: a block leaves the
free list or comes back, a chunk joins the list or leaves it, and others store into their blocks. -/

namespace Segnalacity

open Memory Linked

def nextOf (m : Mem) (c : ℕ) : ℕ := load m 8 (c + offNext)

def prevOf (m : Mem) (c : ℕ) : ℕ := load m 8 (c + offPrev)

def freeOf (m : Mem) (c : ℕ) : ℕ := load m 8 (c + offLocalFree)

def usedOf (m : Mem) (c : ℕ) : ℕ := load m 4 (c + offUsedCount)

/-! ### Places in a chunk -/

/-- The sizes do not wrap around, and the link of a free block does not reach into the next one. -/
structure Sized (pool : SlabPool) : Prop where
  stride : pool.internalBsize = 8 + pool.blockSize
  capacity : 0 < pool.chunkCapacity ∧ pool.chunkCapacity < 2 ^ 31
  fits : sizeofChunk + pool.chunkCapacity * pool.internalBsize < sizeT
  room : 8 ≤ pool.blockSize ∨ pool.chunkCapacity = 1

section places
variable {pool : SlabPool} {c i j : ℕ}

theorem Sized.chunkSize_eq (h : Sized pool) :
    chunkSize pool = sizeofChunk + pool.chunkCapacity * pool.internalBsize := by
  have hfits := h.fits
  unfold chunkSize
  rw [Nat.mod_eq_of_lt (by omega : pool.chunkCapacity * pool.internalBsize < sizeT),
    Nat.mod_eq_of_lt hfits]

theorem stride_le (pool : SlabPool) (hij : i < j) :
    i * pool.internalBsize + pool.internalBsize ≤ j * pool.internalBsize := by
  rw [← Nat.succ_mul]
  exact Nat.mul_le_mul_right _ hij

theorem Sized.blockStart_eq (h : Sized pool) (hi : i < pool.chunkCapacity) :
    blockStart pool c i = c + 32 + i * pool.internalBsize := by
  have hfits := h.fits
  have hstride := stride_le pool hi
  unfold blockStart
  rw [Nat.mod_eq_of_lt (by omega : i * pool.internalBsize < sizeT)]
  rfl

/-- Back-pointer, link and user area of a block lie behind the header and inside the chunk. -/
theorem Sized.inside (h : Sized pool) (hi : i < pool.chunkCapacity) :
    c + 32 ≤ blockStart pool c i ∧ blockStart pool c i + 16 ≤ c + chunkSize pool ∧
      blockStart pool c i + 8 + pool.blockSize ≤ c + chunkSize pool := by
  have hstride := stride_le pool hi
  have hsize := h.stride
  rw [h.blockStart_eq hi, h.chunkSize_eq, sizeofChunk]
  omega

/-- A block ends before the next one. -/
theorem Sized.apart (h : Sized pool) (hij : i < j) (hj : j < pool.chunkCapacity) :
    blockStart pool c i + 16 ≤ blockStart pool c j ∧
      blockStart pool c i + 8 + pool.blockSize ≤ blockStart pool c j := by
  have hstride := stride_le pool hij
  have hsize := h.stride
  have hroom : 8 ≤ pool.blockSize := by
    rcases h.room with hroom | hone
    · exact hroom
    · omega
  rw [h.blockStart_eq (hij.trans hj), h.blockStart_eq hj]
  omega

theorem Sized.apart_of_ne (h : Sized pool) (hne : i ≠ j) (hi : i < pool.chunkCapacity)
    (hj : j < pool.chunkCapacity) :
    blockStart pool c i + 16 ≤ blockStart pool c j ∨
      blockStart pool c j + 16 ≤ blockStart pool c i := by
  rcases Nat.lt_or_gt_of_ne hne with hij | hij
  · exact Or.inl (h.apart hij hj).1
  · exact Or.inr (h.apart hij hi).1

theorem Sized.userArea_inj (h : Sized pool) (hi : i < pool.chunkCapacity)
    (hj : j < pool.chunkCapacity) (heq : userArea pool c i = userArea pool c j) : i = j := by
  have heq' : blockStart pool c i = blockStart pool c j := Nat.add_right_cancel heq
  by_contra hne
  have hapart := h.apart_of_ne (c := c) hne hi hj
  omega

end places

/-! ### A chunk -/

/-- The first `n` blocks of the chunk belong to it, and those of `fs` are its free list. -/
structure ChunkHolds (pool : SlabPool) (m : Mem) (c n : ℕ) (fs : List ℕ) : Prop where
  capacity : load m 4 (c + offCapacity) = pool.chunkCapacity
  used : usedOf m c + fs.length = n
  owner : ∀ i < n, load m 8 (blockStart pool c i) = c
  free : Path (load m 8) 0 (freeOf m c) (fs.map (userArea pool c))
  nodup : fs.Nodup
  bound : ∀ i ∈ fs, i < n

section chunk
variable {pool : SlabPool} {m m' : Mem} {c n i : ℕ} {fs : List ℕ}

/-- The bytes that a chunk depends on. -/
theorem ChunkHolds.congr (h : ChunkHolds pool m c n fs)
    (hheader : ∀ x, c + 16 ≤ x → x < c + 32 → m' x = m x)
    (howner : ∀ i < n, ∀ x, blockStart pool c i ≤ x → x < blockStart pool c i + 8 → m' x = m x)
    (hfree : ∀ i ∈ fs, ∀ x, userArea pool c i ≤ x → x < userArea pool c i + 8 → m' x = m x) :
    ChunkHolds pool m' c n fs := by
  have hload : ∀ k a, c + 16 ≤ a → a + k ≤ c + 32 → load m' k a = load m k a := by
    intro k a ha hk
    exact load_congr fun x hx hx' => hheader x (by omega) (by omega)
  refine ⟨?_, ?_, ?_, ?_, h.nodup, h.bound⟩
  · rw [hload 4 _ (by unfold offCapacity; omega) (by unfold offCapacity; omega)]
    exact h.capacity
  · unfold usedOf
    rw [hload 4 _ (by unfold offUsedCount; omega) (by unfold offUsedCount; omega)]
    exact h.used
  · intro i hi
    rw [load_congr (howner i hi)]
    exact h.owner i hi
  · unfold freeOf
    rw [hload 8 _ (by unfold offLocalFree; omega) (by unfold offLocalFree; omega)]
    refine h.free.congr fun p hp => ?_
    obtain ⟨i, hi, rfl⟩ := List.mem_map.mp hp
    exact load_congr (hfree i hi)

/-- The free list gives its first block away. -/
theorem ChunkHolds.pop (h : ChunkHolds pool m c n (i :: fs)) (hs : Sized pool)
    (hn : n ≤ pool.chunkCapacity) :
    ∃ m', popBlock m c = (userArea pool c i, m') ∧ ChunkHolds pool m' c n fs ∧
      ∀ x, x < c + 16 ∨ c + 28 ≤ x → m' x = m x := by
  obtain ⟨hfirst, -, hrest⟩ := h.free
  have hused := h.used
  have hcap := hs.capacity
  rw [List.length_cons] at hused
  have huser : load m 8 (c + offLocalFree) = userArea pool c i := hfirst
  have hout : ∀ x, x < c + 16 ∨ c + 28 ≤ x → (popBlock m c).2 x = m x := by
    intro x hx
    unfold popBlock offLocalFree offUsedCount
    dsimp only
    rw [store_of_outside (by omega), store_of_outside (by omega)]
  have hload : ∀ k a, a + k ≤ c + 16 ∨ c + 28 ≤ a → load (popBlock m c).2 k a = load m k a :=
    fun k a ha => load_congr fun x hx hx' => hout x (by omega)
  refine ⟨(popBlock m c).2, Prod.ext huser rfl, ⟨?_, ?_, ?_, ?_, ?_, ?_⟩, hout⟩
  · rw [hload 4 (c + offCapacity) (Or.inr (le_refl (c + 28)))]
    exact h.capacity
  · have hcount : usedOf (popBlock m c).2 c = usedOf m c + 1 := by
      unfold usedOf popBlock
      dsimp only
      rw [load_store, load_store_of_apart (by unfold offUsedCount offLocalFree; omega)]
      refine Nat.mod_eq_of_lt ?_
      show usedOf m c + 1 < 256 ^ 4
      omega
    omega
  · intro j hj
    have hinside := hs.inside (c := c) (hj.trans_le hn)
    rw [hload 8 _ (Or.inr (by omega))]
    exact h.owner j hj
  · have hfree : freeOf (popBlock m c).2 c = load m 8 (userArea pool c i) := by
      unfold freeOf popBlock
      dsimp only
      rw [load_store_of_apart (by unfold offUsedCount offLocalFree; omega),
        load_store_of_lt (load_lt _ _ _), huser]
    rw [hfree]
    refine hrest.congr fun p hp => ?_
    obtain ⟨j, hj, rfl⟩ := List.mem_map.mp hp
    have hinside := hs.inside (c := c) ((h.bound j (List.mem_cons_of_mem i hj)).trans_le hn)
    exact hload 8 _ (Or.inr (by unfold userArea; omega))
  · exact (List.nodup_cons.mp h.nodup).2
  · exact fun j hj => h.bound j (List.mem_cons_of_mem i hj)

/-! `push_block` writes the link of the block and the two fields of the header. -/

theorem pushBlock_outside {m : Mem} {c p x : ℕ} (hx : x < c + 16 ∨ c + 28 ≤ x)
    (hx' : x < p ∨ p + 8 ≤ x) : pushBlock m c p x = m x := by
  unfold pushBlock offLocalFree offUsedCount
  rw [store_of_outside (by omega), store_of_outside (by omega), store_of_outside (by omega)]

theorem usedOf_pushBlock {m : Mem} {c p : ℕ} (hp : c + 32 ≤ p) :
    usedOf (pushBlock m c p) c = (usedOf m c + (2 ^ 32 - 1)) % 256 ^ 4 := by
  unfold usedOf pushBlock
  dsimp only
  rw [load_store, load_store_of_apart (by unfold offUsedCount offLocalFree; omega),
    load_store_of_apart (by unfold offUsedCount; omega)]

theorem freeOf_pushBlock {m : Mem} {c p : ℕ} (hp : p < sizeT) :
    freeOf (pushBlock m c p) c = p := by
  unfold freeOf pushBlock
  dsimp only
  rw [load_store_of_apart (by unfold offUsedCount offLocalFree; omega)]
  exact load_store_of_lt hp

theorem load_pushBlock {m : Mem} {c p : ℕ} (hp : c + 32 ≤ p) :
    load (pushBlock m c p) 8 p = freeOf m c := by
  unfold pushBlock
  dsimp only
  rw [load_store_of_apart (by unfold offUsedCount; omega),
    load_store_of_apart (by unfold offLocalFree; omega), load_store_of_lt (load_lt _ _ _)]
  rfl

/-- A block that is not free is missing from the free list. -/
theorem ChunkHolds.length_lt (h : ChunkHolds pool m c n fs) (hi : i < n) (hnot : i ∉ fs) :
    fs.length < n := by
  have hsub : (i :: fs).length ≤ (List.range n).length := by
    refine (List.Nodup.subperm (List.nodup_cons.mpr ⟨hnot, h.nodup⟩) ?_).length_le
    intro j hj
    rcases List.mem_cons.mp hj with rfl | hj
    · exact List.mem_range.mpr hi
    · exact List.mem_range.mpr (h.bound j hj)
  rwa [List.length_range, List.length_cons] at hsub

/-- A block that is not free goes to the front of the free list. -/
theorem ChunkHolds.push (h : ChunkHolds pool m c n fs) (hs : Sized pool)
    (hn : n ≤ pool.chunkCapacity) (hspace : c + chunkSize pool ≤ sizeT) (hi : i < n)
    (hnot : i ∉ fs) :
    ChunkHolds pool (pushBlock m c (userArea pool c i)) c n (i :: fs) ∧
      ∀ x, (x < c + 16 ∨ c + 28 ≤ x) → (x < userArea pool c i ∨ userArea pool c i + 8 ≤ x) →
        pushBlock m c (userArea pool c i) x = m x := by
  have hcap := hs.capacity
  have hinside := hs.inside (c := c) (hi.trans_le hn)
  have huser : userArea pool c i = blockStart pool c i + 8 := rfl
  have hused := h.used
  have hroom := h.length_lt hi hnot
  have hplace : ∀ j < n, c + 32 ≤ blockStart pool c j ∧ (i ≠ j →
      blockStart pool c i + 16 ≤ blockStart pool c j ∨
        blockStart pool c j + 16 ≤ blockStart pool c i) := fun j hj =>
    ⟨(hs.inside (hj.trans_le hn)).1,
      fun hne => hs.apart_of_ne hne (hi.trans_le hn) (hj.trans_le hn)⟩
  generalize hp : userArea pool c i = p at huser ⊢
  have hload : ∀ k a, (a + k ≤ c + 16 ∨ c + 28 ≤ a) → (a + k ≤ p ∨ p + 8 ≤ a) →
      load (pushBlock m c p) k a = load m k a := fun k a ha ha' =>
    load_congr fun x hx hx' => pushBlock_outside (by omega) (by omega)
  refine ⟨⟨?_, ?_, ?_, ?_, ?_, ?_⟩, fun x => pushBlock_outside⟩
  · rw [hload 4 (c + offCapacity) (Or.inr (le_refl (c + 28))) (Or.inl (by unfold offCapacity; omega))]
    exact h.capacity
  · rw [usedOf_pushBlock (by omega), List.length_cons]
    omega
  · intro j hj
    obtain ⟨hheader, hapart⟩ := hplace j hj
    rw [hload 8 _ (Or.inr (by omega)) ?_]
    · exact h.owner j hj
    · by_cases hij : i = j
      · subst hij
        omega
      · have hblocks := hapart hij
        omega
  · refine ⟨(freeOf_pushBlock (by omega)).trans hp.symm, by omega, ?_⟩
    rw [hp, load_pushBlock (by omega)]
    refine h.free.congr fun q hq => ?_
    obtain ⟨j, hj, rfl⟩ := List.mem_map.mp hq
    obtain ⟨hheader, hapart⟩ := hplace j (h.bound j hj)
    have hblocks := hapart fun hij => hnot (hij ▸ hj)
    have huser' : userArea pool c j = blockStart pool c j + 8 := rfl
    exact hload 8 _ (Or.inr (by omega)) (by omega)
  · exact List.nodup_cons.mpr ⟨hnot, h.nodup⟩
  · intro j hj
    rcases List.mem_cons.mp hj with rfl | hj
    · exact hi
    · exact h.bound j hj

/-- One round of `create_chunk` adds a block, which is free. -/
theorem ChunkHolds.thread (h : ChunkHolds pool m c n fs) (hs : Sized pool)
    (hn : n < pool.chunkCapacity) (hspace : c + chunkSize pool ≤ sizeT) :
    ChunkHolds pool (threadBlock pool c m n) c (n + 1) (n :: fs) ∧
      ∀ x, (x < c + 16 ∨ c + chunkSize pool ≤ x) → threadBlock pool c m n x = m x := by
  have hinside := hs.inside (c := c) hn
  have huser : userArea pool c n = blockStart pool c n + 8 := rfl
  generalize hp : userArea pool c n = p at huser
  generalize hb : blockStart pool c n = b at huser hinside
  have hout : ∀ x, (x < c + 16 ∨ c + 24 ≤ x) → (x < b ∨ b + 16 ≤ x) →
      threadBlock pool c m n x = m x := by
    intro x hx hx'
    unfold threadBlock offLocalFree
    rw [hp, hb, store_of_outside (by omega), store_of_outside (by omega),
      store_of_outside (by omega)]
  have hload : ∀ k a, (a + k ≤ c + 16 ∨ c + 24 ≤ a) → (a + k ≤ b ∨ b + 16 ≤ a) →
      load (threadBlock pool c m n) k a = load m k a :=
    fun k a ha ha' => load_congr fun x hx hx' => hout x (by omega) (by omega)
  -- the blocks before this one end where it begins
  have hbefore : ∀ j < n, c + 32 ≤ blockStart pool c j ∧ blockStart pool c j + 16 ≤ b := by
    intro j hj
    have hapart := (hs.apart (c := c) hj hn).1
    rw [hb] at hapart
    exact ⟨(hs.inside (hj.trans hn)).1, hapart⟩
  refine ⟨⟨?_, ?_, ?_, ?_, ?_, ?_⟩, fun x hx => hout x (by omega) (by omega)⟩
  · rw [hload 4 _ (Or.inr (by unfold offCapacity; omega)) (Or.inl (by unfold offCapacity; omega))]
    exact h.capacity
  · have hcount : usedOf (threadBlock pool c m n) c = usedOf m c :=
      hload 4 _ (Or.inr le_rfl) (Or.inl (by unfold offUsedCount; omega))
    have hused := h.used
    rw [hcount, List.length_cons]
    omega
  · intro j hj
    rcases Nat.lt_succ_iff_lt_or_eq.mp hj with hj | rfl
    · have hplace := hbefore j hj
      rw [hload 8 _ (Or.inr (by omega)) (Or.inl (by omega))]
      exact h.owner j hj
    · unfold threadBlock offLocalFree
      dsimp only
      rw [hp, hb, load_store_of_apart (by omega), load_store_of_apart (by omega),
        load_store_of_lt (show c < sizeT by omega)]
  · have hfree : freeOf (threadBlock pool c m n) c = p := by
      unfold freeOf threadBlock
      dsimp only
      rw [hp]
      refine load_store_of_lt ?_
      show p < sizeT
      omega
    have hlink : load (threadBlock pool c m n) 8 p = freeOf m c := by
      unfold threadBlock offLocalFree
      dsimp only
      rw [hp, hb, load_store_of_apart (by omega), load_store_of_lt (load_lt _ _ _),
        load_store_of_apart (by omega)]
      rfl
    refine ⟨hfree.trans hp.symm, by omega, ?_⟩
    rw [hp, hlink]
    refine h.free.congr fun q hq => ?_
    obtain ⟨j, hj, rfl⟩ := List.mem_map.mp hq
    have hplace := hbefore j (h.bound j hj)
    have huser' : userArea pool c j = blockStart pool c j + 8 := rfl
    exact hload 8 _ (Or.inr (by omega)) (Or.inl (by omega))
  · exact List.nodup_cons.mpr ⟨fun hmem => absurd (h.bound n hmem) (Nat.lt_irrefl n), h.nodup⟩
  · intro j hj
    rcases List.mem_cons.mp hj with rfl | hj
    · exact Nat.lt_succ_self j
    · exact (h.bound j hj).trans (Nat.lt_succ_self n)

/-- A new chunk: every block is free, and it is on no list. -/
theorem createChunk_some {h : Heap} (hs : Sized pool)
    (haddress : CallocAddress h (chunkSize pool) (some c)) :
    ∃ m, createChunk pool h (some c) = (c, ⟨m, (c, chunkSize pool) :: h.regions⟩) ∧
      ChunkHolds pool m c pool.chunkCapacity (List.range pool.chunkCapacity).reverse ∧
      nextOf m c = 0 ∧ prevOf m c = 0 ∧
      ∀ x, x < c ∨ c + chunkSize pool ≤ x → m x = h.mem x := by
  obtain ⟨hpos, hspace, -⟩ := haddress c rfl
  have hcap := hs.capacity
  have hsize := hs.chunkSize_eq
  unfold sizeofChunk at hsize
  -- the memory before the loop
  generalize hzeroed : (fun x => if c ≤ x ∧ x < c + chunkSize pool then 0 else h.mem x) = zeroed
  have hzero : ∀ x, c ≤ x → x < c + chunkSize pool → zeroed x = 0 := by
    intro x hx hx'
    rw [← hzeroed]
    exact if_pos ⟨hx, hx'⟩
  generalize hm₀ : store (store zeroed 4 (c + offCapacity) pool.chunkCapacity) 4
    (c + offUsedCount) 0 = m₀
  have hout : ∀ x, x < c + 24 ∨ c + 32 ≤ x → m₀ x = zeroed x := by
    intro x hx
    rw [← hm₀, store_of_outside (by unfold offUsedCount; omega),
      store_of_outside (by unfold offCapacity; omega)]
  have hload : ∀ k a, c ≤ a → a + k ≤ c + 24 → load m₀ k a = 0 := by
    intro k a ha hk
    refine load_zero fun x hx hx' => ?_
    rw [hout x (by omega)]
    exact hzero x (by omega) (by omega)
  have hstart : ChunkHolds pool m₀ c 0 [] := by
    refine ⟨?_, ?_, fun i hi => absurd hi (Nat.not_lt_zero i), ?_, List.nodup_nil,
      fun i hi => nomatch hi⟩
    · rw [← hm₀, load_store_of_apart (by unfold offCapacity offUsedCount; omega)]
      refine load_store_of_lt ?_
      show pool.chunkCapacity < 256 ^ 4
      omega
    · unfold usedOf
      rw [← hm₀, load_store]
      rfl
    · exact hload 8 (c + 16) (by omega) (by omega)
  have hloop : ∀ n ≤ pool.chunkCapacity,
      ChunkHolds pool ((List.range n).foldl (threadBlock pool c) m₀) c n (List.range n).reverse ∧
        ∀ x, (x < c + 16 ∨ c + chunkSize pool ≤ x) →
          (List.range n).foldl (threadBlock pool c) m₀ x = m₀ x := by
    intro n
    induction n with
    | zero => exact fun _ => ⟨hstart, fun x _ => rfl⟩
    | succ n ih =>
        intro hn
        obtain ⟨hholds, hsame⟩ := ih (Nat.le_of_succ_le hn)
        obtain ⟨hholds', hsame'⟩ := hholds.thread hs hn hspace
        rw [List.range_succ, List.foldl_append, List.reverse_append]
        exact ⟨hholds', fun x hx => (hsame' x hx).trans (hsame x hx)⟩
  obtain ⟨hholds, hsame⟩ := hloop pool.chunkCapacity le_rfl
  have hfield : ∀ a, c ≤ a → a + 8 ≤ c + 16 →
      load ((List.range pool.chunkCapacity).foldl (threadBlock pool c) m₀) 8 a = 0 := by
    intro a ha hk
    rw [load_congr fun x hx hx' => hsame x (by omega)]
    exact hload 8 a ha (by omega)
  refine ⟨_, ?_, hholds, hfield c le_rfl (by omega), hfield (c + 8) (by omega) (by omega), ?_⟩
  · unfold createChunk calloc
    dsimp only
    rw [if_neg hpos.ne', hzeroed, hm₀]
  · intro x hx
    rw [hsame x (by omega), hout x (by omega), ← hzeroed]
    refine if_neg ?_
    omega

theorem createChunk_none (h : Heap) : createChunk pool h none = (0, h) := rfl

/-- Stores outside of the chunk do not matter to it. -/
theorem ChunkHolds.frame (h : ChunkHolds pool m c n fs) (hs : Sized pool)
    (hn : n ≤ pool.chunkCapacity)
    (hsame : ∀ x, c + 16 ≤ x → x < c + chunkSize pool → m' x = m x) :
    ChunkHolds pool m' c n fs := by
  have hsize := hs.chunkSize_eq
  unfold sizeofChunk at hsize
  refine h.congr (fun x hx hx' => hsame x hx (by omega)) (fun i hi x hx hx' => ?_)
    fun i hi x hx hx' => ?_
  · have hinside := hs.inside (c := c) (hi.trans_le hn)
    exact hsame x (by omega) (by omega)
  · have hinside := hs.inside (c := c) ((h.bound i hi).trans_le hn)
    have huser : userArea pool c i = blockStart pool c i + 8 := rfl
    exact hsame x (by omega) (by omega)

theorem nextOf_congr (h : ∀ x, c ≤ x → x < c + 8 → m' x = m x) : nextOf m' c = nextOf m c :=
  load_congr h

theorem prevOf_congr (h : ∀ x, c + 8 ≤ x → x < c + 16 → m' x = m x) : prevOf m' c = prevOf m c :=
  load_congr h

/-- The list of chunks depends on their links. -/
theorem linked_congr {l : List ℕ} (h : Seg (nextOf m) (prevOf m) 0 0 l 0)
    (hsame : ∀ x ∈ l, ∀ y, x ≤ y → y < x + 16 → m' y = m y) :
    Seg (nextOf m') (prevOf m') 0 0 l 0 := by
  refine h.congr (fun x hx hxn => ?_) fun x hx hxn => ?_
  · have hx' : x ∈ l := (List.mem_cons.mp hx).resolve_left hxn
    exact nextOf_congr fun y hy hy' => hsame x hx' y hy (by omega)
  · have hx' : x ∈ l := by
      rcases List.mem_append.mp hx with hx | hx
      · exact hx
      · exact absurd (List.mem_singleton.mp hx) hxn
    exact prevOf_congr fun y hy hy' => hsame x hx' y (by omega) (by omega)

/-- The head of the list plays no part in a chunk. -/
theorem Sized.rehead (h : Sized pool) (head : ℕ) : Sized { pool with chunksHead := head } :=
  ⟨h.stride, h.capacity, h.fits, h.room⟩

theorem ChunkHolds.rehead (h : ChunkHolds pool m c n fs) (head : ℕ) :
    ChunkHolds { pool with chunksHead := head } m c n fs :=
  ⟨h.capacity, h.used, h.owner, h.free, h.nodup, h.bound⟩

end chunk

/-! ### The pool -/

/-- The chunks of the pool with their free blocks, and the blocks that are live. -/
structure PoolHolds (s : SlabState) (chunks : List ℕ) (free : ℕ → List ℕ) (live : List ℕ) :
    Prop where
  sized : Sized s.pool
  nonempty : chunks ≠ []
  head : s.pool.chunksHead = chunks.headD 0
  nodup : chunks.Nodup
  linked : Seg (nextOf s.heap.mem) (prevOf s.heap.mem) 0 0 chunks 0
  holds : ∀ c ∈ chunks, ChunkHolds s.pool s.heap.mem c s.pool.chunkCapacity (free c)
  regions : s.heap.regions.Perm (chunks.map fun c => (c, chunkSize s.pool))
  space : ∀ c ∈ chunks, 0 < c ∧ c + chunkSize s.pool ≤ sizeT
  apart : ∀ c ∈ chunks, ∀ d ∈ chunks, c ≠ d →
    c + chunkSize s.pool ≤ d ∨ d + chunkSize s.pool ≤ c
  distinct : live.Nodup
  live : ∀ p, p ∈ live ↔
    ∃ c ∈ chunks, ∃ i < s.pool.chunkCapacity, i ∉ free c ∧ p = userArea s.pool c i

theorem poolHolds_rehead {pool : SlabPool} {heap : Heap} {chunks live : List ℕ}
    {free : ℕ → List ℕ} {head : ℕ} (sized : Sized pool) (nonempty : chunks ≠ [])
    (hhead : head = chunks.headD 0) (nodup : chunks.Nodup)
    (linked : Seg (nextOf heap.mem) (prevOf heap.mem) 0 0 chunks 0)
    (holds : ∀ c ∈ chunks, ChunkHolds pool heap.mem c pool.chunkCapacity (free c))
    (regions : heap.regions.Perm (chunks.map fun c => (c, chunkSize pool)))
    (space : ∀ c ∈ chunks, 0 < c ∧ c + chunkSize pool ≤ sizeT)
    (apart : ∀ c ∈ chunks, ∀ d ∈ chunks, c ≠ d → c + chunkSize pool ≤ d ∨ d + chunkSize pool ≤ c)
    (distinct : live.Nodup)
    (hlive : ∀ p, p ∈ live ↔
      ∃ c ∈ chunks, ∃ i < pool.chunkCapacity, i ∉ free c ∧ p = userArea pool c i) :
    PoolHolds ⟨{ pool with chunksHead := head }, heap⟩ chunks free live :=
  ⟨sized.rehead head, nonempty, hhead, nodup, linked, fun c hc => (holds c hc).rehead head, regions,
    space, apart, distinct, hlive⟩

section pool
variable {s : SlabState} {chunks : List ℕ} {free : ℕ → List ℕ} {live : List ℕ} {c d i j : ℕ}
  {fs : List ℕ}

theorem PoolHolds.null_notMem (h : PoolHolds s chunks free live) : 0 ∉ chunks :=
  fun hmem => absurd (h.space 0 hmem).1 (Nat.lt_irrefl 0)

theorem PoolHolds.size (h : PoolHolds s chunks free live) : 64 ≤ chunkSize s.pool := by
  rw [h.sized.chunkSize_eq]
  exact Nat.le_add_right 64 _

/-- A pointer is one block of one chunk. -/
theorem PoolHolds.userArea_inj (h : PoolHolds s chunks free live) (hc : c ∈ chunks)
    (hd : d ∈ chunks) (hi : i < s.pool.chunkCapacity) (hj : j < s.pool.chunkCapacity)
    (heq : userArea s.pool c i = userArea s.pool d j) : c = d ∧ i = j := by
  have hcd : c = d := by
    by_contra hne
    have hapart := h.apart c hc d hd hne
    have hinside := h.sized.inside (c := c) hi
    have hinside' := h.sized.inside (c := d) hj
    have heq' : blockStart s.pool c i = blockStart s.pool d j := Nat.add_right_cancel heq
    omega
  subst hcd
  exact ⟨rfl, h.sized.userArea_inj hi hj heq⟩

/-- The first free block of a chunk becomes live. -/
theorem PoolHolds.pop (h : PoolHolds s chunks free live) (hc : c ∈ chunks)
    (hfree : free c = i :: fs) :
    ∃ m, popBlock s.heap.mem c = (userArea s.pool c i, m) ∧
      PoolHolds ⟨s.pool, { s.heap with mem := m }⟩ chunks (Function.update free c fs)
        (userArea s.pool c i :: live) := by
  have hholds := h.holds c hc
  rw [hfree] at hholds
  have hi := hholds.bound i List.mem_cons_self
  have hsize := h.size
  obtain ⟨m, hpop, hholds', hsame⟩ := hholds.pop h.sized le_rfl
  refine ⟨m, hpop, h.sized, h.nonempty, h.head, h.nodup, ?_, ?_, h.regions, h.space, h.apart, ?_, ?_⟩
  · refine linked_congr h.linked fun x hx y hy hy' => hsame y ?_
    by_cases hxc : x = c
    · omega
    · have hapart := h.apart x hx c hc hxc
      omega
  · intro d hd
    by_cases hdc : d = c
    · subst hdc
      rw [Function.update_self]
      exact hholds'
    · rw [Function.update_of_ne hdc]
      have hapart := h.apart d hd c hc hdc
      exact (h.holds d hd).frame h.sized le_rfl fun x hx hx' => hsame x (by omega)
  · refine List.nodup_cons.mpr ⟨fun hmem => ?_, h.distinct⟩
    obtain ⟨d, hd, j, hj, hnot, heq⟩ := (h.live _).mp hmem
    obtain ⟨rfl, rfl⟩ := h.userArea_inj hc hd hi hj heq
    rw [hfree] at hnot
    exact hnot List.mem_cons_self
  · intro p
    rw [List.mem_cons, h.live p]
    constructor
    · rintro (rfl | ⟨d, hd, j, hj, hnot, rfl⟩)
      · refine ⟨c, hc, i, hi, ?_, rfl⟩
        rw [Function.update_self]
        exact (List.nodup_cons.mp hholds.nodup).1
      · refine ⟨d, hd, j, hj, ?_, rfl⟩
        by_cases hdc : d = c
        · subst hdc
          rw [Function.update_self]
          rw [hfree] at hnot
          exact fun hmem => hnot (List.mem_cons_of_mem i hmem)
        · rw [Function.update_of_ne hdc]
          exact hnot
    · rintro ⟨d, hd, j, hj, hnot, rfl⟩
      by_cases hdc : d = c
      · subst hdc
        rw [Function.update_self] at hnot
        by_cases hji : j = i
        · exact Or.inl (hji ▸ rfl)
        · refine Or.inr ⟨d, hd, j, hj, ?_, rfl⟩
          rw [hfree]
          exact fun hmem => hnot ((List.mem_cons.mp hmem).resolve_left hji)
      · rw [Function.update_of_ne hdc] at hnot
        exact Or.inr ⟨d, hd, j, hj, hnot, rfl⟩

/-- A live block goes back to its chunk. -/
theorem PoolHolds.push (h : PoolHolds s chunks free live) (hc : c ∈ chunks)
    (hi : i < s.pool.chunkCapacity) (hnot : i ∉ free c) :
    PoolHolds ⟨s.pool, { s.heap with mem := pushBlock s.heap.mem c (userArea s.pool c i) }⟩ chunks
      (Function.update free c (i :: free c)) (live.erase (userArea s.pool c i)) := by
  have hsize := h.size
  have hinside := h.sized.inside (c := c) hi
  have huser : userArea s.pool c i = blockStart s.pool c i + 8 := rfl
  obtain ⟨hholds, hsame⟩ := (h.holds c hc).push h.sized le_rfl (h.space c hc).2 hi hnot
  refine ⟨h.sized, h.nonempty, h.head, h.nodup, ?_, ?_, h.regions, h.space, h.apart,
    h.distinct.erase _, ?_⟩
  · refine linked_congr h.linked fun x hx y hy hy' => ?_
    by_cases hxc : x = c
    · exact hsame y (by omega) (by omega)
    · have hapart := h.apart x hx c hc hxc
      exact hsame y (by omega) (by omega)
  · intro d hd
    by_cases hdc : d = c
    · subst hdc
      rw [Function.update_self]
      exact hholds
    · rw [Function.update_of_ne hdc]
      have hapart := h.apart d hd c hc hdc
      exact (h.holds d hd).frame h.sized le_rfl fun x hx hx' => hsame x (by omega) (by omega)
  · intro p
    rw [h.distinct.mem_erase_iff, h.live p]
    constructor
    · rintro ⟨hne, d, hd, j, hj, hnot', rfl⟩
      refine ⟨d, hd, j, hj, ?_, rfl⟩
      by_cases hdc : d = c
      · subst hdc
        rw [Function.update_self]
        intro hmem
        rcases List.mem_cons.mp hmem with rfl | hmem
        · exact hne rfl
        · exact hnot' hmem
      · rw [Function.update_of_ne hdc]
        exact hnot'
    · rintro ⟨d, hd, j, hj, hnot', rfl⟩
      by_cases hdc : d = c
      · subst hdc
        rw [Function.update_self] at hnot'
        refine ⟨fun heq => ?_, d, hd, j, hj, fun hmem => hnot' (List.mem_cons_of_mem i hmem), rfl⟩
        obtain rfl := h.sized.userArea_inj hj hi heq
        exact hnot' List.mem_cons_self
      · rw [Function.update_of_ne hdc] at hnot'
        refine ⟨fun heq => ?_, d, hd, j, hj, hnot', rfl⟩
        exact hdc (h.userArea_inj hd hc hj hi heq).1

/-! ### A chunk before the first one -/

theorem PoolHolds.head_mem (h : PoolHolds s chunks free live) : s.pool.chunksHead ∈ chunks := by
  rw [h.head]
  cases chunks with
  | nil => exact absurd rfl h.nonempty
  | cons d rest => exact List.mem_cons_self

/-- Two stores link the new chunk and the one that was the first. -/
theorem linkChunk_spec {m : Mem} {head : ℕ} (hc : c < sizeT) (hpos : 0 < head)
    (hhead : head < sizeT) (hapart : c + 16 ≤ head ∨ head + 16 ≤ c) :
    nextOf (linkChunk m head c) c = head ∧ prevOf (linkChunk m head c) head = c ∧
      ∀ x, (x < c ∨ c + 8 ≤ x) → (x < head + 8 ∨ head + 16 ≤ x) →
        linkChunk m head c x = m x := by
  have heq : linkChunk m head c = store (store m 8 (c + 0) head) 8 (head + 8) c :=
    if_pos hpos.ne'
  rw [heq]
  refine ⟨?_, load_store_of_lt hc, fun x hx hx' => ?_⟩
  · unfold nextOf offNext
    rw [load_store_of_apart (by omega)]
    exact load_store_of_lt hhead
  · rw [store_of_outside (by omega), store_of_outside (by omega)]

/-- `calloc` keeps away from the chunks of the pool. -/
theorem PoolHolds.away (h : PoolHolds s chunks free live)
    (haddress : CallocAddress s.heap (chunkSize s.pool) (some c)) (hd : d ∈ chunks) :
    d ≠ c ∧ (c + chunkSize s.pool ≤ d ∨ d + chunkSize s.pool ≤ c) := by
  obtain ⟨-, -, hfresh⟩ := haddress c rfl
  have hsize := h.size
  have hregion : (d, chunkSize s.pool) ∈ s.heap.regions :=
    h.regions.mem_iff.mpr (List.mem_map.mpr ⟨d, hd, rfl⟩)
  have haway : c + chunkSize s.pool ≤ d ∨ d + chunkSize s.pool ≤ c := hfresh _ hregion
  refine ⟨?_, haway⟩
  rintro rfl
  omega

section grow
variable {m : Mem} {x : ℕ}

theorem PoolHolds.link_spec (h : PoolHolds s chunks free live)
    (haddress : CallocAddress s.heap (chunkSize s.pool) (some c)) :
    nextOf (linkChunk m s.pool.chunksHead c) c = s.pool.chunksHead ∧
      prevOf (linkChunk m s.pool.chunksHead c) s.pool.chunksHead = c ∧
      ∀ x, (x < c ∨ c + 8 ≤ x) → (x < s.pool.chunksHead + 8 ∨ s.pool.chunksHead + 16 ≤ x) →
        linkChunk m s.pool.chunksHead c x = m x := by
  obtain ⟨hpos, hspace⟩ := h.space _ h.head_mem
  obtain ⟨-, hspace', -⟩ := haddress c rfl
  have hsize := h.size
  have haway := (h.away haddress h.head_mem).2
  apply linkChunk_spec _ hpos <;> omega

/-- Of the old chunks only the back-link of the first one is stored to. -/
theorem PoolHolds.link_frame (h : PoolHolds s chunks free live)
    (haddress : CallocAddress s.heap (chunkSize s.pool) (some c)) (hd : d ∈ chunks) (hx : d ≤ x)
    (hx' : x < d + chunkSize s.pool)
    (hback : d = s.pool.chunksHead → x < d + 8 ∨ d + 16 ≤ x) :
    linkChunk m s.pool.chunksHead c x = m x := by
  have hsize := h.size
  have haway := (h.away haddress hd).2
  apply (h.link_spec haddress).2.2 x (by omega)
  by_cases heq : d = s.pool.chunksHead
  · exact heq ▸ hback heq
  · have hapart := h.apart d hd _ h.head_mem heq
    omega

/-- The list with the new chunk before it. -/
theorem PoolHolds.linked_grow (h : PoolHolds s chunks free live)
    (haddress : CallocAddress s.heap (chunkSize s.pool) (some c)) (hprev : prevOf m c = 0)
    (hsame : ∀ x, x < c ∨ c + chunkSize s.pool ≤ x → m x = s.heap.mem x) :
    Seg (nextOf (linkChunk m s.pool.chunksHead c)) (prevOf (linkChunk m s.pool.chunksHead c)) 0 0
      (c :: chunks) 0 := by
  have hsize := h.size
  obtain ⟨hnext, hback, hout⟩ := h.link_spec haddress
  have hold : Seg (nextOf m) (prevOf m) 0 0 chunks 0 := by
    refine linked_congr h.linked fun x hx y hy hy' => hsame y ?_
    have haway := (h.away haddress hx).2
    omega
  refine hold.prepend h.null_notMem h.nodup (hnext.trans h.head) ?_ (fun _ => ?_) (fun x hx => ?_)
    fun x hx hxh => ?_
  · have haway := (h.away haddress h.head_mem).2
    refine (prevOf_congr fun y hy hy' => ?_).trans hprev
    exact hout y (by omega) (by omega)
  · rw [← h.head]
    exact hback
  · apply nextOf_congr
    intro y hy hy'
    exact h.link_frame haddress hx hy (by omega) fun _ => by omega
  · apply prevOf_congr
    intro y hy hy'
    refine h.link_frame haddress hx (by omega) (by omega) fun heq => ?_
    exact absurd (heq.trans h.head) hxh

/-- The new chunk has all its blocks free, and the others are as they were. -/
theorem PoolHolds.holds_grow (h : PoolHolds s chunks free live)
    (haddress : CallocAddress s.heap (chunkSize s.pool) (some c))
    (hholds : ChunkHolds s.pool m c s.pool.chunkCapacity (List.range s.pool.chunkCapacity).reverse)
    (hsame : ∀ x, x < c ∨ c + chunkSize s.pool ≤ x → m x = s.heap.mem x) (hd : d ∈ c :: chunks) :
    ChunkHolds s.pool (linkChunk m s.pool.chunksHead c) d s.pool.chunkCapacity
      (Function.update free c (List.range s.pool.chunkCapacity).reverse d) := by
  have hsize := h.size
  rcases List.mem_cons.mp hd with rfl | hd
  · have haway := (h.away haddress h.head_mem).2
    rw [Function.update_self]
    apply hholds.frame h.sized le_rfl
    intro x hx hx'
    exact (h.link_spec haddress).2.2 x (by omega) (by omega)
  · obtain ⟨hne, haway⟩ := h.away haddress hd
    rw [Function.update_of_ne hne]
    apply (h.holds d hd).frame h.sized le_rfl
    intro x hx hx'
    rw [h.link_frame haddress hd (by omega) hx' fun _ => by omega]
    exact hsame x (by omega)

/-- No block of the new chunk is live. -/
theorem PoolHolds.live_grow (h : PoolHolds s chunks free live)
    (haddress : CallocAddress s.heap (chunkSize s.pool) (some c)) (p : ℕ) :
    p ∈ live ↔ ∃ d ∈ c :: chunks, ∃ i < s.pool.chunkCapacity,
      i ∉ Function.update free c (List.range s.pool.chunkCapacity).reverse d ∧
        p = userArea s.pool d i := by
  rw [h.live p]
  constructor
  · rintro ⟨d, hd, j, hj, hnot, rfl⟩
    refine ⟨d, List.mem_cons_of_mem c hd, j, hj, ?_, rfl⟩
    rw [Function.update_of_ne (h.away haddress hd).1]
    exact hnot
  · rintro ⟨d, hd, j, hj, hnot, rfl⟩
    rcases List.mem_cons.mp hd with rfl | hd
    · rw [Function.update_self, List.mem_reverse, List.mem_range] at hnot
      exact absurd hj hnot
    · rw [Function.update_of_ne (h.away haddress hd).1] at hnot
      exact ⟨d, hd, j, hj, hnot, rfl⟩

/-- A new chunk becomes the first one. -/
theorem PoolHolds.grow (h : PoolHolds s chunks free live)
    (haddress : CallocAddress s.heap (chunkSize s.pool) (some c))
    (hholds : ChunkHolds s.pool m c s.pool.chunkCapacity (List.range s.pool.chunkCapacity).reverse)
    (hprev : prevOf m c = 0)
    (hsame : ∀ x, x < c ∨ c + chunkSize s.pool ≤ x → m x = s.heap.mem x) :
    PoolHolds ⟨{ s.pool with chunksHead := c },
        ⟨linkChunk m s.pool.chunksHead c, (c, chunkSize s.pool) :: s.heap.regions⟩⟩ (c :: chunks)
      (Function.update free c (List.range s.pool.chunkCapacity).reverse) live := by
  obtain ⟨hpos, hspace, -⟩ := haddress c rfl
  refine poolHolds_rehead h.sized (List.cons_ne_nil c chunks) rfl ?_
    (h.linked_grow haddress hprev hsame)
    (fun d hd => h.holds_grow haddress hholds hsame hd) (h.regions.cons _) ?_ ?_ h.distinct
    (h.live_grow haddress)
  · exact List.nodup_cons.mpr ⟨fun hmem => (h.away haddress hmem).1 rfl, h.nodup⟩
  · intro d hd
    rcases List.mem_cons.mp hd with rfl | hd
    · exact ⟨hpos, hspace⟩
    · exact h.space d hd
  · intro d hd d' hd' hdd'
    rcases List.mem_cons.mp hd with rfl | hold
    · rcases List.mem_cons.mp hd' with rfl | hold'
      · exact absurd rfl hdd'
      · exact (h.away haddress hold').2
    · rcases List.mem_cons.mp hd' with rfl | hold'
      · exact (h.away haddress hold).2.symm
      · exact h.apart d hold d' hold' hdd'

end grow

/-! ### A chunk leaves the list -/

/-- The chunks `a` and `b` are linked to each other, as far as they exist, and nothing else has
changed. -/
structure Unlinked (m m' : Mem) (a b : ℕ) : Prop where
  next : a ≠ 0 → nextOf m' a = b
  prev : b ≠ 0 → prevOf m' b = a
  same : ∀ y, (a ≠ 0 → y < a ∨ a + 8 ≤ y) → (b ≠ 0 → y < b + 8 ∨ b + 16 ≤ y) → m' y = m y

/-- The neighbours of an unlinked chunk are linked to each other. -/
theorem unlinkChunk_spec {m : Mem} {a b : ℕ} (ha : prevOf m c = a) (hb : nextOf m c = b)
    (hac : a ≠ 0 → a + 16 ≤ c ∨ c + 16 ≤ a)
    (hab : a ≠ 0 → b ≠ 0 → a + 16 ≤ b ∨ b + 16 ≤ a) : Unlinked m (unlinkChunk m c) a b := by
  have halt : a < 256 ^ 8 := ha ▸ load_lt _ _ _
  have hblt : b < 256 ^ 8 := hb ▸ load_lt _ _ _
  unfold prevOf offPrev at ha
  unfold nextOf offNext at hb
  by_cases ha0 : a = 0
  · have heq : unlinkChunk m c = if b ≠ 0 then store m 8 (b + 8) a else m := by
      unfold unlinkChunk offNext offPrev
      dsimp only
      rw [ha, hb, if_neg (not_not.mpr ha0), hb, ha]
    rw [heq]
    refine ⟨fun h => absurd ha0 h, fun hb0 => ?_, fun y _ hy => ?_⟩
    · rw [if_pos hb0]
      exact load_store_of_lt halt
    · by_cases hb0 : b = 0
      · rw [if_neg (not_not.mpr hb0)]
      · rw [if_pos hb0]
        exact store_of_outside (hy hb0)
  · have hapart := hac ha0
    have heq : unlinkChunk m c = if b ≠ 0 then store (store m 8 (a + 0) b) 8 (b + 8) a
        else store m 8 (a + 0) b := by
      unfold unlinkChunk offNext offPrev
      dsimp only
      rw [ha, hb, if_pos ha0, load_store_of_apart (by omega), load_store_of_apart (by omega), hb, ha]
    rw [heq]
    refine ⟨fun _ => ?_, fun hb0 => ?_, fun y hy hy' => ?_⟩
    · by_cases hb0 : b = 0
      · rw [if_neg (not_not.mpr hb0)]
        exact load_store_of_lt hblt
      · have hapart' := hab ha0 hb0
        rw [if_pos hb0]
        unfold nextOf offNext
        rw [load_store_of_apart (by omega)]
        exact load_store_of_lt hblt
    · rw [if_pos hb0]
      exact load_store_of_lt halt
    · by_cases hb0 : b = 0
      · rw [if_neg (not_not.mpr hb0)]
        exact store_of_outside (by have := hy ha0; omega)
      · rw [if_pos hb0, store_of_outside (by have := hy' hb0; omega)]
        exact store_of_outside (by have := hy ha0; omega)

theorem mem_of_length_eq {fs : List ℕ} {n : ℕ} (hnodup : fs.Nodup) (hbound : ∀ i ∈ fs, i < n)
    (hlength : fs.length = n) (hi : i < n) : i ∈ fs := by
  have hsub : fs.Subperm (List.range n) :=
    hnodup.subperm fun j hj => List.mem_range.mpr (hbound j hj)
  have hperm := hsub.perm_of_length_le (by rw [List.length_range, hlength])
  exact hperm.mem_iff.mpr (List.mem_range.mpr hi)

theorem headD_mem {l : List ℕ} (h : l.headD 0 ≠ 0) : l.headD 0 ∈ l := by
  cases l with
  | nil => exact absurd rfl h
  | cons x l => exact List.mem_cons_self

theorem getLastD_mem {l : List ℕ} (h : l.getLastD 0 ≠ 0) : l.getLastD 0 ∈ l := by
  rw [List.getLastD_eq_getLast?] at h ⊢
  cases hlast : l.getLast? with
  | none =>
      rw [hlast] at h
      exact absurd rfl h
  | some x => exact List.mem_of_getLast? hlast

/-- What a chunk has for its neighbours. -/
theorem PoolHolds.neighbours {pre post : List ℕ} (h : PoolHolds s (pre ++ c :: post) free live) :
    prevOf s.heap.mem c = pre.getLastD 0 ∧ nextOf s.heap.mem c = post.headD 0 ∧
      ∀ d ∈ pre ++ post, d ∈ pre ++ c :: post ∧ d ≠ c := by
  have hc : c ∈ pre ++ c :: post := List.mem_append_right pre List.mem_cons_self
  have hpos := (h.space c hc).1
  obtain ⟨hpre, hpost⟩ := seg_append.mp h.linked
  obtain ⟨-, hnodup, hdisjoint⟩ := List.nodup_append.mp h.nodup
  refine ⟨hpre.prev_eq hpos.ne', hpost.next_eq hpos.ne', fun d hd => ?_⟩
  rcases List.mem_append.mp hd with hd | hd
  · exact ⟨List.mem_append_left _ hd, hdisjoint d hd c List.mem_cons_self⟩
  · refine ⟨List.mem_append_right pre (List.mem_cons_of_mem c hd), ?_⟩
    rintro rfl
    exact (List.nodup_cons.mp hnodup).1 hd

section remove
variable {pre post : List ℕ} {m : Mem} {y : ℕ}

theorem mem_of_getLastD (h : pre.getLastD 0 ≠ 0) : pre.getLastD 0 ∈ pre ++ post :=
  List.mem_append_left post (getLastD_mem h)

theorem mem_of_headD (h : post.headD 0 ≠ 0) : post.headD 0 ∈ pre ++ post :=
  List.mem_append_right pre (headD_mem h)

/-- The stores go to the links of the neighbours. -/
theorem PoolHolds.unlinked_frame (h : PoolHolds s (pre ++ c :: post) free live)
    (hm : Unlinked s.heap.mem m (pre.getLastD 0) (post.headD 0)) (hd : d ∈ pre ++ c :: post)
    (hy : d ≤ y) (hy' : y < d + chunkSize s.pool) (hbefore : d = pre.getLastD 0 → d + 8 ≤ y)
    (hbehind : d = post.headD 0 → y < d + 8 ∨ d + 16 ≤ y) : m y = s.heap.mem y := by
  have hsize := h.size
  obtain ⟨-, -, hsub⟩ := h.neighbours
  have hspread : ∀ x ∈ pre ++ post, d ≠ x →
      d + chunkSize s.pool ≤ x ∨ x + chunkSize s.pool ≤ d :=
    fun x hx => h.apart d hd x (hsub x hx).1
  apply hm.same
  · intro hne
    by_cases heq : d = pre.getLastD 0
    · exact Or.inr (heq ▸ hbefore heq)
    · have hapart := hspread _ (mem_of_getLastD hne) heq
      omega
  · intro hne
    by_cases heq : d = post.headD 0
    · exact heq ▸ hbehind heq
    · have hapart := hspread _ (mem_of_headD hne) heq
      omega

/-- The chunk itself still has its link to the next one. -/
theorem PoolHolds.nextOf_removed (h : PoolHolds s (pre ++ c :: post) free live)
    (hm : Unlinked s.heap.mem m (pre.getLastD 0) (post.headD 0)) : nextOf m c = post.headD 0 := by
  have hc : c ∈ pre ++ c :: post := List.mem_append_right pre List.mem_cons_self
  have hpos := (h.space c hc).1
  have hsize := h.size
  obtain ⟨-, hnext, hsub⟩ := h.neighbours
  rw [← hnext]
  apply nextOf_congr
  intro y hy hy'
  refine h.unlinked_frame hm hc hy (by omega) (fun heq => ?_) fun _ => by omega
  have hne : pre.getLastD 0 ≠ 0 := heq ▸ hpos.ne'
  exact absurd heq.symm (hsub _ (mem_of_getLastD hne)).2

/-- The list without the chunk. -/
theorem PoolHolds.linked_remove (h : PoolHolds s (pre ++ c :: post) free live)
    (hm : Unlinked s.heap.mem m (pre.getLastD 0) (post.headD 0)) :
    Seg (nextOf m) (prevOf m) 0 0 (pre ++ post) 0 := by
  have hsize := h.size
  obtain ⟨-, -, hsub⟩ := h.neighbours
  refine h.linked.remove h.null_notMem h.nodup (fun z hz hza => ?_) (fun z hz hzb => ?_) hm.next
    hm.prev
  · apply nextOf_congr
    intro y hy hy'
    refine h.unlinked_frame hm (hsub z hz).1 hy (by omega) (fun heq => ?_) fun _ => by omega
    exact absurd heq hza
  · apply prevOf_congr
    intro y hy hy'
    refine h.unlinked_frame hm (hsub z hz).1 (by omega) (by omega) (fun _ => hy) fun heq => ?_
    exact absurd heq hzb

/-- The region of the chunk is given back, and no other. -/
theorem PoolHolds.regions_remove (h : PoolHolds s (pre ++ c :: post) free live) :
    (s.heap.regions.filter fun r => r.1 ≠ c).Perm
      ((pre ++ post).map fun d => (d, chunkSize s.pool)) := by
  obtain ⟨-, -, hsub⟩ := h.neighbours
  have hkept : ∀ l : List ℕ, (∀ d ∈ l, d ≠ c) →
      (l.map fun d => (d, chunkSize s.pool)).filter (fun r => decide (r.1 ≠ c)) =
        l.map fun d => (d, chunkSize s.pool) := by
    intro l hl
    refine List.filter_eq_self.mpr fun r hr => ?_
    obtain ⟨d, hd, rfl⟩ := List.mem_map.mp hr
    exact decide_eq_true (hl d hd)
  refine (h.regions.filter _).trans (List.Perm.of_eq ?_)
  rw [List.map_append, List.map_cons, List.filter_append, List.filter_cons, if_neg (by simp),
    hkept pre fun d hd => (hsub d (List.mem_append_left post hd)).2,
    hkept post fun d hd => (hsub d (List.mem_append_right pre hd)).2, List.map_append]

/-- A chunk without live blocks plays no part in what is live. -/
theorem PoolHolds.live_remove (h : PoolHolds s (pre ++ c :: post) free live)
    (hempty : ∀ i < s.pool.chunkCapacity, i ∈ free c) (p : ℕ) :
    p ∈ live ↔ ∃ d ∈ pre ++ post, ∃ i < s.pool.chunkCapacity,
      i ∉ free d ∧ p = userArea s.pool d i := by
  obtain ⟨-, -, hsub⟩ := h.neighbours
  rw [h.live p]
  constructor
  · rintro ⟨d, hd, i, hi, hnot, rfl⟩
    refine ⟨d, ?_, i, hi, hnot, rfl⟩
    rcases List.mem_append.mp hd with hd | hd
    · exact List.mem_append_left post hd
    · rcases List.mem_cons.mp hd with rfl | hd
      · exact absurd (hempty i hi) hnot
      · exact List.mem_append_right pre hd
  · rintro ⟨d, hd, hrest⟩
    exact ⟨d, (hsub d hd).1, hrest⟩

/-- A chunk all of whose blocks are free leaves the list, and its neighbours, if any, are linked to
each other. -/
theorem PoolHolds.remove (h : PoolHolds s (pre ++ c :: post) free live)
    (hempty : ∀ i < s.pool.chunkCapacity, i ∈ free c) (hsome : pre ++ post ≠ [])
    (hm : Unlinked s.heap.mem m (pre.getLastD 0) (post.headD 0)) :
    PoolHolds ⟨{ s.pool with chunksHead := (pre ++ post).headD 0 },
      ⟨m, s.heap.regions.filter fun r => r.1 ≠ c⟩⟩ (pre ++ post) free live := by
  have hsize := h.size
  obtain ⟨-, -, hsub⟩ := h.neighbours
  refine poolHolds_rehead h.sized hsome rfl ?_ (h.linked_remove hm) (fun d hd => ?_)
    h.regions_remove (fun d hd => h.space d (hsub d hd).1)
    (fun d hd d' hd' => h.apart d (hsub d hd).1 d' (hsub d' hd').1) h.distinct
    (h.live_remove hempty)
  · exact h.nodup.sublist ((List.sublist_cons_self c post).append_left pre)
  · apply (h.holds d (hsub d hd).1).frame h.sized le_rfl
    intro x hx hx'
    exact h.unlinked_frame hm (hsub d hd).1 (by omega) hx' (fun _ => by omega) fun _ => by omega

end remove

/-- What the end of `slab_pool_free` does. -/
theorem PoolHolds.unlink (h : PoolHolds s chunks free live) (hc : c ∈ chunks)
    (hempty : ∀ i < s.pool.chunkCapacity, i ∈ free c)
    (hother : nextOf s.heap.mem c ≠ 0 ∨ prevOf s.heap.mem c ≠ 0) :
    ∃ chunks', chunks' ⊆ chunks ∧
      PoolHolds ⟨if s.pool.chunksHead = c then
            { s.pool with chunksHead := nextOf (unlinkChunk s.heap.mem c) c } else s.pool,
          ⟨unlinkChunk s.heap.mem c, s.heap.regions.filter fun r => r.1 ≠ c⟩⟩ chunks' free live := by
  have hsize := h.size
  obtain ⟨pre, post, rfl⟩ := List.append_of_mem hc
  obtain ⟨hprev, hnext, hsub⟩ := h.neighbours
  have hsome : pre ++ post ≠ [] := by
    intro hnil
    obtain ⟨rfl, rfl⟩ := List.append_eq_nil_iff.mp hnil
    rcases hother with hne | hne
    · exact hne hnext
    · exact hne hprev
  have hm := unlinkChunk_spec hprev hnext
    (fun hne => by
      have hmem := hsub _ (mem_of_getLastD hne)
      have hapart := h.apart _ hmem.1 c hc hmem.2
      omega)
    (fun hne hne' => by
      have hmem := hsub _ (mem_of_getLastD hne)
      have hmem' := hsub _ (mem_of_headD hne')
      obtain ⟨-, -, hdisjoint⟩ := List.nodup_append.mp h.nodup
      have hapart := h.apart _ hmem.1 _ hmem'.1
        (hdisjoint _ (getLastD_mem hne) _ (List.mem_cons_of_mem c (headD_mem hne')))
      omega)
  generalize unlinkChunk s.heap.mem c = m at hm
  have hpool := h.remove hempty hsome hm
  refine ⟨pre ++ post, fun d hd => (hsub d hd).1, ?_⟩
  have hhead : (if s.pool.chunksHead = c then { s.pool with chunksHead := nextOf m c } else s.pool) =
      { s.pool with chunksHead := (pre ++ post).headD 0 } := by
    have hold := h.head
    cases pre with
    | nil =>
        have hfirst : s.pool.chunksHead = c := hold
        rw [if_pos hfirst, h.nextOf_removed hm]
        rfl
    | cons a pre =>
        have hfirst : s.pool.chunksHead = a := hold
        have hne : s.pool.chunksHead ≠ c := hfirst ▸ (hsub a List.mem_cons_self).2
        rw [if_neg hne]
        exact congrArg (fun head => { s.pool with chunksHead := head }) hfirst
  rw [hhead]
  exact hpool

/-- What may be stored by others: anything, but not into the chunks outside of the live blocks. -/
def Unowned (s : SlabState) (live : List ℕ) (x : ℕ) : Prop :=
  (∀ r ∈ s.heap.regions, x < r.1 ∨ r.1 + r.2 ≤ x) ∨
    ∃ p ∈ live, p ≤ x ∧ x < p + s.pool.blockSize

theorem PoolHolds.write (h : PoolHolds s chunks free live) {m : Mem}
    (hm : ∀ x, ¬ Unowned s live x → m x = s.heap.mem x) :
    PoolHolds ⟨s.pool, { s.heap with mem := m }⟩ chunks free live := by
  have hsize := h.size
  -- a live block is outside of every header, back-pointer and free block
  have hkeep : ∀ d ∈ chunks, ∀ x, d ≤ x → x < d + chunkSize s.pool →
      (∀ i < s.pool.chunkCapacity, i ∉ free d →
        x < userArea s.pool d i ∨ userArea s.pool d i + s.pool.blockSize ≤ x) →
      m x = s.heap.mem x := by
    intro d hd x hx hx' hnot
    refine hm x ?_
    rintro (hout | ⟨p, hp, hpx, hpx'⟩)
    · have hregion := hout (d, chunkSize s.pool) (h.regions.mem_iff.mpr (List.mem_map.mpr ⟨d, hd, rfl⟩))
      omega
    · obtain ⟨d', hd', i, hi, hfree, rfl⟩ := (h.live p).mp hp
      have hinside := h.sized.inside (c := d') hi
      have huser : userArea s.pool d' i = blockStart s.pool d' i + 8 := rfl
      by_cases hdd : d = d'
      · subst hdd
        have hbounds := hnot i hi hfree
        omega
      · have hapart := h.apart d hd d' hd' hdd
        omega
  refine ⟨h.sized, h.nonempty, h.head, h.nodup, ?_, ?_, h.regions, h.space, h.apart, h.distinct,
    h.live⟩
  · refine linked_congr h.linked fun d hd x hx hx' => ?_
    refine hkeep d hd x hx (by omega) fun i hi _ => ?_
    have hinside := h.sized.inside (c := d) hi
    have huser : userArea s.pool d i = blockStart s.pool d i + 8 := rfl
    omega
  · intro d hd
    have hholds := h.holds d hd
    refine hholds.congr (fun x hx hx' => ?_) (fun j hj x hx hx' => ?_) fun j hj x hx hx' => ?_
    · refine hkeep d hd x (by omega) (by omega) fun i hi _ => ?_
      have hinside := h.sized.inside (c := d) hi
      have huser : userArea s.pool d i = blockStart s.pool d i + 8 := rfl
      omega
    · have hinside := h.sized.inside (c := d) hj
      refine hkeep d hd x (by omega) (by omega) fun i hi _ => ?_
      have huser : userArea s.pool d i = blockStart s.pool d i + 8 := rfl
      rcases Nat.lt_trichotomy i j with hij | rfl | hij
      · have hapart := (h.sized.apart (c := d) hij hj).2
        omega
      · omega
      · have hapart := (h.sized.apart (c := d) hij hi).1
        omega
    · have hjn := hholds.bound j hj
      have hinside := h.sized.inside (c := d) hjn
      have huser' : userArea s.pool d j = blockStart s.pool d j + 8 := rfl
      refine hkeep d hd x (by omega) (by omega) fun i hi hnot => ?_
      have huser : userArea s.pool d i = blockStart s.pool d i + 8 := rfl
      have hne : i ≠ j := fun hij => hnot (hij ▸ hj)
      rcases Nat.lt_or_gt_of_ne hne with hij | hij
      · have hapart := (h.sized.apart (c := d) hij hjn).2
        omega
      · have hapart := (h.sized.apart (c := d) hij hi).1
        omega

end pool

end Segnalacity
