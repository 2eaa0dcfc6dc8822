import Segnalacity.SlabPool
import Mathlib.Data.List.Nodup
import Mathlib.Data.Nat.ModEq

/-! # Soundness of the slab pool

The operations keep what `SlabPool` says of the pool, so its memory means the same in every state
that allocations, frees of live blocks and stores into live blocks lead to (`slab_pool_sound`).  The
link of a free block of less than 8 bytes is overwritten by the block behind it, and then it does
not (`slab_small_blocks`).  Last, which of the blocks lie on aligned addresses
(`userArea_aligned_iff`). -/

namespace Segnalacity

open Memory Linked

/-! ### Operations -/

/-- The search ends at the first chunk with a free block, or with NULL behind the last one. -/
theorem findChunk_spec {m : Mem} {p : ℕ} {l : List ℕ} (h : Seg (nextOf m) (prevOf m) 0 p l 0)
    (hnull : 0 ∉ l) {fuel : ℕ} (hfuel : l.length < fuel) :
    findChunk m fuel (l.headD 0) = some 0 ∧ (∀ c ∈ l, freeOf m c = 0) ∨
      ∃ c ∈ l, findChunk m fuel (l.headD 0) = some c ∧ freeOf m c ≠ 0 := by
  induction l generalizing p fuel with
  | nil =>
      obtain ⟨fuel, rfl⟩ := Nat.exists_eq_succ_of_ne_zero hfuel.ne'
      exact Or.inl ⟨rfl, fun c hc => nomatch hc⟩
  | cons c l ih =>
      obtain ⟨fuel, rfl⟩ := Nat.exists_eq_succ_of_ne_zero (Nat.ne_of_gt (Nat.zero_lt_of_lt hfuel))
      have hc : c ≠ 0 := fun hc => hnull (hc ▸ List.mem_cons_self)
      have hround : findChunk m (fuel + 1) c =
          if freeOf m c ≠ 0 then some c else findChunk m fuel (nextOf m c) := if_neg hc
      rw [List.headD_cons, hround]
      by_cases hfree : freeOf m c = 0
      · rw [if_neg (not_not.mpr hfree), h.2.next_eq hc]
        rcases ih h.2 (fun hmem => hnull (List.mem_cons_of_mem c hmem))
          (Nat.lt_of_succ_lt_succ hfuel) with ⟨hfind, hfull⟩ | ⟨d, hd, hfind, hsome⟩
        · refine Or.inl ⟨hfind, fun d hd => ?_⟩
          rcases List.mem_cons.mp hd with rfl | hd
          · exact hfree
          · exact hfull d hd
        · exact Or.inr ⟨d, List.mem_cons_of_mem c hd, hfind, hsome⟩
      · rw [if_pos hfree]
        exact Or.inr ⟨c, List.mem_cons_self, rfl, hfree⟩

section operations
variable {s : SlabState} {chunks : List ℕ} {free : ℕ → List ℕ} {live : List ℕ} {c i p : ℕ}

/-- A fresh pool is one chunk without live blocks. -/
theorem slabPoolInit_holds {h : Heap} {blockSize chunkCapacity : ℕ} {address : Option ℕ}
    (hs : Sized ⟨blockSize, (8 + blockSize) % sizeT, chunkCapacity, 0⟩) (hregions : h.regions = [])
    (haddress : CallocAddress h (chunkSize ⟨blockSize, (8 + blockSize) % sizeT, chunkCapacity, 0⟩)
      address)
    (hinit : slabPoolInit h blockSize chunkCapacity address = (0, s)) :
    ∃ c free, PoolHolds s [c] free [] := by
  generalize hpool : (⟨blockSize, (8 + blockSize) % sizeT, chunkCapacity, 0⟩ : SlabPool) = pool
    at hs haddress
  have hs' := congrArg Prod.snd hinit
  have hresult := congrArg Prod.fst hinit
  unfold slabPoolInit at hs' hresult
  dsimp only at hs' hresult
  rw [hpool] at hs' hresult
  cases address with
  | none =>
      rw [createChunk_none, if_neg (not_not.mpr rfl)] at hresult
      exact absurd hresult (by decide)
  | some c =>
      obtain ⟨hpos, hspace, -⟩ := haddress c rfl
      obtain ⟨m, hcreate, hholds, hnext, hprev, -⟩ := createChunk_some hs haddress
      rw [hcreate, hregions] at hs'
      rw [← hs']
      subst hpool
      refine ⟨c, fun _ => (List.range chunkCapacity).reverse, ?_⟩
      refine poolHolds_rehead hs (List.cons_ne_nil c []) rfl (List.pairwise_singleton _ c) ?_ ?_
        ?_ ?_ ?_ List.nodup_nil ?_
      · exact ⟨⟨fun h => absurd rfl h, fun _ => hprev⟩, ⟨fun _ => hnext, fun h => absurd rfl h⟩⟩
      · intro d hd
        rw [List.mem_singleton.mp hd]
        exact hholds
      · exact List.Perm.refl _
      · intro d hd
        rw [List.mem_singleton.mp hd]
        exact ⟨hpos, hspace⟩
      · intro d hd d' hd' hne
        exact absurd ((List.mem_singleton.mp hd).trans (List.mem_singleton.mp hd').symm) hne
      · intro p
        refine ⟨fun hp => absurd hp List.not_mem_nil, ?_⟩
        rintro ⟨d, -, j, hj, hnot, -⟩
        exact absurd (List.mem_reverse.mpr (List.mem_range.mpr hj)) hnot

theorem PoolHolds.free_eq_nil_iff (h : PoolHolds s chunks free live) (hc : c ∈ chunks) :
    freeOf s.heap.mem c = 0 ↔ free c = [] := by
  rw [(h.holds c hc).free.eq_null_iff, List.map_eq_nil_iff]

/-- `slab_pool_alloc` hands out a block of a chunk on the list, with a new chunk if need be; or every
chunk is full, `calloc` has failed, and nothing has changed. -/
theorem PoolHolds.alloc (h : PoolHolds s chunks free live) {address : Option ℕ}
    (haddress : CallocAddress s.heap (chunkSize s.pool) address) :
    (∃ s' chunks' free', ∃ c ∈ chunks', ∃ i < s.pool.chunkCapacity,
        slabPoolAlloc s address = some (userArea s.pool c i, s') ∧
        s'.pool = { s.pool with chunksHead := s'.pool.chunksHead } ∧ chunks ⊆ chunks' ∧
        PoolHolds s' chunks' free' (userArea s.pool c i :: live)) ∨
      slabPoolAlloc s address = some (0, s) ∧ address = none ∧ ∀ c ∈ chunks, free c = [] := by
  have hfuel : chunks.length < s.heap.regions.length + 1 := by
    rw [h.regions.length_eq, List.length_map]
    exact Nat.lt_succ_self _
  have hfind := findChunk_spec h.linked h.null_notMem hfuel
  rw [← h.head] at hfind
  rcases hfind with ⟨hfind, hfull⟩ | ⟨c, hc, hfind, hsome⟩
  · have hempty : ∀ c ∈ chunks, free c = [] :=
      fun c hc => (h.free_eq_nil_iff hc).mp (hfull c hc)
    cases address with
    | none =>
        refine Or.inr ⟨?_, rfl, hempty⟩
        unfold slabPoolAlloc
        rw [hfind]
        rfl
    | some c =>
        obtain ⟨m, hcreate, hholds, -, hprev, hsame⟩ := createChunk_some h.sized haddress
        have hgrow := h.grow haddress hholds hprev hsame
        have hblock : (List.range s.pool.chunkCapacity).reverse =
            (s.pool.chunkCapacity - 1) :: (List.range (s.pool.chunkCapacity - 1)).reverse := by
          have hcap := h.sized.capacity.1
          obtain ⟨n, hn⟩ := Nat.exists_eq_succ_of_ne_zero hcap.ne'
          rw [hn, Nat.succ_sub_one, List.range_succ, List.reverse_append]
          rfl
        obtain ⟨m', hpop, hpool⟩ := hgrow.pop List.mem_cons_self
          ((Function.update_self c _ free).trans hblock)
        refine Or.inl ⟨⟨{ s.pool with chunksHead := c }, ⟨m', (c, chunkSize s.pool) :: s.heap.regions⟩⟩,
          c :: chunks, _, c, List.mem_cons_self, s.pool.chunkCapacity - 1,
          Nat.sub_lt h.sized.capacity.1 Nat.zero_lt_one, ?_, rfl, List.subset_cons_self c chunks,
          hpool⟩
        unfold slabPoolAlloc
        rw [hfind, hcreate]
        have hpos := (haddress c rfl).1
        simp only [Option.bind_eq_bind, Option.bind_some, if_neg (not_not.mpr rfl : ¬ (0 ≠ 0)),
          if_neg hpos.ne']
        rw [hpop]
        rfl
  · cases hfree : free c with
    | nil => exact absurd ((h.free_eq_nil_iff hc).mpr hfree) hsome
    | cons i fs =>
        have hi := (h.holds c hc).bound i (hfree ▸ List.mem_cons_self)
        obtain ⟨m, hpop, hpool⟩ := h.pop hc hfree
        refine Or.inl ⟨⟨s.pool, { s.heap with mem := m }⟩, chunks, _, c, hc, i, hi, ?_, rfl, List.Subset.refl chunks, hpool⟩
        unfold slabPoolAlloc
        rw [hfind]
        simp only [Option.bind_eq_bind, Option.bind_some, if_pos (h.space c hc).1.ne']
        rw [hpop]
        rfl

/-- `slab_pool_free` of a live block: the block goes back to its chunk, and a chunk that has drained
and is not the last one leaves the list. -/
theorem PoolHolds.freed (h : PoolHolds s chunks free live) (hp : p ∈ live) :
    ∃ chunks' free', chunks' ⊆ chunks ∧
      (slabPoolFree s p).pool = { s.pool with chunksHead := (slabPoolFree s p).pool.chunksHead } ∧
      PoolHolds (slabPoolFree s p) chunks' free' (live.erase p) := by
  obtain ⟨c, hc, i, hi, hnot, rfl⟩ := (h.live p).mp hp
  have hchunk : load s.heap.mem 8 (userArea s.pool c i - 8) = c := (h.holds c hc).owner i hi
  have hpush := h.push hc hi hnot
  have hsize := h.size
  generalize hm : pushBlock s.heap.mem c (userArea s.pool c i) = m at hpush
  generalize hfree : Function.update free c (i :: free c) = free' at hpush
  have hfreed : slabPoolFree s (userArea s.pool c i) =
      if usedOf m c = 0 ∧ (nextOf m c ≠ 0 ∨ prevOf m c ≠ 0) then
        ⟨if s.pool.chunksHead = c then
            { s.pool with chunksHead := nextOf (unlinkChunk m c) c } else s.pool,
          ⟨unlinkChunk m c, s.heap.regions.filter fun r => r.1 ≠ c⟩⟩
      else ⟨s.pool, { s.heap with mem := m }⟩ := by
    have huser : userArea s.pool c i ≠ 0 := Nat.succ_ne_zero _
    unfold slabPoolFree
    rw [if_neg huser, hchunk]
    dsimp only
    rw [hm]
    rfl
  rw [hfreed]
  by_cases hdrained : usedOf m c = 0 ∧ (nextOf m c ≠ 0 ∨ prevOf m c ≠ 0)
  · rw [if_pos hdrained]
    obtain ⟨hused, hother⟩ := hdrained
    have hempty : ∀ j < s.pool.chunkCapacity, j ∈ free' c := by
      have hholds := hpush.holds c hc
      have hlength := hholds.used
      rw [hused, Nat.zero_add] at hlength
      exact fun j hj => mem_of_length_eq hholds.nodup hholds.bound hlength hj
    obtain ⟨chunks', hsub, hpool⟩ := hpush.unlink hc hempty hother
    refine ⟨chunks', free', hsub, ?_, hpool⟩
    by_cases hfirst : s.pool.chunksHead = c
    · rw [if_pos hfirst]
    · rw [if_neg hfirst]
  · rw [if_neg hdrained]
    exact ⟨chunks, free', List.Subset.refl chunks, rfl, hpush⟩

/-- The blocks of a chunk that are not free are its live blocks. -/
theorem PoolHolds.used_eq (h : PoolHolds s chunks free live) (hc : c ∈ chunks) :
    usedOf s.heap.mem c =
      (live.filter fun p => decide (c ≤ p ∧ p < c + chunkSize s.pool)).length := by
  have hholds := h.holds c hc
  have hrange : ((List.range s.pool.chunkCapacity).filter fun i => decide (i ∈ free c)).Perm
      (free c) := by
    refine (List.perm_ext_iff_of_nodup (List.nodup_range.filter _) hholds.nodup).mpr fun i => ?_
    rw [List.mem_filter, List.mem_range, decide_eq_true_iff]
    exact ⟨fun hi => hi.2, fun hi => ⟨hholds.bound i hi, hi⟩⟩
  have hblocks : (live.filter fun p => decide (c ≤ p ∧ p < c + chunkSize s.pool)).Perm
      (((List.range s.pool.chunkCapacity).filter fun i => !decide (i ∈ free c)).map
        (userArea s.pool c)) := by
    have hnodup : (((List.range s.pool.chunkCapacity).filter fun i => !decide (i ∈ free c)).map
        (userArea s.pool c)).Nodup := by
      refine List.Nodup.map_on (fun i hi j hj heq => ?_) (List.nodup_range.filter _)
      have hi' := List.mem_range.mp (List.mem_filter.mp hi).1
      have hj' := List.mem_range.mp (List.mem_filter.mp hj).1
      exact h.sized.userArea_inj hi' hj' heq
    refine (List.perm_ext_iff_of_nodup (h.distinct.filter _) hnodup).mpr fun p => ?_
    rw [List.mem_filter, decide_eq_true_iff, List.mem_map, h.live p]
    constructor
    · rintro ⟨⟨d, hd, i, hi, hnot, rfl⟩, hin⟩
      have hinside := h.sized.inside (c := d) hi
      have huser : userArea s.pool d i = blockStart s.pool d i + 8 := rfl
      have hdc : d = c := by
        by_contra hne
        have hapart := h.apart d hd c hc hne
        omega
      subst hdc
      refine ⟨i, List.mem_filter.mpr ⟨List.mem_range.mpr hi, ?_⟩, rfl⟩
      rw [decide_eq_false hnot]
      rfl
    · rintro ⟨i, hi, rfl⟩
      obtain ⟨hi, hnot⟩ := List.mem_filter.mp hi
      rw [List.mem_range] at hi
      rw [Bool.not_eq_true', decide_eq_false_iff_not] at hnot
      have hinside := h.sized.inside (c := c) hi
      have huser : userArea s.pool c i = blockStart s.pool c i + 8 := rfl
      exact ⟨⟨c, hc, i, hi, hnot, rfl⟩, by omega, by omega⟩
  have hused := hholds.used
  have hsplit := List.length_eq_length_filter_add (l := List.range s.pool.chunkCapacity)
    fun i => decide (i ∈ free c)
  rw [List.length_range, hrange.length_eq] at hsplit
  rw [hblocks.length_eq, List.length_map]
  omega

/-- Two live blocks have no byte in common. -/
theorem PoolHolds.disjoint {q : ℕ} (h : PoolHolds s chunks free live) (hp : p ∈ live)
    (hq : q ∈ live) (hne : p ≠ q) : p + s.pool.blockSize ≤ q ∨ q + s.pool.blockSize ≤ p := by
  obtain ⟨c, hc, i, hi, -, rfl⟩ := (h.live p).mp hp
  obtain ⟨d, hd, j, hj, -, rfl⟩ := (h.live q).mp hq
  have huser : ∀ c i, userArea s.pool c i = blockStart s.pool c i + 8 := fun _ _ => rfl
  rw [huser, huser] at hne ⊢
  by_cases hcd : c = d
  · subst hcd
    rcases Nat.lt_trichotomy i j with hij | rfl | hij
    · have hapart := (h.sized.apart (c := c) hij hj).2
      omega
    · exact absurd rfl hne
    · have hapart := (h.sized.apart (c := c) hij hi).2
      omega
  · have hapart := h.apart c hc d hd hcd
    have hinside := h.sized.inside (c := c) hi
    have hinside' := h.sized.inside (c := d) hj
    omega

end operations

/-! ### Runs -/

/-- The states of a pool, with the blocks that are live.  Whoever has a live block stores what they
like into it, and the rest of the memory is not the pool's. -/
inductive SlabReaches (blockSize chunkCapacity : ℕ) : SlabState → List ℕ → Prop
  | init {h : Heap} {address : Option ℕ} {s : SlabState} : h.regions = [] →
      CallocAddress h (chunkSize ⟨blockSize, (8 + blockSize) % sizeT, chunkCapacity, 0⟩) address →
      slabPoolInit h blockSize chunkCapacity address = (0, s) →
      SlabReaches blockSize chunkCapacity s []
  | alloc {s s' : SlabState} {live : List ℕ} {address : Option ℕ} {p : ℕ} :
      SlabReaches blockSize chunkCapacity s live →
      CallocAddress s.heap (chunkSize s.pool) address → slabPoolAlloc s address = some (p, s') →
      SlabReaches blockSize chunkCapacity s' (if p = 0 then live else p :: live)
  | free {s : SlabState} {live : List ℕ} {p : ℕ} : SlabReaches blockSize chunkCapacity s live →
      p ∈ live → SlabReaches blockSize chunkCapacity (slabPoolFree s p) (live.erase p)
  | write {s : SlabState} {live : List ℕ} {m : Mem} : SlabReaches blockSize chunkCapacity s live →
      (∀ x, ¬ Unowned s live x → m x = s.heap.mem x) →
      SlabReaches blockSize chunkCapacity ⟨s.pool, { s.heap with mem := m }⟩ live

theorem SlabReaches.holds {blockSize chunkCapacity : ℕ} {s : SlabState} {live : List ℕ}
    (h : SlabReaches blockSize chunkCapacity s live)
    (hcap : 0 < chunkCapacity ∧ chunkCapacity < 2 ^ 31)
    (hfits : sizeofChunk + chunkCapacity * (8 + blockSize) < sizeT)
    (hroom : 8 ≤ blockSize ∨ chunkCapacity = 1) :
    (∃ chunks free, PoolHolds s chunks free live) ∧ s.pool.blockSize = blockSize ∧
      s.pool.chunkCapacity = chunkCapacity := by
  induction h with
  | init hregions haddress hinit =>
      have hstride : (8 + blockSize) % sizeT = 8 + blockSize := by
        have hone : 8 + blockSize ≤ chunkCapacity * (8 + blockSize) :=
          Nat.le_mul_of_pos_left _ hcap.1
        exact Nat.mod_eq_of_lt (by omega)
      have hsized : Sized ⟨blockSize, (8 + blockSize) % sizeT, chunkCapacity, 0⟩ := by
        refine ⟨hstride, hcap, ?_, hroom⟩
        rw [hstride]
        exact hfits
      obtain ⟨c, free, hpool⟩ := slabPoolInit_holds hsized hregions haddress hinit
      have hs := congrArg Prod.snd hinit
      refine ⟨⟨[c], free, hpool⟩, ?_, ?_⟩
      · exact (congrArg (fun s => s.pool.blockSize) hs).symm
      · exact (congrArg (fun s => s.pool.chunkCapacity) hs).symm
  | @alloc s s' live address p _ haddress halloc ih =>
      obtain ⟨⟨chunks, free, hpool⟩, hsize, hcount⟩ := ih
      rcases hpool.alloc haddress with
        ⟨t, chunks', free', c, hc, i, hi, heq, hsame, -, hpool'⟩ | ⟨heq, -, -⟩
      · rw [halloc] at heq
        obtain ⟨rfl, rfl⟩ := Prod.mk.inj (Option.some.inj heq)
        have huser : userArea s.pool c i ≠ 0 := Nat.succ_ne_zero _
        rw [if_neg huser, hsame]
        exact ⟨⟨chunks', free', hpool'⟩, hsize, hcount⟩
      · rw [halloc] at heq
        obtain ⟨rfl, rfl⟩ := Prod.mk.inj (Option.some.inj heq)
        rw [if_pos rfl]
        exact ⟨⟨chunks, free, hpool⟩, hsize, hcount⟩
  | free _ hp ih =>
      obtain ⟨⟨chunks, free, hpool⟩, hsize, hcount⟩ := ih
      obtain ⟨chunks', free', -, hsame, hpool'⟩ := hpool.freed hp
      rw [hsame]
      exact ⟨⟨chunks', free', hpool'⟩, hsize, hcount⟩
  | write _ hm ih =>
      obtain ⟨⟨chunks, free, hpool⟩, hsize, hcount⟩ := ih
      exact ⟨⟨chunks, free, hpool.write hm⟩, hsize, hcount⟩

/-! ### What the pool promises -/

/-- What is in memory for a chunk: its free list has each block that is not live once, and its
counter has the number of the blocks that are. -/
def ChunkSound (s : SlabState) (live : List ℕ) (c : ℕ) : Prop :=
  ∃ fs : List ℕ, Path (load s.heap.mem 8) 0 (freeOf s.heap.mem c) (fs.map (userArea s.pool c)) ∧
    fs.Nodup ∧ (∀ i, i ∈ fs ↔ i < s.pool.chunkCapacity ∧ userArea s.pool c i ∉ live) ∧
    usedOf s.heap.mem c = s.pool.chunkCapacity - fs.length ∧
    usedOf s.heap.mem c =
      (live.filter fun p => decide (c ≤ p ∧ p < c + chunkSize s.pool)).length

/-- The chunks of the pool are linked both ways, and each of them is sound. -/
def ChunksSound (s : SlabState) (live chunks : List ℕ) : Prop :=
  chunks ≠ [] ∧ 0 ∉ chunks ∧ chunks.Nodup ∧ s.pool.chunksHead = chunks.headD 0 ∧
    Seg (nextOf s.heap.mem) (prevOf s.heap.mem) 0 0 chunks 0 ∧
    s.heap.regions.Perm (chunks.map fun c => (c, chunkSize s.pool)) ∧
    ∀ c ∈ chunks, ChunkSound s live c

/-- What `slab_pool_alloc` returns next. -/
def AllocSound (s : SlabState) (live : List ℕ) (address : Option ℕ) : Prop :=
  ∃ p s', slabPoolAlloc s address = some (p, s') ∧ s.heap.regions ⊆ s'.heap.regions ∧
    (p = 0 → s' = s ∧ address = none ∧ ∀ r ∈ s.heap.regions, freeOf s.heap.mem r.1 = 0) ∧
    (p ≠ 0 → (∃ r ∈ s'.heap.regions, r.1 ≤ p ∧ p + s.pool.blockSize ≤ r.1 + r.2) ∧
      ∀ q ∈ live, p ≠ q ∧ (p + s.pool.blockSize ≤ q ∨ q + s.pool.blockSize ≤ p))

/-- `slab_pool_free` of a block releases no chunk with another live block. -/
def FreeSound (s : SlabState) (live : List ℕ) (p : ℕ) : Prop :=
  ∀ r ∈ s.heap.regions, r ∉ (slabPoolFree s p).heap.regions →
    ∀ q ∈ live.erase p, q + s.pool.blockSize ≤ r.1 ∨ r.1 + r.2 ≤ q

def SlabSound (s : SlabState) (live : List ℕ) : Prop :=
  (∃ chunks, ChunksSound s live chunks) ∧
    (∀ address, CallocAddress s.heap (chunkSize s.pool) address → AllocSound s live address) ∧
    ∀ p ∈ live, FreeSound s live p

section sound
variable {s : SlabState} {chunks : List ℕ} {free : ℕ → List ℕ} {live : List ℕ}

theorem PoolHolds.region_iff (h : PoolHolds s chunks free live) {r : ℕ × ℕ} :
    r ∈ s.heap.regions ↔ ∃ c ∈ chunks, r = (c, chunkSize s.pool) := by
  rw [h.regions.mem_iff, List.mem_map]
  exact exists_congr fun c => and_congr_right fun _ => eq_comm

theorem PoolHolds.chunksSound (h : PoolHolds s chunks free live) : ChunksSound s live chunks := by
  refine ⟨h.nonempty, h.null_notMem, h.nodup, h.head, h.linked, h.regions, fun c hc => ?_⟩
  have hholds := h.holds c hc
  refine ⟨free c, hholds.free, hholds.nodup, fun i => ?_, ?_, h.used_eq hc⟩
  · constructor
    · intro hi
      refine ⟨hholds.bound i hi, fun hmem => ?_⟩
      obtain ⟨d, hd, j, hj, hnot, heq⟩ := (h.live _).mp hmem
      obtain ⟨rfl, rfl⟩ := h.userArea_inj hc hd (hholds.bound i hi) hj heq
      exact hnot hi
    · rintro ⟨hi, hnot⟩
      by_contra hfree
      exact hnot ((h.live _).mpr ⟨c, hc, i, hi, hfree, rfl⟩)
  · exact Nat.eq_sub_of_add_eq hholds.used

theorem PoolHolds.allocSound (h : PoolHolds s chunks free live) {address : Option ℕ}
    (haddress : CallocAddress s.heap (chunkSize s.pool) address) : AllocSound s live address := by
  rcases h.alloc haddress with
    ⟨s', chunks', free', c, hc, i, hi, heq, hsame, hsub, h'⟩ | ⟨heq, hnone, hfull⟩
  · have hsize : chunkSize s'.pool = chunkSize s.pool := by
      rw [hsame]
      rfl
    refine ⟨userArea s.pool c i, s', heq, ?_, fun hnull => absurd hnull (Nat.succ_ne_zero _),
      fun _ => ⟨?_, fun q hq => ?_⟩⟩
    · intro r hr
      obtain ⟨d, hd, rfl⟩ := h.region_iff.mp hr
      exact h'.region_iff.mpr ⟨d, hsub hd, by rw [hsize]⟩
    · have hinside := h.sized.inside (c := c) hi
      have huser : userArea s.pool c i = blockStart s.pool c i + 8 := rfl
      refine ⟨(c, chunkSize s.pool), h'.region_iff.mpr ⟨c, hc, by rw [hsize]⟩, ?_, ?_⟩
      · show c ≤ userArea s.pool c i
        omega
      · show userArea s.pool c i + s.pool.blockSize ≤ c + chunkSize s.pool
        omega
    · have hne : userArea s.pool c i ≠ q := by
        rintro rfl
        exact (List.nodup_cons.mp h'.distinct).1 hq
      have hdisjoint := h'.disjoint List.mem_cons_self (List.mem_cons_of_mem _ hq) hne
      rw [hsame] at hdisjoint
      exact ⟨hne, hdisjoint⟩
  · refine ⟨0, s, heq, List.Subset.refl _, fun _ => ⟨rfl, hnone, fun r hr => ?_⟩,
      fun hnull => absurd rfl hnull⟩
    obtain ⟨c, hc, rfl⟩ := h.region_iff.mp hr
    exact (h.free_eq_nil_iff hc).mpr (hfull c hc)

theorem PoolHolds.freeSound (h : PoolHolds s chunks free live) {p : ℕ} (hp : p ∈ live) :
    FreeSound s live p := by
  obtain ⟨chunks', free', hsub, hsame, h'⟩ := h.freed hp
  intro r hr hreleased q hq
  obtain ⟨c, hc, rfl⟩ := h.region_iff.mp hr
  obtain ⟨d, hd, i, hi, -, rfl⟩ := (h'.live q).mp hq
  have hdc : d ≠ c := by
    rintro rfl
    refine hreleased (h'.region_iff.mpr ⟨d, hd, ?_⟩)
    rw [hsame]
    rfl
  have hapart := h.apart d (hsub hd) c hc hdc
  rw [hsame] at hi ⊢
  have hinside := h.sized.inside (c := d) hi
  have huser : userArea { s.pool with chunksHead := (slabPoolFree s p).pool.chunksHead } d i =
      blockStart s.pool d i + 8 := rfl
  rw [huser]
  show _ ≤ c ∨ c + chunkSize s.pool ≤ _
  omega

end sound

theorem slab_pool_sound {blockSize chunkCapacity : ℕ} {s : SlabState} {live : List ℕ}
    (h : SlabReaches blockSize chunkCapacity s live)
    (hcap : 0 < chunkCapacity ∧ chunkCapacity < 2 ^ 31)
    (hfits : sizeofChunk + chunkCapacity * (8 + blockSize) < sizeT)
    (hroom : 8 ≤ blockSize ∨ chunkCapacity = 1) : SlabSound s live := by
  obtain ⟨⟨chunks, free, hpool⟩, -, -⟩ := h.holds hcap hfits hroom
  exact ⟨⟨chunks, hpool.chunksSound⟩, fun _ haddress => hpool.allocSound haddress,
    fun _ hp => hpool.freeSound hp⟩

/-! ### Small blocks

Of two blocks of 4 bytes, the back-pointer of the second one lies over the upper half of the link of
the first one. -/

/-- A pool of two blocks at address 4096. -/
def samplePool (blockSize : ℕ) : SlabState :=
  (slabPoolInit ⟨fun _ => 0, []⟩ blockSize 2 (some 4096)).2

theorem samplePool_reaches {blockSize : ℕ}
    (h : 4096 + chunkSize ⟨blockSize, (8 + blockSize) % sizeT, 2, 0⟩ ≤ sizeT) :
    SlabReaches blockSize 2 (samplePool blockSize) [] := by
  have haddress : CallocAddress ⟨fun _ => 0, []⟩
      (chunkSize ⟨blockSize, (8 + blockSize) % sizeT, 2, 0⟩) (some 4096) := by
    rintro _ ⟨rfl⟩
    exact ⟨by decide, h, fun r hr => nomatch hr⟩
  exact .init rfl haddress rfl

theorem callocAddress_none {h : Heap} {size : ℕ} : CallocAddress h size none :=
  fun _ ha => nomatch ha

/-- The state after an allocation. -/
def afterAlloc (address : Option ℕ) (s : SlabState) : SlabState :=
  match slabPoolAlloc s address with
  | some (_, s') => s'
  | none => s

theorem afterAlloc_eq {s : SlabState} {address : Option ℕ} {p : ℕ}
    (h : (slabPoolAlloc s address).map Prod.fst = some p) :
    slabPoolAlloc s address = some (p, afterAlloc address s) := by
  unfold afterAlloc
  cases hs : slabPoolAlloc s address with
  | none =>
      rw [hs] at h
      exact absurd h nofun
  | some r =>
      rw [hs] at h
      rw [← Option.some.inj h]

/-- A pool of two chunks: the first one is full, and the second one has one live block. -/
def twoChunks : SlabState :=
  afterAlloc (some 8192) (afterAlloc none (afterAlloc none (samplePool 8)))

theorem twoChunks_reaches : SlabReaches 8 2 twoChunks [8248, 4136, 4152] := by
  have hfirst : (slabPoolAlloc (samplePool 8) none).map Prod.fst = some 4152 := by decide +kernel
  have hsecond : (slabPoolAlloc (afterAlloc none (samplePool 8)) none).map Prod.fst = some 4136 := by
    decide +kernel
  have hthird : (slabPoolAlloc (afterAlloc none (afterAlloc none (samplePool 8)))
      (some 8192)).map Prod.fst = some 8248 := by decide +kernel
  have hregions : (afterAlloc none (afterAlloc none (samplePool 8))).heap.regions = [(4096, 96)] := by
    decide +kernel
  have haddress : CallocAddress (afterAlloc none (afterAlloc none (samplePool 8))).heap
      (chunkSize (afterAlloc none (afterAlloc none (samplePool 8))).pool) (some 8192) := by
    rintro _ ⟨rfl⟩
    rw [hregions]
    decide +kernel
  have hrun : SlabReaches 8 2 (samplePool 8) [] := samplePool_reaches (by decide)
  have hone := hrun.alloc callocAddress_none (afterAlloc_eq hfirst)
  have htwo := hone.alloc callocAddress_none (afterAlloc_eq hsecond)
  exact htwo.alloc haddress (afterAlloc_eq hthird)

/-- The free of its block releases the second chunk. -/
theorem slab_pool_sound_twoChunks :
    twoChunks.heap.regions = [(8192, 96), (4096, 96)] ∧ SlabSound twoChunks [8248, 4136, 4152] ∧
      (slabPoolFree twoChunks 8248).heap.regions = [(4096, 96)] ∧
      SlabSound (slabPoolFree twoChunks 8248) [4136, 4152] := by
  have hfreed := twoChunks_reaches.free (p := 8248) (by decide)
  exact ⟨by decide +kernel, slab_pool_sound twoChunks_reaches (by decide) (by decide) (by decide),
    by decide +kernel, slab_pool_sound hfreed (by decide) (by decide) (by decide)⟩

theorem slab_small_blocks : ∃ s live, SlabReaches 4 2 s live ∧ ¬ SlabSound s live := by
  have hfirst : (slabPoolAlloc (samplePool 4) none).map Prod.fst = some 4148 := by decide +kernel
  have hsecond : (slabPoolAlloc (afterAlloc none (samplePool 4)) none).map Prod.fst = some 4136 := by
    decide +kernel
  -- half of the address of the chunk, where a link should be
  have hthird : (slabPoolAlloc (afterAlloc none (afterAlloc none (samplePool 4))) none).map Prod.fst =
      some (4096 * 2 ^ 32) := by decide +kernel
  have hregions : (afterAlloc none (afterAlloc none (afterAlloc none (samplePool 4)))).heap.regions =
      [(4096, 88)] := by decide +kernel
  have hrun : SlabReaches 4 2 (samplePool 4) [] := samplePool_reaches (by decide)
  have hone := hrun.alloc callocAddress_none (afterAlloc_eq hfirst)
  have htwo := hone.alloc callocAddress_none (afterAlloc_eq hsecond)
  refine ⟨_, _, htwo, fun hsound => ?_⟩
  obtain ⟨p, s', halloc, -, -, hinside⟩ := hsound.2.1 none callocAddress_none
  rw [afterAlloc_eq hthird] at halloc
  obtain ⟨rfl, rfl⟩ := Prod.mk.inj (Option.some.inj halloc)
  obtain ⟨⟨r, hr, -, hlt⟩, -⟩ := hinside (by decide)
  rw [hregions, List.mem_singleton] at hr
  subst hr
  exact absurd hlt (by decide)

/-! ### Alignment -/

/-- The pointer for block `i` is 40 bytes and `i` back-pointers away from aligned places. -/
theorem userArea_aligned_iff {h : Heap} {blockSize chunkCapacity c i k : ℕ} {address : Option ℕ}
    (hk : k ≤ 6) (hsize : 2 ^ k ∣ blockSize) (hbase : 2 ^ k ∣ c) :
    2 ^ k ∣ userArea (slabPoolInit h blockSize chunkCapacity address).2.pool c i ↔
      k ≤ 3 ∨ 2 ^ (k - 3) ∣ i + 5 := by
  have hword : 2 ^ k ∣ sizeT := Nat.pow_dvd_pow 2 (hk.trans (by decide))
  have hoffset : i * ((8 + blockSize) % sizeT) % sizeT ≡ 8 * i [MOD 2 ^ k] := by
    calc i * ((8 + blockSize) % sizeT) % sizeT
        ≡ i * (8 + blockSize) [MOD 2 ^ k] := by
          refine ((Nat.mod_modEq _ sizeT).of_dvd hword).trans ?_
          exact Nat.ModEq.mul_left i ((Nat.mod_modEq _ sizeT).of_dvd hword)
      _ ≡ i * (8 + 0) [MOD 2 ^ k] :=
          Nat.ModEq.mul_left i (Nat.ModEq.add_left 8 (Nat.modEq_zero_iff_dvd.mpr hsize))
      _ = 8 * i := Nat.mul_comm i 8
  have huser : userArea (slabPoolInit h blockSize chunkCapacity address).2.pool c i =
      c + (i * ((8 + blockSize) % sizeT) % sizeT + 40) := by
    show c + 32 + i * ((8 + blockSize) % sizeT) % sizeT + 8 = _
    omega
  have hplace : i * ((8 + blockSize) % sizeT) % sizeT + 40 ≡ 2 ^ 3 * (i + 5) [MOD 2 ^ k] :=
    hoffset.add_right 40
  rw [huser, Nat.dvd_add_right hbase, hplace.dvd_iff (Nat.dvd_refl _)]
  by_cases hsmall : k ≤ 3
  · have hdvd : 2 ^ k ∣ 2 ^ 3 * (i + 5) := Dvd.dvd.mul_right (Nat.pow_dvd_pow 2 hsmall) _
    exact ⟨fun _ => Or.inl hsmall, fun _ => hdvd⟩
  · obtain ⟨j, rfl⟩ := Nat.exists_eq_add_of_le (Nat.le_of_not_le hsmall)
    rw [Nat.pow_add, Nat.mul_dvd_mul_iff_left (by decide), Nat.add_sub_cancel_left]
    exact ⟨Or.inr, fun h => h.resolve_left hsmall⟩

theorem userArea_aligned_third : 2 ^ 6 ∣ userArea (samplePool 448).pool 4096 3 :=
  (userArea_aligned_iff (by decide) (by decide) (by decide)).mpr (Or.inr (by decide))

theorem userArea_first_unaligned : ¬ 2 ^ 6 ∣ userArea (samplePool 448).pool 4096 0 := by decide

end Segnalacity
