import Mathlib.Algebra.Order.BigOperators.Group.List
import Segnalacity.SlabSoundness

/-! # How much memory the slab pool holds on to

The pool asks for a chunk only when every block of every chunk is in use, and gives a chunk back as
soon as its last block is freed, unless it is the only one.  So between the calls each chunk but a
single one has a live block, and the number of chunks lies between what the live blocks need and
the number of the live blocks (`slab_pool_retention`). -/

namespace Segnalacity

open Memory Linked

/-- The block at `p` lies in the chunk. -/
def InRegion (r : ℕ × ℕ) (p : ℕ) : Prop := r.1 ≤ p ∧ p < r.1 + r.2

instance (r : ℕ × ℕ) (p : ℕ) : Decidable (InRegion r p) := inferInstanceAs (Decidable (_ ∧ _))

/-- No chunk without a live block is kept beside another one. -/
def Tight (s : SlabState) (live : List ℕ) : Prop :=
  s.heap.regions.length ≤ 1 ∨ ∀ r ∈ s.heap.regions, ∃ p ∈ live, InRegion r p

/-! ### Counting blocks -/

section pool
variable {s : SlabState} {chunks : List ℕ} {free : ℕ → List ℕ} {live : List ℕ} {c d i p : ℕ}

/-- The blocks of a chunk that are in use. -/
def takenBlocks (s : SlabState) (free : ℕ → List ℕ) (c : ℕ) : List ℕ :=
  ((List.range s.pool.chunkCapacity).filter fun i => decide (i ∉ free c)).map (userArea s.pool c)

theorem mem_takenBlocks : p ∈ takenBlocks s free c ↔
    ∃ i < s.pool.chunkCapacity, i ∉ free c ∧ p = userArea s.pool c i := by
  simp only [takenBlocks, List.mem_map, List.mem_filter, List.mem_range, decide_eq_true_eq,
    and_assoc]
  exact exists_congr fun i => and_congr_right fun _ => and_congr_right fun _ => eq_comm

theorem PoolHolds.inRegion (h : PoolHolds s chunks free live) (hi : i < s.pool.chunkCapacity) :
    InRegion (c, chunkSize s.pool) (userArea s.pool c i) := by
  have hinside := h.sized.inside (c := c) hi
  have huser : userArea s.pool c i = blockStart s.pool c i + 8 := rfl
  unfold InRegion
  dsimp only
  omega

/-- A block of one chunk does not lie in another one. -/
theorem PoolHolds.inRegion_unique (h : PoolHolds s chunks free live) (hc : c ∈ chunks)
    (hd : d ∈ chunks) (hi : i < s.pool.chunkCapacity)
    (hin : InRegion (d, chunkSize s.pool) (userArea s.pool c i)) : d = c := by
  by_contra hne
  have hapart := h.apart d hd c hc hne
  have hinside := h.sized.inside (c := c) hi
  have huser : userArea s.pool c i = blockStart s.pool c i + 8 := rfl
  unfold InRegion at hin
  dsimp only at hin
  omega

theorem PoolHolds.live_perm (h : PoolHolds s chunks free live) :
    live.Perm (chunks.flatMap (takenBlocks s free)) := by
  have hnodup : (chunks.flatMap (takenBlocks s free)).Nodup := by
    rw [List.nodup_flatMap]
    constructor
    · intro c hc
      refine List.Nodup.map_on (fun i hi j hj heq => ?_) (List.nodup_range.filter _)
      have hi' := List.mem_range.mp (List.mem_filter.mp hi).1
      have hj' := List.mem_range.mp (List.mem_filter.mp hj).1
      exact h.sized.userArea_inj hi' hj' heq
    · refine h.nodup.pairwise_of_forall_ne fun c hc d hd hcd p hp hp' => ?_
      obtain ⟨i, hi, -, rfl⟩ := mem_takenBlocks.mp hp
      obtain ⟨j, hj, -, heq⟩ := mem_takenBlocks.mp hp'
      exact hcd (h.userArea_inj hc hd hi hj heq).1
  refine (List.perm_ext_iff_of_nodup h.distinct hnodup).mpr fun p => ?_
  rw [h.live p, List.mem_flatMap]
  exact exists_congr fun c => and_congr_right fun _ => mem_takenBlocks.symm

theorem PoolHolds.length_takenBlocks (h : PoolHolds s chunks free live) (hc : c ∈ chunks) :
    (takenBlocks s free c).length + (free c).length = s.pool.chunkCapacity := by
  have hholds := h.holds c hc
  have hfree : ((List.range s.pool.chunkCapacity).filter fun i => decide (i ∈ free c)).Perm
      (free c) := by
    refine (List.perm_ext_iff_of_nodup (List.nodup_range.filter _) hholds.nodup).mpr fun i => ?_
    rw [List.mem_filter, List.mem_range, decide_eq_true_iff]
    exact ⟨fun hi => hi.2, fun hi => ⟨hholds.bound i hi, hi⟩⟩
  have hsplit := List.length_eq_length_filter_add (l := List.range s.pool.chunkCapacity)
    fun i => decide (i ∈ free c)
  rw [List.length_range, hfree.length_eq] at hsplit
  have htaken : (takenBlocks s free c).length =
      ((List.range s.pool.chunkCapacity).filter fun i => !decide (i ∈ free c)).length := by
    simp [takenBlocks]
  omega

theorem PoolHolds.live_length (h : PoolHolds s chunks free live) :
    live.length = (chunks.map fun c => (takenBlocks s free c).length).sum := by
  rw [h.live_perm.length_eq, List.length_flatMap]

theorem PoolHolds.regions_length (h : PoolHolds s chunks free live) :
    s.heap.regions.length = chunks.length := by
  rw [h.regions.length_eq, List.length_map]

/-- The chunks have room for the live blocks. -/
theorem PoolHolds.live_le (h : PoolHolds s chunks free live) :
    live.length ≤ s.pool.chunkCapacity * s.heap.regions.length := by
  rw [h.live_length, h.regions_length, Nat.mul_comm]
  have hle : ∀ n ∈ chunks.map fun c => (takenBlocks s free c).length, n ≤ s.pool.chunkCapacity := by
    intro n hn
    obtain ⟨c, hc, rfl⟩ := List.mem_map.mp hn
    have hlength := h.length_takenBlocks hc
    omega
  simpa using List.sum_le_card_nsmul _ _ hle

theorem PoolHolds.live_eq_of_full (h : PoolHolds s chunks free live)
    (hfull : ∀ c ∈ chunks, free c = []) :
    live.length = s.pool.chunkCapacity * s.heap.regions.length := by
  have hmap : (chunks.map fun c => (takenBlocks s free c).length) =
      chunks.map fun _ => s.pool.chunkCapacity := by
    apply List.map_congr_left
    intro c hc
    have hlength := h.length_takenBlocks hc
    rw [hfull c hc] at hlength
    exact hlength
  rw [h.live_length, hmap, h.regions_length]
  simp [Nat.mul_comm]

/-- With a live block in each chunk there are no more chunks than live blocks. -/
theorem PoolHolds.regions_le (h : PoolHolds s chunks free live)
    (hsome : ∀ r ∈ s.heap.regions, ∃ p ∈ live, InRegion r p) :
    s.heap.regions.length ≤ live.length := by
  rw [h.live_length, h.regions_length]
  have hpos : ∀ n ∈ chunks.map fun c => (takenBlocks s free c).length, 1 ≤ n := by
    intro n hn
    obtain ⟨c, hc, rfl⟩ := List.mem_map.mp hn
    obtain ⟨p, hp, hin⟩ := hsome _ (h.region_iff.mpr ⟨c, hc, rfl⟩)
    obtain ⟨d, hd, i, hi, hnot, rfl⟩ := (h.live p).mp hp
    obtain rfl := h.inRegion_unique hd hc hi hin
    exact List.length_pos_of_mem (mem_takenBlocks.mpr ⟨i, hi, hnot, rfl⟩)
  simpa using List.card_nsmul_le_sum _ _ hpos

/-! ### Growing and shrinking -/

/-- `slab_pool_alloc` asks for a chunk when every block is in use, and only then. -/
theorem PoolHolds.alloc_regions (h : PoolHolds s chunks free live) {address : Option ℕ}
    (haddress : CallocAddress s.heap (chunkSize s.pool) address) {s' : SlabState}
    (halloc : slabPoolAlloc s address = some (p, s')) :
    s'.heap.regions = s.heap.regions ∧ (p = 0 ∨ ∃ c ∈ chunks, free c ≠ []) ∨
      (∀ c ∈ chunks, free c = []) ∧ ∃ a ∈ address,
        s'.heap.regions = (a, chunkSize s.pool) :: s.heap.regions := by
  have hfuel : chunks.length < s.heap.regions.length + 1 := by
    rw [h.regions_length]
    exact Nat.lt_succ_self _
  have hfind := findChunk_spec h.linked h.null_notMem hfuel
  rw [← h.head] at hfind
  unfold slabPoolAlloc at halloc
  cases hfind with
  | inl hfull =>
      obtain ⟨hfind, hfull⟩ := hfull
      rw [hfind] at halloc
      cases address with
      | none =>
          obtain ⟨rfl, rfl⟩ := Prod.mk.inj (Option.some.inj halloc)
          exact .inl ⟨rfl, .inl rfl⟩
      | some a =>
          obtain ⟨m, hcreate, -⟩ := createChunk_some h.sized haddress
          have hpos := (haddress a rfl).1
          simp only [Option.bind_eq_bind, Option.bind_some, hcreate,
            if_neg (not_not.mpr rfl : ¬ (0 ≠ 0)), if_neg hpos.ne'] at halloc
          obtain ⟨-, rfl⟩ := Prod.mk.inj (Option.some.inj halloc)
          exact .inr ⟨fun c hc => (h.free_eq_nil_iff hc).mp (hfull c hc), a, rfl, rfl⟩
  | inr hsome =>
      obtain ⟨c, hc, hfind, hfree⟩ := hsome
      rw [hfind] at halloc
      simp only [Option.bind_eq_bind, Option.bind_some, if_pos (h.space c hc).1.ne'] at halloc
      obtain ⟨-, rfl⟩ := Prod.mk.inj (Option.some.inj halloc)
      exact .inl ⟨rfl, .inr ⟨c, hc, fun hnil => hfree ((h.free_eq_nil_iff hc).mpr hnil)⟩⟩

/-- A chunk has a neighbour when it is not alone. -/
theorem PoolHolds.alone_iff (h : PoolHolds s chunks free live) (hc : c ∈ chunks) :
    (nextOf s.heap.mem c ≠ 0 ∨ prevOf s.heap.mem c ≠ 0) ↔ 1 < chunks.length := by
  obtain ⟨pre, post, rfl⟩ := List.append_of_mem hc
  obtain ⟨hprev, hnext, -⟩ := h.neighbours
  have hnull := h.null_notMem
  rw [hprev, hnext]
  constructor
  · rintro (hpost | hpre)
    · cases post with
      | nil => exact absurd rfl hpost
      | cons d post =>
          simp only [List.length_append, List.length_cons]
          omega
    · cases pre with
      | nil => exact absurd rfl hpre
      | cons d pre =>
          simp only [List.length_append, List.length_cons]
          omega
  · intro hlen
    cases post with
    | cons d post =>
        left
        rintro rfl
        simp at hnull
    | nil =>
        right
        have hpre : pre ≠ [] := by
          rintro rfl
          simp at hlen
        intro hzero
        apply hnull
        apply List.mem_append_left
        rw [← hzero, List.getLastD_eq_getLast?, List.getLast?_eq_some_getLast hpre]
        exact List.getLast_mem hpre

/-- `slab_pool_free` gives a chunk back when the block was its last live one and it is not alone. -/
theorem PoolHolds.freed_regions (h : PoolHolds s chunks free live) (hp : p ∈ live) :
    ∃ c ∈ chunks, InRegion (c, chunkSize s.pool) p ∧
      (slabPoolFree s p).heap.regions =
        if (∀ q ∈ live.erase p, ¬ InRegion (c, chunkSize s.pool) q) ∧ 1 < s.heap.regions.length then
          s.heap.regions.filter fun r => r.1 ≠ c
        else s.heap.regions := by
  obtain ⟨c, hc, i, hi, hnot, rfl⟩ := (h.live p).mp hp
  refine ⟨c, hc, h.inRegion hi, ?_⟩
  have hchunk : load s.heap.mem 8 (userArea s.pool c i - 8) = c := (h.holds c hc).owner i hi
  have hpush := h.push hc hi hnot
  have halone := hpush.alone_iff hc
  have hused := hpush.used_eq hc
  have huser : userArea s.pool c i ≠ 0 := Nat.succ_ne_zero _
  have hdrained : usedOf (pushBlock s.heap.mem c (userArea s.pool c i)) c = 0 ↔
      ∀ q ∈ live.erase (userArea s.pool c i), ¬ InRegion (c, chunkSize s.pool) q := by
    rw [hused, List.length_eq_zero_iff, List.filter_eq_nil_iff]
    exact forall₂_congr fun q _ => by simp [InRegion]
  have hregions : (slabPoolFree s (userArea s.pool c i)).heap.regions =
      if usedOf (pushBlock s.heap.mem c (userArea s.pool c i)) c = 0 ∧
          (nextOf (pushBlock s.heap.mem c (userArea s.pool c i)) c ≠ 0 ∨
            prevOf (pushBlock s.heap.mem c (userArea s.pool c i)) c ≠ 0) then
        s.heap.regions.filter fun r => r.1 ≠ c
      else s.heap.regions := by
    unfold slabPoolFree
    rw [if_neg huser, hchunk]
    exact apply_ite (fun s : SlabState => s.heap.regions) _ _ _
  rw [hregions]
  refine if_congr ?_ rfl rfl
  rw [hdrained, halone, h.regions_length]

/-! ### The invariant -/

/-- A block that is handed out when every chunk is full lies in the new chunk. -/
theorem PoolHolds.alloc_grown (h : PoolHolds s chunks free live) {address : Option ℕ}
    (haddress : CallocAddress s.heap (chunkSize s.pool) address) {s' : SlabState}
    (halloc : slabPoolAlloc s address = some (p, s')) (hfull : ∀ c ∈ chunks, free c = []) {a : ℕ}
    (hregions : s'.heap.regions = (a, chunkSize s.pool) :: s.heap.regions) :
    p ≠ 0 ∧ InRegion (a, chunkSize s.pool) p := by
  rcases h.alloc haddress with
    ⟨t, chunks', free', c, hc, i, hi, heq, hsame, -, hpool⟩ | ⟨heq, -, -⟩
  · rw [halloc] at heq
    obtain ⟨rfl, rfl⟩ := Prod.mk.inj (Option.some.inj heq)
    have hsize : chunkSize s'.pool = chunkSize s.pool := by
      rw [hsame]
      rfl
    have hmem : (c, chunkSize s.pool) ∈ s'.heap.regions :=
      hpool.region_iff.mpr ⟨c, hc, by rw [hsize]⟩
    refine ⟨Nat.succ_ne_zero _, ?_⟩
    rw [hregions] at hmem
    rcases List.mem_cons.mp hmem with hnew | hold
    · rw [← hnew]
      exact h.inRegion hi
    · -- an old chunk has no block left to hand out
      obtain ⟨d, hd, hcd⟩ := h.region_iff.mp hold
      obtain rfl : c = d := congrArg Prod.fst hcd
      have hlive : userArea s.pool c i ∈ live := by
        refine (h.live _).mpr ⟨c, hd, i, hi, ?_, rfl⟩
        rw [hfull c hd]
        exact List.not_mem_nil
      exact absurd hlive (List.nodup_cons.mp hpool.distinct).1
  · rw [halloc] at heq
    obtain ⟨-, rfl⟩ := Prod.mk.inj (Option.some.inj heq)
    have hlength := congrArg List.length hregions
    simp at hlength

theorem PoolHolds.tight_alloc (h : PoolHolds s chunks free live) (ht : Tight s live)
    {address : Option ℕ} (haddress : CallocAddress s.heap (chunkSize s.pool) address)
    {s' : SlabState} (halloc : slabPoolAlloc s address = some (p, s')) :
    Tight s' (if p = 0 then live else p :: live) := by
  have hsub : ∀ q ∈ live, q ∈ if p = 0 then live else p :: live := by
    intro q hq
    split_ifs
    · exact hq
    · exact List.mem_cons_of_mem p hq
  rcases h.alloc_regions haddress halloc with ⟨hregions, -⟩ | ⟨hfull, a, ha, hregions⟩
  · unfold Tight
    rw [hregions]
    refine ht.imp_right fun hsome r hr => ?_
    obtain ⟨q, hq, hin⟩ := hsome r hr
    exact ⟨q, hsub q hq, hin⟩
  · right
    intro r hr
    rw [hregions] at hr
    rcases List.mem_cons.mp hr with rfl | hr
    · obtain ⟨hp, hin⟩ := h.alloc_grown haddress halloc hfull hregions
      rw [if_neg hp]
      exact ⟨p, List.mem_cons_self, hin⟩
    · -- an old chunk is full
      obtain ⟨c, hc, rfl⟩ := h.region_iff.mp hr
      have hcap := h.sized.capacity.1
      have hlive : userArea s.pool c 0 ∈ live := by
        refine (h.live _).mpr ⟨c, hc, 0, hcap, ?_, rfl⟩
        rw [hfull c hc]
        exact List.not_mem_nil
      exact ⟨userArea s.pool c 0, hsub _ hlive, h.inRegion hcap⟩

theorem PoolHolds.tight_free (h : PoolHolds s chunks free live) (ht : Tight s live)
    (hp : p ∈ live) : Tight (slabPoolFree s p) (live.erase p) := by
  obtain ⟨c, hc, hin, hregions⟩ := h.freed_regions hp
  by_cases hone : s.heap.regions.length ≤ 1
  · left
    rw [hregions, if_neg (by omega)]
    exact hone
  · right
    intro r hr
    have hr' : r ∈ s.heap.regions := by
      rw [hregions] at hr
      split_ifs at hr
      · exact List.mem_of_mem_filter hr
      · exact hr
    obtain ⟨d, hd, rfl⟩ := h.region_iff.mp hr'
    by_cases hdc : d = c
    · subst hdc
      -- the chunk of the block has stayed, so it has another one
      by_contra hnone
      push Not at hnone
      rw [hregions, if_pos ⟨hnone, by omega⟩] at hr
      simpa using List.of_mem_filter hr
    · obtain ⟨q, hq, hinq⟩ := ht.resolve_left hone _ hr'
      refine ⟨q, (h.distinct.mem_erase_iff).mpr ⟨?_, hq⟩, hinq⟩
      rintro rfl
      obtain ⟨e, he, i, hi, -, rfl⟩ := (h.live q).mp hp
      exact hdc ((h.inRegion_unique he hd hi hinq).trans (h.inRegion_unique he hc hi hin).symm)

end pool

theorem SlabReaches.tight {blockSize chunkCapacity : ℕ} {s : SlabState} {live : List ℕ}
    (h : SlabReaches blockSize chunkCapacity s live)
    (hcap : 0 < chunkCapacity ∧ chunkCapacity < 2 ^ 31)
    (hfits : sizeofChunk + chunkCapacity * (8 + blockSize) < sizeT)
    (hroom : 8 ≤ blockSize ∨ chunkCapacity = 1) : Tight s live := by
  induction h with
  | @init h address s hregions haddress hinit =>
      left
      have hs := congrArg (fun r => r.2.heap.regions.length) hinit
      dsimp only at hs
      rw [← hs]
      cases address with
      | none => simp [slabPoolInit, createChunk_none, hregions]
      | some a =>
          have hpos := (haddress a rfl).1
          simp [slabPoolInit, createChunk, calloc, hpos.ne', hregions]
  | alloc hreach haddress halloc ih =>
      obtain ⟨⟨chunks, free, hpool⟩, -, -⟩ := hreach.holds hcap hfits hroom
      exact hpool.tight_alloc ih haddress halloc
  | free hreach hp ih =>
      obtain ⟨⟨chunks, free, hpool⟩, -, -⟩ := hreach.holds hcap hfits hroom
      exact hpool.tight_free ih hp
  | write _ _ ih => exact ih

theorem SlabReaches.regions_le {blockSize chunkCapacity : ℕ} {s : SlabState} {live : List ℕ}
    (h : SlabReaches blockSize chunkCapacity s live)
    (hcap : 0 < chunkCapacity ∧ chunkCapacity < 2 ^ 31)
    (hfits : sizeofChunk + chunkCapacity * (8 + blockSize) < sizeT)
    (hroom : 8 ≤ blockSize ∨ chunkCapacity = 1) : s.heap.regions.length ≤ max 1 live.length := by
  obtain ⟨⟨chunks, free, hpool⟩, -, -⟩ := h.holds hcap hfits hroom
  rcases h.tight hcap hfits hroom with hone | hsome
  · exact hone.trans (le_max_left 1 _)
  · exact (hpool.regions_le hsome).trans (le_max_right 1 _)

/-- **The pool holds on to no more than it needs.**  In every state that legal use leads to: there
is a chunk, there are enough of them and at most one for each live block; a chunk is asked for when
every block is in use; and a chunk is given back when its last live block is freed and another one
stays. -/
theorem slab_pool_retention {blockSize chunkCapacity : ℕ} {s : SlabState} {live : List ℕ}
    (h : SlabReaches blockSize chunkCapacity s live)
    (hcap : 0 < chunkCapacity ∧ chunkCapacity < 2 ^ 31)
    (hfits : sizeofChunk + chunkCapacity * (8 + blockSize) < sizeT)
    (hroom : 8 ≤ blockSize ∨ chunkCapacity = 1) :
    0 < s.heap.regions.length ∧ live.length ≤ chunkCapacity * s.heap.regions.length ∧
      s.heap.regions.length ≤ max 1 live.length ∧
      (∀ address p s', CallocAddress s.heap (chunkSize s.pool) address →
        slabPoolAlloc s address = some (p, s') →
        s'.heap.regions = s.heap.regions ∨
          live.length = chunkCapacity * s.heap.regions.length ∧
            ∃ a ∈ address, s'.heap.regions = (a, chunkSize s.pool) :: s.heap.regions) ∧
      ∀ p ∈ live, ∀ r ∈ s.heap.regions, r ∉ (slabPoolFree s p).heap.regions ↔
        InRegion r p ∧ (∀ q ∈ live.erase p, ¬ InRegion r q) ∧ 1 < s.heap.regions.length := by
  have hle := h.regions_le hcap hfits hroom
  obtain ⟨⟨chunks, free, hpool⟩, -, rfl⟩ := h.holds hcap hfits hroom
  refine ⟨?_, hpool.live_le, hle, fun address p s' haddress halloc => ?_, fun p hp r hr => ?_⟩
  · rw [hpool.regions_length]
    exact List.length_pos_iff.mpr hpool.nonempty
  · rcases hpool.alloc_regions haddress halloc with ⟨hregions, -⟩ | ⟨hfull, hregions⟩
    · exact .inl hregions
    · exact .inr ⟨hpool.live_eq_of_full hfull, hregions⟩
  · obtain ⟨c, hc, hin, hregions⟩ := hpool.freed_regions hp
    obtain ⟨d, hd, rfl⟩ := hpool.region_iff.mp hr
    obtain ⟨e, he, i, hi, -, rfl⟩ := (hpool.live p).mp hp
    obtain rfl := hpool.inRegion_unique he hc hi hin
    rw [hregions]
    constructor
    · intro hgone
      split_ifs at hgone with hdrained
      · obtain rfl : d = c := by
          by_contra hne
          exact hgone (List.mem_filter.mpr ⟨hr, by simpa using hne⟩)
        exact ⟨hin, hdrained⟩
      · exact absurd hr hgone
    · rintro ⟨hind, hdrained⟩
      obtain rfl := hpool.inRegion_unique he hd hi hind
      rw [if_pos hdrained]
      simp

/-- Three live blocks need two chunks, and the last one to be freed in the second takes it along. -/
theorem slab_pool_retention_twoChunks :
    twoChunks.heap.regions.length = 2 ∧ (slabPoolFree twoChunks 8248).heap.regions.length = 1 ∧
      ((8192, 96) ∉ (slabPoolFree twoChunks 8248).heap.regions ↔
        InRegion (8192, 96) 8248 ∧ (∀ q ∈ [8248, 4136, 4152].erase 8248, ¬ InRegion (8192, 96) q) ∧
          1 < twoChunks.heap.regions.length) ∧
      ¬ (8192, 96) ∉ (slabPoolFree twoChunks 4136).heap.regions := by
  have hregions : twoChunks.heap.regions = [(8192, 96), (4096, 96)] := by decide +kernel
  obtain ⟨-, -, -, -, hreleased⟩ :=
    slab_pool_retention twoChunks_reaches (by decide) (by decide) (by decide)
  have hmem : (8192, 96) ∈ twoChunks.heap.regions := by
    rw [hregions]
    decide
  refine ⟨by rw [hregions]; rfl, by decide +kernel, hreleased 8248 (by decide) _ hmem, ?_⟩
  rw [hreleased 4136 (by decide) _ hmem]
  decide

end Segnalacity
