import Segnalacity.Server.Memory
import Segnalacity.SlabRetention

/-! # The contexts in the pool

`Callbacks` knows a context by the number of its allocation; `client_manager.c` keeps it in a block
of a slab pool, and a block that has been freed is handed out again.  `HostedRun` is a run of the
callbacks together with the pool: `client_manager_alloc` is a call of `slab_pool_alloc`, whose
result decides whether the callback gets a context, `client_manager_release` one of
`slab_pool_free`, and in between the contexts in use are written to.

The server frees only blocks in use, each once, so the pool keeps its promises, and with it that the
contexts in use never overlap (`contexts_in_slab`). -/

namespace Segnalacity

open CStr

namespace Server

variable {σ : Type}

def clientChunkCapacity : ℕ := 64

/-- `place p` is the block of the context `p`. -/
structure Hosted (σ : Type) where
  server : Server σ
  slab : SlabState
  place : ℕ → ℕ

/-- The contexts that are allocated. -/
def held (s : Server σ) : List ℕ := (List.range s.contexts).filter fun p => (s.ctx p).isSome

def Hosted.blocks (x : Hosted σ) : List ℕ := x.server.held.map x.place

def Call.released : Call → Option ℕ
  | .release p => some p
  | _ => none

/-- The calls of `client_manager_release` between two states. -/
def releases (s s' : Server σ) : List ℕ := (s'.calls.drop s.calls.length).filterMap Call.released

def freeAll (place : ℕ → ℕ) (ps : List ℕ) (slab : SlabState) : SlabState :=
  ps.foldl (fun slab p => slabPoolFree slab (place p)) slab

/-- `setup_client` gets to `client_manager_alloc`. -/
def AsksForContext (s : Server σ) : Callback → Prop
  | .connection status _ _ => 0 ≤ status ∧ s.activeClientsCount < maxClients
  | _ => False

/-- Runs of the server on the pool, from `client_manager_init` on. -/
inductive HostedRun (svc : Services σ) (sizeofClientCtx : ℕ) (s₀ : Server σ) : Hosted σ → Prop
  | init {h : Heap} {address : Option ℕ} {slab : SlabState} (place : ℕ → ℕ) : h.regions = [] →
      CallocAddress h (chunkSize ⟨sizeofClientCtx, (8 + sizeofClientCtx) % sizeT,
        clientChunkCapacity, 0⟩) address →
      slabPoolInit h sizeofClientCtx clientChunkCapacity address = (0, slab) →
      HostedRun svc sizeofClientCtx s₀ ⟨s₀, slab, place⟩
  | write {x : Hosted σ} {m : Memory.Mem} : HostedRun svc sizeofClientCtx s₀ x →
      (∀ y, ¬ Unowned x.slab x.blocks y → m y = x.slab.heap.mem y) →
      HostedRun svc sizeofClientCtx s₀
        { x with slab := ⟨x.slab.pool, { x.slab.heap with mem := m }⟩ }
  | alloc {x : Hosted σ} {s' : Server σ} {status : ℤ} {acceptOk : Bool} {address : Option ℕ}
      {p : ℕ} {slab : SlabState} : HostedRun svc sizeofClientCtx s₀ x →
      CallocAddress x.slab.heap (chunkSize x.slab.pool) address →
      slabPoolAlloc x.slab address = some (p, slab) →
      Allowed x.server (.connection status (decide (p ≠ 0)) acceptOk) →
      AsksForContext x.server (.connection status (decide (p ≠ 0)) acceptOk) →
      step svc (.connection status (decide (p ≠ 0)) acceptOk) x.server = some s' →
      HostedRun svc sizeofClientCtx s₀
        ⟨s', slab, if p = 0 then x.place else Function.update x.place x.server.contexts p⟩
  | callback {x : Hosted σ} {s' : Server σ} {cb : Callback} :
      HostedRun svc sizeofClientCtx s₀ x → Allowed x.server cb → ¬ AsksForContext x.server cb →
      step svc cb x.server = some s' →
      HostedRun svc sizeofClientCtx s₀
        ⟨s', freeAll x.place (releases x.server s') x.slab, x.place⟩

theorem Inv.mem_held {s : Server σ} (hs : Inv s) {p : ℕ} : p ∈ s.held ↔ s.ctx p ≠ none := by
  rw [held, List.mem_filter, List.mem_range, Option.isSome_iff_ne_none]
  constructor
  · exact fun hp => hp.2
  · intro hp
    refine ⟨?_, hp⟩
    by_contra hge
    exact hp (hs.unborn p (Nat.not_lt.mp hge)).1

/-! ### What a step releases -/

section steps
variable {s s' s'' : Server σ} {ps qs : List ℕ}

/-- Between the states the contexts `ps` have been released, and none has been allocated. -/
structure Frees (s s' : Server σ) (ps : List ℕ) : Prop where
  calls : ∃ new, s'.calls = s.calls ++ new ∧ new.filterMap Call.released = ps
  nodup : ps.Nodup
  held : ∀ p ∈ ps, s.ctx p ≠ none
  kept : ∀ q, s'.ctx q ≠ none ↔ s.ctx q ≠ none ∧ q ∉ ps

theorem Frees.releases (h : Frees s s' ps) : releases s s' = ps := by
  obtain ⟨new, hcalls, rfl⟩ := h.calls
  unfold Server.releases
  rw [hcalls, List.drop_left]

theorem Frees.of_same {new : List Call} (hcalls : s'.calls = s.calls ++ new)
    (hnone : ∀ d ∈ new, Call.released d = none) (hctx : ∀ q, s'.ctx q ≠ none ↔ s.ctx q ≠ none) :
    Frees s s' [] where
  calls := ⟨new, hcalls, List.filterMap_eq_nil_iff.mpr hnone⟩
  nodup := List.nodup_nil
  held := fun p hp => absurd hp List.not_mem_nil
  kept := fun q => by simp [hctx q]

theorem Frees.trans (h : Frees s s' ps) (h' : Frees s' s'' qs) : Frees s s'' (ps ++ qs) where
  calls := by
    obtain ⟨new, hnew, rfl⟩ := h.calls
    obtain ⟨new', hnew', rfl⟩ := h'.calls
    exact ⟨new ++ new', by rw [hnew', hnew, List.append_assoc], List.filterMap_append⟩
  nodup := by
    refine List.nodup_append.mpr ⟨h.nodup, h'.nodup, ?_⟩
    rintro p hp q hq rfl
    exact ((h.kept p).mp (h'.held p hq)).2 hp
  held := by
    intro p hp
    rcases List.mem_append.mp hp with hp | hp
    · exact h.held p hp
    · exact ((h.kept p).mp (h'.held p hp)).1
  kept := by
    intro q
    rw [h'.kept, h.kept, List.mem_append, not_or, and_assoc]

theorem Move.released {p n n' : ℕ} {req req' : ℕ → Option Server.WriteReq} {c c' : ClientCtx}
    {h h' : Handles} {new : List Call} (hm : Move p req n c h c' h' req' n' new) :
    ∀ d ∈ new, Call.released d = none := by
  cases hm <;> simp [Call.released]

theorem Effect.frees (he : Effect s s') : ∃ ps, Frees s s' ps := by
  cases he with
  | background responseBuffer app =>
      exact ⟨[], .of_same (List.append_nil _).symm (by simp) fun _ => Iff.rfl⟩
  | discard => exact ⟨[], .of_same rfl (by simp [Call.released]) fun _ => Iff.rfl⟩
  | @move p c c' h' req' n' new hc hm hnext hprev =>
      refine ⟨[], .of_same rfl hm.released fun q => ?_⟩
      by_cases hq : q = p
      · subst hq
        simp [hc]
      · simp [Function.update_of_ne hq]
  | @last p c t ctx' hc ht hw hlast hothers hnodes =>
      refine ⟨[p], ⟨⟨_, rfl, rfl⟩, List.nodup_singleton p, ?_, fun q => ?_⟩⟩
      · intro q hq
        rw [List.mem_singleton.mp hq, hc]
        exact Option.some_ne_none c
      · by_cases hq : q = p
        · subst hq
          have hgone : nodesOf ctx' q = none := by rw [hnodes, Dll.detach, if_pos rfl]
          have hnone : ctx' q = none := by simpa [nodesOf] using hgone
          simp [hnone]
        · have hsame := congrArg Option.isSome (hothers q hq)
          rw [Option.isSome_map, Option.isSome_map] at hsame
          simp only [ne_eq, ← Option.isSome_iff_ne_none, hsame, List.mem_singleton, hq,
            not_false_eq_true, and_true]

theorem Effects.frees (he : Effects s s') : ∃ ps, Frees s s' ps := by
  induction he with
  | refl => exact ⟨[], .of_same (List.append_nil _).symm (by simp) fun _ => Iff.rfl⟩
  | tail _ he ih =>
      obtain ⟨ps, hps⟩ := ih
      obtain ⟨qs, hqs⟩ := he.frees
      exact ⟨ps ++ qs, hps.trans hqs⟩

/-- What a connection changes: nothing, or there is one context more. -/
theorem Arrival.contexts {allocOk acceptOk : Bool} (hs : Inv s)
    (ha : Arrival allocOk acceptOk s s') :
    Frees s s' [] ∧ (s.activeClientsCount < maxClients → allocOk = false) ∨
      allocOk = true ∧ s.activeClientsCount < maxClients ∧
        ∀ q, s'.ctx q ≠ none ↔ s.ctx q ≠ none ∨ q = s.contexts := by
  have hnew : s.ctx s.contexts = none := (hs.unborn _ le_rfl).1
  cases ha with
  | full hfull =>
      refine .inl ⟨.of_same (List.append_nil _).symm (by simp) fun _ => Iff.rfl, fun hlt => ?_⟩
      omega
  | noMemory _ hno =>
      exact .inl ⟨.of_same (List.append_nil _).symm (by simp) fun _ => Iff.rfl, fun _ => hno⟩
  | @admitted ctx' hlt hok _ hothers hself _ =>
      refine .inr ⟨hok, hlt, fun q => ?_⟩
      by_cases hq : q = s.contexts
      · obtain ⟨c, hc, -⟩ := hself
        subst hq
        simp [hc]
      · have hsame := congrArg Option.isSome (hothers q hq)
        rw [Option.isSome_map, Option.isSome_map] at hsame
        simp only [ne_eq, ← Option.isSome_iff_ne_none, hsame, hq, or_false]
  | refused hlt hok _ =>
      refine .inr ⟨hok, hlt, fun q => ?_⟩
      by_cases hq : q = s.contexts
      · subst hq
        simp
      · simp [hq]

theorem Effect.contexts_eq (he : Effect s s') : s'.contexts = s.contexts := by
  cases he <;> rfl

theorem Effects.contexts_eq (he : Effects s s') : s'.contexts = s.contexts := by
  induction he with
  | refl => rfl
  | tail _ he ih => exact he.contexts_eq.trans ih

theorem Does.contexts_le {cb : Callback} (hdoes : Does s cb s') : s.contexts ≤ s'.contexts := by
  cases hdoes with
  | failed => exact le_rfl
  | arrival _ harrival =>
      cases harrival with
      | full | noMemory => exact le_rfl
      | admitted | refused => exact Nat.le_succ _
  | client _ heffects => exact heffects.contexts_eq.ge
  | shutdown heffects => exact heffects.contexts_eq.ge

theorem held_length_le (s : Server σ) : s.held.length ≤ s.contexts := by
  have hle := (List.range s.contexts).length_filter_le fun p => (s.ctx p).isSome
  rwa [List.length_range] at hle

end steps

/-! ### Lists of blocks -/

theorem erase_map_of_nodup {α β : Type} [DecidableEq α] [DecidableEq β] (f : α → β) {l : List α}
    {a : α} (hnodup : (l.map f).Nodup) (ha : a ∈ l) :
    (l.map f).erase (f a) = (l.erase a).map f := by
  induction l with
  | nil => cases ha
  | cons b l ih =>
      obtain ⟨hnot, hnodup⟩ := List.nodup_cons.mp hnodup
      rw [List.map_cons]
      by_cases hab : b = a
      · subst hab
        rw [List.erase_cons_head, List.erase_cons_head]
      · have hmem : a ∈ l := (List.mem_cons.mp ha).resolve_left fun h => hab h.symm
        have hne : f b ≠ f a := fun h => hnot (h ▸ List.mem_map_of_mem hmem)
        rw [List.erase_cons_tail (by simpa using hne), List.erase_cons_tail (by simpa using hab),
          List.map_cons, ih hnodup hmem]

section pool
variable {size : ℕ} (hsize : 8 ≤ size)
  (hfits : sizeofChunk + clientChunkCapacity * (8 + size) < sizeT)
include hsize hfits

theorem slab_nodup {slab : SlabState} {live : List ℕ}
    (h : SlabReaches size clientChunkCapacity slab live) : live.Nodup := by
  obtain ⟨⟨chunks, free, hpool⟩, -, -⟩ := h.holds (by decide) hfits (.inl hsize)
  exact hpool.distinct

/-- Freeing the blocks of contexts in use one after the other is legal use of the pool. -/
theorem freeAll_reaches {place : ℕ → ℕ} {ps qs : List ℕ} {slab : SlabState}
    (h : SlabReaches size clientChunkCapacity slab (qs.map place)) (hnodup : ps.Nodup)
    (hsub : ∀ p ∈ ps, p ∈ qs) :
    ∃ rs : List ℕ, SlabReaches size clientChunkCapacity (freeAll place ps slab) (rs.map place) ∧
      ∀ q, q ∈ rs ↔ q ∈ qs ∧ q ∉ ps := by
  induction ps generalizing slab qs with
  | nil => exact ⟨qs, h, by simp⟩
  | cons p ps ih =>
      obtain ⟨hnot, hnodup⟩ := List.nodup_cons.mp hnodup
      have hblocks := slab_nodup hsize hfits h
      have hqs := List.Nodup.of_map place hblocks
      have hp := hsub p List.mem_cons_self
      have hfree := h.free (List.mem_map_of_mem hp)
      rw [erase_map_of_nodup place hblocks hp] at hfree
      have hsub' : ∀ q ∈ ps, q ∈ qs.erase p := by
        intro q hq
        refine (hqs.mem_erase_iff).mpr ⟨?_, hsub q (List.mem_cons_of_mem p hq)⟩
        rintro rfl
        exact hnot hq
      obtain ⟨rs, hrs, hmem⟩ := ih hfree hnodup hsub'
      refine ⟨rs, hrs, fun q => ?_⟩
      rw [hmem, hqs.mem_erase_iff, List.mem_cons, not_or]
      tauto

/-- The blocks in use are those of the contexts that are allocated. -/
structure Hosts (size : ℕ) (x : Hosted σ) : Prop where
  inv : Inv x.server
  blocks : ∃ qs : List ℕ, SlabReaches size clientChunkCapacity x.slab (qs.map x.place) ∧
    ∀ q, q ∈ qs ↔ x.server.ctx q ≠ none

theorem Hosts.frees {x : Hosted σ} (h : Hosts size x) {s' : Server σ} {ps : List ℕ}
    (hs' : Inv s') (hf : Frees x.server s' ps) :
    Hosts size ⟨s', freeAll x.place (releases x.server s') x.slab, x.place⟩ := by
  obtain ⟨qs, hqs, hmem⟩ := h.blocks
  obtain ⟨rs, hrs, hmem'⟩ := freeAll_reaches hsize hfits hqs hf.nodup
    fun p hp => (hmem p).mpr (hf.held p hp)
  refine ⟨hs', rs, ?_, fun q => ?_⟩
  · rw [hf.releases]
    exact hrs
  · rw [hmem', hmem]
    exact (hf.kept q).symm

theorem HostedRun.hosts {svc : Services σ} {s₀ : Server σ} (h₀ : Inv s₀)
    (hnone : ∀ q, s₀.ctx q = none) {x : Hosted σ} (h : HostedRun svc size s₀ x) : Hosts size x := by
  induction h with
  | init place hregions haddress hinit =>
      exact ⟨h₀, [], .init hregions haddress hinit, by simp [hnone]⟩
  | @write x m _ hm ih =>
      obtain ⟨qs, hqs, hmem⟩ := ih.blocks
      refine ⟨ih.inv, qs, hqs.write fun y hy => hm y fun hout => hy ?_, hmem⟩
      refine hout.imp_right ?_
      rintro ⟨p, hp, hle, hlt⟩
      obtain ⟨q, hq, rfl⟩ := List.mem_map.mp hp
      exact ⟨_, List.mem_map_of_mem ((hmem q).mpr (ih.inv.mem_held.mp hq)), hle, hlt⟩
  | @alloc x s' status acceptOk address p slab _ haddress halloc hallowed hasks hstep ih =>
      obtain ⟨qs, hqs, hmem⟩ := ih.blocks
      have hdoes := does_of_step svc ih.inv hallowed hstep
      have hnext := hqs.alloc haddress halloc
      cases hdoes with
      | failed hfailed => exact absurd hasks.1 (not_le.mpr hfailed)
      | client hnot => exact absurd rfl (hnot _ _ _)
      | arrival _ harrival =>
          have hs := ih.inv.listener true x.server.stopped
          have hs' := hs.arrival harrival
          rcases harrival.contexts hs with ⟨hfrees, hfail⟩ | ⟨hok, -, hctx⟩
          · have hp : p = 0 := by simpa using hfail hasks.2
            rw [if_pos hp] at hnext ⊢
            refine ⟨hs', qs, hnext, fun q => ?_⟩
            rw [hmem]
            simpa using (hfrees.kept q).symm
          · have hp : p ≠ 0 := by simpa using hok
            rw [if_neg hp] at hnext ⊢
            have hnew : x.server.contexts ∉ qs := by
              rw [hmem, not_not]
              exact (ih.inv.unborn _ le_rfl).1
            have hsame : qs.map (Function.update x.place x.server.contexts p) = qs.map x.place := by
              apply List.map_congr_left
              intro q hq
              rw [Function.update_of_ne]
              rintro rfl
              exact hnew hq
            refine ⟨hs', x.server.contexts :: qs, ?_, fun q => ?_⟩
            · show SlabReaches size clientChunkCapacity slab
                ((x.server.contexts :: qs).map (Function.update x.place x.server.contexts p))
              rw [List.map_cons, Function.update_self, hsame]
              exact hnext
            · rw [List.mem_cons, hmem, hctx, or_comm]
  | @callback x s' cb _ hallowed hasks hstep ih =>
      have hdoes := does_of_step svc ih.inv hallowed hstep
      have hs' := ih.inv.does hdoes
      cases hdoes with
      | failed =>
          exact ih.frees hsize hfits hs'
            (.of_same (List.append_nil _).symm (by simp) fun _ => Iff.rfl)
      | @arrival status a b _ hstatus harrival =>
          rcases harrival.contexts (ih.inv.listener true x.server.stopped) with
            ⟨hfrees, -⟩ | ⟨-, hlt, -⟩
          · exact ih.frees hsize hfits hs' ⟨hfrees.calls, hfrees.nodup, hfrees.held, hfrees.kept⟩
          · exact absurd ⟨hstatus, hlt⟩ hasks
      | client _ heffects =>
          obtain ⟨ps, hps⟩ := heffects.frees
          exact ih.frees hsize hfits hs' hps
      | @shutdown s₁ heffects =>
          obtain ⟨ps, hps⟩ := heffects.frees
          exact ih.frees hsize hfits hs' ⟨hps.calls, hps.nodup, hps.held, hps.kept⟩

/-- The contexts in use are as many as the blocks. -/
theorem Hosts.length_eq {x : Hosted σ} (h : Hosts size x) {qs : List ℕ}
    (hqs : SlabReaches size clientChunkCapacity x.slab (qs.map x.place))
    (hmem : ∀ q, q ∈ qs ↔ x.server.ctx q ≠ none) : qs.length = x.server.held.length := by
  have hnodup : qs.Nodup := List.Nodup.of_map x.place (slab_nodup hsize hfits hqs)
  apply List.Perm.length_eq
  refine (List.perm_ext_iff_of_nodup hnodup (List.nodup_range.filter _)).mpr fun q => ?_
  rw [hmem]
  exact h.inv.mem_held.symm

/-- The first chunk has room for so many contexts. -/
theorem Hosts.alloc_runs {x : Hosted σ} (h : Hosts size x)
    (hroom : x.server.held.length < clientChunkCapacity) :
    ∃ p slab, p ≠ 0 ∧ slabPoolAlloc x.slab none = some (p, slab) := by
  obtain ⟨qs, hqs, hmem⟩ := h.blocks
  obtain ⟨⟨chunks, free, hpool⟩, -, hcap⟩ := hqs.holds (by decide) hfits (.inl hsize)
  rcases hpool.alloc callocAddress_none with ⟨slab, _, _, c, _, i, _, halloc, -⟩ | ⟨-, -, hfull⟩
  · exact ⟨_, slab, Nat.succ_ne_zero _, halloc⟩
  · -- a pool whose blocks are all in use has at least a chunk of them
    have hlength := hpool.live_eq_of_full hfull
    rw [hcap, hpool.regions_length, List.length_map, h.length_eq hsize hfits hqs hmem] at hlength
    have hpos := List.length_pos_iff.mpr hpool.nonempty
    have hle := Nat.le_mul_of_pos_right clientChunkCapacity hpos
    omega

/-- A callback of the server is one on its pool, as long as the pool has room. -/
theorem HostedRun.more {svc : Services σ} {responseBuffer : Bytes} {app : σ} {x : Hosted σ}
    (h : HostedRun svc size (start responseBuffer app) x)
    (hroom : x.server.held.length < clientChunkCapacity) {cb : Callback} {s' : Server σ}
    (hgiven : ∀ status acceptOk, cb ≠ .connection status false acceptOk)
    (hallowed : Allowed x.server cb) (hstep : step svc cb x.server = some s') :
    ∃ x', HostedRun svc size (start responseBuffer app) x' ∧ x'.server = s' := by
  by_cases hasks : AsksForContext x.server cb
  · cases cb with
    | connection status allocOk acceptOk =>
        have hhosts := h.hosts hsize hfits (inv_start responseBuffer app) fun _ => rfl
        obtain ⟨p, slab, hp, halloc⟩ := hhosts.alloc_runs hsize hfits hroom
        have hok : allocOk = decide (p ≠ 0) := by
          rw [decide_eq_true hp, ← Bool.not_eq_false]
          rintro rfl
          exact hgiven status acceptOk rfl
        subst hok
        exact ⟨_, .alloc h callocAddress_none halloc hallowed hasks hstep, rfl⟩
    | readable | readError | written | timeout | closed | shutdown => cases hasks
  · exact ⟨_, .callback h hallowed hasks hstep, rfl⟩

/-- Every run of the server with at most a chunk of contexts is one on its pool. -/
theorem Trace.hosted {svc : Services σ} {responseBuffer : Bytes} {app : σ} {x₀ : Hosted σ}
    (h₀ : HostedRun svc size (start responseBuffer app) x₀)
    (hx₀ : x₀.server = start responseBuffer app) {cbs : List Callback} {s : Server σ}
    (h : Trace svc (start responseBuffer app) cbs s)
    (hgiven : ∀ cb ∈ cbs, ∀ status acceptOk, cb ≠ .connection status false acceptOk)
    (hroom : s.contexts < clientChunkCapacity) :
    ∃ x, HostedRun svc size (start responseBuffer app) x ∧ x.server = s := by
  induction h with
  | nil => exact ⟨x₀, h₀, hx₀⟩
  | @snoc cbs s s' cb htrace hallowed hstep ih =>
      have hs := htrace.inv (inv_start responseBuffer app)
      have hle := (does_of_step svc hs hallowed hstep).contexts_le
      obtain ⟨x, hx, rfl⟩ := ih (fun d hd => hgiven d (List.mem_append_left _ hd)) (by omega)
      have hheld := held_length_le x.server
      exact hx.more hsize hfits (by omega) (hgiven cb (by simp)) hallowed hstep

/-- **The contexts in use never overlap.**  In every run of the server on its pool the blocks in use
are those of the allocated contexts, reached by legal use of the pool: different contexts have
disjoint blocks in memory that the pool holds, and the pool holds at most as many chunks as there
are contexts, or one. -/
theorem contexts_in_slab (svc : Services σ) {responseBuffer : Bytes} {app : σ} {x : Hosted σ}
    (h : HostedRun svc size (start responseBuffer app) x) :
    (∃ qs : List ℕ, SlabReaches size clientChunkCapacity x.slab (qs.map x.place) ∧
        ∀ q, q ∈ qs ↔ x.server.ctx q ≠ none) ∧
      (∀ p q, x.server.ctx p ≠ none → x.server.ctx q ≠ none → p ≠ q →
        x.place p + size ≤ x.place q ∨ x.place q + size ≤ x.place p) ∧
      (∀ p, x.server.ctx p ≠ none →
        ∃ r ∈ x.slab.heap.regions, r.1 ≤ x.place p ∧ x.place p + size ≤ r.1 + r.2) ∧
      x.slab.heap.regions.length ≤ max 1 x.server.held.length := by
  have hhosts := h.hosts hsize hfits (inv_start responseBuffer app) fun _ => rfl
  obtain ⟨qs, hqs, hmem⟩ := hhosts.blocks
  obtain ⟨⟨chunks, free, hpool⟩, hblock, -⟩ := hqs.holds (by decide) hfits (.inl hsize)
  have hmap := hpool.distinct
  have hlive : ∀ p, x.server.ctx p ≠ none → x.place p ∈ qs.map x.place :=
    fun p hp => List.mem_map_of_mem ((hmem p).mpr hp)
  refine ⟨⟨qs, hqs, hmem⟩, fun p q hp hq hpq => ?_, fun p hp => ?_, ?_⟩
  · have hne : x.place p ≠ x.place q := by
      intro heq
      exact hpq (List.inj_on_of_nodup_map hmap ((hmem p).mpr hp) ((hmem q).mpr hq) heq)
    have hapart := hpool.disjoint (hlive p hp) (hlive q hq) hne
    rwa [hblock] at hapart
  · obtain ⟨c, hc, i, hi, -, hplace⟩ := (hpool.live _).mp (hlive p hp)
    have hinside := hpool.sized.inside (c := c) hi
    have huser : userArea x.slab.pool c i = blockStart x.slab.pool c i + 8 := rfl
    refine ⟨_, hpool.region_iff.mpr ⟨c, hc, rfl⟩, ?_⟩
    rw [hplace, huser]
    dsimp only
    omega
  · have hle := hqs.regions_le (by decide) hfits (.inl hsize)
    rwa [List.length_map, hhosts.length_eq hsize hfits hqs hmem] at hle

end pool

/-- The pool right after `client_manager_init`, at address 4096. -/
def freshPool : SlabState :=
  (slabPoolInit ⟨fun _ => 0, []⟩ 448 clientChunkCapacity (some 4096)).2

theorem hostedRun_start : HostedRun echo 448 (start [] ()) ⟨start [] (), freshPool, fun _ => 0⟩ := by
  have haddress : CallocAddress ⟨fun _ => 0, []⟩ (chunkSize ⟨448, (8 + 448) % sizeT,
      clientChunkCapacity, 0⟩) (some 4096) := by
    rintro _ ⟨rfl⟩
    exact ⟨by decide, by decide, fun r hr => by cases hr⟩
  exact .init _ rfl haddress rfl

/-- A context has been released, and two are in use. -/
theorem contexts_in_slab_mixed : ∃ x : Hosted Unit, HostedRun echo 448 (start [] ()) x ∧
    x.server = mixed ∧
      (x.place 1 + 448 ≤ x.place 2 ∨ x.place 2 + 448 ≤ x.place 1) ∧
      (∃ r ∈ x.slab.heap.regions, r.1 ≤ x.place 1 ∧ x.place 1 + 448 ≤ r.1 + r.2) ∧
      x.slab.heap.regions.length ≤ 2 := by
  have hroom : mixed.contexts < clientChunkCapacity := by
    rw [mixed_state.1]
    decide
  have hgiven : ∀ cb ∈ mixedCallbacks, ∀ status acceptOk,
      cb ≠ .connection status false acceptOk := by
    simp [mixedCallbacks, readText]
  obtain ⟨x, hrun, hserver⟩ :=
    trace_mixed.hosted (by decide) (by decide) hostedRun_start rfl hgiven hroom
  have hused : (mixed.ctx 1 ≠ none ∧ mixed.ctx 2 ≠ none) ∧ mixed.held.length = 2 := by
    decide +kernel
  rw [← hserver] at hused
  obtain ⟨⟨h₁, h₂⟩, hheld⟩ := hused
  obtain ⟨-, happart, hinside, hchunks⟩ := contexts_in_slab (by decide) (by decide) echo hrun
  rw [hheld] at hchunks
  exact ⟨x, hrun, hserver, happart 1 2 h₁ h₂ (by decide), hinside 1 h₁, hchunks⟩

end Server

end Segnalacity
