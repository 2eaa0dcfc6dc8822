import Mathlib.Algebra.BigOperators.Group.Finset.Basic
import Mathlib.Data.Int.Order.Basic
import Mathlib.Logic.Relation
import Segnalacity.Lib.Dll
import Segnalacity.Server.Callbacks

/-! # What a callback does

A callback changes the contexts in a few ways only: `Move` lists what happens to one of them,
`Effect` adds the last close callback, which takes the context out of the list, and `Arrival`
what `setup_client` does.  `Inv` is the invariant that all of them keep. -/

namespace Segnalacity

open CStr Http Dll

namespace Server

variable {σ : Type}

/-! ### Views of the state -/

/-- The two close callbacks have both run. -/
def Handles.Done (h : Handles) : Prop := h.tcpClose = .done ∧ h.timerClose = .done

instance (h : Handles) : Decidable h.Done := inferInstanceAs (Decidable (_ ∧ _))

/-- Accepted, and the two close callbacks have not both run. -/
def Handles.Live (h : Handles) : Prop := h.accepted = true ∧ ¬ h.Done

instance (h : Handles) : Decidable h.Live := inferInstanceAs (Decidable (_ ∧ _))

def Live (s : Server σ) (p : ℕ) : Prop := (s.handles p).Live

instance (s : Server σ) (p : ℕ) : Decidable (s.Live p) := inferInstanceAs (Decidable (Handles.Live _))

/-- The links of the contexts. -/
def nodesOf (ctx : ℕ → Option ClientCtx) : Heap := fun p => (ctx p).map fun c => ⟨c.next, c.prev⟩

def nodes (s : Server σ) : Heap := nodesOf s.ctx

/-- What a context adds to the count: a live client is counted, one that was never accepted is
taken off when it is released. -/
def weight (h : Handles) : ℤ :=
  if h.Done then (if h.accepted then 0 else -1)
  else if h.accepted then 1 else 0

/-! ### One context -/

/-- `Move p req n c h c' h' req' n' new`: what can become of the context `p` and its handles, of
the write requests and their number; `new` are the calls that are logged. -/
inductive Move (p : ℕ) (req : ℕ → Option Server.WriteReq) (n : ℕ) :
    ClientCtx → Handles → ClientCtx → Handles → (ℕ → Option Server.WriteReq) → ℕ → List Call → Prop
  | data {c c' : ClientCtx} {h : Handles} : c'.closing = c.closing →
      c'.pendingCloses = c.pendingCloses → Move p req n c h c' h req n []
  | close {c : ClientCtx} {h : Handles} : c.closing = false →
      Move p req n c h { c with closing := true, pendingCloses := 2 }
        ⟨h.accepted, false, false, h.writes, .pending, .pending⟩ req n
        [.uvClose p .tcp, .uvClose p .timer]
  | submit {c : ClientCtx} {h : Handles} (w : Server.WriteReq) : h.reading = true → w.ctx = p →
      Move p req n c h c { h with reading := false, timer := false, writes := h.writes ++ [n] }
        (Function.update req n (some w)) (n + 1) []
  | refuse {c : ClientCtx} {h : Handles} (w : Server.WriteReq) : h.reading = true →
      Move p req n c h c { h with reading := false, timer := false }
        (Function.update req n (some w)) (n + 1) [.writeError p n]
  | complete {c c' : ClientCtx} {h : Handles} {id : ℕ} {rest : List ℕ} : c.closing = true →
      c'.closing = c.closing → c'.pendingCloses = c.pendingCloses → h.writes = id :: rest →
      Move p req n c h c' { h with writes := rest } (Function.update req id none) n [.free id]
  | resume {c c' : ClientCtx} {h : Handles} {id : ℕ} {rest : List ℕ} : c.closing = false →
      c'.closing = c.closing → c'.pendingCloses = c.pendingCloses → h.writes = id :: rest →
      Move p req n c h c' { h with reading := true, timer := true, writes := rest }
        (Function.update req id none) n [.free id]
  | finish {c : ClientCtx} {h : Handles} {id : ℕ} {rest : List ℕ} : c.closing = false →
      h.writes = id :: rest →
      Move p req n c h { c with closing := true, pendingCloses := 2 }
        ⟨h.accepted, false, false, rest, .pending, .pending⟩ (Function.update req id none) n
        [.free id, .uvClose p .tcp, .uvClose p .timer]
  | closed {c : ClientCtx} {h : Handles} (t : HandleType) : h.closeState t = .pending →
      (t = .tcp → h.writes = []) → 0 < decrement c.pendingCloses →
      Move p req n c h { c with pendingCloses := decrement c.pendingCloses }
        (Handles.close t .done h) req n []

/-! ### The server -/

inductive Effect (s : Server σ) : Server σ → Prop
  | background (responseBuffer : Bytes) (app : σ) :
      Effect s { s with responseBuffer := responseBuffer, app := app }
  | discard :
      Effect s { s with
        req := Function.update s.req s.requests none
        requests := s.requests + 1
        calls := s.calls ++ [.free s.requests] }
  | move {p : ℕ} {c c' : ClientCtx} {h' : Handles} {req' : ℕ → Option Server.WriteReq} {n' : ℕ}
      {new : List Call} : s.ctx p = some c →
      Move p s.req s.requests c (s.handles p) c' h' req' n' new →
      c'.next = c.next → c'.prev = c.prev →
      Effect s { s with
        ctx := Function.update s.ctx p (some c')
        handles := Function.update s.handles p h'
        req := req'
        requests := n'
        calls := s.calls ++ new }
  | last {p : ℕ} {c : ClientCtx} (t : HandleType) {ctx' : ℕ → Option ClientCtx} :
      s.ctx p = some c → (s.handles p).closeState t = .pending →
      (t = .tcp → (s.handles p).writes = []) → decrement c.pendingCloses = 0 →
      (∀ q, q ≠ p → (ctx' q).map (fun d => (d.closing, d.pendingCloses)) =
        (s.ctx q).map fun d => (d.closing, d.pendingCloses)) →
      nodesOf ctx' = detach s.nodes p ⟨c.next, c.prev⟩ →
      Effect s { s with
        ctx := ctx'
        handles := Function.update s.handles p (Handles.close t .done (s.handles p))
        activeClientsHead := detachHead s.activeClientsHead ⟨c.next, c.prev⟩
        activeClientsCount := s.activeClientsCount - 1
        calls := s.calls ++ [.release p] }

abbrev Effects : Server σ → Server σ → Prop := Relation.ReflTransGen Effect

/-- What `setup_client` does with a connection that waits. -/
inductive Arrival (allocOk acceptOk : Bool) (s : Server σ) : Server σ → Prop
  | full : s.activeClientsCount ≥ maxClients → Arrival allocOk acceptOk s s
  | noMemory : s.activeClientsCount < maxClients → allocOk = false → Arrival allocOk acceptOk s s
  | admitted {ctx' : ℕ → Option ClientCtx} : s.activeClientsCount < maxClients → allocOk = true →
      acceptOk = true →
      (∀ q, q ≠ s.contexts → (ctx' q).map (fun d => (d.closing, d.pendingCloses)) =
        (s.ctx q).map fun d => (d.closing, d.pendingCloses)) →
      (∃ c, ctx' s.contexts = some c ∧ c.closing = false) →
      nodesOf ctx' = prepend s.nodes s.activeClientsHead s.contexts →
      Arrival allocOk acceptOk s { s with
        ctx := ctx'
        contexts := s.contexts + 1
        handles := Function.update s.handles s.contexts ⟨true, true, true, [], .opened, .opened⟩
        activeClientsHead := some s.contexts
        activeClientsCount := s.activeClientsCount + 1
        waiting := false }
  | refused : s.activeClientsCount < maxClients → allocOk = true → acceptOk = false →
      Arrival allocOk acceptOk s { s with
        ctx := Function.update s.ctx s.contexts (some ⟨true, 2, none, none, 0, none⟩)
        contexts := s.contexts + 1
        handles := Function.update s.handles s.contexts
          ⟨false, false, false, [], .pending, .pending⟩
        waiting := false
        calls := s.calls ++ [.uvClose s.contexts .tcp, .uvClose s.contexts .timer] }

/-! ### The invariant -/

def pendingCount (h : Handles) : ℕ :=
  (if h.tcpClose = .pending then 1 else 0) + if h.timerClose = .pending then 1 else 0

/-- The phases in the life of a context. -/
inductive Phase : Option ClientCtx → Handles → Prop
  | idle {c : ClientCtx} : c.closing = false → Phase (some c) ⟨true, true, true, [], .opened, .opened⟩
  | writing {c : ClientCtx} (id : ℕ) : c.closing = false →
      Phase (some c) ⟨true, false, false, [id], .opened, .opened⟩
  | stuck {c : ClientCtx} : c.closing = false →
      Phase (some c) ⟨true, false, false, [], .opened, .opened⟩
  | closing {c : ClientCtx} {h : Handles} : c.closing = true → h.reading = false →
      h.timer = false → h.tcpClose ≠ .opened → h.timerClose ≠ .opened →
      (h.tcpClose = .done → h.writes = []) → c.pendingCloses = pendingCount h →
      0 < pendingCount h → Phase (some c) h
  | gone {h : Handles} : h.reading = false → h.timer = false → h.writes = [] →
      h.tcpClose = .done → h.timerClose = .done → Phase none h

/-- The requests that a context waits for. -/
def Owned (req : ℕ → Option Server.WriteReq) (p : ℕ) (h : Handles) : Prop :=
  h.writes.Nodup ∧ ∀ id ∈ h.writes, ∃ w, req id = some w ∧ w.ctx = p

structure Inv (s : Server σ) : Prop where
  unborn : ∀ p, s.contexts ≤ p → s.ctx p = none ∧ s.handles p = initHandles
  phase : ∀ p, p < s.contexts → Phase (s.ctx p) (s.handles p)
  owned : ∀ p, Owned s.req p (s.handles p)
  fresh : ∀ id, s.requests ≤ id → s.req id = none
  links : Threaded s.nodes s.activeClientsHead s.Live
  count : s.activeClientsCount = ∑ p ∈ Finset.range s.contexts, weight (s.handles p)
  cap : s.activeClientsCount ≤ maxClients

/-! ### Moves -/

section moves
variable {p n n' : ℕ} {req req' : ℕ → Option Server.WriteReq} {c c' : ClientCtx} {h h' : Handles}
  {new : List Call}

theorem Phase.not_done (hp : Phase (some c) h) : ¬ h.Done := by
  rintro ⟨htcp, htimer⟩
  cases hp with
  | idle => cases htcp
  | writing => cases htcp
  | stuck => cases htcp
  | closing _ _ _ _ _ _ _ hpos => simp [pendingCount, htcp, htimer] at hpos

/-- A close callback counts one pending handle less. -/
theorem decrement_pendingCount {t : HandleType} (ht : h.closeState t = .pending) :
    decrement (pendingCount h) = pendingCount (Handles.close t .done h) := by
  have hone : ∀ x : CloseState, (if x = .pending then 1 else 0) ≤ 1 := fun x => by
    split_ifs <;> omega
  cases t with
  | tcp =>
      have htcp : h.tcpClose = .pending := ht
      have := hone h.timerClose
      unfold pendingCount decrement Handles.close
      simp only [htcp, if_true, reduceCtorEq, if_false]
      omega
  | timer =>
      have htimer : h.timerClose = .pending := ht
      have := hone h.tcpClose
      unfold pendingCount decrement Handles.close
      simp only [htimer, if_true, reduceCtorEq, if_false]
      omega

theorem Move.accepted (hm : Move p req n c h c' h' req' n' new) : h'.accepted = h.accepted := by
  cases hm with
  | closed t => cases t <;> rfl
  | _ => rfl

theorem Phase.of_same (hp : Phase (some c) h) (hclosing : c'.closing = c.closing)
    (hpending : c'.pendingCloses = c.pendingCloses) : Phase (some c') h := by
  cases hp with
  | idle hc => exact .idle (hclosing.trans hc)
  | writing id hc => exact .writing id (hclosing.trans hc)
  | stuck hc => exact .stuck (hclosing.trans hc)
  | closing hc hr ht h₁ h₂ hw hcount hpos =>
      exact .closing (hclosing.trans hc) hr ht h₁ h₂ hw (hpending.trans hcount) hpos

/-- A context that is not closing has both handles open. -/
theorem Phase.opened (hp : Phase (some c) h) (hc : c.closing = false) :
    h.tcpClose = .opened ∧ h.timerClose = .opened ∧ h.accepted = true := by
  cases hp with
  | closing hc' =>
      rw [hc] at hc'
      cases hc'
  | _ => exact ⟨rfl, rfl, rfl⟩

/-- `close_client` begins the closing phase. -/
theorem phase_close {ws : List ℕ} {a : Bool} :
    Phase (some { c with closing := true, pendingCloses := 2 })
      ⟨a, false, false, ws, .pending, .pending⟩ :=
  .closing rfl rfl rfl CloseState.noConfusion CloseState.noConfusion (fun h => by cases h) rfl
    Nat.two_pos

theorem Move.phase (hm : Move p req n c h c' h' req' n' new) (hp : Phase (some c) h) :
    Phase (some c') h' := by
  cases hm with
  | data hclosing hpending => exact hp.of_same hclosing hpending
  | close _ => exact phase_close
  | submit w hreading _ =>
      cases hp with
      | idle hc => exact .writing n hc
      | closing _ hr =>
          rw [hreading] at hr
          cases hr
      | _ => cases hreading
  | refuse w hreading =>
      cases hp with
      | idle hc => exact .stuck hc
      | closing _ hr =>
          rw [hreading] at hr
          cases hr
      | _ => cases hreading
  | complete hc hclosing hpending hw =>
      refine Phase.of_same ?_ hclosing hpending
      cases hp with
      | closing _ hr ht h₁ h₂ hdone hcount hpos =>
          refine .closing hc hr ht h₁ h₂ (fun hd => ?_) hcount hpos
          rw [hdone hd] at hw
          cases hw
      | idle hc' | writing _ hc' | stuck hc' =>
          rw [hc] at hc'
          cases hc'
  | resume hc hclosing hpending hw =>
      refine Phase.of_same ?_ hclosing hpending
      cases hp with
      | idle => cases hw
      | writing id =>
          obtain ⟨-, rfl⟩ := List.cons.inj hw
          exact .idle hc
      | stuck => cases hw
      | closing hc' =>
          rw [hc] at hc'
          cases hc'
  | finish => exact phase_close
  | closed t hpending htcp hpos =>
      cases hp with
      | closing hc hr ht h₁ h₂ hdone hcount _ =>
          have hleft := decrement_pendingCount hpending
          rw [← hcount] at hleft
          rw [hleft] at hpos ⊢
          cases t with
          | tcp => exact .closing hc rfl ht CloseState.noConfusion h₂ (fun _ => htcp rfl) rfl hpos
          | timer => exact .closing hc hr rfl h₁ CloseState.noConfusion hdone rfl hpos
      | _ => cases t <;> cases hpending

theorem Move.live (hm : Move p req n c h c' h' req' n' new) (hp : Phase (some c) h) :
    h'.Live ↔ h.Live := by
  unfold Handles.Live
  rw [hm.accepted]
  simp only [(hm.phase hp).not_done, hp.not_done]

theorem Move.weight (hm : Move p req n c h c' h' req' n' new) (hp : Phase (some c) h) :
    weight h' = weight h := by
  rw [Server.weight, Server.weight, if_neg hp.not_done, if_neg (hm.phase hp).not_done, hm.accepted]

theorem Owned.lt (hown : Owned req p h) (hfresh : ∀ id, n ≤ id → req id = none) {id : ℕ}
    (hid : id ∈ h.writes) : id < n := by
  by_contra hno
  obtain ⟨w, hw, -⟩ := hown.2 id hid
  rw [hfresh id (not_lt.mp hno)] at hw
  cases hw

/-- The oldest request is freed, the others stay. -/
theorem Owned.tail {id : ℕ} {rest : List ℕ} (hown : Owned req p h) (hw : h.writes = id :: rest)
    (hw' : h'.writes = rest) : Owned (Function.update req id none) p h' := by
  have hnodup := hown.1
  rw [hw] at hnodup
  obtain ⟨hnot, hrest⟩ := List.nodup_cons.mp hnodup
  refine ⟨hw' ▸ hrest, fun x hx => ?_⟩
  rw [hw'] at hx
  have hne : x ≠ id := fun hxid => hnot (hxid ▸ hx)
  rw [Function.update_of_ne hne]
  exact hown.2 x (hw ▸ List.mem_cons_of_mem _ hx)

theorem Move.owned (hm : Move p req n c h c' h' req' n' new) (hown : Owned req p h)
    (hfresh : ∀ id, n ≤ id → req id = none) : Owned req' p h' := by
  have hadded : ∀ (w : Server.WriteReq), ∀ id ∈ h.writes,
      ∃ v, Function.update req n (some w) id = some v ∧ v.ctx = p := by
    intro w id hid
    rw [Function.update_of_ne (hown.lt hfresh hid).ne]
    exact hown.2 id hid
  cases hm with
  | data => exact hown
  | close => exact hown
  | submit w _ hw =>
      refine ⟨?_, fun id hid => ?_⟩
      · have hnot : n ∉ h.writes := fun hn => lt_irrefl n (hown.lt hfresh hn)
        have hconcat := hown.1.concat hnot
        rw [List.concat_eq_append] at hconcat
        exact hconcat
      · rcases List.mem_append.mp hid with hid | hid
        · exact hadded w id hid
        · rw [List.mem_singleton.mp hid, Function.update_self]
          exact ⟨w, rfl, hw⟩
  | refuse w => exact ⟨hown.1, hadded w⟩
  | complete _ _ _ hw => exact hown.tail hw rfl
  | resume _ _ _ hw => exact hown.tail hw rfl
  | finish _ hw => exact hown.tail hw rfl
  | closed t => cases t <;> exact hown

/-- The requests of the other contexts stay. -/
theorem Move.other (hm : Move p req n c h c' h' req' n' new) (hown : Owned req p h)
    (hfresh : ∀ id, n ≤ id → req id = none) {id : ℕ} {w : Server.WriteReq} (hw : req id = some w)
    (hne : w.ctx ≠ p) : req' id = some w := by
  have hadded : ∀ v, Function.update req n (some v) id = some w := by
    intro v
    have hid : id ≠ n := by
      rintro rfl
      rw [hfresh id le_rfl] at hw
      cases hw
    rw [Function.update_of_ne hid]
    exact hw
  have hfreed : ∀ id' ∈ h.writes, Function.update req id' none id = some w := by
    intro id' hid'
    obtain ⟨v, hv, hctx⟩ := hown.2 id' hid'
    have hid : id ≠ id' := by
      rintro rfl
      rw [hw] at hv
      obtain rfl := Option.some.inj hv
      exact hne hctx
    rw [Function.update_of_ne hid]
    exact hw
  cases hm with
  | data | close | closed => exact hw
  | submit v | refuse v => exact hadded v
  | complete _ _ _ hws | resume _ _ _ hws => exact hfreed _ (hws ▸ List.mem_cons_self)
  | finish _ hws => exact hfreed _ (hws ▸ List.mem_cons_self)

theorem Move.fresh (hm : Move p req n c h c' h' req' n' new)
    (hfresh : ∀ id, n ≤ id → req id = none) : ∀ id, n' ≤ id → req' id = none := by
  have hadded : ∀ v id, n + 1 ≤ id → Function.update req n (some v) id = none := by
    intro v id hid
    rw [Function.update_of_ne (by omega)]
    exact hfresh id (by omega)
  have hfreed : ∀ id' id, n ≤ id → Function.update req id' none id = none := by
    intro id' id hid
    by_cases heq : id = id'
    · rw [heq, Function.update_self]
    · rw [Function.update_of_ne heq]
      exact hfresh id hid
  cases hm with
  | data | close | closed => exact hfresh
  | submit v | refuse v => exact hadded v
  | complete | resume | finish => exact hfreed _

end moves

/-! ### The invariant is kept -/

section kept
variable {s s' : Server σ} {p : ℕ} {c : ClientCtx}

theorem Inv.lt (hs : Inv s) (hc : s.ctx p = some c) : p < s.contexts := by
  by_contra hno
  rw [(hs.unborn p (not_lt.mp hno)).1] at hc
  cases hc

theorem Inv.phase_of (hs : Inv s) (hc : s.ctx p = some c) : Phase (some c) (s.handles p) :=
  hc ▸ hs.phase p (hs.lt hc)

theorem nodes_of (hc : s.ctx p = some c) : s.nodes p = some ⟨c.next, c.prev⟩ := by
  rw [nodes, nodesOf, hc, Option.map_some]

theorem nodes_none (hc : s.ctx p = none) : s.nodes p = none := by
  rw [nodes, nodesOf, hc, Option.map_none]

theorem nodesOf_update {ctx : ℕ → Option ClientCtx} {c' : ClientCtx} (hc : ctx p = some c)
    (hnext : c'.next = c.next) (hprev : c'.prev = c.prev) :
    nodesOf (Function.update ctx p (some c')) = nodesOf ctx := by
  funext q
  unfold nodesOf
  by_cases hqp : q = p
  · rw [hqp, Function.update_self, hc, Option.map_some, Option.map_some, hnext, hprev]
  · rw [Function.update_of_ne hqp]

theorem nodesOf_fresh {ctx : ℕ → Option ClientCtx} {b : Bool} {n m : ℕ} {buffer : Option Bytes} :
    nodesOf (Function.update ctx p (some ⟨b, n, none, none, m, buffer⟩)) =
      Function.update (nodesOf ctx) p (some ⟨none, none⟩) := by
  funext q
  by_cases hqp : q = p
  · rw [nodesOf, hqp, Function.update_self, Function.update_self, Option.map_some]
  · rw [nodesOf, Function.update_of_ne hqp, Function.update_of_ne hqp, nodesOf]

theorem live_update {handles : ℕ → Handles} {h : Handles} (hsame : h.Live ↔ (handles p).Live) :
    (fun q => (Function.update handles p h q).Live) = fun q => (handles q).Live := by
  funext q
  by_cases hqp : q = p
  · rw [hqp, Function.update_self]
    exact propext hsame
  · rw [Function.update_of_ne hqp]

theorem live_add (handles : ℕ → Handles) (p : ℕ) {h : Handles} (hlive : h.Live) :
    (fun q => (Function.update handles p h q).Live) = fun q => q = p ∨ (handles q).Live := by
  funext q
  by_cases hqp : q = p
  · rw [hqp, Function.update_self]
    simp [hlive]
  · rw [Function.update_of_ne hqp]
    simp [hqp]

theorem live_remove (handles : ℕ → Handles) (p : ℕ) {h : Handles} (hdead : ¬ h.Live) :
    (fun q => (Function.update handles p h q).Live) = fun q => (handles q).Live ∧ q ≠ p := by
  funext q
  by_cases hqp : q = p
  · rw [hqp, Function.update_self]
    simp [hdead]
  · rw [Function.update_of_ne hqp]
    simp [hqp]

theorem Inv.not_live (hs : Inv s) (hp : s.contexts ≤ p) : ¬ s.Live p := by
  intro h
  have := h.1
  rw [(hs.unborn p hp).2] at this
  cases this

/-- The count after the handles of one context have changed. -/
theorem sum_weight_update {n : ℕ} (f : ℕ → Handles) (h : Handles) (hp : p < n) :
    ∑ q ∈ Finset.range n, weight (Function.update f p h q) =
      (∑ q ∈ Finset.range n, weight (f q)) - weight (f p) + weight h := by
  have hmem := Finset.mem_range.mpr hp
  have hrest : ∑ q ∈ (Finset.range n).erase p, weight (Function.update f p h q) =
      ∑ q ∈ (Finset.range n).erase p, weight (f q) := by
    refine Finset.sum_congr rfl fun q hq => ?_
    rw [Function.update_of_ne (Finset.ne_of_mem_erase hq)]
  rw [← Finset.add_sum_erase _ _ hmem, ← Finset.add_sum_erase _ (fun q => weight (f q)) hmem, hrest,
    Function.update_self]
  omega

theorem Inv.background (hs : Inv s) (responseBuffer : Bytes) (app : σ) :
    Inv { s with responseBuffer := responseBuffer, app := app } :=
  ⟨hs.unborn, hs.phase, hs.owned, hs.fresh, hs.links, hs.count, hs.cap⟩

theorem Inv.listener (hs : Inv s) (waiting stopped : Bool) :
    Inv { s with waiting := waiting, stopped := stopped } :=
  ⟨hs.unborn, hs.phase, hs.owned, hs.fresh, hs.links, hs.count, hs.cap⟩

theorem Inv.discard (hs : Inv s) (calls : List Call) :
    Inv { s with
      req := Function.update s.req s.requests none
      requests := s.requests + 1
      calls := calls } := by
  refine ⟨hs.unborn, hs.phase, fun q => ⟨(hs.owned q).1, fun id hid => ?_⟩, fun id hid => ?_,
    hs.links, hs.count, hs.cap⟩
  · show ∃ w, Function.update s.req s.requests none id = some w ∧ w.ctx = q
    rw [Function.update_of_ne ((hs.owned q).lt hs.fresh hid).ne]
    exact (hs.owned q).2 id hid
  · show Function.update s.req s.requests none id = none
    have hid' : s.requests + 1 ≤ id := hid
    rw [Function.update_of_ne (by omega)]
    exact hs.fresh id (by omega)

theorem Inv.move (hs : Inv s) {c' : ClientCtx} {h' : Handles}
    {req' : ℕ → Option Server.WriteReq} {n' : ℕ} {new : List Call} (hc : s.ctx p = some c)
    (hm : Move p s.req s.requests c (s.handles p) c' h' req' n' new) (hnext : c'.next = c.next)
    (hprev : c'.prev = c.prev) :
    Inv { s with
      ctx := Function.update s.ctx p (some c')
      handles := Function.update s.handles p h'
      req := req'
      requests := n'
      calls := s.calls ++ new } := by
  have hp := hs.lt hc
  have hphase := hs.phase_of hc
  refine ⟨?_, ?_, ?_, hm.fresh hs.fresh, ?_, ?_, hs.cap⟩
  · intro q hq
    have hqp : q ≠ p := by
      rintro rfl
      exact absurd hp (not_lt.mpr hq)
    show Function.update s.ctx p (some c') q = none ∧ Function.update s.handles p h' q = initHandles
    rw [Function.update_of_ne hqp, Function.update_of_ne hqp]
    exact hs.unborn q hq
  · intro q hq
    show Phase (Function.update s.ctx p (some c') q) (Function.update s.handles p h' q)
    by_cases hqp : q = p
    · rw [hqp, Function.update_self, Function.update_self]
      exact hm.phase hphase
    · rw [Function.update_of_ne hqp, Function.update_of_ne hqp]
      exact hs.phase q hq
  · intro q
    show Owned req' q (Function.update s.handles p h' q)
    by_cases hqp : q = p
    · rw [hqp, Function.update_self]
      exact hm.owned (hs.owned p) hs.fresh
    · rw [Function.update_of_ne hqp]
      refine ⟨(hs.owned q).1, fun id hid => ?_⟩
      obtain ⟨w, hw, hctx⟩ := (hs.owned q).2 id hid
      exact ⟨w, hm.other (hs.owned p) hs.fresh hw (hctx ▸ hqp), hctx⟩
  · have hlinks := hs.links
    rw [nodes, ← nodesOf_update hc hnext hprev] at hlinks
    unfold Live at hlinks
    rw [← live_update (hm.live hphase)] at hlinks
    exact hlinks
  · show s.activeClientsCount = ∑ q ∈ Finset.range s.contexts,
      weight (Function.update s.handles p h' q)
    rw [sum_weight_update _ _ hp, hm.weight hphase, sub_add_cancel]
    exact hs.count

theorem pendingCount_eq_zero {h : Handles} (hzero : pendingCount h = 0) :
    h.tcpClose ≠ .pending ∧ h.timerClose ≠ .pending := by
  unfold pendingCount at hzero
  refine ⟨fun htcp => ?_, fun htimer => ?_⟩
  · rw [if_pos htcp] at hzero
    omega
  · rw [if_pos htimer] at hzero
    omega

theorem CloseState.eq_done {x : CloseState} (hopened : x ≠ .opened) (hpending : x ≠ .pending) :
    x = .done := by
  cases x with
  | opened => exact absurd rfl hopened
  | pending => exact absurd rfl hpending
  | done => rfl

/-- The context on which the second close callback runs. -/
theorem Phase.last {c : ClientCtx} {h : Handles} {t : HandleType} (hp : Phase (some c) h)
    (ht : h.closeState t = .pending) (htcp : t = .tcp → h.writes = [])
    (hzero : decrement c.pendingCloses = 0) : Phase none (Handles.close t .done h) := by
  cases hp with
  | closing _ hr htimer h₁ h₂ hdone hcount _ =>
      rw [hcount, decrement_pendingCount ht] at hzero
      obtain ⟨hnone₁, hnone₂⟩ := pendingCount_eq_zero hzero
      cases t with
      | tcp => exact .gone rfl htimer (htcp rfl) rfl (CloseState.eq_done h₂ hnone₂)
      | timer =>
          have htcp' := CloseState.eq_done h₁ hnone₁
          exact .gone hr rfl (hdone htcp') htcp' rfl
  | _ => cases t <;> cases ht

theorem Phase.gone_done {h : Handles} (hp : Phase none h) :
    h.Done ∧ h.writes = [] ∧ h.reading = false ∧ h.timer = false := by
  cases hp with
  | gone hr ht hw h₁ h₂ => exact ⟨⟨h₁, h₂⟩, hw, hr, ht⟩

/-- Contexts of which only the links have changed. -/
theorem phase_of_map {x y : Option ClientCtx} {h : Handles} (hp : Phase y h)
    (hxy : x.map (fun d => (d.closing, d.pendingCloses)) =
      y.map fun d => (d.closing, d.pendingCloses)) : Phase x h := by
  cases y with
  | none =>
      rw [Option.map_none, Option.map_eq_none_iff] at hxy
      exact hxy ▸ hp
  | some c =>
      obtain ⟨c', rfl, hsame⟩ := Option.map_eq_some_iff.mp hxy
      obtain ⟨hclosing, hpending⟩ := Prod.mk.inj hsame
      exact hp.of_same hclosing hpending

theorem Inv.last (hs : Inv s) {t : HandleType} {ctx' : ℕ → Option ClientCtx}
    (hc : s.ctx p = some c) (ht : (s.handles p).closeState t = .pending)
    (htcp : t = .tcp → (s.handles p).writes = []) (hzero : decrement c.pendingCloses = 0)
    (hsame : ∀ q, q ≠ p → (ctx' q).map (fun d => (d.closing, d.pendingCloses)) =
      (s.ctx q).map fun d => (d.closing, d.pendingCloses))
    (hnodes : nodesOf ctx' = detach s.nodes p ⟨c.next, c.prev⟩) :
    Inv { s with
      ctx := ctx'
      handles := Function.update s.handles p (Handles.close t .done (s.handles p))
      activeClientsHead := detachHead s.activeClientsHead ⟨c.next, c.prev⟩
      activeClientsCount := s.activeClientsCount - 1
      calls := s.calls ++ [.release p] } := by
  have hp := hs.lt hc
  have hphase := hs.phase_of hc
  have hgone := hphase.last ht htcp hzero
  obtain ⟨hdone, hwrites, -⟩ := hgone.gone_done
  have haccepted : (Handles.close t .done (s.handles p)).accepted = (s.handles p).accepted := by
    cases t <;> rfl
  have hnone : ctx' p = none := by
    have := congrFun hnodes p
    rw [detach, if_pos rfl] at this
    exact Option.map_eq_none_iff.mp this
  refine ⟨?_, ?_, ?_, hs.fresh, ?_, ?_, ?_⟩
  · intro q hq
    have hqp : q ≠ p := by
      rintro rfl
      exact absurd hp (not_lt.mpr hq)
    obtain ⟨hnone', hinit⟩ := hs.unborn q hq
    refine ⟨?_, (Function.update_of_ne hqp _ _).trans hinit⟩
    have := hsame q hqp
    rw [hnone', Option.map_none, Option.map_eq_none_iff] at this
    exact this
  · intro q hq
    show Phase (ctx' q) (Function.update s.handles p _ q)
    by_cases hqp : q = p
    · rw [hqp, Function.update_self, hnone]
      exact hgone
    · rw [Function.update_of_ne hqp]
      exact phase_of_map (hs.phase q hq) (hsame q hqp)
  · intro q
    show Owned s.req q (Function.update s.handles p _ q)
    by_cases hqp : q = p
    · rw [hqp, Function.update_self]
      refine ⟨by rw [hwrites]; exact List.nodup_nil, fun id hid => ?_⟩
      rw [hwrites] at hid
      cases hid
    · rw [Function.update_of_ne hqp]
      exact hs.owned q
  · have hlinks := hs.links.detach (nodes_of hc)
    rw [← hnodes] at hlinks
    unfold Live at hlinks
    rw [← live_remove s.handles p (fun h => h.2 hdone)] at hlinks
    exact hlinks
  · show s.activeClientsCount - 1 = ∑ q ∈ Finset.range s.contexts, weight (Function.update s.handles p _ q)
    have hweight : weight (Handles.close t .done (s.handles p)) = weight (s.handles p) - 1 := by
      rw [weight, weight, if_pos hdone, if_neg hphase.not_done, haccepted]
      split_ifs <;> rfl
    rw [sum_weight_update _ _ hp, hweight, hs.count]
    omega
  · have := hs.cap
    show s.activeClientsCount - 1 ≤ (maxClients : ℤ)
    omega

theorem Inv.effect (hs : Inv s) (he : Effect s s') : Inv s' := by
  cases he with
  | background responseBuffer app => exact hs.background responseBuffer app
  | discard => exact hs.discard _
  | move hc hm hnext hprev => exact hs.move hc hm hnext hprev
  | last t hc ht htcp hzero hsame hnodes => exact hs.last hc ht htcp hzero hsame hnodes

theorem Inv.effects (hs : Inv s) (he : Effects s s') : Inv s' := by
  induction he with
  | refl => exact hs
  | tail _ he ih => exact ih.effect he

/-! ### Arrivals -/

theorem Inv.admitted (hs : Inv s) {ctx' : ℕ → Option ClientCtx}
    (hroom : s.activeClientsCount < maxClients)
    (hsame : ∀ q, q ≠ s.contexts → (ctx' q).map (fun d => (d.closing, d.pendingCloses)) =
      (s.ctx q).map fun d => (d.closing, d.pendingCloses))
    (hnew : ∃ c, ctx' s.contexts = some c ∧ c.closing = false)
    (hnodes : nodesOf ctx' = prepend s.nodes s.activeClientsHead s.contexts) :
    Inv { s with
      ctx := ctx'
      contexts := s.contexts + 1
      handles := Function.update s.handles s.contexts ⟨true, true, true, [], .opened, .opened⟩
      activeClientsHead := some s.contexts
      activeClientsCount := s.activeClientsCount + 1
      waiting := false } := by
  obtain ⟨c, hc, hclosing⟩ := hnew
  have hnot := hs.not_live (le_refl s.contexts)
  refine ⟨?_, ?_, ?_, hs.fresh, ?_, ?_, ?_⟩
  · intro q hq
    have hq' : s.contexts + 1 ≤ q := hq
    have hqp : q ≠ s.contexts := by omega
    obtain ⟨hnone, hinit⟩ := hs.unborn q (by omega)
    refine ⟨?_, (Function.update_of_ne hqp _ _).trans hinit⟩
    have := hsame q hqp
    rw [hnone, Option.map_none, Option.map_eq_none_iff] at this
    exact this
  · intro q hq
    have hq' : q < s.contexts + 1 := hq
    show Phase (ctx' q) (Function.update s.handles s.contexts _ q)
    by_cases hqp : q = s.contexts
    · rw [hqp, Function.update_self, hc]
      exact .idle hclosing
    · rw [Function.update_of_ne hqp]
      exact phase_of_map (hs.phase q (by omega)) (hsame q hqp)
  · intro q
    show Owned s.req q (Function.update s.handles s.contexts _ q)
    by_cases hqp : q = s.contexts
    · rw [hqp, Function.update_self]
      exact ⟨List.nodup_nil, fun id hid => absurd hid List.not_mem_nil⟩
    · rw [Function.update_of_ne hqp]
      exact hs.owned q
  · have hyoung : ∀ q, s.Live q → q < s.contexts := fun q hq => by
      by_contra hno
      exact hs.not_live (not_lt.mp hno) hq
    have hlinks := hs.links.prepend hnot hyoung
    rw [← hnodes] at hlinks
    unfold Live at hlinks
    rw [← live_add s.handles s.contexts (h := ⟨true, true, true, [], .opened, .opened⟩)
      ⟨rfl, fun h => by cases h.1⟩] at hlinks
    exact hlinks
  · show s.activeClientsCount + 1 = ∑ q ∈ Finset.range (s.contexts + 1),
      weight (Function.update s.handles s.contexts _ q)
    have hold : ∑ q ∈ Finset.range s.contexts, weight (Function.update s.handles s.contexts
        (⟨true, true, true, [], .opened, .opened⟩ : Handles) q) =
        ∑ q ∈ Finset.range s.contexts, weight (s.handles q) := by
      refine Finset.sum_congr rfl fun q hq => ?_
      rw [Function.update_of_ne (Finset.mem_range.mp hq).ne]
    rw [Finset.sum_range_succ, hold, ← hs.count, Function.update_self]
    rfl
  · show s.activeClientsCount + 1 ≤ (maxClients : ℤ)
    omega

theorem Inv.refused (hs : Inv s) (calls : List Call) :
    Inv { s with
      ctx := Function.update s.ctx s.contexts (some ⟨true, 2, none, none, 0, none⟩)
      contexts := s.contexts + 1
      handles := Function.update s.handles s.contexts ⟨false, false, false, [], .pending, .pending⟩
      waiting := false
      calls := calls } := by
  obtain ⟨hnone, hinit⟩ := hs.unborn s.contexts le_rfl
  refine ⟨?_, ?_, ?_, hs.fresh, ?_, ?_, hs.cap⟩
  · intro q hq
    have hq' : s.contexts + 1 ≤ q := hq
    have hqp : q ≠ s.contexts := by omega
    show Function.update s.ctx _ _ q = none ∧ Function.update s.handles _ _ q = initHandles
    rw [Function.update_of_ne hqp, Function.update_of_ne hqp]
    exact hs.unborn q (by omega)
  · intro q hq
    have hq' : q < s.contexts + 1 := hq
    show Phase (Function.update s.ctx _ _ q) (Function.update s.handles s.contexts _ q)
    by_cases hqp : q = s.contexts
    · rw [hqp, Function.update_self, Function.update_self]
      exact phase_close (c := ⟨false, 0, none, none, 0, none⟩)
    · rw [Function.update_of_ne hqp, Function.update_of_ne hqp]
      exact hs.phase q (by omega)
  · intro q
    show Owned s.req q (Function.update s.handles s.contexts _ q)
    by_cases hqp : q = s.contexts
    · rw [hqp, Function.update_self]
      exact ⟨List.nodup_nil, fun id hid => absurd hid List.not_mem_nil⟩
    · rw [Function.update_of_ne hqp]
      exact hs.owned q
  · have hlinks := hs.links.fresh (nodes_none hnone)
    rw [nodes, ← nodesOf_fresh] at hlinks
    unfold Live at hlinks
    have hsame : (⟨false, false, false, [], .pending, .pending⟩ : Handles).Live ↔
        (s.handles s.contexts).Live := by
      rw [hinit]
      exact iff_of_false (fun h => by cases h.1) (fun h => by cases h.1)
    rw [← live_update hsame] at hlinks
    exact hlinks
  · show s.activeClientsCount = ∑ q ∈ Finset.range (s.contexts + 1),
      weight (Function.update s.handles s.contexts _ q)
    have hold : ∑ q ∈ Finset.range s.contexts, weight (Function.update s.handles s.contexts
        (⟨false, false, false, [], .pending, .pending⟩ : Handles) q) =
        ∑ q ∈ Finset.range s.contexts, weight (s.handles q) := by
      refine Finset.sum_congr rfl fun q hq => ?_
      rw [Function.update_of_ne (Finset.mem_range.mp hq).ne]
    rw [Finset.sum_range_succ, hold, ← hs.count, Function.update_self]
    exact (add_zero _).symm

theorem Inv.arrival {a b : Bool} (hs : Inv s) (ha : Arrival a b s s') : Inv s' := by
  cases ha with
  | full => exact hs
  | noMemory => exact hs
  | admitted hroom _ _ hsame hnew hnodes => exact hs.admitted hroom hsame hnew hnodes
  | refused => exact hs.refused _

end kept

end Server

end Segnalacity
