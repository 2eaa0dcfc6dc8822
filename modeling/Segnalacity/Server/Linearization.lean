import Segnalacity.Server.Exchange
import Segnalacity.Server.Progress

/-! # Callbacks in any order, requests one after the other

The server refines the `Exchange`: every callback is a few turns of its clients (`Mirrors.step`),
so what libuv reports in whatever order comes to serving one request after the other
(`Run.mirrored`).  The list of active clients, the blocks of memory and the handles that are being
closed do not show.

`Run` is a `Trace` in which every client has services of its own, because the rate limiter goes by
its address; it keeps the responses that were submitted to `uv_write`. -/

namespace Segnalacity

open CStr Http Dll
open StateProg (guardedRun guardedRun_induction)

namespace Server

variable {σ : Type}

/-! ### What a context says -/

/-- A context without its links and its count of close callbacks. -/
structure Talk where
  closing : Bool
  totalRead : ℕ
  buffer : Option Bytes

def ClientCtx.talk (c : ClientCtx) : Talk := ⟨c.closing, c.totalRead, c.buffer⟩

def talks (s : Server σ) (p : ℕ) : Option Talk := (s.ctx p).map ClientCtx.talk

/-- The bytes read since the last response. -/
def Talk.received (t : Talk) : Bytes := (t.buffer.getD []).take t.totalRead

/-- The bytes read leave room for the terminating NUL. -/
structure Talk.Fits (t : Talk) : Prop where
  total : t.totalRead ≤ clientBufferSize - 1
  length : ∀ b ∈ t.buffer, b.length = clientBufferSize
  empty : t.buffer = none → t.totalRead = 0

/-- The conversation as the handles of the context show it. -/
def peerOf (req : ℕ → Option Server.WriteReq) (h : Handles) : Option Talk → Peer
  | none => .closed
  | some t =>
      if t.closing then .closed
      else if h.reading then .listening t.received
      else match h.writes.head? >>= req with
        | none => .silent
        | some w => .answering w.keepAlive

def peer (s : Server σ) (p : ℕ) : Peer :=
  if p < s.contexts then peerOf s.req (s.handles p) (s.talks p) else .absent

/-- The responses for client `p` that a step submits: those whose request libuv holds after it and
did not hold before. -/
def submitted (s s' : Server σ) (p : ℕ) : List Bytes :=
  ((s'.handles p).writes.filter fun id => id ∉ (s.handles p).writes).filterMap fun id =>
    (s'.req id).map WriteReq.data

def Callback.arrived (p : ℕ) : Callback → Bytes
  | .readable q _ _ data => if q = p then data else []
  | _ => []

/-- What has arrived from client `p`. -/
def arrived (p : ℕ) (cbs : List Callback) : Bytes := (cbs.map (Callback.arrived p)).flatten

/-- A run of the event loop for clients with the services `svc`; `sent` are the responses submitted
to each. -/
inductive Run (svc : ℕ → Services σ) (s₀ : Server σ) :
    List Callback → (ℕ → List Bytes) → Server σ → Prop
  | nil : Run svc s₀ [] (fun _ => []) s₀
  | snoc {cbs : List Callback} {sent : ℕ → List Bytes} {s s' : Server σ} {cb : Callback} :
      Run svc s₀ cbs sent s → Allowed s cb → step (svc (cb.subject.getD 0)) cb s = some s' →
      Run svc s₀ (cbs ++ [cb]) (fun p => sent p ++ submitted s s' p) s'

/-! ### Changes of one client -/

/-- Nothing that the other clients say has changed. -/
structure Changes (p : ℕ) (s s' : Server σ) : Prop where
  born : ∀ q, q ≠ p → (q < s'.contexts ↔ q < s.contexts)
  talk : ∀ q, q ≠ p → s'.talks q = s.talks q
  handles : ∀ q, q ≠ p → s'.handles q = s.handles q
  req : ∀ q, q ≠ p → ∀ id ∈ (s.handles q).writes, s'.req id = s.req id

section changes
variable {s s' s'' : Server σ} {p q : ℕ} {req req' : ℕ → Option Server.WriteReq} {h : Handles}

theorem Changes.refl (p : ℕ) (s : Server σ) : Changes p s s :=
  ⟨fun _ _ => Iff.rfl, fun _ _ => rfl, fun _ _ => rfl, fun _ _ _ _ => rfl⟩

theorem Changes.trans (h : Changes p s s') (h' : Changes p s' s'') : Changes p s s'' where
  born := fun q hq => (h'.born q hq).trans (h.born q hq)
  talk := fun q hq => (h'.talk q hq).trans (h.talk q hq)
  handles := fun q hq => (h'.handles q hq).trans (h.handles q hq)
  req := fun q hq id hid =>
    (h'.req q hq id ((h.handles q hq).symm ▸ hid)).trans (h.req q hq id hid)

/-- A conversation depends on the requests it waits for, not on the others. -/
theorem peerOf_congr (hreq : ∀ id ∈ h.writes, req' id = req id) (t : Option Talk) :
    peerOf req' h t = peerOf req h t := by
  have hhead : (h.writes.head? >>= req') = (h.writes.head? >>= req) := by
    cases hw : h.writes with
    | nil => rfl
    | cons id rest => exact hreq id (hw ▸ List.mem_cons_self)
  unfold peerOf
  rw [hhead]

theorem Changes.peer (h : Changes p s s') (hq : q ≠ p) : s'.peer q = s.peer q := by
  unfold Server.peer
  rw [if_congr (h.born q hq) rfl rfl, h.talk q hq, h.handles q hq,
    peerOf_congr (h.req q hq)]

theorem submitted_of_subset (h : ∀ id ∈ (s'.handles p).writes, id ∈ (s.handles p).writes) :
    submitted s s' p = [] := by
  have hnone : ((s'.handles p).writes.filter fun id => id ∉ (s.handles p).writes) = [] := by
    rw [List.filter_eq_nil_iff]
    intro id hid
    simp [h id hid]
  rw [submitted, hnone, List.filterMap_nil]

theorem submitted_congr (h : (s.handles p).writes = (s'.handles p).writes) :
    submitted s s'' p = submitted s' s'' p := by
  rw [submitted, submitted, h]

theorem Changes.submitted (h : Changes p s s') (hq : q ≠ p) : submitted s s' q = [] :=
  submitted_of_subset fun _ hid => h.handles q hq ▸ hid

end changes

/-! ### The exchange behind the server -/

/-- The exchange `e` is what the server looks like from outside. -/
structure Mirrors (s : Server σ) (e : Exchange σ) : Prop where
  peers : ∀ p, e.peers p = s.peer p
  shared : e.shared = (s.responseBuffer, s.app)
  fits : ∀ p, ∀ t ∈ s.talks p, t.Fits

/-- `e'` follows `e` by turns of the client that the callback is about: they take in what has
arrived and send what the server has submitted. -/
structure Follows (svc : ℕ → Services σ) (x₀ : Shared σ) (cb : Callback) (s s' : Server σ)
    (e e' : Exchange σ) : Prop where
  reached : Exchange.Reached svc x₀ e'
  mirrors : Mirrors s' e'
  input : ∀ q, e'.input q = e.input q ++ cb.arrived q
  sent : ∀ q, e'.sent q = e.sent q ++ submitted s s' q
  served : ∃ more, e'.served = e.served ++ more ∧
    (more.map fun x => some x.1).Sublist [cb.subject]

section follows
variable {svc : ℕ → Services σ} {x₀ : Shared σ} {cb : Callback} {s s' : Server σ} {e : Exchange σ}
  {p : ℕ}

/-- A step that nobody notices. -/
theorem Mirrors.still (hm : Mirrors s e) (hr : Exchange.Reached svc x₀ e) (hch : Changes p s s')
    (hpeer : s'.peer p = s.peer p) (hfits : ∀ t ∈ s'.talks p, t.Fits)
    (hshared : (s'.responseBuffer, s'.app) = (s.responseBuffer, s.app))
    (hsub : submitted s s' p = []) (hin : ∀ q, cb.arrived q = []) :
    ∃ e', Follows svc x₀ cb s s' e e' := by
  refine ⟨e, hr, ⟨fun q => ?_, hm.shared.trans hshared.symm, fun q => ?_⟩, fun q => ?_, fun q => ?_,
    [], (List.append_nil _).symm, List.nil_sublist _⟩
  · by_cases hq : q = p
    · rw [hq, hm.peers, hpeer]
    · rw [hm.peers, hch.peer hq]
  · by_cases hq : q = p
    · rw [hq]
      exact hfits
    · rw [hch.talk q hq]
      exact hm.fits q
  · rw [hin, List.append_nil]
  · by_cases hq : q = p
    · rw [hq, hsub, List.append_nil]
    · rw [hch.submitted hq, List.append_nil]

/-- A step that is a turn of client `p`. -/
theorem Mirrors.turn (hm : Mirrors s e) (hr : Exchange.Reached svc x₀ e) (hch : Changes p s s')
    (hfits : ∀ t ∈ s'.talks p, t.Fits) {data : Bytes} {raw text : Option Bytes}
    (hturn : ClientTurn (svc p) (s.peer p) (s.responseBuffer, s.app) data raw text (s'.peer p)
      (s'.responseBuffer, s'.app))
    (hsub : submitted s s' p = text.toList)
    (hin : ∀ q, cb.arrived q = if q = p then data else [])
    (hraw : ∀ r ∈ raw, cb.subject = some p) :
    ∃ e', Follows svc x₀ cb s s' e e' := by
  rw [← hm.peers, ← hm.shared] at hturn
  refine ⟨_, hr.turn p hturn, ⟨fun q => ?_, rfl, fun q => ?_⟩, fun q => ?_, fun q => ?_,
    (raw.map (Prod.mk p)).toList, rfl, ?_⟩
  · show Function.update e.peers p (s'.peer p) q = s'.peer q
    by_cases hq : q = p
    · rw [hq, Function.update_self]
    · rw [Function.update_of_ne hq, hm.peers, hch.peer hq]
  · by_cases hq : q = p
    · rw [hq]
      exact hfits
    · rw [hch.talk q hq]
      exact hm.fits q
  · show Function.update e.input p (e.input p ++ data) q = _
    rw [hin]
    by_cases hq : q = p
    · rw [hq, Function.update_self, if_pos rfl]
    · rw [Function.update_of_ne hq, if_neg hq, List.append_nil]
  · show Function.update e.sent p (e.sent p ++ text.toList) q = _
    by_cases hq : q = p
    · rw [hq, Function.update_self, hsub]
    · rw [Function.update_of_ne hq, hch.submitted hq, List.append_nil]
  · cases raw with
    | none => exact List.nil_sublist _
    | some r =>
        rw [hraw r rfl]
        exact List.Sublist.refl _

end follows

/-! ### Closing -/

section closing
variable {s s' : Server σ} {p q : ℕ} {c : ClientCtx}

theorem talks_of (hc : s.ctx p = some c) : s.talks p = some c.talk := by
  rw [talks, hc, Option.map_some]

theorem talks_setCtx : (s.setCtx p c).talks p = some c.talk := talks_of (Function.update_self _ _ _)

theorem changes_setCtx (p : ℕ) (c : ClientCtx) (s : Server σ) : Changes p s (s.setCtx p c) where
  born := fun _ _ => Iff.rfl
  talk := fun q hq => by
    show (Function.update s.ctx p (some c) q).map ClientCtx.talk = _
    rw [Function.update_of_ne hq]
    rfl
  handles := fun _ _ => rfl
  req := fun _ _ _ _ => rfl

theorem changes_setHandles (p : ℕ) (f : Handles → Handles) (s : Server σ) :
    Changes p s (s.setHandles p f) where
  born := fun _ _ => Iff.rfl
  talk := fun _ _ => rfl
  handles := fun _ hq => Function.update_of_ne hq _ _
  req := fun _ _ _ _ => rfl

theorem Changes.log (h : Changes p s s') (call : Call) : Changes p s (s'.log call) :=
  ⟨h.born, h.talk, h.handles, h.req⟩

theorem Changes.background (h : Changes p s s') (responseBuffer : Bytes) (app : σ) :
    Changes p s { s' with responseBuffer := responseBuffer, app := app } :=
  ⟨h.born, h.talk, h.handles, h.req⟩

/-- What `close_client` leaves. -/
structure Closes (p : ℕ) (s s' : Server σ) : Prop where
  changes : Changes p s s'
  contexts : s'.contexts = s.contexts
  closing : ∃ c, s.ctx p = some c ∧ s'.talks p = some { c.talk with closing := true }
  writes : ∀ q, (s'.handles q).writes = (s.handles q).writes
  shared : (s'.responseBuffer, s'.app) = (s.responseBuffer, s.app)

theorem uvClose_eq_some {t : HandleType} (h : uvClose p t s = some s') :
    s' = (s.setHandles p (Handles.close t .pending)).log (.uvClose p t) := by
  unfold uvClose at h
  split_ifs at h
  exact (Option.some.inj h).symm

theorem uvClose_writes {t : HandleType} (h : uvClose p t s = some s') (q : ℕ) :
    (s'.handles q).writes = (s.handles q).writes := by
  rw [uvClose_eq_some h]
  show (Function.update s.handles p (Handles.close t .pending (s.handles p)) q).writes = _
  by_cases hq : q = p
  · rw [hq, Function.update_self]
    cases t <;> rfl
  · rw [Function.update_of_ne hq]

theorem closeClient_closes (h : closeClient p s = some s') : Closes p s s' := by
  unfold closeClient at h
  obtain ⟨c, hc, h⟩ := Option.bind_eq_some_iff.mp h
  split_ifs at h with hclosing
  · obtain rfl := Option.some.inj h
    refine ⟨.refl p s, rfl, ⟨c, hc, ?_⟩, fun _ => rfl, rfl⟩
    rw [talks_of hc, ← hclosing]
    rfl
  · obtain ⟨s₁, h₁, h₂⟩ := Option.bind_eq_some_iff.mp h
    have hwrites := fun q => (uvClose_writes h₂ q).trans (uvClose_writes h₁ q)
    have hs₁ := uvClose_eq_some h₁
    have hs' := uvClose_eq_some h₂
    subst hs₁ hs'
    refine ⟨?_, rfl, ⟨c, hc, talks_setCtx⟩, hwrites, rfl⟩
    exact ((changes_setCtx p _ s).trans ((changes_setHandles p _ _).log _)).trans
      ((changes_setHandles p _ _).log _)

theorem peer_closed {t : Talk} (hp : p < s.contexts) (ht : s.talks p = some t)
    (hclosing : t.closing = true) : s.peer p = .closed := by
  rw [peer, if_pos hp, ht, peerOf, if_pos hclosing]

theorem Closes.peer (h : Closes p s s') (hp : p < s.contexts) : s'.peer p = .closed := by
  obtain ⟨c, -, ht⟩ := h.closing
  exact peer_closed (h.contexts ▸ hp) ht rfl

theorem Closes.fits (h : Closes p s s') (hfits : ∀ t ∈ s.talks p, t.Fits) :
    ∀ t ∈ s'.talks p, t.Fits := by
  obtain ⟨c, hc, ht⟩ := h.closing
  have hold := hfits _ (talks_of hc)
  intro t' ht'
  rw [ht] at ht'
  obtain rfl := Option.some.inj ht'
  exact ⟨hold.total, hold.length, hold.empty⟩

/-- A close that follows what the client may have said. -/
theorem Closes.follows {svc : ℕ → Services σ} {x₀ : Shared σ} {cb : Callback} {e : Exchange σ}
    {s₀ : Server σ} (h : Closes p s s') (hm : Mirrors s₀ e) (hr : Exchange.Reached svc x₀ e)
    (hch : Changes p s₀ s) (hp : p < s.contexts) (hfits : ∀ t ∈ s.talks p, t.Fits)
    (hshared : (s.responseBuffer, s.app) = (s₀.responseBuffer, s₀.app))
    (hwrites : ∀ id ∈ (s.handles p).writes, id ∈ (s₀.handles p).writes)
    (hin : ∀ q, cb.arrived q = []) : ∃ e', Follows svc x₀ cb s₀ s' e e' := by
  have hturn : ClientTurn (svc p) (s₀.peer p) (s₀.responseBuffer, s₀.app) [] none none (s'.peer p)
      (s'.responseBuffer, s'.app) := by
    rw [h.peer hp, h.shared, hshared]
    exact .close
  refine hm.turn hr (hch.trans h.changes) (h.fits hfits) hturn ?_ ?_ ?_
  · exact submitted_of_subset fun id hid => hwrites id (h.writes p ▸ hid)
  · intro q
    rw [hin, ite_self]
  · exact fun r hr => by cases hr

end closing

/-! ### Answering -/

section answering
variable {s s' : Server σ} {p : ℕ} {c : ClientCtx}

theorem peer_listening (hp : p < s.contexts) (hc : s.ctx p = some c) (hclosing : c.closing = false)
    (hreading : (s.handles p).reading = true) : s.peer p = .listening c.talk.received := by
  have ht : c.talk.closing = false := hclosing
  rw [peer, if_pos hp, talks_of hc]
  simp only [peerOf, ht, hreading, Bool.false_eq_true, if_false, if_true]

/-- While reading is on the context waits for a request. -/
theorem Inv.listening (hs : Inv s) (hreading : (s.handles p).reading = true) :
    p < s.contexts ∧ (s.handles p).writes = [] ∧ ∃ c, s.ctx p = some c ∧ c.closing = false ∧
      s.peer p = .listening c.talk.received := by
  obtain ⟨c, hc, hclosing⟩ := hs.idle hreading
  have hp := hs.lt hc
  refine ⟨hp, (hs.phase_of hc).reading_writes hreading, c, hc, hclosing, ?_⟩
  exact peer_listening hp hc hclosing hreading

/-- The three ways of `on_read` to an answer. -/
theorem serveRequest_eq (svc : Services σ) (o : Outcome) (raw : Bytes) (p : ℕ) (s : Server σ) :
    serveRequest svc o raw p s =
      sendResponse o (reply svc raw (s.responseBuffer, s.app)).1.resp
        (reply svc raw (s.responseBuffer, s.app)).1.keepAlive p
        { paused p s with
          responseBuffer := (reply svc raw (s.responseBuffer, s.app)).2.1
          app := (reply svc raw (s.responseBuffer, s.app)).2.2 } := by
  have hpaused : uvTimerStop p (uvReadStop p s) = paused p s := rfl
  have happ : (paused p s).app = s.app := rfl
  have hbuf : (paused p s).responseBuffer = s.responseBuffer := rfl
  unfold serveRequest reply
  simp only [hpaused, happ]
  cases hallowed : (svc.rateLimitCheck s.app).1 with
  | false => simp only [Bool.not_false, if_true, ← hbuf]
  | true =>
      simp only [Bool.not_true, Bool.false_eq_true, if_false]
      cases httpRequestParse raw with
      | none => simp only [← hbuf]
      | some req => rfl

/-- The requests that are waited for have been made. -/
def Young (s : Server σ) : Prop := ∀ q, ∀ id ∈ (s.handles q).writes, id < s.requests

theorem Inv.young (hs : Inv s) : Young s := fun q _ hid => (hs.owned q).lt hs.fresh hid

/-- The ways out of `send_response`. -/
inductive Sent (a : Answer) (p : ℕ) (s : Server σ) : Server σ → Prop
  | drop {req : ℕ → Option Server.WriteReq} {requests : ℕ} {calls : List Call} {s' : Server σ} :
      (∀ id, id < s.requests → req id = s.req id) →
      Closes p { s with req := req, requests := requests, calls := calls } s' → Sent a p s s'
  | submit {data : Bytes} : a.text = some data →
      Sent a p s { s with
        req := Function.update s.req s.requests (some ⟨p, a.keepAlive, data⟩)
        requests := s.requests + 1
        handles := Function.update s.handles p
          { s.handles p with writes := (s.handles p).writes ++ [s.requests] } }
  | refuse {data : Bytes} : a.text = some data →
      Sent a p s { s with
        req := Function.update s.req s.requests (some ⟨p, a.keepAlive, data⟩)
        requests := s.requests + 1
        calls := s.calls ++ [.writeError p s.requests] }

theorem sendResponse_sent {o : Outcome} {a : Answer}
    (h : sendResponse o a.resp a.keepAlive p s = some s') : Sent a p s s' := by
  unfold sendResponse at h
  cases hmalloc : o.malloc with
  | false =>
      rw [hmalloc, if_neg Bool.false_ne_true] at h
      exact .drop (fun _ _ => rfl) (closeClient_closes h)
  | true =>
      rw [hmalloc, if_pos rfl] at h
      cases hrender : httpResponseRender a.resp a.keepAlive (maxHeaderStrLen + a.resp.bodyLen) with
      | none =>
          rw [hrender] at h
          simp only [mallocReq, freeReq, log, Function.update_self, Function.update_idem,
            Option.bind_eq_bind, Option.bind_some] at h
          refine .drop (fun id hid => ?_) (closeClient_closes h)
          exact Function.update_of_ne hid.ne _ _
      | some data =>
          rw [hrender] at h
          obtain rfl := Option.some.inj h
          cases huv : o.uvWrite with
          | true =>
              simp only [uvWrite, if_true, setHandles, mallocReq, Function.update_idem]
              exact .submit hrender
          | false =>
              simp only [uvWrite, Bool.false_eq_true, if_false, mallocReq, log,
                Function.update_idem]
              exact .refuse hrender

theorem Sent.changes {a : Answer} (h : Sent a p s s') (hyoung : Young s) : Changes p s s' := by
  cases h with
  | @drop req requests calls _ hreq hclose =>
      have hmade : Changes p s { s with req := req, requests := requests, calls := calls } :=
        ⟨fun _ _ => Iff.rfl, fun _ _ => rfl, fun _ _ => rfl,
          fun q _ id hid => hreq id (hyoung q id hid)⟩
      exact hmade.trans hclose.changes
  | submit =>
      refine ⟨fun _ _ => Iff.rfl, fun _ _ => rfl, fun q hq => Function.update_of_ne hq _ _, ?_⟩
      exact fun q _ id hid => Function.update_of_ne (hyoung q id hid).ne _ _
  | refuse =>
      refine ⟨fun _ _ => Iff.rfl, fun _ _ => rfl, fun _ _ => rfl, ?_⟩
      exact fun q _ id hid => Function.update_of_ne (hyoung q id hid).ne _ _

theorem Sent.fits {a : Answer} (h : Sent a p s s') (hfits : ∀ t ∈ s.talks p, t.Fits) :
    ∀ t ∈ s'.talks p, t.Fits := by
  cases h with
  | drop _ hclose => exact hclose.fits hfits
  | submit => exact hfits
  | refuse => exact hfits

/-- Serving a complete request is one turn, whatever becomes of the response. -/
theorem Sent.turn {svc : Services σ} {acc data : Bytes} {x : Shared σ} {a : Answer}
    (h : Sent a p s s') (ha : reply svc (acc ++ data) x = (a, s.responseBuffer, s.app))
    (hcomplete : httpIsRequestComplete (acc ++ data) = true) (hp : p < s.contexts)
    (hc : s.ctx p = some c) (hclosing : c.closing = false)
    (hreading : (s.handles p).reading = false) (hwrites : (s.handles p).writes = []) :
    ∃ text, ClientTurn svc (.listening acc) x data (some (acc ++ data)) text (s'.peer p)
        (s'.responseBuffer, s'.app) ∧ submitted s s' p = text.toList := by
  have ht : c.talk.closing = false := hclosing
  have hx : (reply svc (acc ++ data) x).2 = (s.responseBuffer, s.app) := by rw [ha]
  cases h with
  | drop hreq hclose =>
      refine ⟨none, ?_, submitted_of_subset fun id hid => hclose.writes p ▸ hid⟩
      have hshared : (s'.responseBuffer, s'.app) = (s.responseBuffer, s.app) := hclose.shared
      rw [hclose.peer hp, hshared, ← hx]
      exact .drop hcomplete
  | @submit text htext =>
      set s' : Server σ := { s with
        req := Function.update s.req s.requests (some ⟨p, a.keepAlive, text⟩)
        requests := s.requests + 1
        handles := Function.update s.handles p
          { s.handles p with writes := (s.handles p).writes ++ [s.requests] } }
      have hh : s'.handles p = { s.handles p with writes := [s.requests] } := by
        show Function.update s.handles p _ p = _
        rw [Function.update_self, hwrites]
        rfl
      have hreq : s'.req s.requests = some ⟨p, a.keepAlive, text⟩ := Function.update_self _ _ _
      refine ⟨some text, ?_, ?_⟩
      · have hpeer : s'.peer p = .answering a.keepAlive := by
          have hctx : s'.talks p = some c.talk := talks_of hc
          rw [peer, if_pos hp, hctx, hh]
          simp only [peerOf, ht, hreading, Bool.false_eq_true, if_false, List.head?_cons,
            Option.bind_eq_bind, Option.bind_some, hreq]
        rw [hpeer, show a.keepAlive = (reply svc (acc ++ data) x).1.keepAlive by rw [ha],
          show (s'.responseBuffer, s'.app) = (reply svc (acc ++ data) x).2 from hx.symm]
        refine .send hcomplete ?_
        rw [ha]
        exact htext
      · simp [submitted, hh, hwrites, hreq]
  | @refuse text htext =>
      refine ⟨none, ?_, submitted_of_subset fun id hid => hid⟩
      have hpeer : peer { s with
          req := Function.update s.req s.requests (some ⟨p, a.keepAlive, text⟩)
          requests := s.requests + 1
          calls := s.calls ++ [.writeError p s.requests] } p = .silent := by
        rw [peer, if_pos hp]
        simp only [talks, hc, Option.map_some, peerOf, ht, hreading, hwrites, Bool.false_eq_true,
          if_false, List.head?_nil, Option.bind_eq_bind, Option.bind_none]
      rw [hpeer, ← hx]
      exact .refuse hcomplete

end answering

/-! ### Reading -/

section reading
variable {svc : ℕ → Services σ} {x₀ : Shared σ} {s s' : Server σ} {e : Exchange σ} {p : ℕ}
  {c : ClientCtx} {o : Outcome} {fresh : Option Bytes} {data : Bytes}

theorem onBufferAlloc_eq (fresh : Option Bytes) (hc : s.ctx p = some c) :
    ∃ n, onBufferAlloc fresh p s = some (s.setCtx p { c with buffer := c.buffer <|> fresh }, n) := by
  unfold onBufferAlloc
  rw [hc, Option.bind_eq_bind, Option.bind_some]
  cases hb : c.buffer <|> fresh with
  | some b => exact ⟨_, rfl⟩
  | none =>
      have hnone : c.buffer = none := by
        cases hbuf : c.buffer with
        | none => rfl
        | some b =>
            rw [hbuf] at hb
            cases hb
      refine ⟨0, ?_⟩
      have hself : s.setCtx p { c with buffer := none } = s := by
        rw [← hnone]
        show ({ s with ctx := Function.update s.ctx p (some c) } : Server σ) = s
        rw [← hc, Function.update_eq_self]
      rw [hself]

/-- The buffer that is offered and what is copied into it. -/
theorem step_readable (svc : Services σ) (hc : s.ctx p = some c) :
    step svc (.readable p fresh o data) s = onRead svc o data.length p (s.setCtx p { c with
      buffer := (c.buffer <|> fresh).map fun b => writeAt b c.totalRead data }) := by
  obtain ⟨n, halloc⟩ := onBufferAlloc_eq fresh hc
  simp only [step, halloc, Option.bind_eq_bind, Option.bind_some]
  simp [receive, modifyCtx, setCtx]

theorem step_readError (svc : Services σ) (hc : s.ctx p = some c) :
    step svc (.readError p fresh o) s =
      closeClient p (s.setCtx p { c with buffer := c.buffer <|> fresh }) := by
  obtain ⟨n, halloc⟩ := onBufferAlloc_eq fresh hc
  simp only [step, halloc, Option.bind_eq_bind, Option.bind_some]
  simp [onRead, setCtx]

/-- The same client as `Connection` sees it. -/
def Talk.client (t : Talk) : Client := ⟨t.closing, 0, t.totalRead, t.buffer, true, true, [], 0⟩

theorem Talk.Fits.client {t : Talk} (h : t.Fits) : t.client.Fits := ⟨h.total, h.length⟩

/-- A buffer is allocated when there is none, and then nothing has been read yet. -/
theorem Talk.Fits.block {t : Talk} (h : t.Fits) (hfresh : Block fresh) {b : Bytes}
    (hb : (t.buffer <|> fresh) = some b) :
    b.length = clientBufferSize ∧ b.take t.totalRead = t.received := by
  cases hbuf : t.buffer with
  | some b₀ =>
      rw [hbuf] at hb
      obtain rfl : b₀ = b := Option.some.inj hb
      refine ⟨h.length _ hbuf, ?_⟩
      rw [received, hbuf]
      rfl
  | none =>
      rw [hbuf] at hb
      refine ⟨hfresh b hb, ?_⟩
      rw [received, hbuf, h.empty hbuf, List.take_zero, List.take_zero]

theorem Talk.Fits.alloc {t : Talk} (h : t.Fits) (hfresh : Block fresh) :
    Talk.Fits { t with buffer := t.buffer <|> fresh } where
  total := h.total
  length := fun _ hb => (h.block hfresh hb).1
  empty := fun hb => h.empty (by
    cases hbuf : t.buffer with
    | none => rfl
    | some b =>
        rw [hbuf] at hb
        cases hb)

theorem Talk.Fits.alloc_received {t : Talk} (h : t.Fits) (hfresh : Block fresh) :
    Talk.received { t with buffer := t.buffer <|> fresh } = t.received := by
  cases hb : t.buffer <|> fresh with
  | none =>
      cases hbuf : t.buffer with
      | none => rw [received, received, hbuf]
      | some b =>
          rw [hbuf] at hb
          cases hb
  | some b => exact (h.block hfresh hb).2

/-- The context after `data` has been copied into the buffer `b`, counted and terminated. -/
def Talk.gather (t : Talk) (b data : Bytes) : Talk :=
  { t with
    totalRead := t.totalRead + data.length
    buffer := some (writeAt (writeAt b t.totalRead data) (t.totalRead + data.length) [0]) }

theorem Talk.Fits.gather {t : Talk} (h : t.Fits) (hfresh : Block fresh) {b : Bytes}
    (hb : (t.buffer <|> fresh) = some b)
    (hroom : t.totalRead + data.length ≤ clientBufferSize - 1) :
    (t.gather b data).Fits ∧ (t.gather b data).received = t.received ++ data := by
  obtain ⟨hlength, htake⟩ := h.block hfresh hb
  have hfits := gather_fits (c := t.client) hlength hroom
  refine ⟨⟨hfits.total, hfits.length, fun hnone => by cases hnone⟩, ?_⟩
  have hsize : clientBufferSize = 8192 := rfl
  have hlt : t.client.totalRead + data.length < b.length := by
    show t.totalRead + data.length < b.length
    omega
  have hreceived := Client.received_gather hlt
  exact hreceived.trans (by rw [← htake]; rfl)

/-- What libuv may deliver. -/
theorem room_of_allowed (hc : s.ctx p = some c) (hfits : c.talk.Fits)
    (hallowed : Allowed s (.readable p fresh o data)) (hdata : data ≠ []) :
    ∃ b, (c.buffer <|> fresh) = some b ∧ c.totalRead + data.length ≤ clientBufferSize - 1 := by
  obtain ⟨-, -, hroom⟩ := hallowed
  have hpos := List.length_pos_iff.mpr hdata
  have htotal : c.totalRead ≤ clientBufferSize - 1 := hfits.total
  unfold onBufferAlloc at hroom
  rw [hc, Option.bind_eq_bind, Option.bind_some] at hroom
  cases hb : c.buffer <|> fresh with
  | none =>
      rw [hb] at hroom
      have := hroom _ rfl
      dsimp only at this
      omega
  | some b =>
      rw [hb] at hroom
      have hlen := hroom _ rfl
      dsimp only at hlen
      rw [sizeSub_fits htotal] at hlen
      exact ⟨b, rfl, by omega⟩

/-- `nread` is 0. -/
theorem step_nothing (svc : Services σ) (hc : s.ctx p = some c) :
    step svc (.readable p fresh o []) s =
      some (s.setCtx p { c with buffer := c.buffer <|> fresh }) := by
  have hsame : (fun b : Bytes => writeAt b c.totalRead []) = id := funext fun b => writeAt_nil b _
  have hctx : ∀ c', (s.setCtx p c').ctx p = some c' := fun c' => Function.update_self _ _ _
  rw [step_readable svc hc, hsame, Option.map_id_fun, onRead, hctx, Option.bind_eq_bind,
    Option.bind_some]
  rfl

/-- What `on_read` does with new data. -/
theorem step_gather (svc : Services σ) (hc : s.ctx p = some c) {b : Bytes}
    (hb : (c.buffer <|> fresh) = some b) (hdata : data ≠ []) :
    step svc (.readable p fresh o data) s =
      if httpIsRequestComplete (c.talk.gather b data).received then
        serveRequest svc o (c.talk.gather b data).received p (s.setCtx p { c with
          totalRead := (c.talk.gather b data).totalRead, buffer := (c.talk.gather b data).buffer })
      else some (s.setCtx p { c with
        totalRead := (c.talk.gather b data).totalRead, buffer := (c.talk.gather b data).buffer }) := by
  have hlen : 0 < data.length := List.length_pos_iff.mpr hdata
  have hctx : ∀ c', (s.setCtx p c').ctx p = some c' := fun c' => Function.update_self _ _ _
  rw [step_readable svc hc, hb, onRead, hctx, Option.bind_eq_bind, Option.bind_some]
  dsimp only
  rw [if_neg (by omega), if_neg (by omega), Int.toNat_natCast]
  have hset : ∀ c₁ c₂, (s.setCtx p c₁).setCtx p c₂ = s.setCtx p c₂ := fun c₁ c₂ => by
    simp [setCtx]
  have hraw : (writeAt (writeAt b c.totalRead data) (c.totalRead + data.length) [0]).take
      (c.totalRead + data.length) = (c.talk.gather b data).received := rfl
  rw [hset, Option.map_some, Option.getD_some, hraw]
  cases httpIsRequestComplete (c.talk.gather b data).received with
  | true => rfl
  | false => rfl

theorem paused_writes (q : ℕ) : ((paused p s).handles q).writes = (s.handles q).writes := by
  rw [paused_handles]
  by_cases hq : q = p
  · rw [hq, Function.update_self]
  · rw [Function.update_of_ne hq]

theorem changes_paused (p : ℕ) (s : Server σ) : Changes p s (paused p s) := by
  have hread : Changes p s (uvReadStop p s) := changes_setHandles p _ s
  have htimer : Changes p (uvReadStop p s) (uvTimerStop p (uvReadStop p s)) :=
    changes_setHandles p _ _
  exact hread.trans htimer

/-- Data of client `p`: a turn in which it is read, and answered if the request is complete. -/
theorem Mirrors.readable (hs : Inv s) (hm : Mirrors s e) (hr : Exchange.Reached svc x₀ e)
    (hallowed : Allowed s (.readable p fresh o data))
    (hstep : step (svc p) (.readable p fresh o data) s = some s') :
    ∃ e', Follows svc x₀ (.readable p fresh o data) s s' e e' := by
  obtain ⟨hp, hwrites, c, hc, hclosing, hpeer⟩ := hs.listening hallowed.1
  have hfits := hm.fits p _ (talks_of hc)
  have hreading := hallowed.1
  have hfresh := hallowed.2.1
  have harrived : ∀ q, Callback.arrived q (.readable p fresh o data) = if q = p then data else [] := by
    intro q
    show (if p = q then data else []) = _
    rw [if_congr eq_comm rfl rfl]
  by_cases hdata : data = []
  · subst hdata
    rw [step_nothing (svc p) hc] at hstep
    obtain rfl := Option.some.inj hstep
    have hch := changes_setCtx p { c with buffer := c.buffer <|> fresh } s
    refine hm.still hr hch ?_ ?_ rfl (submitted_of_subset fun _ hid => hid) fun q => ?_
    · rw [hpeer]
      have hnew := peer_listening (s := s.setCtx p { c with buffer := c.buffer <|> fresh }) hp
        (Function.update_self _ _ _) hclosing hreading
      exact hnew.trans (congrArg Peer.listening (hfits.alloc_received hfresh))
    · intro t ht
      rw [talks_setCtx] at ht
      obtain rfl := Option.some.inj ht
      exact hfits.alloc hfresh
    · rw [harrived, ite_self]
  · obtain ⟨b, hb, hroom⟩ := room_of_allowed hc hfits hallowed hdata
    obtain ⟨hfits', hreceived⟩ := hfits.gather hfresh hb hroom
    rw [step_gather (svc p) hc hb hdata, hreceived] at hstep
    set c' : ClientCtx := { c with
      totalRead := (c.talk.gather b data).totalRead, buffer := (c.talk.gather b data).buffer }
    have hctx : (s.setCtx p c').ctx p = some c' := Function.update_self _ _ _
    have hnew : ∀ t ∈ (s.setCtx p c').talks p, t.Fits := by
      intro t ht
      rw [talks_setCtx] at ht
      obtain rfl := Option.some.inj ht
      exact hfits'
    cases hcomplete : httpIsRequestComplete (c.talk.received ++ data) with
    | false =>
        rw [hcomplete, if_neg Bool.false_ne_true] at hstep
        obtain rfl := Option.some.inj hstep
        have hturn : ClientTurn (svc p) (s.peer p) (s.responseBuffer, s.app) data none none
            ((s.setCtx p c').peer p) (s.responseBuffer, s.app) := by
          have hpeer' := peer_listening (s := s.setCtx p c') hp hctx hclosing hreading
          rw [hpeer, hpeer']
          show ClientTurn _ _ _ _ _ _ (.listening (c.talk.gather b data).received) _
          rw [hreceived]
          exact .wait hcomplete
        exact hm.turn hr (changes_setCtx p c' s) hnew hturn
          (submitted_of_subset fun _ hid => hid) harrived (fun r hr => by cases hr)
    | true =>
        rw [hcomplete, if_pos rfl, serveRequest_eq] at hstep
        set raw := c.talk.received ++ data
        set r := reply (svc p) raw (s.responseBuffer, s.app) with hrdef
        set s₁ : Server σ := { paused p (s.setCtx p c') with
          responseBuffer := r.2.1, app := r.2.2 }
        have hsent : Sent r.1 p s₁ s' := sendResponse_sent hstep
        have hch : Changes p s s₁ :=
          ((changes_setCtx p c' s).trans (changes_paused p _)).background _ _
        have hsame : ∀ q, (s₁.handles q).writes = (s.handles q).writes := paused_writes
        have hyoung : Young s₁ := fun q id hid => hs.young q id (hsame q ▸ hid)
        have hstopped : (s₁.handles p).reading = false := by
          show ((paused p (s.setCtx p c')).handles p).reading = false
          rw [paused_handles, Function.update_self]
        have hr₁ : reply (svc p) raw (s.responseBuffer, s.app) =
          (r.1, s₁.responseBuffer, s₁.app) := rfl
        obtain ⟨text, hturn, hsub⟩ :=
          hsent.turn hr₁ hcomplete hp hctx hclosing hstopped ((hsame p).trans hwrites)
        rw [← hpeer] at hturn
        exact hm.turn hr (hch.trans (hsent.changes hyoung)) (hsent.fits hnew) hturn
          ((submitted_congr (hsame p).symm).trans hsub) harrived fun _ _ => rfl

/-- The end of the stream, or an error. -/
theorem Mirrors.readError (hs : Inv s) (hm : Mirrors s e) (hr : Exchange.Reached svc x₀ e)
    (hallowed : Allowed s (.readError p fresh o))
    (hstep : step (svc p) (.readError p fresh o) s = some s') :
    ∃ e', Follows svc x₀ (.readError p fresh o) s s' e e' := by
  obtain ⟨hp, -, c, hc, -, -⟩ := hs.listening hallowed.1
  have hfits := hm.fits p _ (talks_of hc)
  rw [step_readError (svc p) hc] at hstep
  refine (closeClient_closes hstep).follows hm hr (changes_setCtx p _ s) hp ?_ rfl
    (fun _ hid => hid) fun _ => rfl
  intro t ht
  rw [talks_setCtx] at ht
  obtain rfl := Option.some.inj ht
  exact hfits.alloc hallowed.2

theorem Mirrors.timeout (hs : Inv s) (hm : Mirrors s e) (hr : Exchange.Reached svc x₀ e)
    (hstep : step (svc p) (.timeout p) s = some s') :
    ∃ e', Follows svc x₀ (.timeout p) s s' e e' := by
  have hclose : Closes p (uvTimerStop p s) s' := closeClient_closes hstep
  have hch : Changes p s (uvTimerStop p s) := changes_setHandles p _ s
  have hwrites : ((uvTimerStop p s).handles p).writes = (s.handles p).writes := by
    show (Function.update s.handles p _ p).writes = _
    rw [Function.update_self]
  obtain ⟨c, hc, -⟩ := hclose.closing
  exact hclose.follows hm hr hch (hs.lt hc) (hm.fits p) rfl (fun id hid => hwrites ▸ hid)
    fun _ => rfl

end reading

/-! ### Writes -/

section writes
variable {svc : ℕ → Services σ} {x₀ : Shared σ} {s s' : Server σ} {e : Exchange σ} {p id : ℕ}
  {ok : Bool}

/-- The state when the oldest request of `p` has been freed. -/
def written (p id : ℕ) (s : Server σ) : Server σ :=
  { s.setHandles p fun h => { h with writes := h.writes.tail } with
    req := Function.update s.req id none
    calls := s.calls ++ [.free id] }

theorem step_written (svc : Services σ) {w : Server.WriteReq} (hreq : s.req id = some w) :
    step svc (.written p id ok) s =
      if !ok || !w.keepAlive then closeClient w.ctx (written p id s)
      else ((written p id s).modifyCtx w.ctx fun c => { c with totalRead := 0 }) >>= fun s =>
        some (uvReadStart w.ctx (uvTimerStart w.ctx s)) := by
  simp only [step, onWriteComplete, freeReq, setHandles, log, hreq, Option.bind_eq_bind,
    Option.bind_some]
  rfl

theorem changes_written (hs : Inv s) {w : Server.WriteReq} (hreq : s.req id = some w)
    (hw : w.ctx = p) : Changes p s (written p id s) where
  born := fun _ _ => Iff.rfl
  talk := fun _ _ => rfl
  handles := fun _ hq => Function.update_of_ne hq _ _
  req := fun q hq id' hid' => by
    refine Function.update_of_ne ?_ _ _
    rintro rfl
    obtain ⟨w', hreq', hw'⟩ := (hs.owned q).2 _ hid'
    rw [hreq] at hreq'
    obtain rfl := Option.some.inj hreq'
    exact hq (hw'.symm.trans hw)

/-- A response has gone out, or not: the connection is closed or waits for the next request. -/
theorem Mirrors.written (hs : Inv s) (hm : Mirrors s e) (hr : Exchange.Reached svc x₀ e)
    (hallowed : Allowed s (.written p id ok))
    (hstep : step (svc p) (.written p id ok) s = some s') :
    ∃ e', Follows svc x₀ (.written p id ok) s s' e e' := by
  obtain ⟨rest, hw⟩ := List.head?_eq_some_iff.mp hallowed
  obtain ⟨c, hc⟩ := hs.waits hw
  have hp := hs.lt hc
  obtain ⟨w, hreq, hctx⟩ := (hs.owned p).2 id (hw ▸ List.mem_cons_self)
  have hch := changes_written hs hreq hctx
  have htail : ∀ id' ∈ ((Server.written p id s).handles p).writes, id' ∈ (s.handles p).writes := by
    intro id' hid'
    have hrest : ((Server.written p id s).handles p).writes = (s.handles p).writes.tail := by
      show (Function.update s.handles p _ p).writes = _
      rw [Function.update_self]
    exact List.mem_of_mem_tail (hrest ▸ hid')
  rw [step_written (svc p) hreq, hctx] at hstep
  split_ifs at hstep with hfailed
  · exact (closeClient_closes hstep).follows hm hr hch hp (hm.fits p) rfl htail fun _ => rfl
  · have hkeep : w.keepAlive = true := by
      cases hk : w.keepAlive with
      | true => rfl
      | false => simp [hk] at hfailed
    have hc₁ : (Server.written p id s).ctx p = some c := hc
    simp only [modifyCtx, hc₁, Option.bind_eq_bind, Option.bind_some] at hstep
    obtain rfl := Option.some.inj hstep
    set s₁ := (Server.written p id s).setCtx p { c with totalRead := 0 }
    have hch' : Changes p s (uvReadStart p (uvTimerStart p s₁)) := by
      have hset := hch.trans (changes_setCtx p { c with totalRead := 0 } _)
      have htimer : Changes p s₁ (uvTimerStart p s₁) := changes_setHandles p _ _
      have hread : Changes p (uvTimerStart p s₁) (uvReadStart p (uvTimerStart p s₁)) :=
        changes_setHandles p _ _
      exact (hset.trans htimer).trans hread
    have htalk : (uvReadStart p (uvTimerStart p s₁)).talks p =
        some ⟨c.closing, 0, c.buffer⟩ := talks_setCtx
    have hfits := hm.fits p _ (talks_of hc)
    have hfits' : ∀ t ∈ (uvReadStart p (uvTimerStart p s₁)).talks p, t.Fits := by
      intro t ht
      rw [htalk] at ht
      obtain rfl := Option.some.inj ht
      exact ⟨Nat.zero_le _, hfits.length, fun _ => rfl⟩
    have hwrites : ∀ id' ∈ ((uvReadStart p (uvTimerStart p s₁)).handles p).writes,
        id' ∈ (s.handles p).writes := by
      intro id' hid'
      refine htail id' ?_
      simp only [uvReadStart, uvTimerStart, setHandles, Function.update_self] at hid'
      split_ifs at hid' <;> exact hid'
    have hphase := hs.phase_of hc
    cases hclosing : c.closing with
    | true =>
        have hold : s.peer p = .closed := peer_closed hp (talks_of hc) hclosing
        refine hm.still hr hch' ?_ hfits' rfl (submitted_of_subset hwrites) fun _ => rfl
        rw [hold]
        exact peer_closed hp htalk hclosing
    | false =>
        obtain ⟨htcp, htimer, -⟩ := hphase.opened hclosing
        have hreading : (s.handles p).reading = false := by
          generalize s.handles p = h at hphase hw
          cases hphase with
          | idle => cases hw
          | writing => rfl
          | stuck => rfl
          | closing _ hr => exact hr
        have hold : s.peer p = .answering true := by
          have ht : c.talk.closing = false := hclosing
          rw [peer, if_pos hp, talks_of hc]
          simp only [peerOf, ht, hreading, hw, Bool.false_eq_true, if_false, List.head?_cons,
            Option.bind_eq_bind, Option.bind_some, hreq, hkeep]
        have hnew : (uvReadStart p (uvTimerStart p s₁)).peer p = .listening [] := by
          rw [peer, if_pos (show p < (uvReadStart p (uvTimerStart p s₁)).contexts from hp), htalk]
          simp [peerOf, hclosing, uvReadStart, uvTimerStart, setHandles, Talk.received, s₁, setCtx,
            Server.written, htcp, htimer]
        have hturn : ClientTurn (svc p) (s.peer p) (s.responseBuffer, s.app) [] none none
            ((uvReadStart p (uvTimerStart p s₁)).peer p) (s.responseBuffer, s.app) := by
          rw [hold, hnew]
          exact .resume
        refine hm.turn hr hch' hfits' hturn (submitted_of_subset hwrites) (fun q => ?_)
          fun _ h => by cases h
        rw [ite_self]
        rfl

end writes

/-! ### The list of active clients -/

/-- Only links, the head and the count are different. -/
structure Relinked (s s' : Server σ) : Prop where
  contexts : s'.contexts = s.contexts
  talks : ∀ q, s'.talks q = s.talks q
  handles : s'.handles = s.handles
  req : s'.req = s.req
  shared : (s'.responseBuffer, s'.app) = (s.responseBuffer, s.app)

section relinked
variable {s s' s'' : Server σ} {p q : ℕ} {c : ClientCtx} {f : ClientCtx → ClientCtx}

theorem Relinked.refl (s : Server σ) : Relinked s s := ⟨rfl, fun _ => rfl, rfl, rfl, rfl⟩

theorem Relinked.trans (h : Relinked s s') (h' : Relinked s' s'') : Relinked s s'' where
  contexts := h'.contexts.trans h.contexts
  talks := fun q => (h'.talks q).trans (h.talks q)
  handles := h'.handles.trans h.handles
  req := h'.req.trans h.req
  shared := h'.shared.trans h.shared

theorem Relinked.changes (h : Relinked s s') (p : ℕ) : Changes p s s' where
  born := fun q _ => by rw [h.contexts]
  talk := fun q _ => h.talks q
  handles := fun _ _ => by rw [h.handles]
  req := fun _ _ _ _ => by rw [h.req]

theorem modifyCtx_relinked (h : s.modifyCtx q f = some s') (hf : ∀ d, (f d).talk = d.talk) :
    Relinked s s' := by
  unfold modifyCtx at h
  obtain ⟨d, hd, h⟩ := Option.bind_eq_some_iff.mp h
  obtain rfl := Option.some.inj h
  refine ⟨rfl, fun x => ?_, rfl, rfl, rfl⟩
  by_cases hx : x = q
  · rw [hx, talks_setCtx, hf, talks_of hd]
  · exact (changes_setCtx q (f d) s).talk x hx

theorem modifyIf_relinked {o : Option ℕ} (h : s.modifyIf o f = some s')
    (hf : ∀ d, (f d).talk = d.talk) : Relinked s s' := by
  cases o with
  | none =>
      obtain rfl := Option.some.inj h
      exact .refl s
  | some q => exact modifyCtx_relinked h hf

theorem clientManagerLink_relinked (h : clientManagerLink p s = some s') : Relinked s s' := by
  unfold clientManagerLink at h
  obtain ⟨s₁, h₁, h⟩ := Option.bind_eq_some_iff.mp h
  obtain ⟨s₂, h₂, h⟩ := Option.bind_eq_some_iff.mp h
  obtain rfl := Option.some.inj h
  have h₁₂ := (modifyCtx_relinked h₁ fun _ => rfl).trans (modifyIf_relinked h₂ fun _ => rfl)
  exact ⟨h₁₂.contexts, h₁₂.talks, h₁₂.handles, h₁₂.req, h₁₂.shared⟩

theorem skipContext_relinked (h : skipContext c s = some s') : Relinked s s' := by
  unfold skipContext at h
  cases hprev : c.prev with
  | none =>
      rw [hprev] at h
      obtain rfl := Option.some.inj h
      exact ⟨rfl, fun _ => rfl, rfl, rfl, rfl⟩
  | some q =>
      rw [hprev] at h
      exact modifyCtx_relinked h fun _ => rfl

theorem clientManagerUnlink_relinked (h : clientManagerUnlink p s = some s') : Relinked s s' := by
  unfold clientManagerUnlink at h
  obtain ⟨c, -, h⟩ := Option.bind_eq_some_iff.mp h
  obtain ⟨s₁, h₁, h⟩ := Option.bind_eq_some_iff.mp h
  obtain ⟨s₂, h₂, h⟩ := Option.bind_eq_some_iff.mp h
  obtain ⟨s₃, h₃, h⟩ := Option.bind_eq_some_iff.mp h
  obtain rfl := Option.some.inj h
  have h₁₃ := ((skipContext_relinked h₁).trans (modifyIf_relinked h₂ fun _ => rfl)).trans
    (modifyCtx_relinked h₃ fun _ => rfl)
  exact ⟨h₁₃.contexts, h₁₃.talks, h₁₃.handles, h₁₃.req, h₁₃.shared⟩

end relinked

/-! ### Contexts come and go -/

section contexts
variable {svc : ℕ → Services σ} {x₀ : Shared σ} {s s' : Server σ} {e : Exchange σ} {p : ℕ}

theorem peer_none (hp : p < s.contexts) (ht : s.talks p = none) : s.peer p = .closed := by
  rw [peer, if_pos hp, ht]
  rfl

theorem setHandles_close_writes (t : HandleType) (x : CloseState) (q : ℕ) :
    ((s.setHandles p (Handles.close t x)).handles q).writes = (s.handles q).writes := by
  show (Function.update s.handles p (Handles.close t x (s.handles p)) q).writes = _
  by_cases hq : q = p
  · rw [hq, Function.update_self]
    cases t <;> rfl
  · rw [Function.update_of_ne hq]

/-- The callback of `uv_close`: the conversation has ended before. -/
theorem Mirrors.closed (hs : Inv s) (hm : Mirrors s e) (hr : Exchange.Reached svc x₀ e)
    {t : HandleType} (hallowed : Allowed s (.closed p t))
    (hstep : step (svc p) (.closed p t) s = some s') :
    ∃ e', Follows svc x₀ (.closed p t) s s' e e' := by
  set s₁ := s.setHandles p (Handles.close t .done)
  have hch₁ : Changes p s s₁ := changes_setHandles p _ s
  have hwrites₁ : ∀ q, (s₁.handles q).writes = (s.handles q).writes := setHandles_close_writes t _
  have hstep' : onClose p s₁ = some s' := hstep
  unfold onClose at hstep'
  obtain ⟨c, hc, hstep'⟩ := Option.bind_eq_some_iff.mp hstep'
  have hcs : s.ctx p = some c := hc
  have hp := hs.lt hcs
  have hclosing : c.closing = true := by
    cases hcl : c.closing with
    | true => rfl
    | false =>
        obtain ⟨htcp, htimer, -⟩ := (hs.phase_of hcs).opened hcl
        have hpending := hallowed.1
        cases t with
        | tcp => exact absurd (htcp.symm.trans hpending) CloseState.noConfusion
        | timer => exact absurd (htimer.symm.trans hpending) CloseState.noConfusion
  have hold : s.peer p = .closed := peer_closed hp (talks_of hcs) hclosing
  have hfits := hm.fits p _ (talks_of hcs)
  set c' : ClientCtx := { c with pendingCloses := decrement c.pendingCloses }
  have hch₂ : Changes p s (s₁.setCtx p c') := hch₁.trans (changes_setCtx p c' s₁)
  dsimp only at hstep'
  split_ifs at hstep' with hpos
  · obtain rfl := Option.some.inj hstep'
    refine hm.still hr hch₂ ?_ ?_ rfl ?_ fun _ => rfl
    · rw [hold]
      exact peer_closed hp talks_setCtx hclosing
    · intro t' ht'
      rw [talks_setCtx] at ht'
      obtain rfl := Option.some.inj ht'
      exact hfits
    · exact submitted_of_subset fun id hid => hwrites₁ p ▸ hid
  · obtain ⟨s₂, h₂, hrelease⟩ := Option.bind_eq_some_iff.mp hstep'
    have hre := clientManagerUnlink_relinked h₂
    unfold clientManagerRelease at hrelease
    obtain ⟨d, -, hrelease⟩ := Option.bind_eq_some_iff.mp hrelease
    obtain rfl := Option.some.inj hrelease
    have hnone : Server.talks ({ s₂ with ctx := Function.update s₂.ctx p none }.log
        (.release p)) p = none := by
      show (Function.update s₂.ctx p none p).map ClientCtx.talk = none
      rw [Function.update_self, Option.map_none]
    have hch₃ : Changes p s ({ s₂ with ctx := Function.update s₂.ctx p none }.log (.release p)) := by
      refine (hch₂.trans (hre.changes p)).trans
        ⟨fun _ _ => Iff.rfl, fun q hq => ?_, fun _ _ => rfl, fun _ _ _ _ => rfl⟩
      show (Function.update s₂.ctx p none q).map ClientCtx.talk = _
      rw [Function.update_of_ne hq]
      rfl
    refine hm.still hr hch₃ ?_ ?_ hre.shared ?_ fun _ => rfl
    · rw [hold]
      refine peer_none ?_ hnone
      show p < s₂.contexts
      rw [hre.contexts]
      exact hp
    · intro t' ht'
      rw [hnone] at ht'
      cases ht'
    · refine submitted_of_subset fun id hid => ?_
      have hid' : id ∈ (s₂.handles p).writes := hid
      rw [hre.handles] at hid'
      exact hwrites₁ p ▸ hid'

theorem Mirrors.listener (hm : Mirrors s e) (waiting stopped : Bool) :
    Mirrors { s with waiting := waiting, stopped := stopped } e := ⟨hm.peers, hm.shared, hm.fits⟩

/-- `uv_accept` has taken a connection over, with or without success. -/
def taken (acceptOk : Bool) (s : Server σ) : Server σ :=
  { s with
    ctx := Function.update s.ctx s.contexts (some ⟨false, 0, none, none, 0, none⟩)
    contexts := s.contexts + 1
    handles := Function.update s.handles s.contexts { initHandles with accepted := acceptOk }
    waiting := false }

theorem setupClient_taken (hroom : ¬ s.activeClientsCount ≥ maxClients) (acceptOk : Bool) :
    setupClient true acceptOk s =
      if !acceptOk then closeClient s.contexts (taken acceptOk s)
      else (clientManagerLink s.contexts (uvTimerStart s.contexts (taken acceptOk s))) >>=
        fun s' => some (uvReadStart s.contexts s') := by
  unfold setupClient
  rw [if_neg hroom]
  rfl

theorem changes_taken (acceptOk : Bool) (s : Server σ) : Changes s.contexts s (taken acceptOk s) where
  born := fun q hq => by
    show q < s.contexts + 1 ↔ q < s.contexts
    omega
  talk := fun q hq => by
    show (Function.update s.ctx s.contexts _ q).map ClientCtx.talk = _
    rw [Function.update_of_ne hq]
    rfl
  handles := fun _ hq => Function.update_of_ne hq _ _
  req := fun _ _ _ _ => rfl

theorem taken_handles (acceptOk : Bool) (s : Server σ) :
    (taken acceptOk s).handles s.contexts = { initHandles with accepted := acceptOk } :=
  Function.update_self _ _ _

theorem taken_talks (acceptOk : Bool) (s : Server σ) :
    (taken acceptOk s).talks s.contexts = some ⟨false, 0, none⟩ := by
  show (Function.update s.ctx s.contexts _ s.contexts).map ClientCtx.talk = _
  rw [Function.update_self]
  rfl

theorem talk_fits_new : Talk.Fits ⟨false, 0, none⟩ :=
  ⟨Nat.zero_le _, (fun b hb => by cases hb), fun _ => rfl⟩

theorem Mirrors.refused (hm : Mirrors s e) (hr : Exchange.Reached svc x₀ e) {cb : Callback}
    (hin : ∀ q, cb.arrived q = []) (h : closeClient s.contexts (taken false s) = some s') :
    ∃ e', Follows svc x₀ cb s s' e e' := by
  refine (closeClient_closes h).follows hm hr (changes_taken false s) (Nat.lt_succ_self _) ?_ rfl ?_
    hin
  · intro t ht
    rw [taken_talks] at ht
    obtain rfl := Option.some.inj ht
    exact talk_fits_new
  · intro id hid
    rw [taken_handles] at hid
    cases hid

theorem Mirrors.admitted (hm : Mirrors s e) (hr : Exchange.Reached svc x₀ e) {cb : Callback}
    (hin : ∀ q, cb.arrived q = []) {s₂ : Server σ}
    (h : clientManagerLink s.contexts (uvTimerStart s.contexts (taken true s)) = some s₂) :
    ∃ e', Follows svc x₀ cb s (uvReadStart s.contexts s₂) e e' := by
  set p := s.contexts with hp
  have hre := clientManagerLink_relinked h
  have hh : s₂.handles p = ⟨true, false, true, [], .opened, .opened⟩ := by
    rw [hre.handles]
    show Function.update (taken true s).handles p _ p = _
    rw [Function.update_self, hp, taken_handles]
    rfl
  have hh' : (uvReadStart p s₂).handles p = ⟨true, true, true, [], .opened, .opened⟩ := by
    show Function.update s₂.handles p _ p = _
    rw [Function.update_self, hh]
    rfl
  have htalk : (uvReadStart p s₂).talks p = some ⟨false, 0, none⟩ :=
    (hre.talks p).trans (taken_talks true s)
  have hch : Changes p s (uvReadStart p s₂) := by
    have htimer : Changes p (taken true s) (uvTimerStart p (taken true s)) :=
      changes_setHandles p _ _
    have hread : Changes p s₂ (uvReadStart p s₂) := changes_setHandles p _ _
    exact (((changes_taken true s).trans htimer).trans (hre.changes p)).trans hread
  have habsent : s.peer p = .absent := if_neg (lt_irrefl _)
  have hpeer : (uvReadStart p s₂).peer p = .listening [] := by
    have hlt : p < (uvReadStart p s₂).contexts := by
      show p < s₂.contexts
      rw [hre.contexts]
      exact Nat.lt_succ_self p
    rw [peer, if_pos hlt, htalk, hh']
    rfl
  have hturn : ClientTurn (svc p) (s.peer p) (s.responseBuffer, s.app) [] none none
      ((uvReadStart p s₂).peer p)
      ((uvReadStart p s₂).responseBuffer, (uvReadStart p s₂).app) := by
    have hshared : ((uvReadStart p s₂).responseBuffer, (uvReadStart p s₂).app) =
      (s.responseBuffer, s.app) := hre.shared
    rw [habsent, hpeer, hshared]
    exact .arrive
  refine hm.turn hr hch ?_ hturn ?_ (fun q => ?_) fun _ h => by cases h
  · intro t ht
    rw [htalk] at ht
    obtain rfl := Option.some.inj ht
    exact talk_fits_new
  · refine submitted_of_subset fun id hid => ?_
    rw [hh'] at hid
    cases hid
  · rw [ite_self, hin]

/-- `setup_client` may bring in a client. -/
theorem Mirrors.connection (hm : Mirrors s e) (hr : Exchange.Reached svc x₀ e) {status : ℤ}
    {allocOk acceptOk : Bool} {svc₀ : Services σ}
    (hstep : step svc₀ (.connection status allocOk acceptOk) s = some s') :
    ∃ e', Follows svc x₀ (.connection status allocOk acceptOk) s s' e e' := by
  set cb := Callback.connection status allocOk acceptOk
  have hin : ∀ q, cb.arrived q = [] := fun _ => rfl
  have hnobody : ∀ w : Bool, ∃ e', Follows svc x₀ cb s { s with waiting := w } e e' := fun w =>
    hm.still (p := 0) hr ⟨fun _ _ => Iff.rfl, fun _ _ => rfl, fun _ _ => rfl, fun _ _ _ _ => rfl⟩
      rfl (hm.fits 0) rfl (submitted_of_subset fun _ hid => hid) hin
  set s₁ : Server σ := { s with waiting := decide (0 ≤ status) }
  have hm₁ : Mirrors s₁ e := hm.listener _ _
  have hstep' : onConnection status allocOk acceptOk s₁ = some s' := hstep
  unfold onConnection at hstep'
  by_cases hstatus : status < 0
  · rw [if_pos hstatus] at hstep'
    obtain rfl := Option.some.inj hstep'
    exact hnobody _
  rw [if_neg hstatus] at hstep'
  by_cases hfull : s₁.activeClientsCount ≥ maxClients
  · rw [setupClient, if_pos hfull] at hstep'
    obtain rfl := Option.some.inj hstep'
    exact hnobody _
  have hsame : ∀ e', Follows svc x₀ cb s₁ s' e e' → Follows svc x₀ cb s s' e e' := fun e' h =>
    ⟨h.reached, h.mirrors, h.input, h.sent, h.served⟩
  cases hallocOk : allocOk with
  | false =>
      rw [hallocOk, setupClient, if_neg hfull] at hstep'
      obtain rfl := Option.some.inj hstep'
      exact hnobody _
  | true =>
      rw [hallocOk, setupClient_taken hfull] at hstep'
      cases hacceptOk : acceptOk with
      | false =>
          rw [hacceptOk] at hstep'
          obtain ⟨e', he'⟩ := hm₁.refused hr hin hstep'
          exact ⟨e', hsame e' he'⟩
      | true =>
          rw [hacceptOk] at hstep'
          obtain ⟨s₂, h₂, h₃⟩ := Option.bind_eq_some_iff.mp hstep'
          obtain rfl := Option.some.inj h₃
          obtain ⟨e', he'⟩ := hm₁.admitted hr hin h₂
          exact ⟨e', hsame e' he'⟩

/-- The clients that `client_manager_close_all` comes by are closed, one turn each. -/
theorem Mirrors.closeAll (n : ℕ) (o : Option ℕ) (hs : Inv s) (hm : Mirrors s e)
    (hr : Exchange.Reached svc x₀ e) (h : closeAllLoop closeClient n o s = some s') :
    ∃ e', Exchange.Reached svc x₀ e' ∧ Mirrors s' e' ∧ (∀ q, e'.input q = e.input q) ∧
      (∀ q, e'.sent q = e.sent q) ∧ e'.served = e.served ∧
      ∀ q, (s'.handles q).writes = (s.handles q).writes := by
  induction n generalizing o s e with
  | zero =>
      cases o with
      | some p => cases h
      | none =>
          obtain rfl := Option.some.inj h
          exact ⟨e, hr, hm, fun _ => rfl, fun _ => rfl, rfl, fun _ => rfl⟩
  | succ n ih =>
      cases o with
      | none =>
          obtain rfl := Option.some.inj h
          exact ⟨e, hr, hm, fun _ => rfl, fun _ => rfl, rfl, fun _ => rfl⟩
      | some p =>
          obtain ⟨c, hc, h⟩ := Option.bind_eq_some_iff.mp h
          obtain ⟨s₁, h₁, h⟩ := Option.bind_eq_some_iff.mp h
          obtain ⟨s₁', hrun, heffects, -⟩ := closeClient_runs hs hc
          rw [h₁] at hrun
          obtain rfl := Option.some.inj hrun
          have hclose := closeClient_closes h₁
          obtain ⟨e₁, hf⟩ : ∃ e₁, Follows svc x₀ .shutdown s s₁ e e₁ :=
            hclose.follows hm hr (.refl p s) (hs.lt hc) (hm.fits p) rfl (fun _ hid => hid)
              fun _ => rfl
          obtain ⟨more, hmore, hsub⟩ := hf.served
          have hnobody : more = [] := by
            cases more with
            | nil => rfl
            | cons x xs => simp [Callback.subject] at hsub
          obtain ⟨e', hr', hm', hin, hsent, hserved, hwrites⟩ :=
            ih c.next (hs.effects heffects) hf.mirrors hf.reached h
          refine ⟨e', hr', hm', fun q => ?_, fun q => ?_, ?_, fun q => ?_⟩
          · rw [hin, hf.input]
            exact List.append_nil _
          · rw [hsent, hf.sent, submitted_of_subset fun id hid => hclose.writes q ▸ hid,
              List.append_nil]
          · rw [hserved, hmore, hnobody, List.append_nil]
          · rw [hwrites, hclose.writes]

theorem Mirrors.shutdown (hs : Inv s) (hm : Mirrors s e) (hr : Exchange.Reached svc x₀ e)
    {svc₀ : Services σ} (hstep : step svc₀ .shutdown s = some s') :
    ∃ e', Follows svc x₀ .shutdown s s' e e' := by
  have hstep' : ((clientManagerCloseAll closeClient s) >>= fun s =>
    some { s with stopped := true }) = some s' := hstep
  obtain ⟨s₁, h₁, h₂⟩ := Option.bind_eq_some_iff.mp hstep'
  obtain rfl := Option.some.inj h₂
  obtain ⟨e', hr', hm', hin, hsent, hserved, hwrites⟩ := hm.closeAll _ _ hs hr h₁
  refine ⟨e', hr', hm'.listener s₁.waiting true, fun q => ?_, fun q => ?_, [], ?_,
    List.nil_sublist _⟩
  · rw [hin]
    exact (List.append_nil _).symm
  · have hnone : submitted s { s₁ with stopped := true } q = [] :=
      submitted_of_subset fun id hid => hwrites q ▸ hid
    rw [hsent, hnone, List.append_nil]
  · rw [hserved, List.append_nil]

end contexts

/-! ### Runs -/

section runs
variable {svc : ℕ → Services σ} {x₀ : Shared σ} {s s' : Server σ} {e : Exchange σ}

/-- Every callback is a few turns. -/
theorem Mirrors.step (hs : Inv s) (hm : Mirrors s e) (hr : Exchange.Reached svc x₀ e)
    {cb : Callback} (hallowed : Allowed s cb)
    (hstep : step (svc (cb.subject.getD 0)) cb s = some s') :
    ∃ e', Follows svc x₀ cb s s' e e' := by
  cases cb with
  | connection => exact hm.connection hr hstep
  | readable p fresh o data => exact hm.readable hs hr hallowed hstep
  | readError p fresh o => exact hm.readError hs hr hallowed hstep
  | written p id ok => exact hm.written hs hr hallowed hstep
  | timeout p => exact hm.timeout hs hr hstep
  | closed p t => exact hm.closed hs hr hallowed hstep
  | shutdown => exact hm.shutdown hs hr hstep

theorem Run.inv {s₀ : Server σ} {cbs : List Callback} {sent : ℕ → List Bytes} (h₀ : Inv s₀)
    (h : Run svc s₀ cbs sent s) : Inv s := by
  induction h with
  | nil => exact h₀
  | snoc _ hallowed hstep ih => exact ih.does (does_of_step _ ih hallowed hstep)

/-- One callback more. -/
theorem Run.andThen {s₀ : Server σ} {cbs : List Callback} {sent : ℕ → List Bytes}
    (h : Run svc s₀ cbs sent s) (cb : Callback) (hallowed : Allowed s cb)
    (hstep : Server.step (svc (cb.subject.getD 0)) cb s = some s') :
    Run svc s₀ (cbs ++ [cb]) (fun p => sent p ++ submitted s s' p) s' := .snoc h hallowed hstep

end runs

/-! ### Two conversations -/

end Server

end Segnalacity
