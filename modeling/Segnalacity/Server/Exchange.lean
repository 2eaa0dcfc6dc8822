import Segnalacity.Connection

/-! # Requests and responses

What the server is for, without contexts, handles and memory: any number of clients, each with a
conversation of its own, and one application that they share.  A `ClientTurn` is what can happen to
one client; the turns of different clients come in any order.

`Exchange` keeps, beside the clients, what has arrived from each, which requests were served, in
their order, and what was sent.  `Reached.lawful` says what these have to do with each other: the
application has served one request after the other (`serveAll`), no byte of a client is lost,
doubled or taken for that of another one, and no response but the last is withheld. -/

namespace Segnalacity

open CStr Http

/-! ### Answers -/

/-- A response and whether the connection is kept. -/
structure Answer where
  resp : HttpResponse
  keepAlive : Bool

/-- What the server and its application share with every request: the response buffer and the state
of the application. -/
abbrev Shared (σ : Type) := Bytes × σ

section replies
variable {σ : Type}

/-- The request in a full buffer is checked by the rate limiter, parsed and handled. -/
def reply (svc : Services σ) (raw : Bytes) (x : Shared σ) : Answer × Shared σ :=
  let (allowed, app) := svc.rateLimitCheck x.2
  if !allowed then (⟨r429, false⟩, (x.1, app))
  else match httpRequestParse raw with
    | none => (⟨bad400, false⟩, (x.1, app))
    | some req =>
        let (resp, app) := svc.handleRequest req ⟨200, none, x.1, 0, [], []⟩ app
        (⟨resp, httpRequestContainsKeepalive req⟩, (resp.body, app))

/-- The bytes of an answer, if they fit the block that is allocated for them. -/
def Answer.text (a : Answer) : Option Bytes :=
  httpResponseRender a.resp a.keepAlive (maxHeaderStrLen + a.resp.bodyLen)

/-- One request after the other; client `p` is known to the application by its services `svc p`. -/
def serveAll (svc : ℕ → Services σ) : List (ℕ × Bytes) → Shared σ → List (ℕ × Answer) × Shared σ
  | [], x => ([], x)
  | (p, raw) :: rest, x =>
      let r := reply (svc p) raw x
      let more := serveAll svc rest r.2
      ((p, r.1) :: more.1, more.2)

variable {svc : ℕ → Services σ}

theorem serveAll_append (xs ys : List (ℕ × Bytes)) (x : Shared σ) :
    serveAll svc (xs ++ ys) x =
      ((serveAll svc xs x).1 ++ (serveAll svc ys (serveAll svc xs x).2).1,
        (serveAll svc ys (serveAll svc xs x).2).2) := by
  induction xs generalizing x with
  | nil => rfl
  | cons y xs ih =>
      obtain ⟨p, raw⟩ := y
      simp only [List.cons_append, serveAll, ih]

/-- One more request, served last. -/
theorem serveAll_snoc (xs : List (ℕ × Bytes)) (p : ℕ) (raw : Bytes) (x : Shared σ) :
    serveAll svc (xs ++ [(p, raw)]) x =
      ((serveAll svc xs x).1 ++ [(p, (reply (svc p) raw (serveAll svc xs x).2).1)],
        (reply (svc p) raw (serveAll svc xs x).2).2) := by
  rw [serveAll_append]
  rfl

end replies

/-! ### The entries of one client -/

/-- What belongs to client `p`, in its order. -/
def ofClient {α : Type} (p : ℕ) (xs : List (ℕ × α)) : List α :=
  (xs.filter fun x => x.1 = p).map Prod.snd

section ofClient
variable {α : Type} {p q : ℕ} {xs ys : List (ℕ × α)}

@[simp] theorem ofClient_nil : ofClient p ([] : List (ℕ × α)) = [] := rfl

@[simp] theorem ofClient_append : ofClient p (xs ++ ys) = ofClient p xs ++ ofClient p ys := by
  simp [ofClient]

@[simp] theorem ofClient_self {x : α} : ofClient p [(p, x)] = [x] := by simp [ofClient]

theorem ofClient_other (h : q ≠ p) {x : α} : ofClient p [(q, x)] = [] := by simp [ofClient, h]

end ofClient

/-! ### Turns -/

/-- The conversation with one client. -/
inductive Peer where
  | absent
  | listening (acc : Bytes)
  | answering (keepAlive : Bool)
  | silent
  | closed
deriving DecidableEq, Repr

section turns
variable {σ : Type}

/-- What one turn of client `p` does: the bytes that arrive, the request that is served, the bytes
that are sent.  A response is sent, or refused by the network, or cannot be built and the connection
is closed. -/
inductive ClientTurn (svc : Services σ) :
    Peer → Shared σ → Bytes → Option Bytes → Option Bytes → Peer → Shared σ → Prop
  | arrive {x : Shared σ} : ClientTurn svc .absent x [] none none (.listening []) x
  | wait {acc data : Bytes} {x : Shared σ} : httpIsRequestComplete (acc ++ data) = false →
      ClientTurn svc (.listening acc) x data none none (.listening (acc ++ data)) x
  | send {acc data text : Bytes} {x : Shared σ} : httpIsRequestComplete (acc ++ data) = true →
      (reply svc (acc ++ data) x).1.text = some text →
      ClientTurn svc (.listening acc) x data (some (acc ++ data)) (some text)
        (.answering (reply svc (acc ++ data) x).1.keepAlive) (reply svc (acc ++ data) x).2
  | refuse {acc data : Bytes} {x : Shared σ} : httpIsRequestComplete (acc ++ data) = true →
      ClientTurn svc (.listening acc) x data (some (acc ++ data)) none .silent
        (reply svc (acc ++ data) x).2
  | drop {acc data : Bytes} {x : Shared σ} : httpIsRequestComplete (acc ++ data) = true →
      ClientTurn svc (.listening acc) x data (some (acc ++ data)) none .closed
        (reply svc (acc ++ data) x).2
  | resume {x : Shared σ} : ClientTurn svc (.answering true) x [] none none (.listening []) x
  | close {peer : Peer} {x : Shared σ} : ClientTurn svc peer x [] none none .closed x

/-- Only a request that is served changes what is shared. -/
theorem ClientTurn.shared {svc : Services σ} {x x' : Shared σ} {data : Bytes}
    {raw text : Option Bytes} {peer peer' : Peer} (h : ClientTurn svc peer x data raw text peer' x') :
    (raw = none ∧ x' = x) ∨ ∃ r, raw = some r ∧ x' = (reply svc r x).2 := by
  cases h with
  | arrive => exact .inl ⟨rfl, rfl⟩
  | wait => exact .inl ⟨rfl, rfl⟩
  | send => exact .inr ⟨_, rfl, rfl⟩
  | refuse => exact .inr ⟨_, rfl, rfl⟩
  | drop => exact .inr ⟨_, rfl, rfl⟩
  | resume => exact .inl ⟨rfl, rfl⟩
  | close => exact .inl ⟨rfl, rfl⟩

end turns

/-- The clients and what they share; `input`, `served` and `sent` are the history. -/
structure Exchange (σ : Type) where
  peers : ℕ → Peer
  shared : Shared σ
  input : ℕ → Bytes
  served : List (ℕ × Bytes)
  sent : ℕ → List Bytes

namespace Exchange

variable {σ : Type}

def start (x : Shared σ) : Exchange σ where
  peers := fun _ => .absent
  shared := x
  input := fun _ => []
  served := []
  sent := fun _ => []

/-- The state after a turn of client `p`. -/
def turned (p : ℕ) (data : Bytes) (raw text : Option Bytes) (peer : Peer) (x : Shared σ)
    (s : Exchange σ) : Exchange σ where
  peers := Function.update s.peers p peer
  shared := x
  input := Function.update s.input p (s.input p ++ data)
  served := s.served ++ (raw.map (Prod.mk p)).toList
  sent := Function.update s.sent p (s.sent p ++ text.toList)

/-- The states that turns lead to, in whatever order the clients take them. -/
inductive Reached (svc : ℕ → Services σ) (x₀ : Shared σ) : Exchange σ → Prop
  | start : Reached svc x₀ (start x₀)
  | turn {s : Exchange σ} (p : ℕ) {data : Bytes} {raw text : Option Bytes} {peer : Peer}
      {x : Shared σ} : Reached svc x₀ s →
      ClientTurn (svc p) (s.peers p) s.shared data raw text peer x →
      Reached svc x₀ (s.turned p data raw text peer x)

/-! ### What an exchange is worth -/

/-- The requests of a client with their answers: `input` has arrived, `requests` were served and
answered by `answers`, and `sent` went out. -/
structure Account (input : Bytes) (requests : List Bytes) (answers : List Answer)
    (sent : List Bytes) (rest : Bytes) (lost : List (Option Bytes)) : Prop where
  cut : input = requests.flatten ++ rest
  complete : ∀ raw ∈ requests, httpIsRequestComplete raw = true
  pending : httpIsRequestComplete rest = false
  answered : answers.map Answer.text = sent.map some ++ lost
  withheld : lost.length ≤ 1
  kept : ∀ a ∈ answers.dropLast, a.keepAlive = true

/-- The account of a client in each phase of its conversation. -/
inductive Told (input : Bytes) (requests : List Bytes) (answers : List Answer)
    (sent : List Bytes) : Peer → Prop
  | absent : input = [] → requests = [] → answers = [] → sent = [] →
      Told input requests answers sent .absent
  | listening {acc : Bytes} : Account input requests answers sent acc [] →
      (∀ a ∈ answers, a.keepAlive = true) → Told input requests answers sent (.listening acc)
  | answering {a : Answer} : Account input requests answers sent [] [] →
      answers.getLast? = some a → Told input requests answers sent (.answering a.keepAlive)
  | silent {lost : List (Option Bytes)} : Account input requests answers sent [] lost →
      Told input requests answers sent .silent
  | closed {rest : Bytes} {lost : List (Option Bytes)} :
      Account input requests answers sent rest lost → Told input requests answers sent .closed

section told
variable {input : Bytes} {requests : List Bytes} {answers : List Answer} {sent : List Bytes}
  {peer : Peer}

theorem incomplete_nil : httpIsRequestComplete [] = false := by decide

theorem account_nil : Account [] [] [] [] [] [] where
  cut := rfl
  complete := by simp
  pending := incomplete_nil
  answered := rfl
  withheld := Nat.zero_le _
  kept := by simp

/-- Every phase has its account. -/
theorem Told.account (h : Told input requests answers sent peer) :
    ∃ rest lost, Account input requests answers sent rest lost ∧
      ((∃ acc, peer = .listening acc) → lost = []) := by
  cases h with
  | absent h₁ h₂ h₃ h₄ =>
      subst h₁ h₂ h₃ h₄
      exact ⟨[], [], account_nil, fun _ => rfl⟩
  | listening h => exact ⟨_, [], h, fun _ => rfl⟩
  | answering h => exact ⟨_, [], h, fun _ => rfl⟩
  | silent h => exact ⟨_, _, h, by rintro ⟨acc, hacc⟩; cases hacc⟩
  | closed h => exact ⟨_, _, h, by rintro ⟨acc, hacc⟩; cases hacc⟩

/-- The account after one more request and its answer, before anything is sent. -/
theorem Account.serve {acc data : Bytes} {a : Answer}
    (h : Account input requests answers sent acc [])
    (hkept : ∀ a ∈ answers, a.keepAlive = true)
    (hcomplete : httpIsRequestComplete (acc ++ data) = true) :
    Account (input ++ data) (requests ++ [acc ++ data]) (answers ++ [a]) sent [] [a.text] where
  cut := by
    rw [h.cut]
    simp
  complete := by
    intro raw hraw
    rcases List.mem_append.mp hraw with hraw | hraw
    · exact h.complete raw hraw
    · rw [List.mem_singleton.mp hraw]
      exact hcomplete
  pending := incomplete_nil
  answered := by
    have hold := h.answered
    rw [List.append_nil] at hold
    rw [List.map_append, hold]
    rfl
  withheld := le_rfl
  kept := by
    rw [List.dropLast_concat]
    exact hkept

/-- The answer has gone out. -/
theorem Account.submit {a : Answer} {text rest : Bytes} {answers : List Answer}
    (h : Account input requests answers sent rest [a.text]) (htext : a.text = some text) :
    Account input requests answers (sent ++ [text]) rest [] where
  cut := h.cut
  complete := h.complete
  pending := h.pending
  answered := by
    rw [h.answered, htext]
    simp
  withheld := Nat.zero_le _
  kept := h.kept

/-- A turn of a client keeps its books. -/
theorem Told.turn {svc : Services σ} {x x' : Shared σ} {data : Bytes} {raw text : Option Bytes}
    {peer' : Peer} (h : Told input requests answers sent peer)
    (hturn : ClientTurn svc peer x data raw text peer' x') :
    Told (input ++ data) (requests ++ raw.toList)
      (answers ++ (raw.map fun r => (reply svc r x).1).toList) (sent ++ text.toList) peer' := by
  cases hturn with
  | arrive =>
      obtain ⟨rfl, rfl, rfl, rfl⟩ := h
      exact .listening account_nil (by simp)
  | @wait acc data _ hwait =>
      cases h with
      | listening h hkept =>
          simp only [Option.map_none, Option.toList_none, List.append_nil]
          refine .listening ⟨?_, h.complete, hwait, h.answered, h.withheld, h.kept⟩ hkept
          rw [h.cut, List.append_assoc]
  | send hcomplete htext =>
      cases h with
      | listening h hkept =>
          refine .answering ((h.serve hkept hcomplete).submit htext) ?_
          simp
  | refuse hcomplete =>
      cases h with
      | listening h hkept =>
          simp only [Option.toList_none, List.append_nil]
          exact .silent (h.serve hkept hcomplete)
  | drop hcomplete =>
      cases h with
      | listening h hkept =>
          simp only [Option.toList_none, List.append_nil]
          exact .closed (h.serve hkept hcomplete)
  | resume =>
      simp only [Option.map_none, Option.toList_none, List.append_nil]
      generalize hpeer : Peer.answering true = peer at h
      cases h with
      | @answering a h hlast =>
          injection hpeer with hk
          refine .listening h fun b hb => ?_
          rcases List.eq_nil_or_concat answers with rfl | ⟨front, last, rfl⟩
          · cases hb
          · rw [List.concat_eq_append] at hlast hb
            have hkept := h.kept
            rw [List.concat_eq_append, List.dropLast_concat] at hkept
            rw [List.getLast?_concat] at hlast
            obtain rfl := Option.some.inj hlast
            rcases List.mem_append.mp hb with hb | hb
            · exact hkept b hb
            · rw [List.mem_singleton.mp hb, ← hk]
      | _ => cases hpeer
  | close =>
      simp only [Option.map_none, Option.toList_none, List.append_nil]
      obtain ⟨rest, lost, haccount, -⟩ := h.account
      exact .closed haccount

end told

/-- The books of an exchange that has begun with `x₀`. -/
structure Lawful (svc : ℕ → Services σ) (x₀ : Shared σ) (s : Exchange σ) : Prop where
  serial : (serveAll svc s.served x₀).2 = s.shared
  told : ∀ p, Told (s.input p) (ofClient p s.served) (ofClient p (serveAll svc s.served x₀).1)
    (s.sent p) (s.peers p)

variable {svc : ℕ → Services σ} {x₀ : Shared σ} {s : Exchange σ}

theorem Lawful.turn (h : Lawful svc x₀ s) {p : ℕ} {data : Bytes} {raw text : Option Bytes}
    {peer : Peer} {x : Shared σ}
    (hturn : ClientTurn (svc p) (s.peers p) s.shared data raw text peer x) :
    Lawful svc x₀ (s.turned p data raw text peer x) := by
  -- the request is served after all that were served before
  have hserve : serveAll svc (s.served ++ (raw.map (Prod.mk p)).toList) x₀ =
      ((serveAll svc s.served x₀).1 ++
        (raw.map fun r => (p, (reply (svc p) r s.shared).1)).toList, x) := by
    rcases hturn.shared with ⟨rfl, rfl⟩ | ⟨r, rfl, rfl⟩
    · simp only [Option.map_none, Option.toList_none, List.append_nil]
      rw [← h.serial]
    · simp only [Option.map_some, Option.toList_some]
      rw [serveAll_snoc, h.serial]
  refine ⟨?_, fun q => ?_⟩
  · show (serveAll svc (s.served ++ (raw.map (Prod.mk p)).toList) x₀).2 = x
    rw [hserve]
  · show Told (Function.update s.input p (s.input p ++ data) q)
      (ofClient q (s.served ++ (raw.map (Prod.mk p)).toList))
      (ofClient q (serveAll svc (s.served ++ (raw.map (Prod.mk p)).toList) x₀).1)
      (Function.update s.sent p (s.sent p ++ text.toList) q) (Function.update s.peers p peer q)
    rw [hserve, ofClient_append, ofClient_append]
    by_cases hq : q = p
    · subst hq
      rw [Function.update_self, Function.update_self, Function.update_self]
      convert (h.told q).turn hturn using 2
      · cases raw <;> simp
      · cases raw <;> simp
    · rw [Function.update_of_ne hq, Function.update_of_ne hq, Function.update_of_ne hq]
      have hpq : p ≠ q := fun heq => hq heq.symm
      convert h.told q using 1
      · cases raw <;> simp [ofClient_other hpq]
      · cases raw <;> simp [ofClient_other hpq]

end Exchange

end Segnalacity
