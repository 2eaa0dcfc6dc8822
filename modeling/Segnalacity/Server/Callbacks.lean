import Mathlib.Logic.Function.Basic
import Segnalacity.Connection

/-! # The server and its callbacks

`client_manager.c` and `connection_handler.c` with every client and every pointer.  `Connection`
follows the bytes of one client; here contexts and write requests are blocks of memory, and a
callback that touches a block that is not allocated has no result (`none`), nor has a second
`uv_close` of a handle, which libuv asserts against.

* A context is known by the number of its allocation, so a slot that the slab hands out again has
  a new number and a stale pointer shows.  The same holds of write requests.
* `Handles` is what libuv holds for the two handles of a context; it outlives the context.
* `calls` logs the calls of `client_manager_release`, `uv_close`, `free` and the failed ones of
  `uv_write`; nothing reads it.
* `Allowed` is what libuv promises about the order of the callbacks. -/

namespace Segnalacity

open CStr Http

def maxClients : ℕ := 16384

namespace Server

/-- The fields of `ClientCtx` that are no handles. -/
structure ClientCtx where
  closing : Bool
  pendingCloses : ℕ
  next : Option ℕ
  prev : Option ℕ
  totalRead : ℕ
  buffer : Option Bytes
deriving DecidableEq, Repr

structure WriteReq where
  ctx : ℕ
  keepAlive : Bool
  data : Bytes
deriving DecidableEq, Repr

inductive CloseState where
  | opened
  | pending
  | done
deriving DecidableEq, Repr

inductive HandleType where
  | tcp
  | timer
deriving DecidableEq, Repr

/-- `reading`, `timer`: reading is started, the idle timer is armed; `writes`: submitted requests
whose callback is still to come. -/
structure Handles where
  accepted : Bool
  reading : Bool
  timer : Bool
  writes : List ℕ
  tcpClose : CloseState
  timerClose : CloseState
deriving DecidableEq, Repr

inductive Call where
  | release (p : ℕ)
  | uvClose (p : ℕ) (h : HandleType)
  | free (id : ℕ)
  | writeError (p : ℕ) (id : ℕ)
deriving DecidableEq, Repr

end Server

open Server

structure Server (σ : Type) where
  ctx : ℕ → Option ClientCtx
  contexts : ℕ
  req : ℕ → Option Server.WriteReq
  requests : ℕ
  handles : ℕ → Handles
  activeClientsHead : Option ℕ
  activeClientsCount : ℤ
  responseBuffer : Bytes
  app : σ
  waiting : Bool
  stopped : Bool
  calls : List Call

namespace Server

variable {σ : Type}

/-- Two handles right after `uv_tcp_init` and `uv_timer_init`. -/
def initHandles : Handles := ⟨false, false, false, [], .opened, .opened⟩

def setCtx (p : ℕ) (c : ClientCtx) (s : Server σ) : Server σ :=
  { s with ctx := Function.update s.ctx p (some c) }

/-- A write through a pointer to a context. -/
def modifyCtx (p : ℕ) (f : ClientCtx → ClientCtx) (s : Server σ) : Option (Server σ) := do
  let c ← s.ctx p
  some (s.setCtx p (f c))

def setHandles (p : ℕ) (f : Handles → Handles) (s : Server σ) : Server σ :=
  { s with handles := Function.update s.handles p (f (s.handles p)) }

def log (c : Call) (s : Server σ) : Server σ := { s with calls := s.calls ++ [c] }

/-! ### libuv -/

def Handles.close : HandleType → CloseState → Handles → Handles
  | .tcp, c, h => { h with tcpClose := c, reading := false }
  | .timer, c, h => { h with timerClose := c, timer := false }

def Handles.closeState : HandleType → Handles → CloseState
  | .tcp, h => h.tcpClose
  | .timer, h => h.timerClose

/-- `uv_close` stops the handle and must not be called twice. -/
def uvClose (p : ℕ) (h : HandleType) (s : Server σ) : Option (Server σ) :=
  if (s.handles p).closeState h = .opened then
    some ((s.setHandles p (Handles.close h .pending)).log (.uvClose p h))
  else none

/-- Starting a handle that is being closed has no effect. -/
def uvReadStart (p : ℕ) (s : Server σ) : Server σ :=
  s.setHandles p fun h => if h.tcpClose = .opened then { h with reading := true } else h

def uvTimerStart (p : ℕ) (s : Server σ) : Server σ :=
  s.setHandles p fun h => if h.timerClose = .opened then { h with timer := true } else h

def uvReadStop (p : ℕ) (s : Server σ) : Server σ := s.setHandles p fun h => { h with reading := false }

def uvTimerStop (p : ℕ) (s : Server σ) : Server σ := s.setHandles p fun h => { h with timer := false }

/-- `uv_write`; a call that fails never calls back. -/
def uvWrite (ok : Bool) (p id : ℕ) (s : Server σ) : Server σ :=
  if ok then s.setHandles p fun h => { h with writes := h.writes ++ [id] }
  else s.log (.writeError p id)

/-! ### Memory -/

def clientManagerAlloc (ok : Bool) (s : Server σ) : Option ℕ × Server σ :=
  if ok then
    (some s.contexts, { s.setCtx s.contexts ⟨false, 0, none, none, 0, none⟩ with
      contexts := s.contexts + 1 })
  else (none, s)

def clientManagerRelease (p : ℕ) (s : Server σ) : Option (Server σ) := do
  let _ ← s.ctx p
  some ({ s with ctx := Function.update s.ctx p none }.log (.release p))

def mallocReq (wr : Server.WriteReq) (s : Server σ) : ℕ × Server σ :=
  (s.requests, { s with
    req := Function.update s.req s.requests (some wr)
    requests := s.requests + 1 })

def freeReq (id : ℕ) (s : Server σ) : Option (Server σ) := do
  let _ ← s.req id
  some ({ s with req := Function.update s.req id none }.log (.free id))

/-! ### The active list -/

/-- `if (ptr) ptr->field = ...`. -/
def modifyIf (o : Option ℕ) (f : ClientCtx → ClientCtx) (s : Server σ) : Option (Server σ) :=
  match o with
  | some q => s.modifyCtx q f
  | none => some s

def clientManagerLink (p : ℕ) (s : Server σ) : Option (Server σ) := do
  let s ← s.modifyCtx p fun c => { c with next := s.activeClientsHead, prev := none }
  let s ← s.modifyIf s.activeClientsHead fun d => { d with prev := some p }
  some { s with activeClientsHead := some p, activeClientsCount := s.activeClientsCount + 1 }

/-- The predecessor, or the head, is led past the context. -/
def skipContext (c : ClientCtx) (s : Server σ) : Option (Server σ) :=
  match c.prev with
  | some q => s.modifyCtx q fun d => { d with next := c.next }
  | none => some { s with activeClientsHead := c.next }

def clientManagerUnlink (p : ℕ) (s : Server σ) : Option (Server σ) := do
  let c ← s.ctx p
  let s ← skipContext c s
  let s ← s.modifyIf c.next fun d => { d with prev := c.prev }
  let s ← s.modifyCtx p fun c => { c with next := none, prev := none }
  some { s with activeClientsCount := s.activeClientsCount - 1 }

/-- The loop of `client_manager_close_all`, at most `n` rounds. -/
def closeAllLoop (fn : ℕ → Server σ → Option (Server σ)) :
    ℕ → Option ℕ → Server σ → Option (Server σ)
  | _, none, s => some s
  | 0, some _, _ => none
  | n + 1, some p, s => do
      let c ← s.ctx p
      let s ← fn p s
      closeAllLoop fn n c.next s

def clientManagerCloseAll (fn : ℕ → Server σ → Option (Server σ)) (s : Server σ) :
    Option (Server σ) := closeAllLoop fn s.contexts s.activeClientsHead s

/-! ### Connections -/

def closeClient (p : ℕ) (s : Server σ) : Option (Server σ) := do
  let c ← s.ctx p
  if c.closing then some s
  else do
    let s ← uvClose p .tcp (s.setCtx p { c with closing := true, pendingCloses := 2 })
    uvClose p .timer s

/-- `--ctx->pendingCloses` in two bits. -/
def decrement (n : ℕ) : ℕ := (n + 3) % 4

def onClose (p : ℕ) (s : Server σ) : Option (Server σ) := do
  let c ← s.ctx p
  let s := s.setCtx p { c with pendingCloses := decrement c.pendingCloses }
  if decrement c.pendingCloses > 0 then some s
  else do
    let s ← clientManagerUnlink p s
    clientManagerRelease p s

def sendResponse (o : Outcome) (resp : HttpResponse) (keepAlive : Bool) (p : ℕ) (s : Server σ) :
    Option (Server σ) :=
  if o.malloc then
    let wr := mallocReq ⟨p, false, []⟩ s
    match httpResponseRender resp keepAlive (maxHeaderStrLen + resp.bodyLen) with
    | none => do
        let s ← freeReq wr.1 wr.2
        closeClient p s
    | some data =>
        some (uvWrite o.uvWrite p wr.1
          { wr.2 with req := Function.update wr.2.req wr.1 (some ⟨p, keepAlive, data⟩) })
  else closeClient p s

def setupClient (allocOk acceptOk : Bool) (s : Server σ) : Option (Server σ) :=
  if s.activeClientsCount ≥ maxClients then some s
  else match clientManagerAlloc allocOk s with
    | (none, s) => some s
    | (some p, s) =>
        -- `uv_accept` takes the connection over, whether it succeeds or not
        let s := { s.setHandles p fun _ => { initHandles with accepted := acceptOk } with
          waiting := false }
        if !acceptOk then closeClient p s
        else do
          let s ← clientManagerLink p (uvTimerStart p s)
          some (uvReadStart p s)

def onConnection (status : ℤ) (allocOk acceptOk : Bool) (s : Server σ) : Option (Server σ) :=
  if status < 0 then some s else setupClient allocOk acceptOk s

/-- The buffer is there afterwards unless `malloc` fails; the second component is the space
offered. -/
def onBufferAlloc (fresh : Option Bytes) (p : ℕ) (s : Server σ) : Option (Server σ × ℕ) := do
  let c ← s.ctx p
  match c.buffer <|> fresh with
  | none => some (s, 0)
  | some b => some (s.setCtx p { c with buffer := some b }, sizeSub (clientBufferSize - 1) c.totalRead)

section callbacks
variable (svc : Services σ) (o : Outcome)

/-- `on_read` from the point where the request is complete. -/
def serveRequest (raw : Bytes) (p : ℕ) (s : Server σ) : Option (Server σ) :=
  let s := uvTimerStop p (uvReadStop p s)
  let (allowed, app) := svc.rateLimitCheck s.app
  let s := { s with app := app }
  if !allowed then sendResponse o r429 false p s
  else match httpRequestParse raw with
    | none => sendResponse o bad400 false p s
    | some req =>
        let keepAlive := httpRequestContainsKeepalive req
        let (resp, app) := svc.handleRequest req ⟨200, none, s.responseBuffer, 0, [], []⟩ s.app
        sendResponse o resp keepAlive p { s with responseBuffer := resp.body, app := app }

def onRead (nread : ℤ) (p : ℕ) (s : Server σ) : Option (Server σ) := do
  let c ← s.ctx p
  if nread < 0 then closeClient p s
  else if nread = 0 then some s
  else
    let totalRead := c.totalRead + nread.toNat
    let buffer := writeAt (c.buffer.getD []) totalRead [0]
    let s := s.setCtx p { c with totalRead := totalRead, buffer := some buffer }
    if !httpIsRequestComplete (buffer.take totalRead) then some s
    else serveRequest svc o (buffer.take totalRead) p s

/-- The data that libuv copies into the space it was offered. -/
def receive (data : Bytes) (p : ℕ) (s : Server σ) : Option (Server σ) :=
  s.modifyCtx p fun c => { c with buffer := c.buffer.map fun b => writeAt b c.totalRead data }

def onWriteComplete (ok : Bool) (id : ℕ) (s : Server σ) : Option (Server σ) := do
  let wr ← s.req id
  let s ← freeReq id s
  if !ok || !wr.keepAlive then closeClient wr.ctx s
  else do
    let s ← s.modifyCtx wr.ctx fun c => { c with totalRead := 0 }
    some (uvReadStart wr.ctx (uvTimerStart wr.ctx s))

def onTimeout (p : ℕ) (s : Server σ) : Option (Server σ) := closeClient p s

/-- What the event loop can do next. -/
inductive Callback where
  | connection (status : ℤ) (allocOk acceptOk : Bool)
  | readable (p : ℕ) (fresh : Option Bytes) (o : Outcome) (data : Bytes)
  | readError (p : ℕ) (fresh : Option Bytes) (o : Outcome)
  | written (p : ℕ) (id : ℕ) (ok : Bool)
  | timeout (p : ℕ)
  | closed (p : ℕ) (h : HandleType)
  | shutdown

/-- libuv reports one event: what it notes itself, then the callback. -/
def step : Callback → Server σ → Option (Server σ)
  | .connection status allocOk acceptOk, s =>
      onConnection status allocOk acceptOk { s with waiting := decide (0 ≤ status) }
  | .readable p fresh o data, s => do
      let r ← onBufferAlloc fresh p s
      let s ← receive data p r.1
      onRead svc o data.length p s
  | .readError p fresh o, s => do
      let r ← onBufferAlloc fresh p s
      onRead svc o (-1) p r.1
  | .written p id ok, s =>
      onWriteComplete ok id (s.setHandles p fun h => { h with writes := h.writes.tail })
  | .timeout p, s => onTimeout p (uvTimerStop p s)
  | .closed p h, s => onClose p (s.setHandles p (Handles.close h .done))
  | .shutdown, s => do
      let s ← clientManagerCloseAll closeClient s
      some { s with stopped := true }

end callbacks

/-- The promises of libuv.  A connection is reported unless the last one still waits to be
accepted or the listener is closed; data come while reading is on and fit the space offered; a
stopped timer does not fire; a write is reported once, in order, and before the close callback
of its handle; after `uv_close` that callback runs once. -/
def Allowed (s : Server σ) : Callback → Prop
  | .connection _ _ _ => s.waiting = false ∧ s.stopped = false
  | .readable p fresh _ data => (s.handles p).reading = true ∧ Block fresh ∧
      ∀ r, onBufferAlloc fresh p s = some r → data.length ≤ r.2
  | .readError p fresh _ => (s.handles p).reading = true ∧ Block fresh
  | .written p id _ => (s.handles p).writes.head? = some id
  | .timeout p => (s.handles p).timer = true
  | .closed p h => (s.handles p).closeState h = .pending ∧
      (h = .tcp → (s.handles p).writes = [])
  | .shutdown => s.stopped = false

instance (s : Server σ) : (cb : Callback) → Decidable (Allowed s cb)
  | .connection _ _ _ => inferInstanceAs (Decidable (_ ∧ _))
  | .readable p fresh _ data => inferInstanceAs (Decidable (_ ∧ (∀ b ∈ fresh, _) ∧
      ∀ r ∈ onBufferAlloc fresh p s, data.length ≤ r.2))
  | .readError _ fresh _ => inferInstanceAs (Decidable (_ ∧ ∀ b ∈ fresh, _))
  | .written _ _ _ => inferInstanceAs (Decidable (_ = _))
  | .timeout _ => inferInstanceAs (Decidable (_ = _))
  | .closed _ _ => inferInstanceAs (Decidable (_ ∧ (_ → _)))
  | .shutdown => inferInstanceAs (Decidable (_ = _))

/-- The server before the first callback. -/
def start (responseBuffer : Bytes) (app : σ) : Server σ where
  ctx := fun _ => none
  contexts := 0
  req := fun _ => none
  requests := 0
  handles := fun _ => initHandles
  activeClientsHead := none
  activeClientsCount := 0
  responseBuffer := responseBuffer
  app := app
  waiting := false
  stopped := false
  calls := []

/-- A run of the event loop. -/
inductive Trace (svc : Services σ) (s₀ : Server σ) : List Callback → Server σ → Prop
  | nil : Trace svc s₀ [] s₀
  | snoc {cbs : List Callback} {s s' : Server σ} {cb : Callback} :
      Trace svc s₀ cbs s → Allowed s cb → step svc cb s = some s' →
      Trace svc s₀ (cbs ++ [cb]) s'

end Server

end Segnalacity
