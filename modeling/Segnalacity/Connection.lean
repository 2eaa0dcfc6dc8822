import Segnalacity.Http.Utils

/-! # One client connection

The callbacks of `connection_handler.c` for one client.  `Client` is the `ClientCtx` together
with what libuv holds for its two handles; `Loop` adds what the callbacks share with the rest of
the server: the response buffer, the application state behind the rate limiter and the route
handlers, and the log of the requests dispatched so far.  `Allowed` is what libuv promises about
the order of callbacks, `Trace` a run of the event loop for this client. -/

namespace Segnalacity

open CStr Http

def maxHeaderStrLen : ℕ := 512

/-- `a - b` in `size_t`. -/
def sizeSub (a b : ℕ) : ℕ := (a + 2 ^ 64 - b) % 2 ^ 64

/-- `memcpy(buf + off, x, |x|)`. -/
def writeAt (buf : Bytes) (off : ℕ) (x : Bytes) : Bytes :=
  buf.take off ++ x ++ buf.drop (off + x.length)

/-- A response submitted to `uv_write`. -/
structure WriteReq where
  keepAlive : Bool
  data : Bytes
deriving DecidableEq, Repr

/-- `reading`, `timer`: reading is started, the idle timer is armed; `writes`, `closeCallbacks`:
the callbacks of `uv_write` and `uv_close` still to come. -/
structure Client where
  closing : Bool
  pendingCloses : ℕ
  totalRead : ℕ
  buffer : Option Bytes
  reading : Bool
  timer : Bool
  writes : List WriteReq
  closeCallbacks : ℕ
deriving DecidableEq, Repr

/-- The rest of the server as a connection uses it; `rateLimitCheck` is for the peer's address. -/
structure Services (σ : Type) where
  rateLimitCheck : σ → Bool × σ
  handleRequest : HttpRequest → HttpResponse → σ → HttpResponse × σ

structure Loop (σ : Type) where
  client : Client
  responseBuffer : Bytes
  app : σ
  dispatched : List HttpRequest

/-- What `malloc` of the `WriteReq` and `uv_write` return in one callback. -/
structure Outcome where
  malloc : Bool
  uvWrite : Bool
deriving DecidableEq, Repr

/-- A client right after `setup_client`. -/
def setupClient : Client where
  closing := false
  pendingCloses := 0
  totalRead := 0
  buffer := none
  reading := true
  timer := true
  writes := []
  closeCallbacks := 0

/-- `uv_close` stops reading and the timer. -/
def closeClient (c : Client) : Client :=
  if c.closing then c
  else { c with
    closing := true, pendingCloses := 2, reading := false, timer := false, closeCallbacks := 2 }

def sendResponse (o : Outcome) (resp : HttpResponse) (keepAlive : Bool) (c : Client) : Client :=
  if o.malloc then
    match httpResponseRender resp keepAlive (maxHeaderStrLen + resp.bodyLen) with
    | none => closeClient c
    | some data => if o.uvWrite then { c with writes := c.writes ++ [⟨keepAlive, data⟩] } else c
  else closeClient c

/-- The client with its buffer, and the length offered to libuv; `fresh` is the block that
`malloc` returns if it is called. -/
def onBufferAlloc (fresh : Option Bytes) (c : Client) : Client × ℕ :=
  match c.buffer <|> fresh with
  | none => (c, 0)
  | some b => ({ c with buffer := some b }, sizeSub (clientBufferSize - 1) c.totalRead)

def r429 : HttpResponse where
  statusCode := 429
  contentType := none
  body := bytes "Too Many Requests\n"
  bodyLen := 18
  setCookie := []
  location := []

def bad400 : HttpResponse where
  statusCode := 400
  contentType := none
  body := bytes "<h1>400 Bad Request</h1>"
  bodyLen := 24
  setCookie := []
  location := []

section callbacks
variable {σ : Type} (svc : Services σ) (o : Outcome)

/-- `on_read` from the point where the request is complete. -/
def serveRequest (raw : Bytes) (s : Loop σ) : Loop σ :=
  let c := { s.client with reading := false, timer := false }
  let (allowed, app) := svc.rateLimitCheck s.app
  if !allowed then { s with client := sendResponse o r429 false c, app := app }
  else match httpRequestParse raw with
    | none => { s with client := sendResponse o bad400 false c, app := app }
    | some req =>
        let keepAlive := httpRequestContainsKeepalive req
        let (resp, app) := svc.handleRequest req ⟨200, none, s.responseBuffer, 0, [], []⟩ app
        { client := sendResponse o resp keepAlive c
          responseBuffer := resp.body
          app := app
          dispatched := s.dispatched ++ [req] }

/-- `libuv` has put `nread` bytes into the buffer it was offered; negative is an error or the end
of the stream. -/
def onRead (nread : ℤ) (s : Loop σ) : Loop σ :=
  if nread < 0 then { s with client := closeClient s.client }
  else if nread = 0 then s
  else
    let totalRead := s.client.totalRead + nread.toNat
    let buffer := writeAt (s.client.buffer.getD []) totalRead [0]
    let s := { s with client := { s.client with totalRead := totalRead, buffer := some buffer } }
    if !httpIsRequestComplete (buffer.take totalRead) then s
    else serveRequest svc o (buffer.take totalRead) s

/-- The read callbacks of libuv for `data` that has arrived: ask for space, copy, report. -/
def readable (fresh : Option Bytes) (data : Bytes) (s : Loop σ) : Loop σ :=
  let c := (onBufferAlloc fresh s.client).1
  onRead svc o data.length
    { s with client := { c with buffer := c.buffer.map fun b => writeAt b c.totalRead data } }

/-- `on_write_complete` for the oldest submitted response. -/
def onWriteComplete (ok : Bool) (c : Client) : Client :=
  match c.writes with
  | [] => c
  | wr :: rest =>
      let c := { c with writes := rest }
      if !ok || !wr.keepAlive then closeClient c
      else { c with totalRead := 0, timer := true, reading := true }

def onTimeout (c : Client) : Client := closeClient c

/-- `on_close`, without the release of the context after the second callback. -/
def onClose (c : Client) : Client :=
  { c with pendingCloses := c.pendingCloses - 1, closeCallbacks := c.closeCallbacks - 1 }

/-- What the event loop can do next for this client. -/
inductive Event where
  | readable (fresh : Option Bytes) (o : Outcome) (data : Bytes)
  | readError (fresh : Option Bytes) (o : Outcome)
  | written (ok : Bool)
  | timeout
  | closed

def handle : Event → Loop σ → Loop σ
  | .readable fresh o data, s => readable svc o fresh data s
  | .readError fresh o, s =>
      onRead svc o (-1) { s with client := (onBufferAlloc fresh s.client).1 }
  | .written ok, s => { s with client := onWriteComplete ok s.client }
  | .timeout, s => { s with client := onTimeout s.client }
  | .closed, s => { s with client := onClose s.client }

end callbacks

/-- A block that `malloc(CLIENT_BUFFER_SIZE)` can return. -/
def Block (fresh : Option Bytes) : Prop := ∀ b ∈ fresh, b.length = clientBufferSize

/-- The promises of libuv: data come while reading is on and fit the space offered, a write is
reported once, a stopped timer does not fire. -/
def Allowed (c : Client) : Event → Prop
  | .readable fresh _ data =>
      c.reading = true ∧ Block fresh ∧ data.length ≤ (onBufferAlloc fresh c).2
  | .readError fresh _ => c.reading = true ∧ Block fresh
  | .written _ => c.writes ≠ []
  | .timeout => c.timer = true
  | .closed => c.closeCallbacks ≠ 0

inductive Trace {σ : Type} (svc : Services σ) (s₀ : Loop σ) : List Event → Loop σ → Prop
  | nil : Trace svc s₀ [] s₀
  | snoc {es : List Event} {s : Loop σ} {e : Event} :
      Trace svc s₀ es s → Allowed s.client e → Trace svc s₀ (es ++ [e]) (handle svc e s)

/-! ### The accumulator -/

theorem writeAt_length {buf x : Bytes} {off : ℕ} (h : off + x.length ≤ buf.length) :
    (writeAt buf off x).length = buf.length := by
  simp only [writeAt, List.length_append, List.length_take, List.length_drop]
  omega

theorem take_writeAt {buf x : Bytes} {off : ℕ} (h : off ≤ buf.length) :
    (writeAt buf off x).take (off + x.length) = buf.take off ++ x := by
  unfold writeAt
  rw [List.take_left']
  simp only [List.length_append, List.length_take]
  omega

@[simp] theorem writeAt_nil (buf : Bytes) (off : ℕ) : writeAt buf off [] = buf := by
  simp [writeAt]

/-- The bytes received since the last response. -/
def Client.received (c : Client) : Bytes := (c.buffer.getD []).take c.totalRead

/-- The client after `data` has been copied into the buffer `b`, counted and terminated. -/
def Client.gather (c : Client) (b data : Bytes) : Client :=
  { c with
    totalRead := c.totalRead + data.length
    buffer := some (writeAt (writeAt b c.totalRead data) (c.totalRead + data.length) [0]) }

theorem Client.received_gather {c : Client} {b data : Bytes}
    (h : c.totalRead + data.length < b.length) :
    (c.gather b data).received = b.take c.totalRead ++ data := by
  have hlen : (writeAt b c.totalRead data).length = b.length := writeAt_length h.le
  show (writeAt (writeAt b c.totalRead data) (c.totalRead + data.length) [0]).take
    (c.totalRead + data.length) = _
  rw [writeAt, List.append_assoc, List.take_append_of_le_length, List.take_take, Nat.min_self,
    take_writeAt (by omega)]
  rw [List.length_take, hlen]
  omega

section readable
variable {σ : Type} (svc : Services σ) (o : Outcome)

/-- What `on_read` does with new data. -/
theorem readable_eq {fresh : Option Bytes} {s : Loop σ} {b data : Bytes}
    (hb : (s.client.buffer <|> fresh) = some b) (hd : data ≠ []) :
    readable svc o fresh data s =
      if httpIsRequestComplete (s.client.gather b data).received then
        serveRequest svc o (s.client.gather b data).received
          { s with client := s.client.gather b data }
      else { s with client := s.client.gather b data } := by
  have hlen : 0 < data.length := List.length_pos_iff.mpr hd
  have halloc : (onBufferAlloc fresh s.client).1 = { s.client with buffer := some b } := by
    unfold onBufferAlloc
    rw [hb]
  unfold readable onRead
  rw [halloc]
  simp only [Option.map_some, Option.getD_some, Int.toNat_natCast, Bool.not_eq_true']
  rw [if_neg (by omega), if_neg (by omega)]
  have hraw : (writeAt (writeAt b s.client.totalRead data) (s.client.totalRead + data.length) [0]).take
      (s.client.totalRead + data.length) = (s.client.gather b data).received := rfl
  rw [hraw]
  cases httpIsRequestComplete (s.client.gather b data).received with
  | true => rfl
  | false => rfl

end readable

/-- Once there is a buffer it is `CLIENT_BUFFER_SIZE` bytes long, and the bytes read leave room
for the terminating NUL. -/
structure Client.Fits (c : Client) : Prop where
  total : c.totalRead ≤ clientBufferSize - 1
  length : ∀ b ∈ c.buffer, b.length = clientBufferSize

theorem Client.Fits.of_eq {c c' : Client} (h : c.Fits) (ht : c'.totalRead = c.totalRead)
    (hb : c'.buffer = c.buffer) : c'.Fits where
  total := by rw [ht]; exact h.total
  length := by rw [hb]; exact h.length

theorem setupClient_fits : setupClient.Fits where
  total := Nat.zero_le _
  length := by simp [setupClient]

/-- The space offered to libuv never underflows. -/
theorem sizeSub_fits {n : ℕ} (h : n ≤ clientBufferSize - 1) :
    sizeSub (clientBufferSize - 1) n = clientBufferSize - 1 - n := by
  unfold sizeSub
  simp only [clientBufferSize] at h ⊢
  omega

theorem onBufferAlloc_fits {c : Client} (h : c.Fits) {fresh : Option Bytes} (hf : Block fresh) :
    (onBufferAlloc fresh c).1.Fits ∧ (onBufferAlloc fresh c).1.totalRead = c.totalRead ∧
      (onBufferAlloc fresh c).2 ≤ clientBufferSize - 1 - c.totalRead := by
  unfold onBufferAlloc
  cases hb : c.buffer <|> fresh with
  | none => exact ⟨h, rfl, Nat.zero_le _⟩
  | some b =>
      refine ⟨⟨h.total, ?_⟩, rfl, (sizeSub_fits h.total).le⟩
      intro b' hb'
      obtain rfl : b = b' := Option.some.inj hb'
      cases hc : c.buffer with
      | some b₀ =>
          rw [hc] at hb
          obtain rfl : b₀ = b := Option.some.inj hb
          exact h.length b₀ hc
      | none =>
          rw [hc] at hb
          exact hf b hb

/-- Data are only delivered into a buffer. -/
theorem exists_block {c : Client} (h : c.Fits) {fresh : Option Bytes} (hf : Block fresh)
    {data : Bytes} (hd : data ≠ []) (hlen : data.length ≤ (onBufferAlloc fresh c).2) :
    ∃ b, (c.buffer <|> fresh) = some b ∧ b.length = clientBufferSize := by
  have hpos := List.length_pos_iff.mpr hd
  have hfit := (onBufferAlloc_fits h hf).1
  cases hb : c.buffer <|> fresh with
  | none =>
      simp only [onBufferAlloc, hb] at hlen
      omega
  | some b =>
      simp only [onBufferAlloc, hb] at hfit
      exact ⟨b, rfl, hfit.length b rfl⟩

theorem gather_fits {c : Client} {b data : Bytes} (hb : b.length = clientBufferSize)
    (hroom : c.totalRead + data.length ≤ clientBufferSize - 1) : (c.gather b data).Fits where
  total := hroom
  length := by
    intro b' hb'
    obtain rfl : _ = b' := Option.some.inj hb'
    have hsize : clientBufferSize = 8192 := rfl
    rw [writeAt_length, writeAt_length, hb]
    · omega
    · rw [writeAt_length, List.length_singleton]
      · omega
      · omega

section fits
variable {σ : Type} (svc : Services σ) (o : Outcome)

theorem serveRequest_refused (raw : Bytes) {s : Loop σ} {app : σ}
    (h : svc.rateLimitCheck s.app = (false, app)) :
    serveRequest svc o raw s = { s with
      client := sendResponse o r429 false { s.client with reading := false, timer := false }
      app := app } := by
  simp only [serveRequest, h, Bool.not_false, if_true]

theorem serveRequest_bad {raw : Bytes} {s : Loop σ} {app : σ}
    (h : svc.rateLimitCheck s.app = (true, app)) (hp : httpRequestParse raw = none) :
    serveRequest svc o raw s = { s with
      client := sendResponse o bad400 false { s.client with reading := false, timer := false }
      app := app } := by
  simp only [serveRequest, h, hp, Bool.not_true, Bool.false_eq_true, if_false]

theorem serveRequest_dispatch {raw : Bytes} {s : Loop σ} {app app' : σ} {req : HttpRequest}
    {resp : HttpResponse} (h : svc.rateLimitCheck s.app = (true, app))
    (hp : httpRequestParse raw = some req)
    (hr : svc.handleRequest req ⟨200, none, s.responseBuffer, 0, [], []⟩ app = (resp, app')) :
    serveRequest svc o raw s =
      { client := sendResponse o resp (httpRequestContainsKeepalive req)
          { s.client with reading := false, timer := false }
        responseBuffer := resp.body
        app := app'
        dispatched := s.dispatched ++ [req] } := by
  simp only [serveRequest, h, hp, hr, Bool.not_true, Bool.false_eq_true, if_false]

end fits

end Segnalacity
