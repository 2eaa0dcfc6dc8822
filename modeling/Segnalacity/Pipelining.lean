import Segnalacity.Segmentation

/-! # Bytes behind the current request

Three places say where a body ends: `http_is_request_complete` goes by `Content-Length`,
`http_request_parse` by what has been received, `get_field` by the first NUL; and
`on_write_complete` empties the accumulator whatever it holds.  They agree on a read that ends
with the request.

* `getField_own_iff`: the fields of a body do not depend on the bytes behind it only if the body
  itself contains a NUL.
* `serves_receiveAll`: as long as the connection stays open, `on_read` followed by
  `on_write_complete` is the receiver of `Framing`.
* `stream_dispatch`: a keep-alive stream of requests is dispatched request by request if and only
  if no read reaches over the end of a request. -/

namespace Segnalacity

open CStr Http Framing

/-! ### Form fields -/

theorem findField_none_of_length {name : Bytes} : ∀ (start : Bool) (s : Bytes),
    s.length < name.length → findField name start s = none
  | start, [], h => by
      have hname : name ≠ [] := by rintro rfl; simp at h
      simp [findField, hname]
  | start, c :: s, h => by
      have hpre : name.isPrefixOf (c :: s) = false := by
        apply Bool.eq_false_iff.mpr
        intro hp
        exact absurd (List.isPrefixOf_iff_prefix.mp hp).length_le (Nat.not_le.mpr h)
      have hs : s.length < name.length := Nat.lt_of_succ_lt h
      simp [findField, hpre, findField_none_of_length _ s hs]

/-- A field name that is the whole text before its value is found at the start. -/
theorem findField_start (name v : Bytes) : findField name true (name ++ v) = some v := by
  have hpre : name.isPrefixOf (name ++ v) = true :=
    List.isPrefixOf_iff_prefix.mpr (List.prefix_append name v)
  cases h : name ++ v with
  | nil =>
      obtain ⟨rfl, rfl⟩ := List.append_eq_nil_iff.mp h
      rfl
  | cons c s =>
      rw [h] at hpre
      simp only [findField, hpre, Bool.and_self, if_true]
      rw [← h, List.drop_left]

theorem cstr_append_of_mem {d : Bytes} (h : (0 : UInt8) ∈ d) (x : Bytes) : cstr (d ++ x) = cstr d := by
  unfold cstr
  rw [List.takeWhile_append, if_neg]
  intro hall
  have := List.takeWhile_eq_self_iff.mp (List.IsPrefix.eq_of_length (List.takeWhile_prefix _) hall)
  simpa using this 0 h

/-- **The lookups in a body are its own only if it ends in a NUL of its own.** -/
theorem getField_own_iff (d : Bytes) :
    (∀ (x y name : Bytes) (max : ℕ),
      getField (some (d ++ x)) name max = getField (some (d ++ y)) name max) ↔ (0 : UInt8) ∈ d := by
  constructor
  · intro h
    by_contra h0
    -- a name made of the body and `=` is found only if `=` follows the body
    have hlong : getField (some (d ++ bytes "=1")) (d ++ bytes "=") 2 = bytes "1" := by
      have hc : cstr (d ++ bytes "=1") = (d ++ bytes "=") ++ bytes "1" := by
        rw [cstr_eq_self (by simpa [h0] using (by decide : (0 : UInt8) ∉ bytes "=1")),
          List.append_assoc]
        rfl
      simp only [getField, Option.bind_some, hc, findField_start]
      rfl
    have hshort : getField (some (d ++ [])) (d ++ bytes "=") 2 = [] := by
      have hnone : findField (d ++ bytes "=") true (cstr d) = none := by
        apply findField_none_of_length
        rw [cstr_eq_self h0, List.length_append]
        exact Nat.lt_add_of_pos_right (by decide)
      simp only [getField, Option.bind_some, List.append_nil, hnone]
    have := h (bytes "=1") [] (d ++ bytes "=") 2
    rw [hlong, hshort] at this
    exact absurd this (by decide)
  · intro h0 x y name max
    simp only [getField, Option.bind_some, cstr_append_of_mem h0]

/-! ### The stream -/

section stream
variable {σ : Type} (svc : Services σ)

/-- A response on its way is written before anything else is read. -/
def settle (s : Loop σ) : Loop σ :=
  if s.client.writes = [] then s else { s with client := onWriteComplete true s.client }

/-- The chunks are read one by one on an open connection. -/
inductive Serves (fresh : Bytes) : Loop σ → List (Outcome × Bytes) → Loop σ → Prop
  | nil (s : Loop σ) : Serves fresh s [] s
  | cons {s s' : Loop σ} {o : Outcome} {data : Bytes} {rest : List (Outcome × Bytes)} :
      Allowed s.client (.readable (some fresh) o data) →
        Serves fresh (settle (readable svc o (some fresh) data s)) rest s' →
          Serves fresh s ((o, data) :: rest) s'

/-- The connection has accumulated `acc` and dispatched the buffers `out` since `base`. -/
structure Receives (base : List HttpRequest) (s : Loop σ) (acc : Bytes) (out : List Bytes) : Prop where
  opened : s.client.closing = false
  nothing : s.client.writes = []
  fits : s.client.Fits
  total : s.client.totalRead = acc.length
  received : s.client.received = acc
  dispatched : ∃ reqs, s.dispatched = base ++ reqs ∧ reqs.map some = out.map httpRequestParse

variable {svc}

theorem closeClient_reading {c : Client} (h : c.closing = false) : (closeClient c).reading = false := by
  simp [closeClient, h]

theorem closeClient_writes (c : Client) : (closeClient c).writes = c.writes := by
  unfold closeClient
  split_ifs <;> rfl

/-- The connection reads again only after a keep-alive response has been written. -/
theorem settle_sendResponse (o : Outcome) (resp : HttpResponse) (k : Bool) {s : Loop σ} {c : Client}
    (hs : s.client = sendResponse o resp k c) (hopen : c.closing = false) (hread : c.reading = false)
    (hwr : c.writes = []) (h : (settle s).client.reading = true) :
    k = true ∧ settle s = { s with client := { c with totalRead := 0, timer := true, reading := true } } := by
  have hstop {c' : Client} (hc : s.client = c') (hw : c'.writes = []) (hr : c'.reading = false) :
      (settle s).client.reading = false := by
    rw [settle, if_pos (by rw [hc]; exact hw), hc]
    exact hr
  have hclose (hc : s.client = closeClient c) : False := by
    rw [hstop hc (by rw [closeClient_writes]; exact hwr) (closeClient_reading hopen)] at h
    cases h
  unfold sendResponse at hs
  split at hs
  · split at hs
    · exact (hclose hs).elim
    · split at hs
      · rw [hwr, List.nil_append] at hs
        have hset : settle s = { s with client := onWriteComplete true s.client } := by
          rw [settle, if_neg (by rw [hs]; simp)]
        rw [hset] at h ⊢
        rw [hs] at h ⊢
        cases k with
        | false =>
            have hclosed : (closeClient { c with writes := [] }).reading = true := h
            rw [closeClient_reading (c := { c with writes := [] }) hopen] at hclosed
            cases hclosed
        | true =>
            refine ⟨rfl, ?_⟩
            rw [← hwr]
            rfl
      · rw [hstop hs hwr hread] at h
        cases h
  · exact (hclose hs).elim

section step
variable {fresh : Bytes} {base : List HttpRequest} {s : Loop σ} {acc : Bytes} {out : List Bytes}

/-- The buffer that new data are copied into. -/
theorem Receives.exists_buffer (h : Receives base s acc out) {o : Outcome} {data : Bytes}
    (hd : data ≠ []) (ha : Allowed s.client (.readable (some fresh) o data)) :
    ∃ b, (s.client.buffer <|> some fresh) = some b ∧ (s.client.gather b data).received = acc ++ data ∧
      (s.client.gather b data).Fits := by
  obtain ⟨-, hf, hlen⟩ := ha
  obtain ⟨b, hb, hsize⟩ := exists_block h.fits hf hd hlen
  have hroom := (onBufferAlloc_fits h.fits hf).2.2
  have htotal := h.fits.total
  have hcap : clientBufferSize = 8192 := rfl
  have hold : b.take s.client.totalRead = acc := by
    have hrec := h.received
    unfold Client.received at hrec
    cases hbuf : s.client.buffer with
    | some b₀ =>
        rw [hbuf] at hb hrec
        obtain rfl : b₀ = b := Option.some.inj hb
        exact hrec
    | none =>
        rw [hbuf, Option.getD_none, List.take_nil] at hrec
        rw [h.total, ← hrec]
        rfl
  refine ⟨b, hb, ?_, gather_fits hsize (by omega)⟩
  rw [Client.received_gather (by omega), hold]

/-- Dispatching and answering the request in the buffer. -/
theorem Receives.serve (h : Receives base s acc out) {c : Client} {o : Outcome} {raw : Bytes}
    (hopen : c.closing = false) (hwr : c.writes = []) (hfits : c.Fits)
    (hread : (settle (serveRequest svc o raw { s with client := c })).client.reading = true) :
    Receives base (settle (serveRequest svc o raw { s with client := c })) [] (out ++ [raw]) := by
  cases hr : svc.rateLimitCheck s.app with
  | mk allowed app =>
      cases allowed with
      | false =>
          rw [serveRequest_refused svc o raw (s := { s with client := c }) hr] at hread
          have hst := settle_sendResponse o r429 false (c := { c with reading := false, timer := false })
            (by dsimp only) hopen rfl hwr hread
          exact absurd hst.1 Bool.false_ne_true
      | true =>
          cases hp : httpRequestParse raw with
          | none =>
              rw [serveRequest_bad svc o (s := { s with client := c }) hr hp] at hread
              have hst := settle_sendResponse o bad400 false (c := { c with reading := false, timer := false })
                (by dsimp only) hopen rfl hwr hread
              exact absurd hst.1 Bool.false_ne_true
          | some req =>
              obtain ⟨reqs, hreqs, hout⟩ := h.dispatched
              rw [serveRequest_dispatch svc o (s := { s with client := c }) hr hp rfl] at hread ⊢
              have hst := settle_sendResponse o _ _ (c := { c with reading := false, timer := false })
                rfl hopen rfl hwr hread
              rw [hst.2]
              exact {
                opened := hopen
                nothing := hwr
                fits := ⟨Nat.zero_le _, hfits.length⟩
                total := rfl
                received := by simp [Client.received]
                dispatched := ⟨reqs ++ [req], by simp [hreqs], by simp [hout, hp]⟩ }

/-- One read and the response it may cause are one step of the receiver. -/
theorem Receives.step (h : Receives base s acc out) {o : Outcome} {data : Bytes} (hd : data ≠ [])
    (ha : Allowed s.client (.readable (some fresh) o data))
    (hread : (settle (readable svc o (some fresh) data s)).client.reading = true) :
    Receives base (settle (readable svc o (some fresh) data s))
      (receive httpIsRequestComplete (acc, out) data).1
      (receive httpIsRequestComplete (acc, out) data).2 := by
  obtain ⟨b, hb, hrec, hfits⟩ := h.exists_buffer hd ha
  rw [readable_eq svc o hb hd, hrec] at hread ⊢
  unfold receive
  cases hc : httpIsRequestComplete (acc ++ data) with
  | true =>
      simp only [hc, if_true] at hread ⊢
      exact h.serve h.opened h.nothing hfits hread
  | false =>
      simp only [Bool.false_eq_true, if_false]
      have hset : settle { s with client := s.client.gather b data } =
          { s with client := s.client.gather b data } := if_pos h.nothing
      rw [hset]
      exact {
        opened := h.opened
        nothing := h.nothing
        fits := hfits
        total := by
          show s.client.totalRead + data.length = _
          rw [h.total, List.length_append]
        received := hrec
        dispatched := h.dispatched }

end step

/-- **A connection that stays open is the receiver of `Framing`.** -/
theorem serves_receiveAll {fresh : Bytes} {base : List HttpRequest} {s s' : Loop σ}
    {steps : List (Outcome × Bytes)} (hrun : Serves svc fresh s steps s')
    (hne : ∀ x ∈ steps, x.2 ≠ []) (hread : s'.client.reading = true) {acc : Bytes} {out : List Bytes}
    (h : Receives base s acc out) :
    Receives base s' (receiveAll httpIsRequestComplete (acc, out) (steps.map Prod.snd)).1
      (receiveAll httpIsRequestComplete (acc, out) (steps.map Prod.snd)).2 := by
  induction hrun generalizing acc out with
  | nil s => exact h
  | @cons s s' o data rest ha hrest ih =>
      have hnow : (settle (readable svc o (some fresh) data s)).client.reading = true := by
        cases hrest with
        | nil => exact hread
        | cons ha' _ => exact ha'.1
      exact ih (fun x hx => hne x (List.mem_cons_of_mem _ hx)) hread
        (h.step (hne (o, data) List.mem_cons_self) ha hnow)

/-- A complete request that the receive buffer can hold. -/
def FitsBuffer (w : Bytes) : Prop :=
  (∃ p r n, CompleteRequest w p r n) ∧ w.length ≤ clientBufferSize - 1

theorem FitsBuffer.isFrame {w : Bytes} (h : FitsBuffer w) : IsFrame httpIsRequestComplete w := by
  obtain ⟨⟨p, r, n, hw⟩, hlen⟩ := h
  have hcap : clientBufferSize = 8192 := rfl
  have hsize := hw.size
  exact hw.isFrame (by omega)

/-- **A keep-alive stream is dispatched request by request exactly when no read reaches over the
end of a request.** -/
theorem stream_dispatch {fresh : Bytes} {s s' : Loop σ} {steps : List (Outcome × Bytes)}
    (hrun : Serves svc fresh s steps s') (hidle : s.client.Idle) (hread : s'.client.reading = true)
    (hne : ∀ x ∈ steps, x.2 ≠ []) {ws : List Bytes} (hws : ∀ w ∈ ws, FitsBuffer w)
    (hflat : (steps.map Prod.snd).flatten = ws.flatten) :
    s'.dispatched.map (fun req => some req.content) =
        s.dispatched.map (fun req => some req.content) ++
          ws.map (fun w => (httpRequestParse w).map HttpRequest.content) ↔
      Aligned (steps.map Prod.snd) ws := by
  have hstart : Receives s.dispatched s [] [] := {
    opened := hidle.opened
    nothing := hidle.nothing
    fits := hidle.fits
    total := hidle.empty
    received := by rw [Client.received, hidle.empty]; rfl
    dispatched := ⟨[], by simp, rfl⟩ }
  obtain ⟨reqs, hreqs, hout⟩ := (serves_receiveAll hrun hne hread hstart).dispatched
  have hcontent : reqs.map (fun req => some req.content) =
      (receiveAll httpIsRequestComplete ([], []) (steps.map Prod.snd)).2.map
        (fun w => (httpRequestParse w).map HttpRequest.content) := by
    have := congrArg (List.map (Option.map HttpRequest.content)) hout
    simpa [List.map_map, Function.comp_def] using this
  rw [hreqs, List.map_append, hcontent, List.append_cancel_left_eq]
  exact handed_iff (fun w => (httpRequestParse w).map HttpRequest.content) ws (steps.map Prod.snd) []
    (fun w hw => (hws w hw).isFrame)
    (fun w hw x hx => by
      obtain ⟨⟨p, r, n, hc⟩, -⟩ := hws w hw
      exact hc.eq_nil_of_content hx)
    (fun c hc => by
      obtain ⟨x, hx, rfl⟩ := List.mem_map.mp hc
      exact hne x hx)
    hflat

end stream

/-! ### Both together -/

/-- **The bytes behind a request.**  The fields of a POST body are its own, whatever follows it
in the buffer, if and only if the body contains a NUL; and a keep-alive stream is dispatched
request by request if and only if no read reaches over the end of a request. -/
theorem own_body_iff {σ : Type} (svc : Services σ) :
    (∀ (w : Bytes) (p : PhrRequest) (r n : ℕ), CompleteRequest w p r n → 0 < n →
      ((∀ (x y name : Bytes) (max : ℕ),
        (httpRequestParse (w ++ x)).map (fun req => getField req.bodyPtr name max) =
          (httpRequestParse (w ++ y)).map (fun req => getField req.bodyPtr name max)) ↔
        (0 : UInt8) ∈ w.drop r)) ∧
    (∀ (fresh : Bytes) (s s' : Loop σ) (steps : List (Outcome × Bytes)) (ws : List Bytes),
      Serves svc fresh s steps s' → s.client.Idle → s'.client.reading = true →
      (∀ x ∈ steps, x.2 ≠ []) → (∀ w ∈ ws, FitsBuffer w) →
      (steps.map Prod.snd).flatten = ws.flatten →
        (s'.dispatched.map (fun req => some req.content) =
            s.dispatched.map (fun req => some req.content) ++
              ws.map (fun w => (httpRequestParse w).map HttpRequest.content) ↔
          Aligned (steps.map Prod.snd) ws)) := by
  constructor
  · intro w p r n hw hn
    have hr := (hw.parse_prefix []).2.1
    have hsize := hw.size
    have hfield (x name : Bytes) (max : ℕ) :
        (httpRequestParse (w ++ x)).map (fun req => getField req.bodyPtr name max) =
          some (getField (some (w.drop r ++ x)) name max) := by
      rw [hw.httpRequestParse_append x, Option.map_some]
      simp only [HttpRequest.bodyPtr]
      rw [if_pos (by rw [List.length_append]; omega), Option.map_some,
        List.drop_append_of_le_length hr]
    simp only [hfield, Option.some.injEq]
    exact getField_own_iff (w.drop r)
  · intro fresh s s' steps ws hrun hidle hread hne hws hflat
    exact stream_dispatch hrun hidle hread hne hws hflat

def sampleGet : Bytes := bytes "GET /home HTTP/1.1\x0d\nConnection: keep-alive\x0d\n\x0d\n"

theorem sampleGet_fits : FitsBuffer sampleGet := by
  refine ⟨⟨⟨⟨0, bytes "GET"⟩, ⟨4, bytes "/home"⟩, 1,
    [⟨⟨20, bytes "Connection"⟩, ⟨32, bytes "keep-alive"⟩⟩]⟩, 46, 0, ?_⟩, by decide +kernel⟩
  exact ⟨by decide +kernel, Or.inl ⟨by decide, rfl⟩, by decide +kernel⟩

/-- A request whose body ends in a NUL of its own. -/
def nulPost : Bytes :=
  bytes "POST /login HTTP/1.1\x0d\nConnection: keep-alive\x0d\nContent-Length: 4\x0d\n\x0d\na=b" ++ [0]

theorem nulPost_complete : CompleteRequest nulPost
    ⟨⟨0, bytes "POST"⟩, ⟨5, bytes "/login"⟩, 1, [⟨⟨22, bytes "Connection"⟩, ⟨34, bytes "keep-alive"⟩⟩,
      ⟨⟨46, bytes "Content-Length"⟩, ⟨62, bytes "4"⟩⟩]⟩ 67 4 where
  parse := by decide +kernel
  declares := Or.inr ⟨rfl, _, rfl, by decide +kernel, by decide +kernel, by decide +kernel,
    by decide +kernel⟩
  size := by decide +kernel

/-- Both requests, cut in the middle of the headers and of the body. -/
def splitReads : List (Outcome × Bytes) :=
  [(⟨true, true⟩, nulPost.take 30), (⟨true, true⟩, (nulPost.drop 30).take 39),
    (⟨true, true⟩, nulPost.drop 69), (⟨true, true⟩, sampleGet.take 10),
    (⟨true, true⟩, sampleGet.drop 10)]

def emptyBuffer : Bytes := List.replicate clientBufferSize 0

/-- A read and the response it may cause. -/
def serveRead (x : Outcome × Bytes) (s : Loop Unit) : Loop Unit :=
  settle (readable quietServices x.1 (some emptyBuffer) x.2 s)

def serveReads : Loop Unit → List (Outcome × Bytes) → Loop Unit
  | s, [] => s
  | s, x :: reads => serveReads (serveRead x s) reads

/-- The connection is open for every one of the reads, and after them. -/
def opensFor : Loop Unit → List (Outcome × Bytes) → Bool
  | s, [] => s.client.reading
  | s, x :: reads =>
      s.client.reading && decide (x.2.length ≤ (onBufferAlloc (some emptyBuffer) s.client).2) &&
        opensFor (serveRead x s) reads

theorem serves_serveReads {s : Loop Unit} {reads : List (Outcome × Bytes)}
    (h : opensFor s reads = true) :
    Serves quietServices emptyBuffer s reads (serveReads s reads) ∧
      (serveReads s reads).client.reading = true := by
  induction reads generalizing s with
  | nil => exact ⟨.nil s, h⟩
  | cons x reads ih =>
      rw [opensFor, Bool.and_eq_true, Bool.and_eq_true] at h
      obtain ⟨⟨hread, hroom⟩, hrest⟩ := h
      refine ⟨.cons ?_ (ih hrest).1, (ih hrest).2⟩
      exact ⟨hread, by simp [Block, emptyBuffer], of_decide_eq_true hroom⟩

theorem own_body_iff_split :
    (∀ x y name max,
      (httpRequestParse (nulPost ++ x)).map (fun req => getField req.bodyPtr name max) =
        (httpRequestParse (nulPost ++ y)).map (fun req => getField req.bodyPtr name max)) ∧
    (serveReads quietLoop splitReads).dispatched.map (fun req => some req.content) =
      [(httpRequestParse nulPost).map HttpRequest.content,
        (httpRequestParse sampleGet).map HttpRequest.content] := by
  have h := own_body_iff quietServices
  refine ⟨(h.1 nulPost _ 67 4 nulPost_complete (by decide)).mpr (by decide +kernel), ?_⟩
  have hfits : ∀ w ∈ [nulPost, sampleGet], FitsBuffer w := by
    intro w hw
    rcases List.mem_pair.mp hw with rfl | rfl
    · exact ⟨⟨_, 67, 4, nulPost_complete⟩, by decide +kernel⟩
    · exact sampleGet_fits
  have hflat : (splitReads.map Prod.snd).flatten = [nulPost, sampleGet].flatten := by
    decide +kernel
  have halign : Aligned (splitReads.map Prod.snd) [nulPost, sampleGet] :=
    ⟨[(splitReads.take 3).map Prod.snd, (splitReads.drop 3).map Prod.snd], rfl, by decide +kernel⟩
  have hopens : opensFor quietLoop splitReads = true := by decide +kernel
  obtain ⟨hserves, hread⟩ := serves_serveReads hopens
  exact (h.2 emptyBuffer quietLoop _ splitReads [nulPost, sampleGet] hserves setupClient_idle
    hread (by decide +kernel) hfits hflat).mpr halign

/-- Two pipelined requests: the second one leaks into the last field of the first. -/
theorem pipelined_field_not_own :
    ¬ ∀ (x y name : Bytes) (max : ℕ),
      (httpRequestParse (samplePost ++ x)).map (fun req => getField req.bodyPtr name max) =
        (httpRequestParse (samplePost ++ y)).map (fun req => getField req.bodyPtr name max) := by
  intro h
  have hleak := h samplePost [] (bytes "a=") 32
  exact absurd hleak (by decide +kernel)

end Segnalacity
