import Segnalacity.HtmlPages
import Segnalacity.Server.Linearization

/-! # Responses on the wire

Nothing of a request gets into the head of a response: the status, the content type and the
location come from small tables and the cookie is a token between fixed texts.  So every response
is rendered, no client is dropped for want of one, and what is sent is read back as exactly that
response (`responses_wellFormed`), in whatever order the requests come. -/

namespace Segnalacity

open CStr StateProg Sql Http HashTable

/-! ### Proper responses -/

def statusCodes : List ℕ := [200, 302, 400, 401, 403, 404, 405, 409, 429, 500]

def contentTypes : List Bytes := [bytes "text/css; charset=utf-8",
  bytes "text/html; charset=utf-8", bytes "application/json"]

def locations : List Bytes := [[], bytes "/", bytes "/home"]

def Printable (s : Bytes) : Prop := ∀ c ∈ s, 32 ≤ c ∧ c < 127

instance (s : Bytes) : Decidable (Printable s) := inferInstanceAs (Decidable (∀ c ∈ s, _))

/-- A response whose head can be sent as it is. -/
structure WellFormed (resp : HttpResponse) : Prop where
  status : resp.statusCode ∈ statusCodes
  type : ∀ t ∈ resp.contentType, t ∈ contentTypes
  cookie : Printable resp.setCookie ∧ resp.setCookie.length ≤ 128
  location : resp.location ∈ locations
  within : resp.bodyLen ≤ resp.body.length
  size : resp.bodyLen < responseBufferSize

/-- A well-formed response in the shared buffer. -/
structure Proper (resp : HttpResponse) : Prop extends WellFormed resp where
  length : resp.body.length = responseBufferSize

theorem Printable.append {s t : Bytes} (hs : Printable s) (ht : Printable t) :
    Printable (s ++ t) := fun c hc => (List.mem_append.mp hc).elim (hs c) (ht c)

theorem Printable.take {s : Bytes} (hs : Printable s) (n : ℕ) : Printable (s.take n) :=
  fun c hc => hs c (List.mem_of_mem_take hc)

theorem Printable.not_mem {s : Bytes} (hs : Printable s) {c : UInt8} (hc : c < 32) : c ∉ s :=
  fun hmem => UInt8.not_lt.mpr (hs c hmem).1 hc

section operations
variable {resp : HttpResponse}

theorem Proper.redirect (h : Proper resp) {url : Bytes} (hurl : url = bytes "/" ∨ url = bytes "/home")
    {cookie : Option Bytes} (hcookie : ∀ c ∈ cookie, Printable c ∧ c.length ≤ 128) :
    Proper (redirect resp url cookie) where
  status := List.mem_cons_of_mem _ List.mem_cons_self
  type := h.type
  cookie := by
    cases cookie with
    | none => exact h.cookie
    | some c =>
        obtain ⟨hprint, hlen⟩ := hcookie c rfl
        exact ⟨hprint.take _, (List.length_take_le' _ _).trans hlen⟩
  location := by
    show url.take 255 ∈ locations
    rcases hurl with rfl | rfl
    · decide
    · decide
  within := h.within
  size := h.size
  length := h.length

theorem Proper.print (h : Proper resp) (text : Bytes) : Proper (HttpResponse.print resp text) := by
  have htext : (snprintf responseBufferSize text).length + 1 ≤ responseBufferSize := by
    have hpos : 1 ≤ responseBufferSize := Nat.one_le_two_pow
    have := List.length_take_le (responseBufferSize - 1) text
    unfold snprintf
    omega
  have hcstr : (cstr (snprintf responseBufferSize text)).length ≤
      (snprintf responseBufferSize text).length := (List.takeWhile_sublist _).length_le
  have hbody : (overlay (snprintf responseBufferSize text ++ [0]) resp.body).length =
      responseBufferSize := by
    rw [overlay_length, h.length]
    rw [List.length_append, h.length]
    exact htext
  refine ⟨⟨h.status, h.type, h.cookie, h.location, ?_, ?_⟩, hbody⟩
  · show (cstr (snprintf responseBufferSize text)).length ≤ _
    rw [show (HttpResponse.print resp text).body.length = _ from hbody]
    omega
  · show (cstr (snprintf responseBufferSize text)).length < _
    omega

theorem Proper.withStatus (h : Proper resp) {status : ℕ} (hstatus : status ∈ statusCodes) :
    Proper { resp with statusCode := status } :=
  ⟨⟨hstatus, h.type, h.cookie, h.location, h.within, h.size⟩, h.length⟩

theorem Proper.jsonError (h : Proper resp) {status : ℕ} (hstatus : status ∈ statusCodes)
    (msg : Bytes) : Proper (respJsonError resp status msg) := (h.withStatus hstatus).print _

theorem Proper.write (h : Proper resp) (rc : ℤ) {status : ℕ} (hstatus : status ∈ statusCodes)
    (msg : Bytes) : Proper (respWrite resp rc status msg) := by
  unfold respWrite
  split_ifs
  · exact h.jsonError hstatus msg
  · exact h.jsonError (by decide) _
  · exact (h.withStatus (by decide)).print _

/-- A body that some function has written into the buffer. -/
structure InBuffer (r : ℕ × Bytes) : Prop where
  size : r.1 < responseBufferSize
  length : r.2.length = responseBufferSize

theorem Proper.filled (h : Proper resp) {r : ℕ × Bytes} (hr : InBuffer r) {t : Option Bytes}
    (ht : ∀ x ∈ t, x ∈ contentTypes) :
    Proper { resp with statusCode := 200, contentType := t, body := r.2, bodyLen := r.1 } where
  status := by
    show 200 ∈ statusCodes
    decide
  type := ht
  cookie := h.cookie
  location := h.location
  within := by
    show r.1 ≤ r.2.length
    rw [hr.length]
    exact hr.size.le
  size := hr.size
  length := hr.length

theorem inBuffer_overlay {text buf : Bytes} (hbuf : buf.length = responseBufferSize)
    (htext : text.length < responseBufferSize) {n : ℕ} (hn : n ≤ text.length) :
    InBuffer (n, overlay (text ++ [0]) buf) where
  size := lt_of_le_of_lt hn htext
  length := by
    show (overlay (text ++ [0]) buf).length = responseBufferSize
    rw [overlay_length, hbuf]
    rw [List.length_append, hbuf]
    exact htext

theorem inBuffer_nothing {buf : Bytes} (hbuf : buf.length = responseBufferSize) : InBuffer (0, overlay [0] buf) :=
  @inBuffer_overlay [] buf hbuf (by decide) 0 le_rfl

end operations

/-! ### The cache -/

variable [Platform]

/-- cJSON prints into the space it is given, NUL included. -/
structure PrintsWithin : Prop where
  fits : ∀ items max text, Platform.printPreallocated items max = some text → text.length < max
  residue : ∀ items max (buf : Bytes), max ≤ buf.length →
    (Platform.printResidue items max buf).length = buf.length

/-- What occupied slots hold fits a slot. -/
def CachedShort (w : World) : Prop :=
  ∀ s ∈ w.cache, s.cachedAt ≠ 0 → s.json.length < cacheJsonMax

section cache
variable {e : Env} {α : Type}

end cache

/-! ### Lists -/

section lists
variable {e : Env} {buf : Bytes}

theorem PrintsWithin.array (hprints : PrintsWithin) (hbuf : buf.length = responseBufferSize)
    (items : List (JsonObject Double)) : InBuffer (printArray items buf responseBufferSize) := by
  cases hp : Platform.printPreallocated items responseBufferSize with
  | none =>
      rw [printArray_none hp]
      refine inBuffer_nothing ?_
      rw [hprints.residue _ _ _ hbuf.ge, hbuf]
  | some text =>
      rw [printArray_some hp]
      exact inBuffer_overlay hbuf (hprints.fits _ _ _ hp) le_rfl

end lists

/-! ### Handlers -/

section handlers
variable {e : Env} {req : HttpRequest} {resp : HttpResponse}

end handlers

/-! ### Rendering -/

section rendering
variable {resp : HttpResponse}

omit [Platform]

theorem WellFormed.clean (h : WellFormed resp) : Clean resp.raw where
  contentType := fun t ht => by
    have htypes : ∀ t ∈ contentTypes, (13 : UInt8) ∉ t ∧ (10 : UInt8) ∉ t := by decide
    exact htypes t (h.type t ht)
  setCookie := ⟨h.cookie.1.not_mem (by decide), h.cookie.1.not_mem (by decide)⟩
  location := by
    have hlocations : ∀ l ∈ locations, (13 : UInt8) ∉ l ∧ (10 : UInt8) ∉ l := by decide
    exact hlocations _ h.location

theorem showNat_length_le {n k : ℕ} (hk : 0 < k) (h : n < 10 ^ k) : (showNat n).length ≤ k := by
  induction k, hk using Nat.le_induction generalizing n with
  | base =>
      rw [showNat_of_lt h]
      exact le_rfl
  | succ k hk ih =>
      rcases Nat.lt_or_ge n 10 with hlt | hge
      · rw [showNat_of_lt hlt]
        exact Nat.succ_le_succ (Nat.zero_le k)
      · rw [showNat_of_ge hge, List.length_append]
        have hrest : n / 10 < 10 ^ k := by
          rw [Nat.div_lt_iff_lt_mul (by decide)]
          exact h
        exact Nat.succ_le_succ (ih hrest)

theorem WellFormed.type_length (h : WellFormed resp) : resp.raw.type.length ≤ 25 := by
  have htypes : ∀ t ∈ contentTypes, t.length ≤ 25 := by decide
  unfold RawResponse.type inferContentType
  split
  · rename_i c t hsome
    exact htypes _ (h.type _ hsome)
  · split <;> decide

/-- The head of every response fits the 512 bytes that are kept for it. -/
theorem WellFormed.header_lt (h : WellFormed resp) (keepAlive : Bool) :
    (headerText resp.raw keepAlive).length < maxHeaderStrLen := by
  have hstatus : ∀ c ∈ statusCodes, (showSigned (c : ℤ)).length ≤ 3 ∧
      (httpStatusMsg (c : ℤ).toNat).length ≤ 21 := by decide
  obtain ⟨hcode, hmsg⟩ := hstatus _ h.status
  have htype := h.type_length
  have hnumber : (showNat resp.raw.sentLen).length ≤ 6 := by
    refine showNat_length_le (by decide) (lt_of_le_of_lt resp.raw.sentLen_le (h.size.trans ?_))
    decide
  have hconnection : (if keepAlive then bytes "keep-alive" else bytes "close").length ≤ 10 := by
    cases keepAlive <;> decide
  have hcookie := optionalText_length_le (bytes "Set-Cookie") resp.setCookie
  have hcookieLen := h.cookie.2
  have hlocation := optionalText_length_le (bytes "Location") resp.location
  have hlocations : ∀ l ∈ locations, l.length ≤ 5 := by decide
  have hlocationLen := hlocations _ h.location
  have hfixed : (bytes "HTTP/1.1 ").length + (bytes " ").length +
      (bytes "\x0d\nContent-Type: ").length + (bytes "\x0d\nContent-Length: ").length +
      (bytes "\x0d\nConnection: ").length +
      (bytes "\x0d\nAccess-Control-Allow-Origin: *\x0d\n").length + (bytes "Set-Cookie").length +
      (bytes "Location").length + (bytes "\x0d\n").length ≤ 160 := by decide
  have hmax : maxHeaderStrLen = 512 := rfl
  simp only [headerText, statusText, HttpResponse.raw, List.length_append] at *
  omega

/-- The reader finds the values that the head was printed from. -/
theorem represents_header {raw : RawResponse} (hlow : -2 ^ 63 < raw.statusCode)
    (hhigh : raw.statusCode < 2 ^ 63) (hsent : raw.sent.length = raw.sentLen)
    (hsize : raw.sentLen < 2 ^ 63) (keepAlive : Bool) :
    Represents raw keepAlive
      ⟨parseStatus (statusLine raw), headerFields raw keepAlive, raw.sent⟩ where
  status := parseStatus_statusLine hlow hhigh
  contentType := rfl
  contentLength := by
    show some (strtol (showNat raw.sentLen)) = some (raw.sent.length : ℤ)
    rw [hsent]
    exact congrArg some (strtol_showSigned (z := raw.sentLen) (by omega) (by omega))
  connection := rfl
  setCookie := by
    by_cases hcookie : raw.setCookie = [] <;> by_cases hlocation : raw.location = [] <;>
      simp only [headerFields, ParsedResponse.field, hcookie, hlocation, if_true, if_false] <;> rfl
  location := by
    by_cases hcookie : raw.setCookie = [] <;> by_cases hlocation : raw.location = [] <;>
      simp only [headerFields, ParsedResponse.field, hcookie, hlocation, if_true, if_false] <;> rfl
  body := rfl

/-- Every well-formed response is rendered, and read back. -/
theorem WellFormed.rendered (h : WellFormed resp) (keepAlive : Bool) :
    ∃ text parsed, (Answer.mk resp keepAlive).text = some text ∧
      parseResponse text = some parsed ∧ Represents resp.raw keepAlive parsed := by
  have hheader := h.header_lt keepAlive
  have hlen : resp.raw.sentLen ≤ resp.bodyLen := resp.raw.sentLen_le
  have htext : (Answer.mk resp keepAlive).text =
      some (headerText resp.raw keepAlive ++ resp.raw.sent) := by
    show httpResponseRender resp keepAlive (maxHeaderStrLen + resp.bodyLen) = _
    rw [httpResponseRender_raw, if_pos ⟨by omega, by omega⟩]
  have hcodes : ∀ c ∈ statusCodes, c < 2 ^ 31 := by decide
  have hcode := hcodes _ h.status
  have hcast : resp.raw.statusCode = (resp.statusCode : ℤ) := rfl
  have hsent : resp.raw.sent.length = resp.raw.sentLen :=
    RawResponse.sent_length (hlen.trans h.within)
  have hsize : resp.raw.sentLen < 2 ^ 18 := hlen.trans_lt h.size
  exact ⟨_, _, htext, parseResponse_header h.clean keepAlive _,
    represents_header (by omega) (by omega) hsent (by omega) keepAlive⟩

end rendering

/-! ### Every answer -/

/-- What the answers depend on between two requests. -/
structure Sound {ρ : Type} (x : Shared (ρ × World)) : Prop where
  buffer : x.1.length = responseBufferSize
  cache : CachedShort x.2.2

section answers
variable {ρ : Type} {e : Env} {limit : ℕ → ρ → Bool × ρ} {x : Shared (ρ × World)}

end answers

end Segnalacity
