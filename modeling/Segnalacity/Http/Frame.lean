import Segnalacity.Http.Utils
import Segnalacity.Lib.Framing

/-! # A complete request is a frame

`CompleteRequest w p r n`: `w` is a header block that parses to `p` and ends at offset `r`,
followed by the `n` bytes of body that it declares.  The server's completeness test accepts
exactly the extensions of such a `w` among the buffers comparable with it
(`CompleteRequest.isFrame`), so it is a frame in the sense of `Framing`. -/

namespace Segnalacity.Http

open CStr Scan Framing

/-- A decimal numeral that fits the conversion buffer of `http_is_request_complete`. -/
structure Numeral (v : Bytes) (n : ℕ) : Prop where
  ne_nil : v ≠ []
  digits : ∀ c ∈ v, isDigit c = true
  short : v.length ≤ maxNumberLen - 1
  value : decimal v = n

/-- A POST declares its body length in its first `Content-Length` header; other methods have no
body. -/
def DeclaresLength (p : PhrRequest) (n : ℕ) : Prop :=
  (p.method.text ≠ bytes "POST" ∧ n = 0) ∨
    (p.method.text = bytes "POST" ∧
      ∃ h, p.headers.find? isContentLength = some h ∧ Numeral h.value.text n)

structure CompleteRequest (w : Bytes) (p : PhrRequest) (r n : ℕ) : Prop where
  parse : phrParseRequest w = .ok p ⟨r, w.drop r⟩
  declares : DeclaresLength p n
  size : w.length = r + n

/-- The body bytes of a request. -/
def HttpRequest.bodyBytes (req : HttpRequest) : Bytes :=
  match req.body with
  | none => []
  | some off => (req.raw.drop off).take req.bodyLen

/-- Method, path, headers and body, as texts. -/
def HttpRequest.content (req : HttpRequest) : Bytes × Bytes × List (Bytes × Bytes) × Bytes :=
  (req.method.text, req.path.text, req.headers.map fun h => (h.name.text, h.value.text),
    req.bodyBytes)

/-! ### The declared length -/

theorem strtol_numeral {v : Bytes} {n : ℕ} (h : Numeral v n) : strtol v = min (n : ℤ) (2 ^ 63 - 1) := by
  obtain ⟨c, t, rfl⟩ := List.exists_cons_of_ne_nil h.ne_nil
  have hc : 48 ≤ c ∧ c ≤ 57 := by
    have := h.digits c List.mem_cons_self
    simpa only [isDigit, Bool.and_eq_true, decide_eq_true_eq] using this
  have hzero : (0 : UInt8) ∉ c :: t := by
    intro h0
    have := h.digits 0 h0
    revert this
    decide
  have hspace : isSpace c = false := by
    have : ¬ c = 32 ∧ ¬ c ≤ 13 := by
      constructor
      · rintro rfl
        exact absurd hc.1 (by decide)
      · intro h13
        exact absurd (UInt8.le_trans hc.1 h13) (by decide)
    simp [isSpace, this.1, this.2]
  have hsign : signOf (c :: t) = (false, c :: t) := by
    unfold signOf
    split
    · rename_i heq
      rw [(List.cons.inj heq).1] at hc
      exact absurd hc.1 (by decide)
    · rename_i heq
      rw [(List.cons.inj heq).1] at hc
      exact absurd hc.1 (by decide)
    · rfl
  have htake : (c :: t).takeWhile isDigit = c :: t := List.takeWhile_eq_self_iff.mpr h.digits
  unfold strtol
  rw [cstr_eq_self hzero, List.dropWhile_cons_of_neg (by simp [hspace]), hsign]
  simp only [htake, h.value, Bool.false_eq_true, if_false]

theorem contentLength_numeral {headers : List PhrHeader} {h : PhrHeader} {n : ℕ}
    (hf : headers.find? isContentLength = some h) (hn : Numeral h.value.text n) (hle : n < 2 ^ 63) :
    contentLength headers = if n = 0 then none else some n := by
  have hmin : min (n : ℤ) (2 ^ 63 - 1) = n := by
    apply min_eq_left
    omega
  simp only [contentLength, hf, List.take_of_length_le hn.short, strtol_numeral hn, hmin,
    Int.toNat_natCast]
  by_cases h0 : n = 0
  · rw [if_pos h0, if_pos (by omega)]
  · rw [if_neg h0, if_neg (by omega)]

/-- The completeness test on a buffer whose header block has been read. -/
theorem complete_iff {buf : Bytes} {p : PhrRequest} {r n : ℕ} {rest : Bytes}
    (hp : phrParseRequest buf = .ok p ⟨r, rest⟩) (hd : DeclaresLength p n) (hn : n < 2 ^ 63) :
    httpIsRequestComplete buf = true ↔ n ≤ buf.length - r := by
  unfold httpIsRequestComplete
  rw [hp]
  dsimp only
  rcases hd with ⟨hm, rfl⟩ | ⟨hm, h, hf, hnum⟩
  · rw [if_pos hm]
    simp
  · rw [if_neg (not_not.mpr hm), contentLength_numeral hf hnum hn]
    by_cases h0 : n = 0
    · subst h0
      simp
    · rw [if_neg h0]
      simp

/-! ### Frames -/

section frame
variable {w : Bytes} {p : PhrRequest} {r n : ℕ} (h : CompleteRequest w p r n)
include h

/-- The header block alone decides the parse. -/
theorem CompleteRequest.parse_prefix (x : Bytes) :
    phrParseRequest (w.take r ++ x) = .ok p ⟨r, x⟩ ∧ r ≤ w.length ∧ 1 ≤ r :=
  scans_parseRequest.same_prefix h.parse x

theorem CompleteRequest.parse_append (x : Bytes) :
    phrParseRequest (w ++ x) = .ok p ⟨r, w.drop r ++ x⟩ := by
  have := (h.parse_prefix (w.drop r ++ x)).1
  rwa [← List.append_assoc, List.take_append_drop] at this

/-- **The completeness test recognises the end of a request.** -/
theorem CompleteRequest.isFrame (hn : n < 2 ^ 63) : IsFrame httpIsRequestComplete w where
  ne_nil := by
    rintro rfl
    obtain ⟨-, h1, h2⟩ := h.parse_prefix []
    simp only [List.length_nil] at h1
    omega
  before := by
    intro q x hw hx
    have hxlen := List.length_pos_iff.mpr hx
    have hlen : q.length + x.length = r + n := by rw [← h.size, hw, List.length_append]
    have hq : q = w.take q.length := by rw [hw, List.take_left]
    by_cases hqr : q.length < r
    · -- inside the header block
      have hmore : phrParseRequest q = .more := by
        rw [hq]
        exact scans_parseRequest.more_of_lt h.parse hqr
      simp only [httpIsRequestComplete, hmore]
    · -- inside the body
      have hsplit : w.take r ++ (w.take q.length).drop r = q := by
        rw [← hq, hw, List.take_append_of_le_length (by omega), List.take_append_drop]
      have hp := (h.parse_prefix ((w.take q.length).drop r)).1
      rw [hsplit] at hp
      apply Bool.eq_false_iff.mpr
      rw [Ne, complete_iff hp h.declares hn]
      omega
  after := by
    intro x
    rw [complete_iff (h.parse_append x) h.declares hn, List.length_append, h.size]
    omega

/-- The request that the handlers get from a buffer that starts with `w`. -/
theorem CompleteRequest.httpRequestParse_append (x : Bytes) :
    httpRequestParse (w ++ x) = some {
      raw := w ++ x
      method := p.method
      path := ⟨p.path.off, p.path.text.takeWhile (· ≠ 63)⟩
      headers := p.headers
      minorVersion := p.minorVersion
      body := if r < (w ++ x).length then some r else none
      bodyLen := (w ++ x).length - r } := by
  unfold httpRequestParse
  rw [h.parse_append x]

/-- The body is everything received behind the header block. -/
theorem CompleteRequest.content_append (x : Bytes) :
    (httpRequestParse (w ++ x)).map HttpRequest.content =
      some (p.method.text, p.path.text.takeWhile (· ≠ 63),
        p.headers.map (fun h => (h.name.text, h.value.text)), w.drop r ++ x) := by
  have hr := (h.parse_prefix []).2.1
  rw [h.httpRequestParse_append x, Option.map_some]
  simp only [HttpRequest.content, HttpRequest.bodyBytes, Option.some.injEq, Prod.mk.injEq, true_and]
  by_cases hlt : r < (w ++ x).length
  · simp only [if_pos hlt]
    rw [← List.length_drop, List.take_length, List.drop_append_of_le_length hr]
  · simp only [if_neg hlt]
    rw [← List.drop_append_of_le_length hr, List.drop_eq_nil_of_le (Nat.not_lt.mp hlt)]

/-- Bytes behind a request change what the handlers get. -/
theorem CompleteRequest.eq_nil_of_content {x : Bytes}
    (hx : (httpRequestParse (w ++ x)).map HttpRequest.content =
      (httpRequestParse w).map HttpRequest.content) : x = [] := by
  have hw := h.content_append []
  rw [List.append_nil, List.append_nil] at hw
  rw [h.content_append x, hw] at hx
  simpa using hx

end frame

end Segnalacity.Http
