import Segnalacity.Http.Parser

/-! # Requests, responses and the text helpers

The functions of `http_utils.c` on the types of `http_types.h`.  A request keeps the receive
buffer `raw` it was parsed from: the decoder that reads a cookie or a form field takes a pointer
into it and runs to its own delimiters, past the end of the slice it was given.  The byte behind
`raw` is the NUL that `on_read` writes. -/

namespace Segnalacity.Http

open CStr Scan

def clientBufferSize : ℕ := 2 ^ 13

def responseBufferSize : ℕ := 2 ^ 18

def maxNumberLen : ℕ := 24

def urlBufferSize : ℕ := 2 ^ 10

def cookieMax : ℕ := 512

structure HttpRequest where
  raw : Bytes
  method : Slice
  path : Slice
  headers : List PhrHeader
  minorVersion : ℕ
  body : Option ℕ
  bodyLen : ℕ
deriving DecidableEq, Repr

/-- The `body` pointer handed to `get_field`. -/
def HttpRequest.bodyPtr (req : HttpRequest) : Option Bytes := req.body.map req.raw.drop

/-- `body` is the whole output buffer, with what earlier responses left behind the current
one; `setCookie` and `location` are C strings. -/
structure HttpResponse where
  statusCode : ℕ
  contentType : Option Bytes
  body : Bytes
  bodyLen : ℕ
  setCookie : Bytes
  location : Bytes
deriving DecidableEq, Repr

/-! ### Decoding -/

def hexVal (c : UInt8) : UInt8 :=
  if 48 ≤ c && c ≤ 57 then c - 48
  else if 97 ≤ c && c ≤ 102 then c - 97 + 10
  else if 65 ≤ c && c ≤ 70 then c - 65 + 10
  else 0

/-- The bytes that end a value: NUL, `&`, space, CR and LF. -/
def isDelimiter (c : UInt8) : Bool := c = 0 || c = 38 || c = 32 || c = 13 || c = 10

/-- The byte of a `%XX` at the head of `s` and what follows it. -/
def percentByte : Bytes → Option (UInt8 × Bytes)
  | p :: h :: l :: s =>
      if p = 37 && isXDigit h && isXDigit l then some ((hexVal h <<< 4) ||| hexVal l, s) else none
  | _ => none

/-- One round of the loop of `url_decode`: the byte stored and the new `src`, or the end. -/
def decodeStep : Bytes → Option (UInt8 × Bytes)
  | [] => none
  | c :: s =>
      if isDelimiter c then none
      else match percentByte (c :: s) with
        | some (b, r) => if b = 0 then none else some (b, r)
        | none => some (if c = 43 then 32 else c, s)

/-- `url_decode` into a buffer with room for `room = max - 1` bytes and the NUL. -/
def urlDecode : ℕ → Bytes → Bytes
  | 0, _ => []
  | room + 1, s => match decodeStep s with
      | none => []
      | some (b, r) => b :: urlDecode room r

/-- The bytes behind the first `name` that stands at the start of `s` or after `&`. -/
def findField (name : Bytes) : Bool → Bytes → Option Bytes
  | start, [] => if start && name.isPrefixOf [] then some [] else none
  | start, c :: s =>
      if start && name.isPrefixOf (c :: s) then some ((c :: s).drop name.length)
      else findField name (c = 38) s

/-- `get_field`: the C string left in `dest`. -/
def getField (src : Option Bytes) (paramName : Bytes) (max : ℕ) : Bytes :=
  match src.bind fun p => findField paramName true (cstr p) with
  | none => []
  | some v => urlDecode (max - 1) v

/-! ### Requests -/

def isContentLength (h : PhrHeader) : Bool :=
  h.name.text.length = 14 && strncasecmpEq h.name.text (bytes "content-length") 14

/-- The loop over the headers in `http_is_request_complete`: the declared body length, when the
first `Content-Length` header has a positive one. -/
def contentLength (headers : List PhrHeader) : Option ℕ :=
  match headers.find? isContentLength with
  | none => none
  | some h =>
      let cl := strtol (h.value.text.take (maxNumberLen - 1))
      if cl ≤ 0 then none else some cl.toNat

def httpIsRequestComplete (buf : Bytes) : Bool :=
  match phrParseRequest buf with
  | .more => false
  | .bad => true
  | .ok p c =>
      if p.method.text ≠ bytes "POST" then true
      else match contentLength p.headers with
        | none => true
        | some cl => cl ≤ buf.length - c.pos

def httpRequestParse (raw : Bytes) : Option HttpRequest :=
  match phrParseRequest raw with
  | .more => none
  | .bad => none
  | .ok p c =>
      some {
        raw := raw
        method := p.method
        path := ⟨p.path.off, p.path.text.takeWhile (· ≠ 63)⟩
        headers := p.headers
        minorVersion := p.minorVersion
        body := if c.pos < raw.length then some c.pos else none
        bodyLen := raw.length - c.pos }

def httpRequestHeader (req : HttpRequest) (name : Bytes) : Option Slice :=
  (req.headers.find? fun h =>
    h.name.text.length = name.length && strncasecmpEq h.name.text name name.length).map
      PhrHeader.value

/-- The offset behind `name=` in a `Cookie` value, at the start or after a space or `;`. -/
def findCookie (name : Bytes) : Bool → Bytes → Option ℕ
  | _, [] => none
  | boundary, c :: v =>
      if boundary && (name ++ [61]).isPrefixOf (c :: v) then some (name.length + 1)
      else (findCookie name (c = 32 || c = 59) v).map (· + 1)

/-- `http_request_cookie`: the C string left in `dest`. -/
def httpRequestCookie (req : HttpRequest) (name : Bytes) (max : ℕ) : Bytes :=
  match httpRequestHeader req (bytes "cookie") with
  | none => []
  | some value => match findCookie name true value.text with
      | none => []
      | some k => urlDecode (max - 1) (req.raw.drop (value.off + k))

def httpIsRequestPath (req : HttpRequest) (path : Bytes) : Bool :=
  req.path.text = path

def httpIsRequestMethod (req : HttpRequest) (method : Bytes) : Bool :=
  req.method.text = method

def httpRequestContainsKeepalive (req : HttpRequest) : Bool :=
  match httpRequestHeader req (bytes "connection") with
  | none => false
  | some v => 10 ≤ v.text.length && strncasecmpEq v.text (bytes "keep-alive") 10

/-! ### Responses -/

def httpStatusMsg (code : ℕ) : Bytes :=
  match code with
  | 200 => bytes "OK"
  | 302 => bytes "Found"
  | 400 => bytes "Bad Request"
  | 401 => bytes "Unauthorized"
  | 403 => bytes "Forbidden"
  | 404 => bytes "Not Found"
  | 405 => bytes "Method Not Allowed"
  | 429 => bytes "Too Many Requests"
  | 500 => bytes "Internal Server Error"
  | _ => bytes "OK"

def inferContentType (body : Bytes) (override : Option Bytes) : Bytes :=
  match override with
  | some (c :: t) => c :: t
  | _ => match body.head? with
      | some 60 => bytes "text/html; charset=utf-8"
      | some 123 => bytes "application/json"
      | some 91 => bytes "application/json"
      | _ => bytes "text/plain; charset=utf-8"

/-- `append_to_buffer`: formatted text behind `out`, when it fits with its NUL. -/
def appendToBuffer (outMax : ℕ) (out text : Bytes) : Option Bytes :=
  if outMax - out.length ≤ text.length then none else some (out ++ text)

def httpResponseRender (resp : HttpResponse) (keepAlive : Bool) (outMax : ℕ) : Option Bytes := do
  let ct := inferContentType resp.body resp.contentType
  let bodyLen := if resp.statusCode = 302 then 0 else resp.bodyLen
  let out ← appendToBuffer outMax [] (bytes "HTTP/1.1 " ++ showNat resp.statusCode ++ bytes " " ++
    httpStatusMsg resp.statusCode ++ bytes "\x0d\nContent-Type: " ++ ct ++
    bytes "\x0d\nContent-Length: " ++ showNat bodyLen ++ bytes "\x0d\nConnection: " ++
    (if keepAlive then bytes "keep-alive" else bytes "close") ++
    bytes "\x0d\nAccess-Control-Allow-Origin: *\x0d\n")
  let out ← if resp.setCookie = [] then some out else
    appendToBuffer outMax out (bytes "Set-Cookie: " ++ resp.setCookie ++ bytes "\x0d\n")
  let out ← if resp.location = [] then some out else
    appendToBuffer outMax out (bytes "Location: " ++ resp.location ++ bytes "\x0d\n")
  let out ← appendToBuffer outMax out (bytes "\x0d\n")
  if outMax < out.length + bodyLen then none else some (out ++ resp.body.take bodyLen)

/-! ### HTML -/

def htmlEntity (c : UInt8) : Bytes :=
  if c = 60 then bytes "&lt;"
  else if c = 62 then bytes "&gt;"
  else if c = 38 then bytes "&amp;"
  else if c = 34 then bytes "&quot;"
  else if c = 39 then bytes "&#39;"
  else [c]

/-- The loop of `html_escape`, with `i` bytes written so far. -/
def htmlEscapeFrom (max : ℕ) : ℕ → Bytes → Bytes
  | _, [] => []
  | i, c :: s =>
      if c ≠ 0 ∧ i + 7 < max then htmlEntity c ++ htmlEscapeFrom max (i + (htmlEntity c).length) s
      else []

def htmlEscape (src : Bytes) (max : ℕ) : Bytes := htmlEscapeFrom max 0 src

def makeErrorBlock (msg : Bytes) (max : ℕ) : Bytes :=
  if msg = [] then []
  else snprintf max (bytes "<div class='alert alert-err'>" ++ msg ++ bytes "</div>")

/-! ### What the decoder returns -/

theorem decodeStep_cons {c : UInt8} (s : Bytes) (h : isDelimiter c = false) :
    decodeStep (c :: s) = match percentByte (c :: s) with
      | some (b, r) => if b = 0 then none else some (b, r)
      | none => some (if c = 43 then 32 else c, s) := by
  simp only [decodeStep, h, Bool.false_eq_true, if_false]

theorem decodeStep_delimiter {c : UInt8} (s : Bytes) (h : isDelimiter c = true) :
    decodeStep (c :: s) = none := by
  simp only [decodeStep, h, if_true]

theorem decodeStep_ne_zero {s r : Bytes} {b : UInt8} (h : decodeStep s = some (b, r)) : b ≠ 0 := by
  cases s with
  | nil => cases h
  | cons c s =>
      cases hd : isDelimiter c with
      | true => rw [decodeStep_delimiter s hd] at h; cases h
      | false =>
          rw [decodeStep_cons s hd] at h
          cases hp : percentByte (c :: s) with
          | some br =>
              simp only [hp] at h
              split at h
              · cases h
              · rename_i hb
                obtain ⟨rfl, -⟩ := Prod.mk.inj (Option.some.inj h)
                exact hb
          | none =>
              simp only [hp, Option.some.injEq, Prod.mk.injEq] at h
              rw [← h.1]
              by_cases hc : c = 43
              · rw [if_pos hc]; decide
              · rw [if_neg hc]
                rintro rfl
                cases hd

theorem zero_notMem_urlDecode : ∀ (room : ℕ) (s : Bytes), (0 : UInt8) ∉ urlDecode room s
  | 0, _ => by simp [urlDecode]
  | room + 1, s => by
      unfold urlDecode
      cases h : decodeStep s with
      | none => simp
      | some br =>
          have hb := decodeStep_ne_zero (show decodeStep s = some (br.1, br.2) from h)
          simpa [hb.symm] using zero_notMem_urlDecode room br.2

theorem urlDecode_length_le : ∀ (room : ℕ) (s : Bytes), (urlDecode room s).length ≤ room
  | 0, _ => by simp [urlDecode]
  | room + 1, s => by
      unfold urlDecode
      cases h : decodeStep s with
      | none => simp
      | some br => simpa using urlDecode_length_le room br.2

/-- A smaller buffer gets a prefix of what a larger one gets. -/
theorem urlDecode_take : ∀ (m n : ℕ) (s : Bytes), m ≤ n → urlDecode m s = (urlDecode n s).take m
  | 0, _, _, _ => by simp [urlDecode]
  | m + 1, n + 1, s, h => by
      unfold urlDecode
      cases hs : decodeStep s with
      | none => simp
      | some br =>
          simpa using urlDecode_take m n br.2 (Nat.le_of_succ_le_succ h)

theorem zero_notMem_getField (src : Option Bytes) (name : Bytes) (max : ℕ) :
    (0 : UInt8) ∉ getField src name max := by
  unfold getField
  split
  · simp
  · exact zero_notMem_urlDecode _ _

theorem getField_length_le (src : Option Bytes) (name : Bytes) (max : ℕ) :
    (getField src name max).length ≤ max - 1 := by
  unfold getField
  split
  · simp
  · exact urlDecode_length_le _ _

theorem zero_notMem_httpRequestCookie (req : HttpRequest) (name : Bytes) (max : ℕ) :
    (0 : UInt8) ∉ httpRequestCookie req name max := by
  unfold httpRequestCookie
  split
  · simp
  · split
    · simp
    · exact zero_notMem_urlDecode _ _

/-! ### What the decoder reads -/

theorem percentByte_cons (p h l : UInt8) (s : Bytes) : percentByte (p :: h :: l :: s) =
    if p = 37 && isXDigit h && isXDigit l then some ((hexVal h <<< 4) ||| hexVal l, s)
    else none := rfl

section append
variable {t : UInt8} (ht : isXDigit t = false) (rest : Bytes)
include ht

/-- An escape does not reach over a byte that is no hex digit. -/
theorem percentByte_append : ∀ x : Bytes, x ≠ [] →
    percentByte (x ++ t :: rest) = (percentByte x).map fun br => (br.1, br.2 ++ t :: rest)
  | [], h => absurd rfl h
  | [p], _ => by cases rest <;> simp [percentByte, ht]
  | [p, h], _ => by simp [percentByte, ht]
  | p :: h :: l :: x, _ => by
      simp only [List.cons_append, percentByte]
      split_ifs <;> rfl

theorem decodeStep_append (c : UInt8) (x : Bytes) :
    decodeStep (c :: x ++ t :: rest) =
      (decodeStep (c :: x)).map fun br => (br.1, br.2 ++ t :: rest) := by
  cases hd : isDelimiter c with
  | true => rw [List.cons_append, decodeStep_delimiter _ hd, decodeStep_delimiter _ hd]; rfl
  | false =>
      rw [List.cons_append, decodeStep_cons _ hd, decodeStep_cons _ hd, ← List.cons_append,
        percentByte_append ht rest (c :: x) (by simp)]
      cases percentByte (c :: x) with
      | none => rfl
      | some br =>
          simp only [Option.map_some]
          split_ifs <;> rfl

/-- Decoding a text inside a longer one: the same, unless the byte behind the text is read too. -/
theorem urlDecode_append (room : ℕ) (x : Bytes) :
    urlDecode room x <+: urlDecode room (x ++ t :: rest) ∧
      (urlDecode room (x ++ t :: rest) = urlDecode room x ∨
        ∃ b r, decodeStep (t :: rest) = some (b, r) ∧ b ∈ urlDecode room (x ++ t :: rest)) := by
  induction room generalizing x with
  | zero => exact ⟨List.prefix_rfl, Or.inl rfl⟩
  | succ room ih =>
      cases x with
      | nil =>
          refine ⟨List.nil_prefix, ?_⟩
          rw [List.nil_append]
          unfold urlDecode
          cases hs : decodeStep (t :: rest) with
          | none => exact Or.inl rfl
          | some br => exact Or.inr ⟨br.1, br.2, rfl, List.mem_cons_self⟩
      | cons c x =>
          unfold urlDecode
          rw [decodeStep_append ht rest c x]
          cases hs : decodeStep (c :: x) with
          | none => exact ⟨List.prefix_rfl, Or.inl rfl⟩
          | some br =>
              obtain ⟨hpre, heq⟩ := ih br.2
              refine ⟨List.prefix_cons_inj _ |>.mpr hpre, ?_⟩
              rcases heq with heq | ⟨b, r, hb, hmem⟩
              · exact Or.inl (congrArg (br.1 :: ·) heq)
              · exact Or.inr ⟨b, r, hb, List.mem_cons_of_mem _ hmem⟩

end append

/-- The source after `n` rounds of the decoder. -/
def dropDecoded : ℕ → Bytes → Bytes
  | 0, s => s
  | n + 1, s => match decodeStep s with
      | none => s
      | some (_, r) => dropDecoded n r

/-- One byte more of room, for a value that fills the buffer. -/
theorem urlDecode_succ {n : ℕ} {s : Bytes} (h : (urlDecode n s).length = n) :
    urlDecode (n + 1) s =
      urlDecode n s ++ ((decodeStep (dropDecoded n s)).map Prod.fst).toList := by
  induction n generalizing s with
  | zero =>
      show urlDecode 1 s = ((decodeStep s).map Prod.fst).toList
      unfold urlDecode
      cases decodeStep s <;> rfl
  | succ n ih =>
      unfold urlDecode at h ⊢
      unfold dropDecoded
      cases hs : decodeStep s with
      | none => rw [hs] at h; cases h
      | some br =>
          rw [hs] at h
          have hlen : (urlDecode n br.2).length = n := Nat.succ.inj h
          show br.1 :: urlDecode (n + 1) br.2 = _
          rw [ih hlen]
          rfl

/-- The ends of a value: the end of the buffer, a delimiter, or an escaped NUL. -/
def ValueEnds (s : Bytes) : Prop :=
  s = [] ∨ (∃ c r, s = c :: r ∧ isDelimiter c = true) ∨ ∃ r, s = 37 :: 48 :: 48 :: r

theorem hexVal_shift_eq_zero {h : UInt8} (hx : isXDigit h = true) (h0 : hexVal h <<< 4 = 0) :
    h = 48 := by
  have key : ∀ n < 256, isXDigit (UInt8.ofNat n) = true → hexVal (UInt8.ofNat n) <<< 4 = 0 →
      UInt8.ofNat n = 48 := by decide +kernel
  have hn := key h.toNat h.toNat_lt
  rw [UInt8.ofNat_toNat] at hn
  exact hn hx h0

theorem hexVal_eq_zero {h : UInt8} (hx : isXDigit h = true) (h0 : hexVal h = 0) : h = 48 :=
  hexVal_shift_eq_zero hx (by rw [h0]; rfl)

theorem decodeStep_eq_none_iff {s : Bytes} : decodeStep s = none ↔ ValueEnds s := by
  constructor
  · intro h
    cases s with
    | nil => exact Or.inl rfl
    | cons c s =>
        cases hd : isDelimiter c with
        | true => exact Or.inr (Or.inl ⟨c, s, rfl, hd⟩)
        | false =>
            rw [decodeStep_cons s hd] at h
            right
            right
            match s, h with
            | [], h => simp [percentByte] at h
            | [_], h => simp [percentByte] at h
            | a :: b :: r, h =>
                rw [percentByte_cons] at h
                by_cases hp : (decide (c = 37) && isXDigit a && isXDigit b) = true
                · rw [if_pos hp] at h
                  simp only [Bool.and_eq_true, decide_eq_true_eq] at hp
                  obtain ⟨⟨rfl, ha⟩, hb⟩ := hp
                  simp only [ite_eq_left_iff, reduceCtorEq, imp_false, not_not] at h
                  obtain ⟨h₁, h₂⟩ := UInt8.or_eq_zero_iff.mp h
                  rw [hexVal_shift_eq_zero ha h₁, hexVal_eq_zero hb h₂]
                  exact ⟨r, rfl⟩
                · rw [if_neg hp] at h
                  cases h
  · rintro (rfl | ⟨c, r, rfl, hd⟩ | ⟨r, rfl⟩)
    · rfl
    · exact decodeStep_delimiter r hd
    · simp [decodeStep, isDelimiter, percentByte, isXDigit, isDigit, hexVal]

theorem findCookie_le {name : Bytes} {boundary : Bool} {v : Bytes} {k : ℕ}
    (h : findCookie name boundary v = some k) : k ≤ v.length := by
  induction v generalizing boundary k with
  | nil => cases h
  | cons c v ih =>
      unfold findCookie at h
      split_ifs at h with hp
      · obtain rfl := Option.some.inj h
        simp only [Bool.and_eq_true, List.isPrefixOf_iff_prefix] at hp
        simpa using hp.2.length_le
      · obtain ⟨j, hj, rfl⟩ := Option.map_eq_some_iff.mp h
        have := ih hj
        simp only [List.length_cons]
        omega

end Segnalacity.Http
