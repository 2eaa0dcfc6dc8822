import Segnalacity.Http.Utils
import Segnalacity.Lib.Decimal
import Segnalacity.Lib.Lines
import Segnalacity.Lib.Store

/-! # Rendered responses

`http_response_render` on its output buffer, for every value of the fields of `HttpResponse`: the
status is an `int` and the body may be NULL.  What it writes is a head of lines and the body, and
both are read back by a parser that knows nothing of the writer: `httpResponseRender_spec`. -/

namespace Segnalacity.Http

open CStr

/-- `HttpResponse` with every value that its C type has. -/
structure RawResponse where
  statusCode : ℤ
  contentType : Option Bytes
  body : Option Bytes
  bodyLen : ℕ
  setCookie : Bytes
  location : Bytes
deriving DecidableEq, Repr

def HttpResponse.raw (resp : HttpResponse) : RawResponse where
  statusCode := resp.statusCode
  contentType := resp.contentType
  body := some resp.body
  bodyLen := resp.bodyLen
  setCookie := resp.setCookie
  location := resp.location

namespace RawResponse

/-- The body that is sent: none under a redirect. -/
def sentLen (resp : RawResponse) : ℕ := if resp.statusCode = 302 then 0 else resp.bodyLen

def sent (resp : RawResponse) : Bytes := (resp.body.getD []).take resp.sentLen

def type (resp : RawResponse) : Bytes := inferContentType (resp.body.getD []) resp.contentType

theorem sentLen_le (resp : RawResponse) : resp.sentLen ≤ resp.bodyLen := by
  unfold sentLen
  split_ifs <;> omega

theorem sent_length {resp : RawResponse} (h : resp.sentLen ≤ (resp.body.getD []).length) :
    resp.sent.length = resp.sentLen := by
  unfold sent
  rw [List.length_take, Nat.min_eq_left h]

end RawResponse

/-! ### The writer -/

/-- `append_to_buffer` at `pos`: the buffer, and the new position unless the text does not fit. -/
def appendToBufferInto (outMax : ℕ) (text : Bytes) (x : Bytes × ℕ) : Option (Bytes × Option ℕ) :=
  (vsnprintf x.1 x.2 (outMax - x.2) text).map fun out =>
    (out, if outMax - x.2 ≤ text.length then none else some (x.2 + text.length))

/-- The next append, unless one has failed. -/
def thenAppend (f : Bytes × ℕ → Option (Bytes × Option ℕ)) (r : Option (Bytes × Option ℕ)) :
    Option (Bytes × Option ℕ) :=
  r.bind fun x => match x.2 with
    | none => some x
    | some pos => f (x.1, pos)

def statusText (resp : RawResponse) (keepAlive : Bool) : Bytes :=
  bytes "HTTP/1.1 " ++ showSigned resp.statusCode ++ bytes " " ++
    httpStatusMsg resp.statusCode.toNat ++ bytes "\x0d\nContent-Type: " ++ resp.type ++
    bytes "\x0d\nContent-Length: " ++ showNat resp.sentLen ++ bytes "\x0d\nConnection: " ++
    (if keepAlive then bytes "keep-alive" else bytes "close") ++
    bytes "\x0d\nAccess-Control-Allow-Origin: *\x0d\n"

/-- An optional header, emitted only when its field is not empty. -/
def optionalText (name value : Bytes) : Bytes :=
  if value = [] then [] else name ++ bytes ": " ++ value ++ bytes "\x0d\n"

def appendOptional (outMax : ℕ) (name value : Bytes) (r : Option (Bytes × Option ℕ)) :
    Option (Bytes × Option ℕ) :=
  if value = [] then r else thenAppend (appendToBufferInto outMax (optionalText name value)) r

/-- The end of `http_response_render`: the raw copy of the body. -/
def copyBody (resp : RawResponse) (outMax : ℕ) (x : Bytes × ℕ) : Option (Bytes × Option ℕ) :=
  if outMax < x.2 + resp.sentLen then some (x.1, none)
  else if resp.sentLen = 0 then some (x.1, some x.2)
  else (memcpy x.1 x.2 resp.sent).map fun out => (out, some (x.2 + resp.sentLen))

/-- `http_response_render`: the output buffer and the value returned, with `none` for -1. -/
def httpResponseRenderInto (resp : RawResponse) (keepAlive : Bool) (out : Bytes) (outMax : ℕ) :
    Option (Bytes × Option ℕ) :=
  let r := appendToBufferInto outMax (statusText resp keepAlive) (out, 0)
  let r := appendOptional outMax (bytes "Set-Cookie") resp.setCookie r
  let r := appendOptional outMax (bytes "Location") resp.location r
  let r := thenAppend (appendToBufferInto outMax (bytes "\x0d\n")) r
  thenAppend (copyBody resp outMax) r

/-- The text of the header section, with the blank line that ends it. -/
def headerText (resp : RawResponse) (keepAlive : Bool) : Bytes :=
  statusText resp keepAlive ++ optionalText (bytes "Set-Cookie") resp.setCookie ++
    optionalText (bytes "Location") resp.location ++ bytes "\x0d\n"

/-! ### What is written -/

/-- The texts appended so far fit with a NUL and stand at the start of the buffer, or an append has
failed. -/
def Appended (out : Bytes) (outMax : ℕ) (text : Bytes) (r : Option (Bytes × Option ℕ)) : Prop :=
  ∃ mem t, r = some (mem, if text.length < outMax then some text.length else none) ∧
    Written out outMax t mem ∧ (text.length < outMax → t = text)

section appended
variable {out text mem : Bytes} {outMax : ℕ} {r : Option (Bytes × Option ℕ)}

theorem appended_of_written (h : Written out outMax text mem) (hout : outMax ≤ out.length) (s : Bytes) :
    Appended out outMax (text ++ s) (appendToBufferInto outMax s (mem, text.length)) := by
  have hroom := h.room
  obtain ⟨mem', hprint, hw⟩ := h.vsnprintf hout s
  refine ⟨mem', _, ?_, hw, ?_⟩
  · unfold appendToBufferInto
    rw [hprint, Option.map_some, List.length_append]
    have hfits : outMax - text.length ≤ s.length ↔ ¬ text.length + s.length < outMax := by omega
    by_cases hlt : text.length + s.length < outMax
    · rw [if_neg (fun hle => hfits.mp hle hlt), if_pos hlt]
    · rw [if_pos (hfits.mpr hlt), if_neg hlt]
  · intro hlt
    rw [List.length_append] at hlt
    rw [List.take_of_length_le (by omega)]

theorem Appended.thenAppend (h : Appended out outMax text r) (hout : outMax ≤ out.length)
    (s : Bytes) :
    Appended out outMax (text ++ s) (thenAppend (appendToBufferInto outMax s) r) := by
  obtain ⟨mem, t, rfl, hw, ht⟩ := h
  by_cases hfits : text.length < outMax
  · rw [if_pos hfits]
    rw [ht hfits] at hw
    exact appended_of_written hw hout s
  · have hlong : ¬ (text ++ s).length < outMax := by
      rw [List.length_append]
      omega
    refine ⟨mem, t, ?_, hw, fun hlt => absurd hlt hlong⟩
    rw [if_neg hfits, if_neg hlong]
    rfl

theorem Appended.optional (h : Appended out outMax text r) (hout : outMax ≤ out.length)
    (name value : Bytes) :
    Appended out outMax (text ++ optionalText name value) (appendOptional outMax name value r) := by
  unfold appendOptional
  split_ifs with hempty
  · rw [optionalText, if_pos hempty, List.append_nil]
    exact h
  · exact h.thenAppend hout _

end appended

/-- The copy behind a text that is in the buffer. -/
theorem copyBody_run {resp : RawResponse} {out text mem : Bytes} {outMax : ℕ}
    (hw : Written out outMax text mem) (hout : outMax ≤ out.length) (hfits : text.length < outMax)
    (hsent : resp.sent.length = resp.sentLen) :
    ∃ out' n, copyBody resp outMax (mem, text.length) = some (out', n) ∧
      out'.length = out.length ∧ out'.drop outMax = out.drop outMax ∧
      (n = none ↔ outMax < text.length + resp.sent.length) ∧
      ∀ k, n = some k → k ≤ outMax ∧ out'.take k = text ++ resp.sent := by
  unfold copyBody
  dsimp only
  rw [hsent]
  split_ifs with hlong hempty
  · exact ⟨mem, none, rfl, hw.length, hw.behind, iff_of_true rfl hlong, nofun⟩
  · have hnil : resp.sent = [] := by rw [← List.length_eq_zero_iff, hsent, hempty]
    refine ⟨mem, _, rfl, hw.length, hw.behind, iff_of_false nofun hlong, ?_⟩
    rintro k ⟨⟩
    refine ⟨hfits.le, ?_⟩
    rw [hnil, List.append_nil]
    exact (List.prefix_iff_eq_take.mp hw.starts).symm
  · obtain ⟨mem', hcopy, hw'⟩ := hw.memcpy hout (s := resp.sent) (by omega)
    refine ⟨mem', some (text.length + resp.sentLen), ?_, hw'.length, hw'.behind,
      iff_of_false nofun hlong, ?_⟩
    · rw [hcopy]
      rfl
    · rintro k ⟨⟩
      have htake := (List.prefix_iff_eq_take.mp hw'.starts).symm
      rw [List.length_append, hsent] at htake
      exact ⟨by omega, htake⟩

/-- The appends of `http_response_render`, before the body is copied. -/
theorem headerText_appended (resp : RawResponse) (keepAlive : Bool) {out : Bytes} {outMax : ℕ}
    (hout : outMax ≤ out.length) : ∃ r, Appended out outMax (headerText resp keepAlive) r ∧
      httpResponseRenderInto resp keepAlive out outMax = thenAppend (copyBody resp outMax) r := by
  have h₀ : Appended out outMax (statusText resp keepAlive)
      (appendToBufferInto outMax (statusText resp keepAlive) (out, 0)) :=
    appended_of_written written_nil hout _
  have h₁ := (h₀.optional hout (bytes "Set-Cookie") resp.setCookie).optional hout
    (bytes "Location") resp.location
  exact ⟨_, h₁.thenAppend hout (bytes "\x0d\n"), rfl⟩

/-- The value returned, and the bytes that stand at the start of the buffer when it is not -1. -/
theorem httpResponseRenderInto_run {resp : RawResponse} {out : Bytes} {outMax : ℕ}
    (keepAlive : Bool) (hout : outMax ≤ out.length) (hsent : resp.sent.length = resp.sentLen) :
    ∃ out' n, httpResponseRenderInto resp keepAlive out outMax = some (out', n) ∧
      out'.length = out.length ∧ out'.drop outMax = out.drop outMax ∧
      (n = none ↔ outMax < (headerText resp keepAlive).length + 1 ∨
        outMax < (headerText resp keepAlive).length + resp.sent.length) ∧
      ∀ k, n = some k → k ≤ outMax ∧ out'.take k = headerText resp keepAlive ++ resp.sent := by
  obtain ⟨r, ⟨mem, t, hr, hw, ht⟩, hrender⟩ := headerText_appended resp keepAlive hout
  rw [hrender, hr]
  generalize headerText resp keepAlive = text at ht ⊢
  by_cases hfits : text.length < outMax
  · rw [if_pos hfits]
    rw [ht hfits] at hw
    obtain ⟨out', n, hcopy, hlength, hbehind, hnone, hsome⟩ := copyBody_run hw hout hfits hsent
    refine ⟨out', n, hcopy, hlength, hbehind, hnone.trans ?_, hsome⟩
    omega
  · rw [if_neg hfits]
    exact ⟨mem, none, rfl, hw.length, hw.behind, iff_of_true rfl (Or.inl (by omega)), nofun⟩

theorem appendToBuffer_append {outMax : ℕ} {text : Bytes} (s : Bytes) :
    (if text.length < outMax then some text else none).bind (fun out => appendToBuffer outMax out s) =
      if (text ++ s).length < outMax then some (text ++ s) else none := by
  unfold appendToBuffer
  rw [List.length_append]
  by_cases hfits : text.length < outMax
  · rw [if_pos hfits, Option.bind_some]
    by_cases hlt : text.length + s.length < outMax
    · rw [if_neg (by omega), if_pos hlt]
    · rw [if_pos (by omega), if_neg hlt]
  · rw [if_neg hfits, if_neg (by omega)]
    rfl

theorem appendToBuffer_optional {outMax : ℕ} {text name value : Bytes} :
    (if text.length < outMax then some text else none).bind (fun out =>
        if value = [] then some out
        else appendToBuffer outMax out (name ++ bytes ": " ++ value ++ bytes "\x0d\n")) =
      if (text ++ optionalText name value).length < outMax then
        some (text ++ optionalText name value) else none := by
  by_cases hempty : value = []
  · simp only [optionalText, hempty, if_true, List.append_nil]
    exact Option.bind_fun_some _
  · simp only [optionalText, hempty, if_false]
    exact appendToBuffer_append _

/-- The handlers' responses are rendered by the text-level function to the same bytes. -/
theorem httpResponseRender_raw (resp : HttpResponse) (keepAlive : Bool) (outMax : ℕ) :
    httpResponseRender resp keepAlive outMax =
      if (headerText resp.raw keepAlive).length < outMax ∧
          (headerText resp.raw keepAlive).length + resp.raw.sentLen ≤ outMax then
        some (headerText resp.raw keepAlive ++ resp.raw.sent) else none := by
  have hstart : appendToBuffer outMax [] (statusText resp.raw keepAlive) =
      if (statusText resp.raw keepAlive).length < outMax then some (statusText resp.raw keepAlive)
      else none := by
    unfold appendToBuffer
    rw [List.length_nil, Nat.sub_zero, List.nil_append]
    by_cases hlt : (statusText resp.raw keepAlive).length < outMax
    · rw [if_neg (by omega), if_pos hlt]
    · rw [if_pos (by omega), if_neg hlt]
  have hlen : (if resp.statusCode = 302 then 0 else resp.bodyLen) = resp.raw.sentLen := by
    unfold RawResponse.sentLen HttpResponse.raw
    have hcast : ((resp.statusCode : ℤ) = 302) ↔ resp.statusCode = 302 := by omega
    simp only [hcast]
  have hrender : httpResponseRender resp keepAlive outMax =
      ((((appendToBuffer outMax [] (statusText resp.raw keepAlive)).bind fun out =>
        if resp.setCookie = [] then some out
        else appendToBuffer outMax out
          (bytes "Set-Cookie" ++ bytes ": " ++ resp.setCookie ++ bytes "\x0d\n")).bind fun out =>
        if resp.location = [] then some out
        else appendToBuffer outMax out
          (bytes "Location" ++ bytes ": " ++ resp.location ++ bytes "\x0d\n")).bind fun out =>
        appendToBuffer outMax out (bytes "\x0d\n")).bind fun out =>
        if outMax < out.length + resp.raw.sentLen then none else some (out ++ resp.raw.sent) := by
    rw [Option.bind_assoc, Option.bind_assoc, Option.bind_assoc]
    by_cases hcookie : resp.setCookie = [] <;> by_cases hlocation : resp.location = [] <;>
      simp only [httpResponseRender, hcookie, hlocation, if_true, if_false, hlen] <;> rfl
  rw [hrender, hstart, appendToBuffer_optional, appendToBuffer_optional, appendToBuffer_append]
  change (if (headerText resp.raw keepAlive).length < outMax then
    some (headerText resp.raw keepAlive) else none).bind _ = _
  by_cases hfits : (headerText resp.raw keepAlive).length < outMax
  · rw [if_pos hfits, Option.bind_some]
    by_cases hlong : outMax < (headerText resp.raw keepAlive).length + resp.raw.sentLen
    · rw [if_pos hlong, if_neg (by omega)]
    · rw [if_neg hlong, if_pos ⟨hfits, by omega⟩]
  · rw [if_neg hfits, if_neg (fun h => hfits h.1)]
    rfl

/-- What the writer leaves in its buffer is the text of `httpResponseRender`. -/
theorem httpResponseRenderInto_raw {resp : HttpResponse} {out : Bytes} {outMax : ℕ}
    (hbody : resp.bodyLen ≤ resp.body.length) (keepAlive : Bool) (hout : outMax ≤ out.length) :
    ∃ out', httpResponseRenderInto resp.raw keepAlive out outMax =
        some (out', (httpResponseRender resp keepAlive outMax).map List.length) ∧
      ∀ text ∈ httpResponseRender resp keepAlive outMax, out'.take text.length = text := by
  have hsent : resp.raw.sent.length = resp.raw.sentLen :=
    RawResponse.sent_length (resp.raw.sentLen_le.trans hbody)
  obtain ⟨out', n, hrun, hlength, -, hnone, hsome⟩ :=
    httpResponseRenderInto_run keepAlive hout hsent
  refine ⟨out', ?_, ?_⟩
  all_goals rw [httpResponseRender_raw]
  · rw [hrun]
    cases n with
    | none =>
        have hlong := hnone.mp rfl
        rw [if_neg (by omega)]
        rfl
    | some k =>
        obtain ⟨hle, htake⟩ := hsome k rfl
        have hfits : ¬ _ := fun hlong => Option.some_ne_none k (hnone.mpr hlong)
        have hk : k = (headerText resp.raw keepAlive ++ resp.raw.sent).length := by
          rw [← htake, List.length_take]
          omega
        rw [if_pos (by omega), hk]
        rfl
  · intro text htext
    split_ifs at htext with hfits
    · obtain rfl := Option.some.inj htext
      cases n with
      | none => exact absurd (hnone.mp rfl) (by omega)
      | some k =>
          obtain ⟨hle, htake⟩ := hsome k rfl
          rw [← htake, List.length_take, Nat.min_eq_left (by omega)]
    · cases htext

/-! ### The reader -/

structure ParsedResponse where
  status : ℤ
  fields : List (Bytes × Bytes)
  body : Bytes

/-- The number behind `HTTP/1.1 `. -/
def parseStatus (line : Bytes) : ℤ := strtol ((line.drop 9).takeWhile (· ≠ 32))

/-- The name before the first colon, and what follows the blank behind it. -/
def parseField (line : Bytes) : Bytes × Bytes :=
  (line.takeWhile (· ≠ 58), (line.dropWhile (· ≠ 58)).drop 2)

def parseResponse (s : Bytes) : Option ParsedResponse :=
  match splitHead s with
  | none => none
  | some (head, body) => match splitLines head with
      | [] => none
      | line :: lines => some ⟨parseStatus line, lines.map parseField, body⟩

def ParsedResponse.field (p : ParsedResponse) (name : Bytes) : Option Bytes :=
  (p.fields.find? fun f => f.1 = name).map Prod.snd

/-- What has been read is the response. -/
structure Represents (resp : RawResponse) (keepAlive : Bool) (p : ParsedResponse) : Prop where
  status : p.status = resp.statusCode
  contentType : p.field (bytes "Content-Type") = some resp.type
  contentLength : (p.field (bytes "Content-Length")).map strtol = some (p.body.length : ℤ)
  connection : p.field (bytes "Connection") =
    some (if keepAlive then bytes "keep-alive" else bytes "close")
  setCookie : p.field (bytes "Set-Cookie") =
    if resp.setCookie = [] then none else some resp.setCookie
  location : p.field (bytes "Location") = if resp.location = [] then none else some resp.location
  body : p.body = resp.sent

/-! ### Reading back -/

def headerFields (resp : RawResponse) (keepAlive : Bool) : List (Bytes × Bytes) :=
  [(bytes "Content-Type", resp.type),
    (bytes "Content-Length", showNat resp.sentLen),
    (bytes "Connection", if keepAlive then bytes "keep-alive" else bytes "close"),
    (bytes "Access-Control-Allow-Origin", bytes "*")] ++
  (if resp.setCookie = [] then [] else [(bytes "Set-Cookie", resp.setCookie)]) ++
  if resp.location = [] then [] else [(bytes "Location", resp.location)]

def statusLine (resp : RawResponse) : Bytes :=
  bytes "HTTP/1.1 " ++ showSigned resp.statusCode ++ bytes " " ++
    httpStatusMsg resp.statusCode.toNat

def fieldLine (f : Bytes × Bytes) : Bytes := f.1 ++ bytes ": " ++ f.2

def headerLines (resp : RawResponse) (keepAlive : Bool) : List Bytes :=
  statusLine resp :: (headerFields resp keepAlive).map fieldLine

theorem headerText_lines (resp : RawResponse) (keepAlive : Bool) :
    headerText resp keepAlive = joinLines (headerLines resp keepAlive) ++ crlf ++ crlf := by
  have hcrlf : bytes "\x0d\n" = crlf := by decide
  have htype : bytes "\x0d\nContent-Type: " = crlf ++ (bytes "Content-Type" ++ bytes ": ") := by
    decide
  have hlength : bytes "\x0d\nContent-Length: " = crlf ++ (bytes "Content-Length" ++ bytes ": ") := by
    decide
  have hconnection : bytes "\x0d\nConnection: " = crlf ++ (bytes "Connection" ++ bytes ": ") := by
    decide
  have horigin : bytes "\x0d\nAccess-Control-Allow-Origin: *\x0d\n" =
      crlf ++ (bytes "Access-Control-Allow-Origin" ++ bytes ": " ++ bytes "*" ++ crlf) := by decide
  have hjoin : (headerLines resp keepAlive).flatMap (· ++ crlf) =
      joinLines (headerLines resp keepAlive) ++ crlf := flatMap_crlf (List.cons_ne_nil _ _)
  rw [← hjoin]
  unfold headerText statusText headerLines headerFields optionalText statusLine
  rw [hcrlf, htype, hlength, hconnection, horigin]
  by_cases hcookie : resp.setCookie = [] <;> by_cases hlocation : resp.location = [] <;>
    simp [hcookie, hlocation, fieldLine, List.append_assoc]

theorem httpStatusMsg_clean (code : ℕ) : (13 : UInt8) ∉ httpStatusMsg code := by
  unfold httpStatusMsg
  split <;> decide

theorem showSigned_clean (z : ℤ) : (13 : UInt8) ∉ showSigned z ∧ (32 : UInt8) ∉ showSigned z := by
  have hnat : ∀ n, (13 : UInt8) ∉ showNat n ∧ (32 : UInt8) ∉ showNat n := fun n =>
    ⟨fun h => (isDigit_facts ((showNat_digits n).2 _ h)).2.2.2.2.2 rfl,
      fun h => (isDigit_facts ((showNat_digits n).2 _ h)).2.2.2.2.1 rfl⟩
  cases z with
  | ofNat n => exact hnat n
  | negSucc n =>
      have hn := hnat (n + 1)
      simp [showSigned, hn.1, hn.2]

/-- The texts of the response have no CR. -/
structure Clean (resp : RawResponse) : Prop where
  contentType : ∀ t ∈ resp.contentType, (13 : UInt8) ∉ t ∧ (10 : UInt8) ∉ t
  setCookie : (13 : UInt8) ∉ resp.setCookie ∧ (10 : UInt8) ∉ resp.setCookie
  location : (13 : UInt8) ∉ resp.location ∧ (10 : UInt8) ∉ resp.location

theorem Clean.type {resp : RawResponse} (h : Clean resp) : (13 : UInt8) ∉ resp.type := by
  unfold RawResponse.type inferContentType
  split
  · rename_i c t hsome
    exact (h.contentType (c :: t) hsome).1
  · split <;> decide

def headerNames : List Bytes := [bytes "Content-Type", bytes "Content-Length",
  bytes "Connection", bytes "Access-Control-Allow-Origin", bytes "Set-Cookie", bytes "Location"]

theorem headerNames_plain : ∀ name ∈ headerNames,
    name ≠ [] ∧ (58 : UInt8) ∉ name ∧ (13 : UInt8) ∉ name := by decide

theorem Clean.fields {resp : RawResponse} (h : Clean resp) (keepAlive : Bool) :
    ∀ f ∈ headerFields resp keepAlive, f.1 ∈ headerNames ∧ (13 : UInt8) ∉ f.2 := by
  have hlength : (13 : UInt8) ∉ showNat resp.sentLen := (showSigned_clean resp.sentLen).1
  have hconnection : (13 : UInt8) ∉ if keepAlive then bytes "keep-alive" else bytes "close" := by
    cases keepAlive <;> decide
  intro f hf
  simp only [headerFields, List.mem_append, List.mem_cons, List.not_mem_nil, or_false] at hf
  rcases hf with ((rfl | rfl | rfl | rfl) | hf) | hf
  · exact ⟨by simp [headerNames], h.type⟩
  · exact ⟨by simp [headerNames], hlength⟩
  · exact ⟨by simp [headerNames], hconnection⟩
  · exact ⟨by simp [headerNames], by decide⟩
  · split_ifs at hf
    · cases hf
    · rw [List.mem_singleton.mp hf]
      exact ⟨by simp [headerNames], h.setCookie.1⟩
  · split_ifs at hf
    · cases hf
    · rw [List.mem_singleton.mp hf]
      exact ⟨by simp [headerNames], h.location.1⟩

theorem Clean.lines {resp : RawResponse} (h : Clean resp) (keepAlive : Bool) :
    ∀ l ∈ headerLines resp keepAlive, l ≠ [] ∧ (13 : UInt8) ∉ l := by
  intro l hl
  rcases List.mem_cons.mp hl with rfl | hl
  · unfold statusLine
    have hmsg := httpStatusMsg_clean resp.statusCode.toNat
    have hcode := (showSigned_clean resp.statusCode).1
    simp only [List.mem_append, not_or]
    exact ⟨by simp [bytes], ⟨⟨by decide, hcode⟩, by decide⟩, hmsg⟩
  · obtain ⟨f, hf, rfl⟩ := List.mem_map.mp hl
    obtain ⟨hmem, hvalue⟩ := h.fields keepAlive f hf
    obtain ⟨hne, -, hname⟩ := headerNames_plain f.1 hmem
    unfold fieldLine
    simp only [List.mem_append, not_or]
    exact ⟨by simp [hne], ⟨hname, by decide⟩, hvalue⟩

theorem parseField_fieldLine {f : Bytes × Bytes} (h : (58 : UInt8) ∉ f.1) :
    parseField (fieldLine f) = f := by
  have hname : ∀ c ∈ f.1, decide (c ≠ 58) = true := by
    intro c hc
    rw [decide_eq_true_eq]
    rintro rfl
    exact h hc
  have hline : fieldLine f = f.1 ++ 58 :: 32 :: f.2 := by
    unfold fieldLine
    rw [show bytes ": " = [58, 32] by decide]
    simp
  unfold parseField
  rw [hline, List.takeWhile_append_of_pos hname, List.dropWhile_append_of_pos hname]
  simp

theorem parseStatus_statusLine {resp : RawResponse} (hlow : -2 ^ 63 < resp.statusCode)
    (hhigh : resp.statusCode < 2 ^ 63) : parseStatus (statusLine resp) = resp.statusCode := by
  have hcode := (showSigned_clean resp.statusCode).2
  have hpass : ∀ c ∈ showSigned resp.statusCode, decide (c ≠ 32) = true := by
    intro c hc
    rw [decide_eq_true_eq]
    rintro rfl
    exact hcode hc
  have hline : (statusLine resp).drop 9 =
      showSigned resp.statusCode ++ 32 :: httpStatusMsg resp.statusCode.toNat := by
    unfold statusLine
    rw [List.append_assoc, List.append_assoc]
    rfl
  unfold parseStatus
  rw [hline, List.takeWhile_append_of_pos hpass]
  simp [strtol_showSigned hlow hhigh]

theorem parseResponse_header {resp : RawResponse} (h : Clean resp) (keepAlive : Bool)
    (body : Bytes) : parseResponse (headerText resp keepAlive ++ body) =
      some ⟨parseStatus (statusLine resp), headerFields resp keepAlive, body⟩ := by
  have hlines := h.lines keepAlive
  have hne : headerLines resp keepAlive ≠ [] := List.cons_ne_nil _ _
  have hfields : ((headerFields resp keepAlive).map fieldLine).map parseField =
      headerFields resp keepAlive := by
    rw [List.map_map]
    refine (List.map_congr_left fun f hf => ?_).trans (List.map_id _)
    exact parseField_fieldLine (headerNames_plain f.1 (h.fields keepAlive f hf).1).2.1
  unfold parseResponse
  rw [headerText_lines, splitHead_joinLines hne hlines]
  dsimp only
  rw [splitLines_joinLines hne fun l hl => (hlines l hl).2]
  dsimp only [headerLines]
  rw [hfields]

/-- **Rendering.**  Nothing is written at or behind `out[outMax]`.  The result is -1 exactly when
the header text does not fit with its NUL or the header and the body exceed `outMax`; otherwise the
bytes up to the length returned read back to the response. -/
theorem httpResponseRender_spec {resp : RawResponse} (hclean : Clean resp)
    (hlow : -2 ^ 31 ≤ resp.statusCode) (hhigh : resp.statusCode < 2 ^ 31)
    (hbody : resp.sentLen ≤ (resp.body.getD []).length) (hsize : resp.sentLen < 2 ^ 31)
    (keepAlive : Bool) {out : Bytes} {outMax : ℕ} (hout : outMax ≤ out.length) :
    ∃ out' n, httpResponseRenderInto resp keepAlive out outMax = some (out', n) ∧
      out'.length = out.length ∧ out'.drop outMax = out.drop outMax ∧
      (n = none ↔ outMax < (headerText resp keepAlive).length + 1 ∨
        outMax < (headerText resp keepAlive).length + resp.sent.length) ∧
      ∀ k, n = some k → k ≤ outMax ∧
        ∃ p, parseResponse (out'.take k) = some p ∧ Represents resp keepAlive p := by
  have hsent := RawResponse.sent_length hbody
  obtain ⟨out', n, hrun, hlength, hbehind, hnone, hsome⟩ :=
    httpResponseRenderInto_run keepAlive hout hsent
  refine ⟨out', n, hrun, hlength, hbehind, hnone, fun k hk => ?_⟩
  obtain ⟨hle, htake⟩ := hsome k hk
  refine ⟨hle, _, by rw [htake, parseResponse_header hclean], ?_⟩
  constructor
  · exact parseStatus_statusLine (by omega) (by omega)
  · rfl
  · show some (strtol (showNat resp.sentLen)) = some (resp.sent.length : ℤ)
    have hread := strtol_showSigned (z := resp.sentLen) (by omega) (by omega)
    rw [hsent]
    exact congrArg some hread
  · rfl
  · by_cases hcookie : resp.setCookie = [] <;> by_cases hlocation : resp.location = [] <;>
      simp only [headerFields, ParsedResponse.field, hcookie, hlocation, if_true, if_false] <;> rfl
  · by_cases hcookie : resp.setCookie = [] <;> by_cases hlocation : resp.location = [] <;>
      simp only [headerFields, ParsedResponse.field, hcookie, hlocation, if_true, if_false] <;> rfl
  · rfl

/-- A body with a CRLFCRLF and a NUL in it. -/
def sampleResponse : RawResponse where
  statusCode := -7
  contentType := none
  body := some [60, 0, 13, 10, 13, 10, 33]
  bodyLen := 6
  setCookie := bytes "session=a"
  location := []

theorem httpResponseRender_spec_sampleResponse :
    ∃ out' n, httpResponseRenderInto sampleResponse true (List.replicate 200 1) 180 =
        some (out', n) ∧
      out'.length = (List.replicate 200 (1 : UInt8)).length ∧
      out'.drop 180 = (List.replicate 200 1).drop 180 ∧
      (n = none ↔ 180 < (headerText sampleResponse true).length + 1 ∨
        180 < (headerText sampleResponse true).length + sampleResponse.sent.length) ∧
      ∀ k, n = some k → k ≤ 180 ∧
        ∃ p, parseResponse (out'.take k) = some p ∧ Represents sampleResponse true p :=
  httpResponseRender_spec ⟨by decide, by decide, by decide⟩ (by decide) (by decide) (by decide)
    (by decide) true (by rw [List.length_replicate]; decide)

end Segnalacity.Http
