import Mathlib.Data.List.DropRight
import Segnalacity.Lib.CStr
import Segnalacity.Lib.Scan

/-! # The request parser

`phr_parse_request` of `picohttpparser.c` with `lastLen = 0`, the only way the server calls it:
every read parses the accumulated buffer from its start.  The return code `-2` is `Res.more`,
`-1` is `Res.bad`, and a positive return code is the position of the cursor after `Res.ok`.
Pointers into the buffer are offsets.

`scans_parseRequest`: the parser decides from the header block alone, so a header block it
accepts is accepted whatever follows, and every shorter prefix is incomplete.
`phrParseRequest_within`: where the header values lie in the buffer. -/

namespace Segnalacity.Http

open CStr Scan Scan.Scanner

/-- A pointer into the receive buffer with the bytes it delimits; the length field that goes
with the pointer in the source is the number of these bytes. -/
structure Slice where
  off : ℕ
  text : Bytes
deriving DecidableEq, Repr

/-- `struct phr_header`; a continuation line has no name, which is an empty slice. -/
structure PhrHeader where
  name : Slice
  value : Slice
deriving DecidableEq, Repr

/-- The results of `phr_parse_request`. -/
structure PhrRequest where
  method : Slice
  path : Slice
  minorVersion : ℕ
  headers : List PhrHeader
deriving DecidableEq, Repr

def httpMaxHeaders : ℕ := 32

/-! ### Character classes -/

/-- `token_char_map`. -/
def tokenChar (c : UInt8) : Bool :=
  isDigit c || (65 ≤ c && c ≤ 90) || (97 ≤ c && c ≤ 122) || (bytes "!#$%&'*+-.^_`|~").contains c

def isBlank (c : UInt8) : Bool := c = 32 || c = 9

/-- What `ADVANCE_TOKEN` rejects in a path. -/
def isControl (c : UInt8) : Bool := c < 32 || c = 127

/-- What ends a header value: a control character other than HT. -/
def isLineControl (c : UInt8) : Bool := (c < 32 && c ≠ 9) || c = 127

/-! ### Scanners -/

/-- CR LF or LF. -/
def eol : Scanner UInt8 Unit := do
  let c ← next
  if c = 13 then expect 10 else if c = 10 then pure () else fail

/-- `parse_token`: the token before `nextChar`, which stays unread. -/
def parseToken (nextChar : UInt8) : Scanner UInt8 Slice := do
  let start ← pos
  let t ← scanUntil (· = nextChar) (fun c => !tokenChar c)
  pure ⟨start, t⟩

/-- `ADVANCE_TOKEN`: everything before the next space. -/
def advanceToken : Scanner UInt8 Slice := do
  let start ← pos
  let t ← scanUntil (· = 32) isControl
  pure ⟨start, t⟩

/-- Leave the current byte and the spaces behind it. -/
def skipSpaces : Scanner UInt8 Unit := do
  let _ ← next
  let _ ← scanUntil (· ≠ 32) (fun _ => false)

/-- `get_token_to_eol`: the rest of the line. -/
def getTokenToEol : Scanner UInt8 Slice := do
  let start ← pos
  let t ← scanUntil isLineControl (fun _ => false)
  eol
  pure ⟨start, t⟩

def expectAll : Bytes → Scanner UInt8 Unit
  | [] => pure ()
  | b :: bs => do
      expect b
      expectAll bs

def parseHttpVersion : Scanner UInt8 ℕ := do
  need 9
  expectAll (bytes "HTTP/1.")
  let d ← next
  if isDigit d then pure (d.toNat - 48) else fail

/-- A header name with its colon and the blanks behind it. -/
def parseName : Scanner UInt8 Slice := do
  let name ← parseToken 58
  reject (name.text = [])
  let _ ← next
  let _ ← scanUntil (fun c => !isBlank c) (fun _ => false)
  pure name

/-- From the second header on, a line that starts with a blank continues the one before it. -/
def parseHeaderName (first : Bool) : Scanner UInt8 Slice := do
  let c ← peek
  if !first && isBlank c then pure ⟨0, []⟩ else parseName

/-- One header line, without the blanks at its end. -/
def parseHeaderLine (first : Bool) : Scanner UInt8 PhrHeader := do
  let name ← parseHeaderName first
  let value ← getTokenToEol
  pure ⟨name, ⟨value.off, value.text.rdropWhile isBlank⟩⟩

/-- `parse_headers` with `slots` free entries in the header array. -/
def parseHeaders (slots : ℕ) (first : Bool) : Scanner UInt8 (List PhrHeader) := do
  let c ← peek
  if c = 13 ∨ c = 10 then do
    eol
    pure []
  else match slots with
    | 0 => fail
    | slots + 1 => do
        let h ← parseHeaderLine first
        let rest ← parseHeaders slots false
        pure (h :: rest)

/-- Some clients send CR LF after the body of the request before. -/
def skipEmptyLine : Scanner UInt8 Unit := do
  let c ← peek
  if c = 13 ∨ c = 10 then eol

def parseRequest : Scanner UInt8 PhrRequest := do
  skipEmptyLine
  let method ← parseToken 32
  skipSpaces
  let path ← advanceToken
  skipSpaces
  reject (method.text = [] ∨ path.text = [])
  let minorVersion ← parseHttpVersion
  eol
  let headers ← parseHeaders httpMaxHeaders true
  pure ⟨method, path, minorVersion, headers⟩

def phrParseRequest (buf : Bytes) : Res UInt8 PhrRequest := parseRequest ⟨0, buf⟩

example : phrParseRequest (bytes "GET /x HTTP/1.0\x0d\nA: b \x0d\n\x0d\nrest") =
    .ok ⟨⟨0, bytes "GET"⟩, ⟨4, bytes "/x"⟩, 0, [⟨⟨17, bytes "A"⟩, ⟨20, bytes "b"⟩⟩]⟩
      ⟨26, bytes "rest"⟩ := by decide +kernel

/-! ### The parser reads exactly the header block -/

theorem scans_eol : Scans 0 1 eol :=
  (scans_next.bind fun c =>
    ((scans_expect 10).weaken (le_refl 0) (Nat.zero_le 1)).ite
      ((scans_pure ()).ite (scans_fail 0 0))).weaken (by simp) (by simp)

theorem scans_parseToken (c : UInt8) : Scans 1 0 (parseToken c) :=
  (scans_pos.bind fun _ => (scans_scanUntil _ _).bind fun _ => scans_pure _).weaken
    (by simp) (by simp)

theorem scans_advanceToken : Scans 1 0 advanceToken :=
  (scans_pos.bind fun _ => (scans_scanUntil _ _).bind fun _ => scans_pure _).weaken
    (by simp) (by simp)

theorem scans_skipSpaces : Scans 1 1 skipSpaces :=
  (scans_next.bind fun _ => (scans_scanUntil _ _).bind fun _ => scans_pure _).weaken
    (by simp) (by simp)

theorem scans_getTokenToEol : Scans 0 1 getTokenToEol :=
  (scans_pos.bind fun _ => (scans_scanUntil _ _).bind fun _ => scans_eol.bind fun _ =>
    scans_pure _).weaken (by simp) (by simp)

theorem scans_expectAll : ∀ bs : Bytes, Scans 0 bs.length (expectAll bs)
  | [] => scans_pure ()
  | b :: bs => ((scans_expect b).bind fun _ => scans_expectAll bs).weaken (by simp)
      (by simp [Nat.add_comm])

theorem scans_parseHttpVersion : Scans 1 8 parseHttpVersion :=
  ((scans_need 9).bind fun _ => (scans_expectAll (bytes "HTTP/1.")).bind fun _ =>
    scans_next.bind fun _ => (scans_pure _).ite (scans_fail 0 0)).weaken
    (by decide) (by decide)

theorem scans_parseName : Scans 1 0 parseName :=
  ((scans_parseToken 58).bind fun _ =>
    (scans_reject _).bind fun _ => scans_next.bind fun _ =>
      (scans_scanUntil _ _).bind fun _ => scans_pure _).weaken (by simp) (by simp)

theorem scans_parseHeaderName (first : Bool) : Scans 1 0 (parseHeaderName first) :=
  (scans_peek.bind fun _ => ((scans_pure _).weaken (Nat.zero_le 1) (le_refl 0)).ite
    scans_parseName).weaken (by simp) (by simp)

theorem scans_parseHeaderLine (first : Bool) : Scans 0 1 (parseHeaderLine first) :=
  ((scans_parseHeaderName first).bind fun _ => scans_getTokenToEol.bind fun _ =>
    scans_pure _).weaken (by simp) (by simp)

theorem scans_parseHeaders : ∀ (slots : ℕ) (first : Bool), Scans 0 1 (parseHeaders slots first) := by
  intro slots
  induction slots with
  | zero =>
      intro first
      unfold parseHeaders
      exact (scans_peek.bind fun _ => ((scans_eol.bind fun _ => scans_pure _).weaken
        (by simp) (by simp)).ite (scans_fail 0 1)).weaken (by simp) (by simp)
  | succ slots ih =>
      intro first
      unfold parseHeaders
      have hline : Scans 0 1 (parseHeaderLine first >>= fun h => parseHeaders slots false >>=
          fun rest => pure (h :: rest)) :=
        ((scans_parseHeaderLine first).bind fun _ => (ih false).bind fun _ =>
          scans_pure _).weaken (by simp) (by simp)
      exact (scans_peek.bind fun _ => ((scans_eol.bind fun _ => scans_pure _).weaken
        (by simp) (by simp)).ite hline).weaken (by simp) (by simp)

theorem scans_skipEmptyLine : Scans 1 0 skipEmptyLine :=
  (scans_peek.bind fun _ => (scans_eol.weaken (le_refl 0) (Nat.zero_le 1)).ite
    (scans_pure _)).weaken (by simp) (by simp)

/-- **The request parser has no lookahead past the header block.** -/
theorem scans_parseRequest : Scans 0 1 parseRequest :=
  (scans_skipEmptyLine.bind fun _ => (scans_parseToken 32).bind fun _ =>
    scans_skipSpaces.bind fun _ => scans_advanceToken.bind fun _ => scans_skipSpaces.bind fun _ =>
      (scans_reject _).bind fun _ => scans_parseHttpVersion.bind fun _ =>
        scans_eol.bind fun _ => (scans_parseHeaders _ _).bind fun _ => scans_pure _).weaken
    (by simp) (by simp)

/-! ### Where the header values lie -/

/-- The value is the slice of the buffer at its offset; blanks and a line end follow it. -/
def PhrHeader.Within (buf : Bytes) (h : PhrHeader) : Prop :=
  ∃ blanks b rest, buf.drop h.value.off = h.value.text ++ (blanks ++ b :: rest) ∧
    (∀ c ∈ blanks, isBlank c = true) ∧ (b = 13 ∨ b = 10)

theorem eol_head {p : ℕ} {l : Bytes} {u : Unit} {c : Cursor UInt8} (h : eol ⟨p, l⟩ = .ok u c) :
    ∃ b rest, l = b :: rest ∧ (b = 13 ∨ b = 10) := by
  obtain ⟨b, c', h₁, h₂⟩ := bind_ok_iff.mp h
  cases l with
  | nil => cases h₁
  | cons b' rest =>
      obtain ⟨rfl, rfl⟩ := Res.ok.inj h₁
      refine ⟨b', rest, rfl, ?_⟩
      by_contra hne
      push Not at hne
      rw [if_neg hne.1, if_neg hne.2] at h₂
      cases h₂

theorem getTokenToEol_ok {p : ℕ} {l : Bytes} {v : Slice} {c : Cursor UInt8}
    (h : getTokenToEol ⟨p, l⟩ = .ok v c) :
    v.off = p ∧ ∃ b rest, l = v.text ++ b :: rest ∧ (b = 13 ∨ b = 10) := by
  obtain ⟨start, c₁, h₁, h₂⟩ := bind_ok_iff.mp h
  obtain ⟨rfl, rfl⟩ := Res.ok.inj h₁
  obtain ⟨t, c₂, h₃, h₄⟩ := bind_ok_iff.mp h₂
  obtain ⟨u, c₃, h₅, h₆⟩ := bind_ok_iff.mp h₄
  obtain ⟨rfl, rfl⟩ := Res.ok.inj h₆
  obtain ⟨x, hl, -, ht, -⟩ := scanFrom_eats (q := c₂.pos) (r := c₂.rest) _ _ _ _ _ h₃
  obtain ⟨b, rest, hb, hend⟩ := eol_head (p := c₂.pos) (l := c₂.rest) h₅
  rw [List.nil_append] at ht
  exact ⟨rfl, b, rest, by rw [ht, ← hb]; exact hl, hend⟩

theorem parseHeaderLine_within {buf : Bytes} {p : ℕ} {first : Bool} {h : PhrHeader}
    {c : Cursor UInt8} (hok : parseHeaderLine first ⟨p, buf.drop p⟩ = .ok h c) : h.Within buf := by
  obtain ⟨name, c₁, h₁, h₂⟩ := bind_ok_iff.mp hok
  obtain ⟨value, c₂, h₃, h₄⟩ := bind_ok_iff.mp h₂
  obtain ⟨rfl, rfl⟩ := Res.ok.inj h₄
  rw [(scans_parseHeaderName first).stands h₁] at h₃
  obtain ⟨hoff, b, rest, hl, hb⟩ := getTokenToEol_ok h₃
  refine ⟨value.text.rtakeWhile isBlank, b, rest, ?_, ?_, hb⟩
  · show buf.drop value.off = _
    rw [hoff, hl, ← List.append_assoc, List.rdropWhile_append_rtakeWhile]
  · intro x hx
    exact List.mem_rtakeWhile_imp hx

theorem parseHeaders_within {buf : Bytes} {slots : ℕ} {first : Bool} {p : ℕ} {hs : List PhrHeader}
    {c : Cursor UInt8} (hok : parseHeaders slots first ⟨p, buf.drop p⟩ = .ok hs c) :
    ∀ h ∈ hs, h.Within buf := by
  induction slots generalizing first p hs c with
  | zero =>
      unfold parseHeaders at hok
      obtain ⟨b, c₁, h₁, h₂⟩ := bind_ok_iff.mp hok
      split_ifs at h₂
      · obtain ⟨u, c₂, h₃, h₄⟩ := bind_ok_iff.mp h₂
        obtain ⟨rfl, rfl⟩ := Res.ok.inj h₄
        simp
      · cases h₂
  | succ slots ih =>
      unfold parseHeaders at hok
      obtain ⟨b, c₁, h₁, h₂⟩ := bind_ok_iff.mp hok
      rw [scans_peek.stands h₁] at h₂
      split_ifs at h₂
      · obtain ⟨u, c₂, h₃, h₄⟩ := bind_ok_iff.mp h₂
        obtain ⟨rfl, rfl⟩ := Res.ok.inj h₄
        simp
      · obtain ⟨h, c₂, h₃, h₄⟩ := bind_ok_iff.mp h₂
        obtain ⟨rest, c₃, h₅, h₆⟩ := bind_ok_iff.mp h₄
        obtain ⟨rfl, rfl⟩ := Res.ok.inj h₆
        rw [(scans_parseHeaderLine first).stands h₃] at h₅
        intro x hx
        rcases List.mem_cons.mp hx with rfl | hx
        · exact parseHeaderLine_within h₃
        · exact ih h₅ x hx

/-- The header values of an accepted request lie in the buffer, each before a line end. -/
theorem phrParseRequest_within {buf : Bytes} {r : PhrRequest} {c : Cursor UInt8}
    (hok : phrParseRequest buf = .ok r c) : ∀ h ∈ r.headers, h.Within buf := by
  have hstart : parseRequest ⟨0, buf.drop 0⟩ = .ok r c := hok
  obtain ⟨_, c₁, h₁, k₁⟩ := bind_ok_iff.mp hstart
  rw [scans_skipEmptyLine.stands h₁] at k₁
  obtain ⟨_, c₂, h₂, k₂⟩ := bind_ok_iff.mp k₁
  rw [(scans_parseToken 32).stands h₂] at k₂
  obtain ⟨_, c₃, h₃, k₃⟩ := bind_ok_iff.mp k₂
  rw [scans_skipSpaces.stands h₃] at k₃
  obtain ⟨_, c₄, h₄, k₄⟩ := bind_ok_iff.mp k₃
  rw [scans_advanceToken.stands h₄] at k₄
  obtain ⟨_, c₅, h₅, k₅⟩ := bind_ok_iff.mp k₄
  rw [scans_skipSpaces.stands h₅] at k₅
  obtain ⟨_, c₆, h₆, k₆⟩ := bind_ok_iff.mp k₅
  rw [(scans_reject _).stands h₆] at k₆
  obtain ⟨_, c₇, h₇, k₇⟩ := bind_ok_iff.mp k₆
  rw [scans_parseHttpVersion.stands h₇] at k₇
  obtain ⟨_, c₈, h₈, k₈⟩ := bind_ok_iff.mp k₇
  rw [scans_eol.stands h₈] at k₈
  obtain ⟨_, c₉, h₉, k₉⟩ := bind_ok_iff.mp k₈
  obtain ⟨rfl, rfl⟩ := Res.ok.inj k₉
  exact parseHeaders_within h₉

end Segnalacity.Http
