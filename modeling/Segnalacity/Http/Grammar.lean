import Mathlib.Data.Fintype.Basic
import Segnalacity.Http.Parser
import Segnalacity.Lib.Format

/-! # The grammar of a request

`RequestText` is the concrete syntax of what `phr_parse_request` accepts, down to the number of
spaces and the kind of every line end; its fields carry what the parser checks.  The grammar is
more liberal than the one of the protocol: an empty line may come first, any number of spaces
separates the parts of the request line, a lone LF ends a line, a header may be continued on the
next line by starting it with a blank, and bytes from 128 on are fine in a path and in a value.

`phrParseRequest_iff_text`: the parser accepts a buffer with a certain result if and only if
exactly one `RequestText` is a prefix of it, and the result says where its parts are. -/

namespace Segnalacity.Http

open CStr Scan Scan.Scanner

/-! ### Syntax -/

inductive LineEnd where
  | lf
  | crlf
deriving DecidableEq, Repr

def LineEnd.text : LineEnd → Bytes
  | lf => [10]
  | crlf => [13, 10]

/-- A header name with its colon and the blanks behind it. -/
@[ext] structure NameText where
  name : Bytes
  gap : Bytes
  name_ne : name ≠ []
  name_token : ∀ b ∈ name, tokenChar b = true
  gap_blank : ∀ b ∈ gap, isBlank b = true

def NameText.text (n : NameText) : Bytes := n.name ++ 58 :: n.gap

/-- A header line; without a name it continues the line before it and starts with a blank. -/
@[ext] structure HeaderText where
  name : Option NameText
  value : Bytes
  trailing : Bytes
  ending : LineEnd
  clean : ∀ b ∈ value ++ trailing, isLineControl b = false
  value_last : ∀ b ∈ value.getLast?, isBlank b = false
  trailing_blank : ∀ b ∈ trailing, isBlank b = true
  continued : (∃ b ∈ (value ++ trailing).head?, isBlank b = true) ↔ name = none

/-- The line up to its value. -/
def HeaderText.head (h : HeaderText) : Bytes := h.name.elim [] NameText.text

def HeaderText.text (h : HeaderText) : Bytes :=
  h.head ++ (h.value ++ h.trailing ++ h.ending.text)

/-- The header at offset `p`. -/
def HeaderText.parsed (p : ℕ) (h : HeaderText) : PhrHeader :=
  ⟨h.name.elim ⟨0, []⟩ fun n => ⟨p, n.name⟩, ⟨p + h.head.length, h.value⟩⟩

def headersText (hs : List HeaderText) : Bytes := (hs.map HeaderText.text).flatten

/-- The headers from offset `p` on. -/
def parsedHeaders : ℕ → List HeaderText → List PhrHeader
  | _, [] => []
  | p, h :: hs => h.parsed p :: parsedHeaders (p + h.text.length) hs

/-- One space and `n` more. -/
def spaces (n : ℕ) : Bytes := 32 :: List.replicate n 32

@[ext] structure RequestText where
  leading : Option LineEnd
  method : Bytes
  gap : ℕ
  path : Bytes
  gap' : ℕ
  minorVersion : Fin 10
  ending : LineEnd
  headers : List HeaderText
  last : LineEnd
  method_ne : method ≠ []
  method_token : ∀ b ∈ method, tokenChar b = true
  path_ne : path ≠ []
  path_clean : ∀ b ∈ path, b ≠ 32 ∧ isControl b = false
  headers_count : headers.length ≤ httpMaxHeaders
  headers_named : ∀ h ∈ headers.head?, h.name ≠ none

namespace RequestText

def emptyLine (s : RequestText) : Bytes := s.leading.elim [] LineEnd.text

def version (s : RequestText) : Bytes :=
  bytes "HTTP/1." ++ [UInt8.ofNat (48 + s.minorVersion.val)]

def requestLine (s : RequestText) : Bytes :=
  s.emptyLine ++ s.method ++ spaces s.gap ++ s.path ++ spaces s.gap' ++ s.version ++ s.ending.text

def text (s : RequestText) : Bytes := s.requestLine ++ headersText s.headers ++ s.last.text

/-- What the parser reports. -/
def parsed (s : RequestText) : PhrRequest where
  method := ⟨s.emptyLine.length, s.method⟩
  path := ⟨(s.emptyLine ++ s.method ++ spaces s.gap).length, s.path⟩
  minorVersion := s.minorVersion
  headers := parsedHeaders s.requestLine.length s.headers

end RequestText

/-! ### Character classes -/

theorem tokenChar_printable {b : UInt8} (h : tokenChar b = true) :
    b ≠ 32 ∧ b ≠ 58 ∧ b ≠ 13 ∧ b ≠ 10 ∧ isBlank b = false := by
  refine ⟨?_, ?_, ?_, ?_, ?_⟩
  · rintro rfl
    revert h
    decide
  · rintro rfl
    revert h
    decide
  · rintro rfl
    revert h
    decide
  · rintro rfl
    revert h
    decide
  · by_contra hb
    have hblank : b = 32 ∨ b = 9 := by simpa [isBlank, or_iff_not_imp_left] using hb
    cases hblank with
    | inl h32 =>
        subst h32
        revert h
        decide
    | inr h9 =>
        subst h9
        revert h
        decide

theorem LineEnd.head_text (e : LineEnd) (r : Bytes) :
    ∃ b ∈ (e.text ++ r).head?, (b = 13 ∨ b = 10) ∧ isLineControl b = true ∧ isBlank b = false := by
  cases e with
  | lf => exact ⟨10, rfl, .inr rfl, by decide, by decide⟩
  | crlf => exact ⟨13, rfl, .inl rfl, by decide, by decide⟩

theorem head_of_append {u : Bytes} (hu : u ≠ []) (r : Bytes) : ∃ b ∈ u, b ∈ (u ++ r).head? := by
  obtain ⟨b, t, rfl⟩ := List.exists_cons_of_ne_nil hu
  exact ⟨b, List.mem_cons_self, rfl⟩

/-! ### Formats of the parts -/

theorem recognizes_eol : Recognizes eol LineEnd.text (fun _ _ => ()) (fun _ _ => True) where
  accepts := fun p s r _ => by cases s <;> rfl
  sound := by
    intro p l a q r hok
    obtain ⟨b, c, h₁, h₂⟩ := bind_ok_iff.mp hok
    cases l with
    | nil => cases h₁
    | cons b' l =>
        obtain ⟨rfl, rfl⟩ := Res.ok.inj h₁
        split_ifs at h₂ with h13 h10
        · obtain ⟨-, -, rfl, rfl, -⟩ := (recognizes_expect 10).sound h₂
          exact ⟨.crlf, trivial, by rw [h13]; rfl, rfl, rfl⟩
        · obtain ⟨rfl, rfl, rfl⟩ := ok_inj h₂
          exact ⟨.lf, trivial, by rw [h10]; rfl, rfl, rfl⟩
        · cases h₂
  unique := by
    intro s s' r r' _ _ heq
    have hhead := congrArg List.head? heq
    cases s <;> cases s' <;> first | rfl | exact absurd hhead (by simp [LineEnd.text])

theorem recognizes_parseToken (c : UInt8) :
    Recognizes (parseToken c) (fun u : Bytes => u) (fun p u => ⟨p, u⟩)
      (fun u r => RunEnds (· = c) u r ∧ ∀ b ∈ u, tokenChar b = true) :=
  (recognizes_pos.bind fun p _ => (recognizes_scanUntil _ _).map (Slice.mk p)).reshape
    (fun u => ((), u)) (fun _ _ h => (Prod.mk.inj h).2) (fun s _ _ => ⟨s.2, rfl⟩) (fun _ => rfl)
    (fun _ _ => rfl) (fun u r => by simp)

theorem recognizes_advanceToken :
    Recognizes advanceToken (fun u : Bytes => u) (fun p u => ⟨p, u⟩)
      (fun u r => RunEnds (· = 32) u r ∧ ∀ b ∈ u, isControl b = false) :=
  (recognizes_pos.bind fun p _ => (recognizes_scanUntil _ _).map (Slice.mk p)).reshape
    (fun u => ((), u)) (fun _ _ h => (Prod.mk.inj h).2) (fun s _ _ => ⟨s.2, rfl⟩) (fun _ => rfl)
    (fun _ _ => rfl) (fun u r => by simp)

theorem recognizes_skipSpaces :
    Recognizes skipSpaces (fun s : UInt8 × Bytes => s.1 :: s.2) (fun _ _ => ())
      (fun s r => RunEnds (· ≠ 32) s.2 r) :=
  (recognizes_next.bind fun _ _ => (recognizes_scanUntil _ _).map fun _ => ()).reshape (fun s => s)
    Function.injective_id (fun s _ _ => ⟨s, rfl⟩) (fun _ => rfl) (fun _ _ => rfl)
    (fun s r => by simp)

theorem recognizes_expectAll : ∀ bs : Bytes,
    Recognizes (expectAll bs) (fun _ : Unit => bs) (fun _ _ => ()) (fun _ _ => True)
  | [] => recognizes_pure ()
  | b :: bs =>
      ((recognizes_expect b).bind fun _ _ => recognizes_expectAll bs).reshape (fun _ => ((), ()))
        (fun _ _ _ => rfl) (fun _ _ _ => ⟨(), rfl⟩) (fun _ => rfl) (fun _ _ => rfl)
        (fun _ _ => by simp)

theorem recognizes_skipEmptyLine :
    Recognizes skipEmptyLine (fun o : Option LineEnd => o.elim [] LineEnd.text) (fun _ _ => ())
      (fun o r => o = none → ∃ b ∈ r.head?, ¬ (b = 13 ∨ b = 10)) :=
  (recognizes_eol.choice (recognizes_pure ()) fun b => b = 13 ∨ b = 10).reshape
    (fun o => o.elim (.inr ()) .inl)
    (by
      intro o o' h
      cases o <;> cases o' <;> simp_all)
    (by
      intro s r _
      cases s with
      | inl e => exact ⟨some e, rfl⟩
      | inr u => exact ⟨none, rfl⟩)
    (fun o => by cases o <;> rfl) (fun _ o => by cases o <;> rfl)
    (by
      intro o r
      cases o with
      | none => simp
      | some e =>
          obtain ⟨b, hb, hend, -⟩ := e.head_text r
          exact ⟨fun _ => ⟨trivial, b, hb, hend⟩, fun _ h => by cases h⟩)

theorem recognizes_parseHttpVersion :
    Recognizes parseHttpVersion (fun d : Fin 10 => bytes "HTTP/1." ++ [UInt8.ofNat (48 + d.val)])
      (fun _ d => d) (fun _ r => r ≠ []) :=
  ((recognizes_need 9).bind fun _ _ => (recognizes_expectAll (bytes "HTTP/1.")).bind fun _ _ =>
    recognizes_next.bind fun _ d =>
      (recognizes_pure (d.toNat - 48)).guard (isDigit d = true)).reshape
    (fun d => ((), (), UInt8.ofNat (48 + d.val), ()))
    (by
      intro d d' h
      simp only [Prod.mk.injEq, true_and, and_true] at h
      revert d d'
      decide)
    (by
      rintro ⟨_, _, b, _⟩ r ⟨-, -, -, hdigit, -⟩
      have hb : 48 ≤ b ∧ b ≤ 57 := by simpa [isDigit] using hdigit
      have hlo := UInt8.le_iff_toNat_le.mp hb.1
      have hhi := UInt8.le_iff_toNat_le.mp hb.2
      simp only [UInt8.reduceToNat] at hlo hhi
      refine ⟨⟨b.toNat - 48, by omega⟩, ?_⟩
      have heq : 48 + (b.toNat - 48) = b.toNat := by omega
      simp [heq])
    (fun d => rfl)
    (fun _ d => by
      revert d
      decide)
    (by
      intro d r
      have hdigit : ∀ d : Fin 10, isDigit (UInt8.ofNat (48 + d.val)) = true := by decide
      have hlen : (bytes "HTTP/1.").length = 7 := by decide
      simp only [List.length_append, List.length_cons, List.length_nil, hlen, hdigit d, and_true,
        ← List.length_pos_iff]
      omega)

theorem recognizes_parseName :
    Recognizes parseName NameText.text (fun p n => ⟨p, n.name⟩)
      (fun _ r => ∃ b ∈ r.head?, isBlank b = false) :=
  ((recognizes_parseToken 58).bind fun p name => (recognizes_reject (name = [])).bind fun _ _ =>
    recognizes_next.bind fun _ _ => (recognizes_scanUntil _ _).map fun _ => Slice.mk p name).reshape
    (fun n => (n.name, (), 58, n.gap))
    (by
      intro n n' h
      simp only [Prod.mk.injEq, true_and] at h
      exact NameText.ext h.1 h.2)
    (by
      rintro ⟨name, _, colon, gap⟩ r ⟨⟨hrun, htoken⟩, hne, -, ⟨hgap, -⟩, -⟩
      obtain ⟨-, b, hb, hcolon⟩ := hrun
      obtain rfl : colon = b := by simpa using hb
      obtain rfl : colon = 58 := by simpa using hcolon
      exact ⟨⟨name, gap, hne, htoken, by simpa using hgap⟩, rfl⟩)
    (fun n => by simp [NameText.text])
    (fun _ _ => rfl)
    (by
      intro n r
      have hrun : ∀ b ∈ n.name, b ≠ 58 := fun b hb => (tokenChar_printable (n.name_token b hb)).2.1
      constructor
      · intro hr
        refine ⟨⟨⟨by simpa using hrun, 58, rfl, by simp⟩, n.name_token⟩, n.name_ne, trivial,
          ⟨by simpa using n.gap_blank, by simpa using hr⟩, by simp⟩
      · rintro ⟨-, -, -, ⟨-, hr⟩, -⟩
        simpa using hr)

/-- A line goes on with a name, or with a blank where it may be a continuation. -/
theorem recognizes_parseHeaderName (first : Bool) :
    Recognizes (parseHeaderName first) (fun o : Option NameText => o.elim [] NameText.text)
      (fun p o => o.elim ⟨0, []⟩ fun n => ⟨p, n.name⟩)
      (fun o r => (∃ b ∈ r.head?, isBlank b = o.isNone) ∧ (first = true → o ≠ none)) :=
  ((recognizes_pure (Slice.mk 0 [])).choice recognizes_parseName
    fun b => (!first && isBlank b) = true).reshape
    (fun o => o.elim (.inl ()) .inr)
    (by
      intro o o' h
      cases o <;> cases o' <;> simp_all)
    (by
      intro s r _
      cases s with
      | inl u => exact ⟨none, rfl⟩
      | inr n => exact ⟨some n, rfl⟩)
    (fun o => by cases o <;> rfl) (fun _ o => by cases o <;> rfl)
    (by
      intro o r
      cases o with
      | none =>
          cases first <;> simp
      | some n =>
          -- a name starts with a token character
          obtain ⟨b, hb, hhead⟩ := head_of_append n.name_ne (58 :: n.gap ++ r)
          have hblank := (tokenChar_printable (n.name_token b hb)).2.2.2.2
          rw [← List.append_assoc] at hhead
          constructor
          · rintro ⟨hr, -⟩
            exact ⟨hr, b, hhead, by simp [hblank]⟩
          · rintro ⟨hr, -⟩
            exact ⟨hr, fun _ h => by cases h⟩)

theorem recognizes_getTokenToEol :
    Recognizes getTokenToEol (fun s : Bytes × LineEnd => s.1 ++ s.2.text) (fun p s => ⟨p, s.1⟩)
      (fun s _ => ∀ b ∈ s.1, isLineControl b = false) :=
  (recognizes_pos.bind fun p _ => (recognizes_scanUntil _ _).bind fun _ u =>
    recognizes_eol.map fun _ => Slice.mk p u).reshape (fun s => ((), s))
    (fun _ _ h => (Prod.mk.inj h).2) (fun s _ _ => ⟨s.2, rfl⟩) (fun _ => rfl) (fun _ _ => rfl)
    (by
      intro s r
      obtain ⟨b, hb, -, hcontrol, -⟩ := s.2.head_text r
      constructor
      · intro hclean
        exact ⟨trivial, ⟨⟨hclean, b, hb, hcontrol⟩, fun _ _ => rfl⟩, trivial⟩
      · rintro ⟨-, ⟨hrun, -⟩, -⟩
        exact hrun.1)

/-! ### Header lines -/

theorem rdropWhile_blanks {value trailing : Bytes} (hlast : ∀ b ∈ value.getLast?, isBlank b = false)
    (hblank : ∀ b ∈ trailing, isBlank b = true) :
    (value ++ trailing).rdropWhile isBlank = value := by
  induction trailing using List.reverseRecOn with
  | nil =>
      rw [List.append_nil, List.rdropWhile_eq_self_iff]
      intro hne
      simpa using hlast _ (List.getLast?_eq_getLast_of_ne_nil hne)
  | append_singleton trailing b ih =>
      have hb := hblank b (by simp)
      rw [← List.append_assoc, List.rdropWhile_concat_pos _ _ _ hb]
      exact ih fun c hc => hblank c (by simp [hc])

theorem HeaderText.rdropWhile_line (h : HeaderText) :
    (h.value ++ h.trailing).rdropWhile isBlank = h.value :=
  rdropWhile_blanks h.value_last h.trailing_blank

/-- The next byte of a line whose text and end are given. -/
theorem head_line (u : Bytes) (e : LineEnd) (r : Bytes) :
    ∃ b ∈ (u ++ e.text ++ r).head?, (isBlank b = true ↔ ∃ c ∈ u.head?, isBlank c = true) := by
  cases u with
  | nil =>
      obtain ⟨b, hb, -, -, hblank⟩ := e.head_text r
      exact ⟨b, hb, by simp [hblank]⟩
  | cons c u => exact ⟨c, rfl, by simp⟩

/-- The line that the blanks at its end are cut off of. -/
def HeaderText.ofLine (name : Option NameText) (u : Bytes) (e : LineEnd)
    (hclean : ∀ b ∈ u, isLineControl b = false)
    (hname : (∃ b ∈ u.head?, isBlank b = true) ↔ name = none) : HeaderText where
  name := name
  value := u.rdropWhile isBlank
  trailing := u.rtakeWhile isBlank
  ending := e
  clean := by rwa [List.rdropWhile_append_rtakeWhile]
  value_last := by
    intro b hb
    have hne : u.rdropWhile isBlank ≠ [] := by
      intro hnil
      rw [hnil] at hb
      cases hb
    rw [List.getLast?_eq_getLast_of_ne_nil hne] at hb
    obtain rfl := Option.some.inj hb
    simpa using List.rdropWhile_last_not isBlank u hne
  trailing_blank := fun b hb => List.mem_rtakeWhile_imp hb
  continued := by rwa [List.rdropWhile_append_rtakeWhile]

theorem recognizes_parseHeaderLine (first : Bool) :
    Recognizes (parseHeaderLine first) HeaderText.text HeaderText.parsed
      (fun h _ => first = true → h.name ≠ none) :=
  ((recognizes_parseHeaderName first).bind fun p o => recognizes_getTokenToEol.map fun v =>
    (⟨o.elim ⟨0, []⟩ fun n => ⟨p, n.name⟩, ⟨v.off, v.text.rdropWhile isBlank⟩⟩ : PhrHeader)).reshape
    (fun h => (h.name, h.value ++ h.trailing, h.ending))
    (by
      intro h h' heq
      simp only [Prod.mk.injEq] at heq
      have hvalue : h.value = h'.value := by
        rw [← h.rdropWhile_line, ← h'.rdropWhile_line, heq.2.1]
      have htrailing : h.trailing = h'.trailing := by
        apply List.append_cancel_left
        rw [heq.2.1, hvalue]
      exact HeaderText.ext heq.1 hvalue htrailing heq.2.2)
    (by
      rintro ⟨name, u, e⟩ r ⟨⟨⟨b, hb, hname⟩, -⟩, hclean⟩
      obtain ⟨b', hb', hblank⟩ := head_line u e r
      obtain rfl := Option.mem_unique hb hb'
      refine ⟨HeaderText.ofLine name u e hclean ?_, ?_⟩
      · rw [← hblank, hname, Option.isNone_iff_eq_none]
      · simp [HeaderText.ofLine])
    (fun h => rfl)
    (fun p h => by simp [HeaderText.parsed, HeaderText.head, h.rdropWhile_line])
    (by
      intro h r
      obtain ⟨b, hb, hblank⟩ := head_line (h.value ++ h.trailing) h.ending r
      have hname : isBlank b = h.name.isNone := by
        rw [Bool.eq_iff_iff, hblank, h.continued, Option.isNone_iff_eq_none]
      constructor
      · intro hfirst
        exact ⟨⟨⟨b, hb, hname⟩, hfirst⟩, h.clean⟩
      · rintro ⟨⟨-, hfirst⟩, -⟩
        exact hfirst)

/-- A header line does not start with a line end. -/
theorem HeaderText.head_text (h : HeaderText) (r : Bytes) :
    ∃ b ∈ (h.text ++ r).head?, ¬ (b = 13 ∨ b = 10) := by
  cases hname : h.name with
  | some n =>
      obtain ⟨b, hb, hhead⟩ := head_of_append n.name_ne
        (58 :: n.gap ++ (h.value ++ h.trailing ++ h.ending.text) ++ r)
      have htext : h.text ++ r =
          n.name ++ (58 :: n.gap ++ (h.value ++ h.trailing ++ h.ending.text) ++ r) := by
        simp [HeaderText.text, HeaderText.head, NameText.text, hname]
      rw [htext]
      obtain ⟨-, -, h13, h10, -⟩ := tokenChar_printable (n.name_token b hb)
      exact ⟨b, hhead, by simp [h13, h10]⟩
  | none =>
      obtain ⟨b, hb, hblank⟩ := h.continued.mpr hname
      have htext : h.text ++ r = h.value ++ h.trailing ++ (h.ending.text ++ r) := by
        simp [HeaderText.text, HeaderText.head, hname]
      refine ⟨b, ?_, ?_⟩
      · rw [htext]
        cases hu : h.value ++ h.trailing with
        | nil =>
            rw [hu] at hb
            cases hb
        | cons c u =>
            rw [hu] at hb
            exact hb
      · rintro (rfl | rfl)
        · exact absurd hblank (by decide)
        · exact absurd hblank (by decide)


/-- The lines up to the empty one, when `m` reads a line and those behind it. -/
theorem recognizes_lines {m : Scanner UInt8 (List PhrHeader)}
    {ok : HeaderText × List HeaderText × LineEnd → Bytes → Prop}
    (hm : Recognizes m (fun s : HeaderText × List HeaderText × LineEnd =>
        s.1.text ++ (headersText s.2.1 ++ s.2.2.text))
      (fun p s => s.1.parsed p :: parsedHeaders (p + s.1.text.length) s.2.1)
      ok) :
    Recognizes (peek >>= fun c => if c = 13 ∨ c = 10 then eol >>= fun _ => pure [] else m)
      (fun s : List HeaderText × LineEnd => headersText s.1 ++ s.2.text)
      (fun p s => parsedHeaders p s.1) (fun s r => ∀ h hs, s.1 = h :: hs → ok (h, hs, s.2) r) :=
  ((recognizes_eol.map fun _ => []).choice hm fun b => b = 13 ∨ b = 10).reshape
    (fun s => match s.1 with
      | [] => .inl s.2
      | h :: hs => .inr (h, hs, s.2))
    (by
      rintro ⟨hs, e⟩ ⟨hs', e'⟩ heq
      cases hs <;> cases hs' <;> simp_all)
    (by
      intro s r _
      cases s with
      | inl e => exact ⟨([], e), rfl⟩
      | inr s => exact ⟨(s.1 :: s.2.1, s.2.2), rfl⟩)
    (by
      rintro ⟨hs, e⟩
      cases hs <;> simp [headersText])
    (by
      rintro p ⟨hs, e⟩
      cases hs <;> rfl)
    (by
      rintro ⟨hs, e⟩ r
      cases hs with
      | nil =>
          obtain ⟨b, hb, hend, -⟩ := e.head_text r
          exact ⟨fun _ => ⟨trivial, b, hb, hend⟩, fun _ _ _ h => by cases h⟩
      | cons h hs =>
          obtain ⟨b, hb, hend⟩ := h.head_text (headersText hs ++ e.text ++ r)
          constructor
          · intro hok
            exact ⟨hok h hs rfl, b, by simpa using hb, hend⟩
          · rintro ⟨hok, -⟩ h' hs' heq
            obtain ⟨rfl, rfl⟩ := List.cons.inj heq
            exact hok)

theorem recognizes_parseHeaders (slots : ℕ) : ∀ first : Bool,
    Recognizes (parseHeaders slots first)
      (fun s : List HeaderText × LineEnd => headersText s.1 ++ s.2.text)
      (fun p s => parsedHeaders p s.1)
      (fun s _ => s.1.length ≤ slots ∧ (first = true → ∀ h ∈ s.1.head?, h.name ≠ none)) := by
  induction slots with
  | zero =>
      intro first
      unfold parseHeaders
      dsimp only
      exact (recognizes_lines (recognizes_fail _ _)).reshape id Function.injective_id
        (fun s _ _ => ⟨s, rfl⟩) (fun _ => rfl) (fun _ _ => rfl) (by
          rintro ⟨hs, e⟩ r
          cases hs <;> simp)
  | succ slots ih =>
      intro first
      unfold parseHeaders
      dsimp only
      have hline : Recognizes (parseHeaderLine first >>= fun h => parseHeaders slots false >>=
          fun rest => pure (h :: rest)) _ _ _ :=
        (recognizes_parseHeaderLine first).bind fun p h =>
          (ih false).map fun rest => h.parsed p :: rest
      exact (recognizes_lines hline).reshape id Function.injective_id
        (fun s _ _ => ⟨s, rfl⟩) (fun _ => rfl) (fun _ _ => rfl) (by
          rintro ⟨hs, e⟩ r
          cases hs <;> simp [and_comm])

/-! ### The request -/

theorem eq_replicate_spaces {u r : Bytes} (h : RunEnds (· ≠ 32) u r) :
    u = List.replicate u.length 32 :=
  List.eq_replicate_of_mem fun b hb => by simpa using h.1 b hb

theorem head_spaces {u : Bytes} {b : UInt8} {v r : Bytes} (h : RunEnds (· = 32) u (b :: v ++ r)) :
    b = 32 := by
  obtain ⟨-, c, hc, hspace⟩ := h
  obtain rfl : b = c := by simpa using hc
  simpa using hspace

theorem runEnds_spaces (n : ℕ) {u : Bytes} (hu : u ≠ []) (hclean : ∀ b ∈ u, b ≠ 32) (r : Bytes) :
    RunEnds (· ≠ 32) (List.replicate n 32) (u ++ r) := by
  obtain ⟨b, hb, hhead⟩ := head_of_append hu r
  refine ⟨?_, b, hhead, by simpa using hclean b hb⟩
  intro c hc
  simp [List.eq_of_mem_replicate hc]

theorem recognizes_parseRequest :
    Recognizes parseRequest RequestText.text
      (fun p s => ⟨⟨p + s.emptyLine.length, s.method⟩,
        ⟨p + (s.emptyLine ++ s.method ++ spaces s.gap).length, s.path⟩, s.minorVersion,
        parsedHeaders (p + s.requestLine.length) s.headers⟩)
      (fun _ _ => True) :=
  (recognizes_skipEmptyLine.bind fun _ _ => (recognizes_parseToken 32).bind fun p method =>
    recognizes_skipSpaces.bind fun _ _ => recognizes_advanceToken.bind fun q path =>
      recognizes_skipSpaces.bind fun _ _ =>
        (recognizes_reject (method = [] ∨ path = [])).bind fun _ _ =>
          recognizes_parseHttpVersion.bind fun _ d => recognizes_eol.bind fun _ _ =>
            (recognizes_parseHeaders httpMaxHeaders true).map fun hs =>
              PhrRequest.mk ⟨p, method⟩ ⟨q, path⟩ d hs).reshape
    (fun s => (s.leading, s.method, (32, List.replicate s.gap 32), s.path,
      (32, List.replicate s.gap' 32), (), s.minorVersion, s.ending, s.headers, s.last))
    (by
      intro s s' h
      simp only [Prod.mk.injEq, true_and] at h
      obtain ⟨h₁, h₂, h₃, h₄, h₅, h₆, h₇, h₈, h₉⟩ := h
      have hgap : s.gap = s'.gap := by simpa using congrArg List.length h₃
      have hgap' : s.gap' = s'.gap' := by simpa using congrArg List.length h₅
      exact RequestText.ext h₁ h₂ hgap h₄ hgap' h₆ h₇ h₈ h₉)
    (by
      rintro ⟨leading, method, ⟨b, u⟩, path, ⟨b', u'⟩, _, d, e, hs, last⟩ r
        ⟨-, ⟨hmethod, htoken⟩, hgap, ⟨hpath, hclean⟩, hgap', hne, -, -, hcount, hnamed⟩
      obtain rfl := head_spaces hmethod
      obtain rfl := head_spaces hpath
      rw [not_or] at hne
      refine ⟨⟨leading, method, u.length, path, u'.length, d, e, hs, last, hne.1, htoken, hne.2,
        ?_, hcount, hnamed rfl⟩, ?_⟩
      · intro b hb
        exact ⟨by simpa using hpath.1 b hb, hclean b hb⟩
      · rw [← eq_replicate_spaces hgap, ← eq_replicate_spaces hgap'])
    (fun s => by
      simp [RequestText.text, RequestText.requestLine, RequestText.emptyLine, RequestText.version,
        spaces])
    (fun p s => by
      simp only [RequestText.requestLine, RequestText.emptyLine, RequestText.version, spaces,
        List.length_append, List.length_cons, List.length_replicate, Nat.add_assoc]
      congr 2
      simp only [List.length_nil]
      omega)
    (by
      intro s r
      have hmethod : ∀ b ∈ s.method, b ≠ 32 :=
        fun b hb => (tokenChar_printable (s.method_token b hb)).1
      have hpath : ∀ b ∈ s.path, b ≠ 32 := fun b hb => (s.path_clean b hb).1
      have hclean : ∀ b ∈ s.path, isControl b = false := fun b hb => (s.path_clean b hb).2
      refine ⟨fun _ => ⟨?_, ⟨⟨?_, ?_⟩, s.method_token⟩, ?_, ⟨⟨?_, ?_⟩, hclean⟩, ?_, ?_, ?_, trivial,
        s.headers_count, fun _ => s.headers_named⟩, fun _ => trivial⟩
      · intro _
        rw [List.append_assoc]
        obtain ⟨b, hb, hhead⟩ := head_of_append s.method_ne _
        obtain ⟨-, -, h13, h10, -⟩ := tokenChar_printable (s.method_token b hb)
        exact ⟨b, hhead, by simp [h13, h10]⟩
      · simpa using hmethod
      · exact ⟨32, rfl, by decide⟩
      · rw [List.append_assoc]
        exact runEnds_spaces s.gap s.path_ne hpath _
      · simpa using hpath
      · exact ⟨32, rfl, by decide⟩
      · have hversion : bytes "HTTP/1." ≠ [] ∧ ∀ b ∈ bytes "HTTP/1.", b ≠ 32 := by decide
        rw [List.nil_append, List.append_assoc, List.append_assoc]
        exact runEnds_spaces s.gap' hversion.1 hversion.2 _
      · simp [s.method_ne, s.path_ne]
      · cases s.ending <;> simp [LineEnd.text])

/-- **The parser accepts exactly the grammar**, and no text of it can be read in two ways. -/
theorem phrParseRequest_iff_text (buf : Bytes) (r : PhrRequest) (c : Cursor UInt8) :
    phrParseRequest buf = .ok r c ↔
      ∃! s : RequestText, buf = s.text ++ c.rest ∧ c.pos = s.text.length ∧ r = s.parsed := by
  have hiff : parseRequest ⟨0, buf⟩ = .ok r ⟨c.pos, c.rest⟩ ↔ _ := recognizes_parseRequest.ok_iff
  simp only [true_and, Nat.zero_add] at hiff
  exact hiff

end Segnalacity.Http
