import Segnalacity.Http.Form

/-! # Cookies

`http_request_cookie` finds the cookie by its name and hands the rest of the request to the decoder
of form bodies, which knows nothing of `;`.  The value is right exactly when the buffer is full
before the end of the value or the decoder stops there: `httpRequestCookie_iff`. -/

namespace Segnalacity.Http

open CStr

/-- The bytes that a cookie is decoded from. -/
def cookieSource (req : HttpRequest) (name : Bytes) : Option Bytes :=
  (httpRequestHeader req (bytes "cookie")).bind fun v =>
    (findCookie name true v.text).map fun k => req.raw.drop (v.off + k)

theorem httpRequestCookie_eq (req : HttpRequest) (name : Bytes) (max : ℕ) :
    httpRequestCookie req name max = (cookieSource req name).elim [] (urlDecode (max - 1)) := by
  unfold httpRequestCookie cookieSource
  cases httpRequestHeader req (bytes "cookie") with
  | none => rfl
  | some v => cases h : findCookie name true v.text <;> simp [h]

/-- `http_request_cookie` on its destination. -/
def httpRequestCookieInto (req : HttpRequest) (name dest : Bytes) (max : ℕ) : Option Bytes :=
  fieldInto (cookieSource req name) dest max

/-! ### Where the header lies -/

/-- What stands behind a header text: a byte that belongs to no escape. -/
theorem httpRequestHeader_parsed {raw : Bytes} {req : HttpRequest}
    (h : httpRequestParse raw = some req) {name : Bytes} {v : Slice}
    (hv : httpRequestHeader req name = some v) :
    ∃ t rest, req.raw.drop v.off = v.text ++ t :: rest ∧ (t = 9 ∨ isDelimiter t = true) := by
  have hparse : ∃ p c, phrParseRequest raw = .ok p c ∧ req.headers = p.headers ∧ req.raw = raw := by
    unfold httpRequestParse at h
    split at h
    · cases h
    · cases h
    · rename_i p c hp
      obtain rfl := Option.some.inj h
      exact ⟨p, c, hp, rfl, rfl⟩
  obtain ⟨p, c, hp, hheaders, hraw⟩ := hparse
  obtain ⟨hd, hhd, rfl⟩ := Option.map_eq_some_iff.mp hv
  have hmem : hd ∈ p.headers := hheaders ▸ List.mem_of_find?_eq_some hhd
  obtain ⟨blanks, b, rest, hdrop, hblanks, hb⟩ := phrParseRequest_within hp hd hmem
  rw [hraw, hdrop]
  cases blanks with
  | nil =>
      refine ⟨b, rest, rfl, Or.inr ?_⟩
      rcases hb with rfl | rfl <;> rfl
  | cons c blanks =>
      refine ⟨c, blanks ++ b :: rest, rfl, ?_⟩
      have hc := hblanks c List.mem_cons_self
      simp only [isBlank, Bool.or_eq_true, decide_eq_true_eq] at hc
      rcases hc with rfl | rfl
      · exact Or.inr rfl
      · exact Or.inl rfl

/-- The source of a cookie of a parsed request: the rest of the header text, and what stands behind
it. -/
theorem cookieSource_parsed {raw : Bytes} {req : HttpRequest} (h : httpRequestParse raw = some req)
    {name src : Bytes} (hsrc : cookieSource req name = some src) :
    ∃ text k t rest, (httpRequestHeader req (bytes "cookie")).map Slice.text = some text ∧
      findCookie name true text = some k ∧ src = text.drop k ++ t :: rest ∧
      (t = 9 ∨ isDelimiter t = true) := by
  obtain ⟨v, hv, hmap⟩ := Option.bind_eq_some_iff.mp hsrc
  obtain ⟨k, hk, rfl⟩ := Option.map_eq_some_iff.mp hmap
  obtain ⟨t, rest, hdrop, ht⟩ := httpRequestHeader_parsed h hv
  refine ⟨v.text, k, t, rest, by rw [hv]; rfl, hk, ?_, ht⟩
  rw [← List.drop_drop, hdrop, List.drop_append_of_le_length (findCookie_le hk)]

/-- The byte behind a header text is no digit of a token. -/
theorem not_isXDigit_of_end {t : UInt8} (ht : t = 9 ∨ isDelimiter t = true) : isXDigit t = false := by
  rcases ht with rfl | hd
  · rfl
  · simp only [isDelimiter, Bool.or_eq_true, decide_eq_true_eq] at hd
    rcases hd with (((rfl | rfl) | rfl) | rfl) | rfl <;> rfl

/-! ### Values -/

/-- A byte outside of an escape. -/
def plusSpace (c : UInt8) : UInt8 := if c = 43 then 32 else c

/-- The URL-decoded value, of whatever length. -/
def percentDecode : Bytes → Bytes
  | [] => []
  | [a] => [plusSpace a]
  | [a, b] => [plusSpace a, plusSpace b]
  | a :: b :: c :: s =>
      if a = 37 && isXDigit b && isXDigit c then ((hexVal b <<< 4) ||| hexVal c) :: percentDecode s
      else plusSpace a :: percentDecode (b :: c :: s)

theorem percentDecode_cons (a : UInt8) (s : Bytes) :
    percentDecode (a :: s) = match percentByte (a :: s) with
      | some (b, r) => b :: percentDecode r
      | none => plusSpace a :: percentDecode s := by
  match s with
  | [] => rfl
  | [b] => rfl
  | b :: c :: s =>
      rw [percentDecode, percentByte]
      split_ifs <;> rfl

theorem percentByte_suffix {s r : Bytes} {b : UInt8} (h : percentByte s = some (b, r)) :
    r <:+ s := by
  match s with
  | [] => cases h
  | [_] => cases h
  | [_, _] => cases h
  | a :: c :: d :: s =>
      rw [percentByte] at h
      split_ifs at h
      obtain ⟨-, rfl⟩ := Prod.mk.inj (Option.some.inj h)
      exact ⟨[a, c, d], rfl⟩

/-- A value is decoded to its end, and from there on with the room that is left. -/
theorem urlDecode_value {v : Bytes} (hclean : ∀ c ∈ v, isDelimiter c = false)
    (hzero : (0 : UInt8) ∉ percentDecode v) {t : UInt8} (ht : isXDigit t = false) (rest : Bytes)
    (room : ℕ) : urlDecode room (v ++ t :: rest) = (percentDecode v).take room ++
      urlDecode (room - (percentDecode v).length) (t :: rest) := by
  induction room generalizing v with
  | zero => simp [urlDecode]
  | succ room ih =>
      cases v with
      | nil => rfl
      | cons c v =>
          have hd := hclean c List.mem_cons_self
          rw [urlDecode, decodeStep_append ht rest c v, decodeStep_cons v hd]
          rw [percentDecode_cons] at hzero ⊢
          cases hp : percentByte (c :: v) with
          | some br =>
              obtain ⟨b, r⟩ := br
              have hsuffix := (percentByte_suffix hp).subset
              simp only [hp, List.mem_cons, not_or] at hzero ⊢
              rw [if_neg (Ne.symm hzero.1)]
              have hrest := ih (fun x hx => hclean x (hsuffix hx)) hzero.2
              simp [hrest]
          | none =>
              simp only [hp, List.mem_cons, not_or] at hzero ⊢
              have hrest := ih (fun x hx => hclean x (List.mem_cons_of_mem c hx)) hzero.2
              simp [hrest, plusSpace]

/-! ### Headers -/

/-- A pair, and the numbers of spaces before and behind the `;` that separates it from the next. -/
structure Cookie where
  name : Bytes
  value : Bytes
  before : ℕ
  after : ℕ
deriving DecidableEq, Repr

/-- The separator behind a pair. -/
def Cookie.gap (c : Cookie) : Bytes :=
  List.replicate c.before 32 ++ 59 :: List.replicate c.after 32

/-- The header value: the last pair has no separator. -/
def cookieText : List Cookie → Bytes
  | [] => []
  | [c] => c.name ++ 61 :: c.value
  | c :: d :: cs => c.name ++ 61 :: c.value ++ c.gap ++ cookieText (d :: cs)

def IsCookieName (n : Bytes) : Prop := n ≠ [] ∧ ∀ b ∈ n, 32 < b ∧ b ≠ 59 ∧ b ≠ 61

instance (n : Bytes) : Decidable (IsCookieName n) :=
  inferInstanceAs (Decidable (n ≠ [] ∧ ∀ b ∈ n, 32 < b ∧ b ≠ 59 ∧ b ≠ 61))

/-- A pair of the grammar. -/
structure Cookie.Valid (c : Cookie) : Prop where
  name : IsCookieName c.name
  value : ∀ b ∈ c.value, 32 < b ∧ b ≠ 127 ∧ b ≠ 59 ∧ b ≠ 38
  decoded : (0 : UInt8) ∉ percentDecode c.value

/-- The value of the first pair with a name, empty when there is none. -/
def cookieValue (n : Bytes) (cs : List Cookie) : Bytes :=
  ((cs.find? fun c => c.name = n).map fun c => percentDecode c.value).getD []

/-- What follows the value of the first of some pairs in the header. -/
def cookieTail (c : Cookie) : List Cookie → Bytes
  | [] => []
  | d :: cs => c.gap ++ cookieText (d :: cs)

theorem cookieText_cons (c : Cookie) (cs : List Cookie) :
    cookieText (c :: cs) = c.name ++ 61 :: c.value ++ cookieTail c cs := by
  cases cs with
  | nil => simp [cookieText, cookieTail]
  | cons d cs => simp [cookieText, cookieTail]

theorem gt_space_ne {b : UInt8} (h : 32 < b) : b ≠ 32 := by
  rintro rfl
  exact absurd h (by decide)

/-- Inside a pair there is no start of a name. -/
theorem findCookie_pass {n x : Bytes} (hx : ∀ c ∈ x, c ≠ 32 ∧ c ≠ 59) (s : Bytes) :
    findCookie n false (x ++ s) = (findCookie n false s).map (· + x.length) := by
  induction x with
  | nil => simp
  | cons c x ih =>
      have hc := hx c List.mem_cons_self
      have hrest := ih fun d hd => hx d (List.mem_cons_of_mem c hd)
      rw [List.cons_append, findCookie]
      simp only [Bool.false_and, Bool.false_eq_true, if_false, hc.1, hc.2, decide_false,
        Bool.or_self, hrest, Option.map_map]
      congr 1

/-- A separator is passed over, and a name may start behind it. -/
theorem findCookie_separator {n x : Bytes} (hn : IsCookieName n) (hne : x ≠ [])
    (hx : ∀ c ∈ x, c = 32 ∨ c = 59) (boundary : Bool) (s : Bytes) :
    findCookie n boundary (x ++ s) = (findCookie n true s).map (· + x.length) := by
  obtain ⟨b, n', rfl⟩ := List.exists_cons_of_ne_nil hn.1
  have hb := hn.2 b List.mem_cons_self
  induction x generalizing boundary with
  | nil => exact absurd rfl hne
  | cons c x ih =>
      have hc := hx c List.mem_cons_self
      have hsep : (decide (c = 32) || decide (c = 59)) = true := by simpa using hc
      have hno : ((b :: n') ++ [61]).isPrefixOf (c :: (x ++ s)) = false := by
        have hbc : b ≠ c := by
          rcases hc with rfl | rfl
          · exact gt_space_ne hb.1
          · exact hb.2.1
        simp [List.isPrefixOf, hbc]
      rw [List.cons_append, findCookie, hno, hsep]
      simp only [Bool.and_false, Bool.false_eq_true, if_false]
      cases x with
      | nil => simp
      | cons d x =>
          rw [ih (List.cons_ne_nil d x) (fun e he => hx e (List.mem_cons_of_mem c he)) true,
            Option.map_map]
          congr 1

theorem Cookie.gap_separator (c : Cookie) : c.gap ≠ [] ∧ ∀ b ∈ c.gap, b = 32 ∨ b = 59 := by
  refine ⟨by simp [Cookie.gap], ?_⟩
  intro b hb
  simp only [Cookie.gap, List.mem_append, List.mem_replicate, List.mem_cons] at hb
  tauto

/-- At the start of a pair: its name is found, or the search goes on behind the pair. -/
theorem Cookie.Valid.findCookie {c : Cookie} (h : c.Valid) {n : Bytes} (hn : IsCookieName n)
    (s : Bytes) :
    Http.findCookie n true (c.name ++ 61 :: c.value ++ s) =
      if c.name = n then some (n.length + 1)
      else (Http.findCookie n false s).map (· + (c.name ++ 61 :: c.value).length) := by
  have hhead := @isPrefixOf_key n c.name (fun h61 => (hn.2 _ h61).2.2 rfl)
    (fun h61 => (h.name.2 _ h61).2.2 rfl) (c.value ++ s)
  have hplain : ∀ b ∈ c.name ++ 61 :: c.value, b ≠ 32 ∧ b ≠ 59 := by
    intro b hb
    rcases List.mem_append.mp hb with hb | hb
    · exact ⟨gt_space_ne (h.name.2 b hb).1, (h.name.2 b hb).2.1⟩
    · rcases List.mem_cons.mp hb with rfl | hb
      · decide
      · exact ⟨gt_space_ne (h.value b hb).1, (h.value b hb).2.2.1⟩
  obtain ⟨d, name, hname⟩ := List.exists_cons_of_ne_nil h.name.1
  rw [List.append_assoc, List.cons_append]
  rw [hname] at hhead hplain ⊢
  rw [List.cons_append] at hhead hplain ⊢
  rw [Http.findCookie, Bool.true_and]
  by_cases heq : n = d :: name
  · rw [if_pos (hhead.mpr heq), if_pos heq.symm]
  · have hd := hplain d List.mem_cons_self
    have hrest := findCookie_pass (n := n) (x := name ++ 61 :: c.value)
      (fun b hb => hplain b (List.mem_cons_of_mem d hb)) s
    rw [List.append_assoc, List.cons_append] at hrest
    rw [if_neg fun hp => heq (hhead.mp hp), if_neg (Ne.symm heq)]
    simp only [hd.1, hd.2, decide_false, Bool.or_self, hrest, Option.map_map]
    congr 1

/-- The search ends behind the first pair with the name, at its value. -/
theorem findCookie_cookieText {n : Bytes} (hn : IsCookieName n) {cs : List Cookie}
    (hcs : ∀ c ∈ cs, c.Valid) :
    (findCookie n true (cookieText cs)).map (fun k => (cookieText cs).drop k) =
      match cs.dropWhile fun c => c.name ≠ n with
      | [] => none
      | c :: rest => some (c.value ++ cookieTail c rest) := by
  induction cs with
  | nil => rfl
  | cons c cs ih =>
      have hc := hcs c List.mem_cons_self
      have hrest := ih fun d hd => hcs d (List.mem_cons_of_mem c hd)
      rw [cookieText_cons, hc.findCookie hn]
      by_cases heq : c.name = n
      · rw [if_pos heq, List.dropWhile_cons_of_neg (by simp [heq]), ← heq]
        simp
      · rw [if_neg heq, List.dropWhile_cons_of_pos (by simp [heq])]
        cases cs with
        | nil => simp [cookieTail, findCookie]
        | cons d cs =>
            obtain ⟨hne, hgap⟩ := c.gap_separator
            rw [cookieTail, findCookie_separator hn hne hgap, ← hrest, Option.map_map,
              Option.map_map]
            congr 1
            funext k
            rw [← List.append_assoc]
            have hlength : (c.name ++ 61 :: c.value ++ c.gap).length =
                (c.name ++ 61 :: c.value).length + c.gap.length := List.length_append
            show List.drop (k + c.gap.length + (c.name ++ 61 :: c.value).length) _ = _
            rw [drop_behind (by omega)]
            congr 1
            omega

/-! ### The value that is written -/

/-- The byte behind a value in the header: the first of the separator, or the one behind the
header. -/
def cookieEnd (c : Cookie) (rest : List Cookie) (behind : UInt8) : UInt8 :=
  match rest with
  | [] => behind
  | _ :: _ => if c.before = 0 then 59 else 32

theorem cookieTail_end (c : Cookie) (rest : List Cookie) (behind : UInt8) (s : Bytes) :
    ∃ s', cookieTail c rest ++ behind :: s = cookieEnd c rest behind :: s' := by
  cases rest with
  | nil => exact ⟨s, rfl⟩
  | cons d cs =>
      unfold cookieTail cookieEnd Cookie.gap
      cases c.before with
      | zero => exact ⟨_, rfl⟩
      | succ k => exact ⟨_, rfl⟩

/-- What the decoder does at the byte behind a value. -/
theorem urlDecode_behind {t : UInt8} (ht : t = 9 ∨ t = 59 ∨ isDelimiter t = true) (s : Bytes)
    (room : ℕ) : urlDecode room (t :: s) = [] ↔ room = 0 ∨ (t ≠ 9 ∧ t ≠ 59) := by
  cases room with
  | zero => simp [urlDecode]
  | succ room =>
      rw [urlDecode]
      by_cases hd : isDelimiter t = true
      · rw [decodeStep_delimiter s hd]
        refine iff_of_true rfl (Or.inr ⟨?_, ?_⟩) <;>
          rintro rfl <;> cases hd
      · rw [decodeStep_cons s (by simpa using hd), percentByte_ne s (by
          rintro rfl
          rcases ht with h | h | h
          · cases h
          · cases h
          · exact hd h)]
        refine iff_of_false (List.cons_ne_nil _ _) ?_
        rintro (h | ⟨h₁, h₂⟩)
        · cases h
        · tauto

/-- The value of a cookie is cut where it should be: the buffer is full before the byte behind it,
or that byte is one at which the decoder stops. -/
def CookieCut (n : Bytes) (cs : List Cookie) (behind : UInt8) (room : ℕ) : Prop :=
  ∀ c rest, (cs.dropWhile fun c => c.name ≠ n) = c :: rest →
    room ≤ (percentDecode c.value).length ∨
      (cookieEnd c rest behind ≠ 9 ∧ cookieEnd c rest behind ≠ 59)

theorem cookieValue_dropWhile (n : Bytes) (cs : List Cookie) :
    cookieValue n cs = match cs.dropWhile fun c => c.name ≠ n with
      | [] => []
      | c :: _ => percentDecode c.value := by
  unfold cookieValue
  induction cs with
  | nil => rfl
  | cons c cs ih =>
      by_cases heq : c.name = n
      · rw [List.dropWhile_cons_of_neg (by simp [heq]), List.find?_cons_of_pos (by simp [heq])]
        rfl
      · rw [List.dropWhile_cons_of_pos (by simp [heq]), List.find?_cons_of_neg (by simp [heq])]
        exact ih

/-- **Cookies.**  `http_request_cookie` writes the decoded value of the first pair with the name,
cut off at `max - 1` bytes, and nothing when there is none, exactly when `CookieCut` holds. -/
theorem httpRequestCookie_iff {raw : Bytes} {req : HttpRequest} (h : httpRequestParse raw = some req)
    {v : Slice} (hv : httpRequestHeader req (bytes "cookie") = some v) {cs : List Cookie}
    (htext : v.text = cookieText cs) (hcs : ∀ c ∈ cs, c.Valid) {n : Bytes} (hn : IsCookieName n)
    {max : ℕ} (hmax : 1 ≤ max) {dest : Bytes} (hdest : max ≤ dest.length) {behind : UInt8}
    (hbehind : req.raw[v.off + v.text.length]? = some behind) :
    httpRequestCookieInto req n dest max =
        some (overlay ((cookieValue n cs).take (max - 1) ++ [0]) dest) ↔
      CookieCut n cs behind (max - 1) := by
  obtain ⟨t, s, hdrop, ht⟩ := httpRequestHeader_parsed h hv
  have hbt : behind = t := by
    have hget : (req.raw.drop v.off)[v.text.length]? = some t := by
      rw [hdrop, List.getElem?_append_right (le_refl _), Nat.sub_self]
      rfl
    rw [List.getElem?_drop, hbehind] at hget
    exact Option.some.inj hget
  subst hbt
  have hsearch := findCookie_cookieText hn hcs
  rw [← htext] at hsearch
  have hsource : cookieSource req n = ((findCookie n true v.text).map fun k =>
      v.text.drop k).map (· ++ behind :: s) := by
    unfold cookieSource
    rw [hv, Option.bind_some, Option.map_map]
    cases hk : findCookie n true v.text with
    | none => rfl
    | some k =>
        show some (req.raw.drop (v.off + k)) = some (v.text.drop k ++ behind :: s)
        rw [← List.drop_drop, hdrop, List.drop_append_of_le_length (findCookie_le hk)]
  unfold httpRequestCookieInto CookieCut
  rw [fieldInto_eq _ hmax hdest, hsource, hsearch, cookieValue_dropWhile]
  cases hfirst : cs.dropWhile fun c => c.name ≠ n with
  | nil => simp
  | cons c rest =>
      have hmem : c ∈ cs := (List.dropWhile_suffix _).subset (by rw [hfirst]; exact List.mem_cons_self)
      have hc := hcs c hmem
      obtain ⟨s', hs'⟩ := cookieTail_end c rest behind s
      have hend : cookieEnd c rest behind = 9 ∨ cookieEnd c rest behind = 59 ∨
          isDelimiter (cookieEnd c rest behind) = true := by
        unfold cookieEnd
        cases rest with
        | nil => tauto
        | cons d cs => split_ifs <;> simp [isDelimiter]
      have hdigit : isXDigit (cookieEnd c rest behind) = false := by
        rcases hend with h9 | h59 | hd
        · rw [h9]; rfl
        · rw [h59]; rfl
        · exact not_isXDigit_of_end (Or.inr hd)
      have hclean : ∀ b ∈ c.value, isDelimiter b = false := by
        intro b hb
        obtain ⟨hlow, -, -, hamp⟩ := hc.value b hb
        by_contra hd
        simp only [Bool.not_eq_false, isDelimiter, Bool.or_eq_true, decide_eq_true_eq] at hd
        rcases hd with (((rfl | rfl) | rfl) | rfl) | rfl
        · exact absurd hlow (by decide)
        · exact hamp rfl
        · exact absurd hlow (by decide)
        · exact absurd hlow (by decide)
        · exact absurd hlow (by decide)
      have hdecode : urlDecode (max - 1) (c.value ++ cookieTail c rest ++ behind :: s) =
          (percentDecode c.value).take (max - 1) ++
            urlDecode (max - 1 - (percentDecode c.value).length) (cookieEnd c rest behind :: s') := by
        rw [List.append_assoc, hs', urlDecode_value hclean hc.decoded hdigit]
      have hiff := urlDecode_behind hend s' (max - 1 - (percentDecode c.value).length)
      simp only [Option.map_some, Option.elim_some, hdecode, List.cons.injEq, and_imp,
        forall_apply_eq_imp_iff, forall_eq', Option.some.injEq]
      rw [← Nat.sub_eq_zero_iff_le, ← hiff]
      constructor
      · intro heq
        have hzero := hdecode ▸ zero_notMem_urlDecode (max - 1) _
        have hcstr := congrArg cstr heq
        rw [cstr_overlay hzero, cstr_overlay fun h0 => hzero (List.mem_append_left _ h0)] at hcstr
        exact List.append_right_eq_self.mp hcstr
      · intro hnil
        rw [hnil, List.append_nil]

/-! ### Cookies that are followed by another one -/

def cookieRaw (text : String) : Bytes :=
  bytes "GET / HTTP/1.1\x0d\nCookie: " ++ bytes text ++ bytes "\x0d\n\x0d\n"

def cookieRequest (text : String) : HttpRequest :=
  (httpRequestParse (cookieRaw text)).getD ⟨[], ⟨0, []⟩, ⟨0, []⟩, [], 0, none, 0⟩

def cookieSlice (text : String) : Slice :=
  (httpRequestHeader (cookieRequest text) (bytes "cookie")).getD ⟨0, []⟩

def sampleCookies : List Cookie := [
  ⟨bytes "xsid", bytes "1", 0, 1⟩,
  ⟨bytes "sid", bytes "a%20b=c", 1, 0⟩,
  ⟨bytes "sid", bytes "2", 0, 0⟩]

theorem httpRequestCookie_iff_sampleCookies :
    httpRequestCookieInto (cookieRequest "xsid=1; sid=a%20b=c ;sid=2") (bytes "sid")
        (List.replicate 10 7) 9 =
      some (overlay ((cookieValue (bytes "sid") sampleCookies).take (9 - 1) ++ [0])
        (List.replicate 10 7)) ↔
      CookieCut (bytes "sid") sampleCookies 13 (9 - 1) :=
  httpRequestCookie_iff (v := cookieSlice "xsid=1; sid=a%20b=c ;sid=2")
    (show httpRequestParse (cookieRaw "xsid=1; sid=a%20b=c ;sid=2") = some _ by decide +kernel)
    (by decide +kernel) (by decide +kernel) (by
      simp only [sampleCookies, List.mem_cons, List.not_mem_nil, or_false]
      rintro c (rfl | rfl | rfl)
      all_goals exact ⟨by decide +kernel, by decide +kernel, by decide +kernel⟩)
    (by decide) (by decide) (by decide) (by decide +kernel)

def followedCookies : List Cookie := [
  ⟨bytes "session", bytes "abc", 0, 1⟩,
  ⟨bytes "theme", bytes "dark", 0, 0⟩]

/-- The value of a cookie that is followed by `;` keeps the `;`. -/
theorem cookie_keeps_separator :
    ¬ ∀ raw req v cs n max dest, httpRequestParse raw = some req →
      httpRequestHeader req (bytes "cookie") = some v → v.text = cookieText cs →
      (∀ c ∈ cs, c.Valid) → IsCookieName n → 1 ≤ max → max ≤ dest.length →
      httpRequestCookieInto req n dest max =
        some (overlay ((cookieValue n cs).take (max - 1) ++ [0]) dest) := by
  intro hall
  have hsample := hall (cookieRaw "session=abc; theme=dark") (cookieRequest "session=abc; theme=dark")
    (cookieSlice "session=abc; theme=dark") followedCookies (bytes "session") 8 (List.replicate 8 7)
    (by decide +kernel) (by decide +kernel) (by decide +kernel) (by
      simp only [followedCookies, List.mem_cons, List.not_mem_nil, or_false]
      rintro c (rfl | rfl)
      all_goals exact ⟨by decide +kernel, by decide +kernel, by decide +kernel⟩)
    (by decide) (by decide) (by decide)
  revert hsample
  decide +kernel

end Segnalacity.Http
