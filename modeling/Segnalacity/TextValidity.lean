import Segnalacity.Http.Escape
import Segnalacity.Lib.Codewords
import Segnalacity.Registration
import Segnalacity.SubmittedText

/-! # Texts in UTF-8

The pages are UTF-8, and so is what a browser sends.  `get_field` cuts what it decodes at a number of
bytes and `html_escape` stops when its buffer is full, both without looking at characters, so a text
stays valid exactly when the first byte that is left out begins a character: `getField_valid_iff`. -/

namespace Segnalacity

open CStr Http Codewords StateProg

/-- The byte at `n`, if there is one, begins a character. -/
def CutsBetween (n : ℕ) (s : Bytes) : Prop := ∀ b, s[n]? = some b → b.IsUTF8FirstByte

/-- `html_escape` has room for the first `k` bytes and for no more, with `max` bytes of buffer. -/
def RunsOutAt (max k : ℕ) (s : Bytes) : Prop :=
  max ≤ ((s.take k).flatMap htmlEntity).length + 7 ∧
    ∀ j < k, ((s.take j).flatMap htmlEntity).length + 7 < max

/-- A field that `get_field` has stored in `max` bytes, read back from a column into at least as many,
and shown on a page through `size` bytes. -/
structure StaysValid (src : Option Bytes) (name : Bytes) (max size : ℕ) : Prop where
  stored : ValidUtf8 (getField src name max)
  column : ∀ n ≥ max - 1, ValidUtf8 (strncpy (cstr (getField src name max)) n)
  page : ValidUtf8 (htmlEscape (getField src name max) size)

/-! ### Entities -/

theorem validUtf8_bytes (s : String) : ValidUtf8 (bytes s) := ⟨s.toList, rfl⟩

theorem htmlEntity_valid : ∀ x ∈ htmlEntities, ValidUtf8 x.2 := by
  intro x hx
  simp only [htmlEntities, List.mem_cons, List.not_mem_nil, or_false] at hx
  rcases hx with rfl | rfl | rfl | rfl | rfl <;> exact validUtf8_bytes _

/-- The characters that have an entity. -/
theorem htmlEntities_word : ∀ x ∈ htmlEntities,
    String.utf8EncodeChar (Char.ofNat x.1.toNat) = [x.1] ∧ x.1.IsUTF8FirstByte := by
  decide

theorem htmlEntity_long (c : Char) (hlong : 1 < (String.utf8EncodeChar c).length) :
    ∀ b ∈ String.utf8EncodeChar c, htmlEntity b = [b] := by
  intro b hb
  rcases htmlEntity_cases b with hmem | ⟨hplain, -, -⟩
  · obtain ⟨hword, hfirst⟩ := htmlEntities_word _ hmem
    exact absurd hb (not_mem_of_word selfSync_utf8 hlong hword hfirst)
  · exact hplain

theorem htmlEntity_word (c : Char) : ValidUtf8 ((String.utf8EncodeChar c).flatMap htmlEntity) := by
  rcases Nat.lt_or_ge 1 (String.utf8EncodeChar c).length with hlong | hshort
  · rw [List.flatMap_congr (htmlEntity_long c hlong), List.flatMap_singleton']
    exact isText_word c
  · cases hc : String.utf8EncodeChar c with
    | nil => exact absurd hc String.utf8EncodeChar_ne_nil
    | cons b r =>
        rw [hc, List.length_cons] at hshort
        rw [List.length_eq_zero_iff.mp (show r.length = 0 by omega), List.flatMap_singleton]
        rcases htmlEntity_cases b with hmem | ⟨hplain, -, -⟩
        · exact htmlEntity_valid _ hmem
        · rw [hplain, ← List.length_eq_zero_iff.mp (show r.length = 0 by omega), ← hc]
          exact isText_word c

/-! ### What `html_escape` leaves out -/

/-- The loop writes the entities of the bytes it has room for. -/
theorem htmlEscapeFrom_take (max i : ℕ) {s : Bytes} (hzero : (0 : UInt8) ∉ s) :
    ∃ k, htmlEscapeFrom max i s = (s.take k).flatMap htmlEntity ∧
      (∀ j < k, i + ((s.take j).flatMap htmlEntity).length + 7 < max) ∧
      (k = s.length ∨ (k < s.length ∧ max ≤ i + ((s.take k).flatMap htmlEntity).length + 7)) := by
  induction s generalizing i with
  | nil => exact ⟨0, rfl, fun _ hj => absurd hj (Nat.not_lt_zero _), Or.inl rfl⟩
  | cons c s ih =>
      rw [List.mem_cons, not_or] at hzero
      unfold htmlEscapeFrom
      split_ifs with hroom
      · obtain ⟨k, heq, hbefore, hend⟩ := ih (i + (htmlEntity c).length) hzero.2
        refine ⟨k + 1, by rw [heq]; rfl, fun j hj => ?_, ?_⟩
        · cases j with
          | zero => exact hroom.2
          | succ j =>
              have hlt := hbefore j (by omega)
              rw [List.take_succ_cons, List.flatMap_cons, List.length_append]
              omega
        · rw [List.take_succ_cons, List.flatMap_cons, List.length_append, List.length_cons]
          omega
      · refine ⟨0, rfl, fun _ hj => absurd hj (Nat.not_lt_zero _), Or.inr ⟨Nat.succ_pos _, ?_⟩⟩
        by_contra hlt
        refine hroom ⟨Ne.symm hzero.1, ?_⟩
        rw [List.take_zero, List.flatMap_nil, List.length_nil] at hlt
        omega

/-- A valid text is shown as a valid one exactly when it is cut between two characters. -/
theorem htmlEscape_valid_iff {s : Bytes} {max : ℕ} (hzero : (0 : UInt8) ∉ s) (hs : ValidUtf8 s) :
    ValidUtf8 (htmlEscape s max) ↔ ∀ k, RunsOutAt max k s → CutsBetween k s := by
  obtain ⟨k, heq, hbefore, hend⟩ := htmlEscapeFrom_take max 0 hzero
  simp only [Nat.zero_add] at hbefore hend
  have hcut : ValidUtf8 (htmlEscape s max) ↔ CutsBetween k s := by
    rw [htmlEscape, heq]
    exact (isText_flatMap_take_iff selfSync_utf8 htmlEntity_word htmlEntity_long hs k).trans
      (isText_take_iff selfSync_utf8 hs k)
  rw [hcut]
  rcases hend with rfl | ⟨hlt, hfull⟩
  · have hwhole : CutsBetween s.length s := by
      intro b hb
      rw [List.getElem?_eq_none (le_refl _)] at hb
      cases hb
    refine iff_of_true hwhole fun j hj b hb => ?_
    -- a byte that is left out would have stopped the loop
    have hjlt : j < s.length := (List.getElem?_eq_some_iff.mp hb).1
    have hroom := hbefore j hjlt
    have hfull := hj.1
    omega
  · refine ⟨fun h j hj => ?_, fun h => h k ⟨hfull, hbefore⟩⟩
    have hjk : j = k := by
      rcases Nat.lt_trichotomy j k with hlt | heq | hgt
      · have hroom := hbefore j hlt
        have hfull := hj.1
        omega
      · exact heq
      · have hroom := hj.2 k hgt
        omega
    rwa [hjk]

/-! ### What `get_field` leaves out -/

section field
variable {src : Option Bytes} {name : Bytes} {max size : ℕ}

theorem stored_valid_iff (h : ValidUtf8 (decodedField src name)) :
    ValidUtf8 (getField src name max) ↔ CutsBetween (max - 1) (decodedField src name) := by
  rw [getField_eq_take]
  exact isText_take_iff selfSync_utf8 h (max - 1)

theorem column_eq {n : ℕ} (hn : n ≥ max - 1) :
    strncpy (cstr (getField src name max)) n = getField src name max := by
  rw [cstr_eq_self (zero_notMem_getField _ _ _)]
  exact strncpy_eq_self (zero_notMem_getField _ _ _) ((getField_length_le _ _ _).trans hn)

/-- **Truncation.**  A field that is sent in UTF-8 is stored in UTF-8 exactly when the first byte that
`get_field` leaves out begins a character, and it stays so up to the page exactly when that also holds
for the first byte that `html_escape` has no room for. -/
theorem getField_valid_iff (h : ValidUtf8 (decodedField src name)) :
    (ValidUtf8 (getField src name max) ↔ CutsBetween (max - 1) (decodedField src name)) ∧
    (StaysValid src name max size ↔ CutsBetween (max - 1) (decodedField src name) ∧
      ∀ k, RunsOutAt size k ((decodedField src name).take (max - 1)) →
        CutsBetween k ((decodedField src name).take (max - 1))) := by
  refine ⟨stored_valid_iff h, ?_⟩
  rw [← stored_valid_iff h, ← getField_eq_take]
  constructor
  · rintro ⟨hstored, -, hpage⟩
    exact ⟨hstored, (htmlEscape_valid_iff (zero_notMem_getField _ _ _) hstored).mp hpage⟩
  · rintro ⟨hstored, hpage⟩
    refine ⟨hstored, fun n hn => ?_, ?_⟩
    · rwa [column_eq hn]
    · exact (htmlEscape_valid_iff (zero_notMem_getField _ _ _) hstored).mpr hpage

end field

/-- A long description in Italian, with its last letter cut in two. -/
def longDescription : Bytes :=
  bytes "description=" ++ List.replicate 126 97 ++ bytes "%C3%A8&lat=45.1&lon=7.6"

theorem decodedField_longDescription :
    decodedField (some longDescription) (bytes "description=") = List.replicate 126 97 ++ [195, 168] := by
  decide +kernel

theorem longDescription_cut :
    ValidUtf8 (decodedField (some longDescription) (bytes "description=")) ∧
      (0 : UInt8) ∉ decodedField (some longDescription) (bytes "description=") ∧
      ¬ ValidUtf8 (getField (some longDescription) (bytes "description=") descLen) := by
  have hvalid : ValidUtf8 (decodedField (some longDescription) (bytes "description=")) := by
    rw [decodedField_longDescription]
    exact ⟨List.replicate 126 'a' ++ ['è'], by decide +kernel⟩
  refine ⟨hvalid, by rw [decodedField_longDescription]; decide, fun hstored => ?_⟩
  have hcut := (stored_valid_iff hvalid).mp hstored 168
  rw [decodedField_longDescription] at hcut
  exact absurd (hcut (by decide)) (by decide)

/-- A long name, cut between two letters by `get_field` and between two others on the page. -/
def longName : Bytes :=
  bytes "username=" ++ (List.replicate 10 (bytes "%26")).flatten ++ List.replicate 7 97 ++
    (List.replicate 8 (bytes "%C3%A8")).flatten ++ bytes "&city=Lodi"

theorem decodedField_longName : decodedField (some longName) (bytes "username=") =
    List.replicate 10 38 ++ List.replicate 7 97 ++ (List.replicate 8 [195, 168]).flatten := by
  decide +kernel

theorem getField_valid_iff_longName :
    getField (some longName) (bytes "username=") usernameLen =
      List.replicate 10 38 ++ List.replicate 7 97 ++ (List.replicate 7 [195, 168]).flatten ∧
    htmlEscape (getField (some longName) (bytes "username=") usernameLen) escapedParamLen =
      (List.replicate 10 (bytes "&amp;")).flatten ++ List.replicate 7 97 ∧
    StaysValid (some longName) (bytes "username=") usernameLen escapedParamLen := by
  have hvalid : ValidUtf8 (decodedField (some longName) (bytes "username=")) := by
    rw [decodedField_longName]
    exact ⟨List.replicate 10 '&' ++ List.replicate 7 'a' ++ List.replicate 8 'è', by decide +kernel⟩
  refine ⟨by decide +kernel, by decide +kernel, (getField_valid_iff hvalid).2.mpr ⟨?_, ?_⟩⟩
  · rw [decodedField_longName]
    intro b hb
    obtain rfl := Option.some.inj hb
    decide
  · rw [decodedField_longName]
    generalize hstored : List.take _ _ = stored
    have hshort : ∀ k < 17, ((stored.take k).flatMap htmlEntity).length + 7 < escapedParamLen := by
      subst hstored
      decide +kernel
    rintro k ⟨hfull, hroom⟩ b hb
    obtain hlt | rfl | hgt := Nat.lt_trichotomy k 17
    · exact absurd hfull (not_le.mpr (hshort k hlt))
    · subst hstored
      obtain rfl := Option.some.inj hb
      decide
    · subst hstored
      exact absurd (hroom 17 hgt) (by decide +kernel)

/-! ### The rows -/

/-- The name and the city in the row of a user. -/
theorem formRow_valid_iff {req : HttpRequest} (id : ℤ) (hash salt : Bytes)
    (hname : ValidUtf8 (decodedField req.bodyPtr (bytes "username=")))
    (hcity : ValidUtf8 (decodedField req.bodyPtr (bytes "city="))) :
    (ValidUtf8 (formRow req id hash salt).username ↔
      CutsBetween (usernameLen - 1) (decodedField req.bodyPtr (bytes "username="))) ∧
    (ValidUtf8 (formRow req id hash salt).city ↔
      CutsBetween (cityLen - 1) (decodedField req.bodyPtr (bytes "city="))) :=
  ⟨stored_valid_iff hname, stored_valid_iff hcity⟩

section rows
variable [Platform]

/-- The description in the row of a report. -/
theorem submittedDescription_valid_iff {e : Env} {w w₁ w' : World} {req : HttpRequest}
    {resp resp' : HttpResponse} {u : User} (hu : getSessionUser req e w = (some u, w₁))
    (hcitizen : u.role = .citizen) (hstatus : resp'.statusCode = 302)
    (h : routePostSubmit req resp e w = (resp', w'))
    (hsent : ValidUtf8 (decodedField req.bodyPtr (bytes "description="))) :
    ∃ row, w'.db.reports = w₁.db.reports ++ [row] ∧ (ValidUtf8 row.description ↔
      CutsBetween (descLen - 1) (decodedField req.bodyPtr (bytes "description="))) := by
  refine ⟨_, (routePostSubmit_row hu hcitizen hstatus h).2, ?_⟩
  show ValidUtf8 (cstr (formDescription req)) ↔ _
  rw [formDescription, cstr_eq_self (zero_notMem_getField _ _ _)]
  exact stored_valid_iff hsent

end rows

end Segnalacity
