import Segnalacity.Http.Escape
import Segnalacity.Template

/-! # Where the text of a page comes from

A page is a list of segments: text of the program or of a template file, text of a user with what
has been written for each of its bytes, and numbers.  `pageOf` are the segments of a rendered
template. -/

namespace Segnalacity

open CStr Http

inductive Segment where
  | fixed (text : Bytes)
  | user (written : List (UInt8 × Bytes))
  | number (text : Bytes)
deriving DecidableEq, Repr

namespace Segment

def text : Segment → Bytes
  | fixed text => text
  | user written => written.flatMap Prod.snd
  | number text => text

def isFixed : Segment → Bool
  | fixed _ => true
  | user _ => false
  | number _ => false

/-- A user's bytes are written as their entities, and a number has no markup. -/
def Clean : Segment → Prop
  | fixed _ => True
  | user written => ∀ x ∈ written, x.2 = htmlEntity x.1
  | number text => ∀ c ∈ text, isMarkup c = false

theorem Clean.unmarked {s : Segment} (h : s.Clean) (hs : s.isFixed = false) {c : UInt8}
    (hc : c ∈ s.text) : isMarkup c = false := by
  cases s with
  | fixed text => cases hs
  | user written =>
      obtain ⟨x, hx, hcx⟩ := List.mem_flatMap.mp hc
      rw [h x hx] at hcx
      exact htmlEntity_unmarked x.1 c hcx
  | number text => exact h c hc

end Segment

def pageText (page : List Segment) : Bytes := page.flatMap Segment.text

/-- Markup comes from fixed text only, and the bytes of users stand as their entities. -/
structure NoInjection (page : List Segment) : Prop where
  markup : ∀ s ∈ page, ∀ c ∈ s.text, isMarkup c = true → s.isFixed = true
  escaped : ∀ written, Segment.user written ∈ page → ∀ x ∈ written, x.2 = htmlEntity x.1

theorem noInjection_of_clean {page : List Segment} (h : ∀ s ∈ page, s.Clean) :
    NoInjection page := by
  refine ⟨fun s hs c hc hmarkup => ?_, fun written hw => h _ hw⟩
  by_contra hno
  have hplain := (h s hs).unmarked (Bool.eq_false_iff.mpr hno) hc
  rw [hmarkup] at hplain
  cases hplain

/-! ### Text of users -/

/-- The loop of `html_escape` with the byte that each piece stands for. -/
def escapedFrom (max : ℕ) : ℕ → Bytes → List (UInt8 × Bytes)
  | _, [] => []
  | i, c :: s =>
      if c ≠ 0 ∧ i + 7 < max then
        (c, htmlEntity c) :: escapedFrom max (i + (htmlEntity c).length) s
      else []

/-- A text as `html_escape` writes it. -/
def escaped (src : Bytes) (max : ℕ) : Segment := .user (escapedFrom max 0 src)

/-- A text as it is. -/
def verbatim (src : Bytes) : Segment := .user (src.map fun c => (c, [c]))

theorem escapedFrom_text (max i : ℕ) (s : Bytes) :
    (escapedFrom max i s).flatMap Prod.snd = htmlEscapeFrom max i s := by
  induction s generalizing i with
  | nil => rfl
  | cons c s ih =>
      unfold escapedFrom htmlEscapeFrom
      split_ifs with hroom
      · rw [List.flatMap_cons, ih]
      · rfl

theorem escapedFrom_clean (max i : ℕ) (s : Bytes) :
    ∀ x ∈ escapedFrom max i s, x.2 = htmlEntity x.1 := by
  induction s generalizing i with
  | nil => exact List.forall_mem_nil _
  | cons c s ih =>
      unfold escapedFrom
      split_ifs with hroom
      · exact List.forall_mem_cons.mpr ⟨rfl, ih _⟩
      · exact List.forall_mem_nil _

theorem escaped_text (src : Bytes) (max : ℕ) : (escaped src max).text = htmlEscape src max :=
  escapedFrom_text max 0 src

theorem escaped_clean (src : Bytes) (max : ℕ) : (escaped src max).Clean :=
  escapedFrom_clean max 0 src

theorem verbatim_text (src : Bytes) : (verbatim src).text = src := by
  show (src.map fun c => (c, [c])).flatMap Prod.snd = src
  rw [List.flatMap_map]
  exact List.flatMap_singleton' src

theorem verbatim_clean_iff (src : Bytes) :
    (verbatim src).Clean ↔ ∀ c ∈ src, htmlEntity c = [c] := by
  show (∀ x ∈ src.map fun c => (c, [c]), x.2 = htmlEntity x.1) ↔ _
  rw [List.forall_mem_map]
  exact forall₂_congr fun _ _ => eq_comm

/-! ### Templates -/

/-- A template variable with the segments of its value. -/
structure PageVar where
  key : Bytes
  segments : List Segment
deriving DecidableEq, Repr

def PageVar.tplVar (v : PageVar) : TplVar := ⟨v.key, pageText v.segments⟩

def fragmentSegments (tpl : Template) (vars : List PageVar) (f : Fragment) : List Segment :=
  let text := (tpl.src.drop f.ptr).take f.len
  match f.type with
  | .literal => [.fixed text]
  | .variable => (vars.find? fun v => v.key = text).elim [] PageVar.segments

def pageOf (tpl : Template) (vars : List PageVar) : List Segment :=
  tpl.fragments.flatMap (fragmentSegments tpl vars)

theorem lookup_tplVar (key : Bytes) (vars : List PageVar) : lookup key (vars.map PageVar.tplVar) =
    pageText ((vars.find? fun v => v.key = key).elim [] PageVar.segments) := by
  unfold lookup
  rw [List.find?_map]
  have hfind : vars.find? ((fun v : TplVar => decide (v.key = key)) ∘ PageVar.tplVar) =
      vars.find? fun v => v.key = key := rfl
  rw [hfind]
  cases vars.find? fun v => v.key = key with
  | none => rfl
  | some v => rfl

/-- The segments of a rendered template make up its text. -/
theorem pageText_pageOf (tpl : Template) (vars : List PageVar) :
    pageText (pageOf tpl vars) = substitute tpl (vars.map PageVar.tplVar) := by
  unfold pageText pageOf substitute
  rw [List.flatMap_assoc]
  refine List.flatMap_congr fun f _ => ?_
  unfold fragmentSegments fragmentText
  cases f.type
  · exact List.append_nil _
  · exact (lookup_tplVar _ vars).symm

theorem pageOf_clean (tpl : Template) {vars : List PageVar}
    (h : ∀ v ∈ vars, ∀ s ∈ v.segments, s.Clean) : ∀ s ∈ pageOf tpl vars, s.Clean := by
  intro s hs
  obtain ⟨f, -, hf⟩ := List.mem_flatMap.mp hs
  unfold fragmentSegments at hf
  cases htype : f.type
  · rw [htype] at hf
    rw [List.mem_singleton.mp hf]
    trivial
  · rw [htype] at hf
    dsimp only at hf
    cases hv : vars.find? fun v => v.key = (tpl.src.drop f.ptr).take f.len with
    | none =>
        rw [hv] at hf
        exact absurd hf List.not_mem_nil
    | some v =>
        rw [hv] at hf
        exact h v (List.mem_of_find?_eq_some hv) s hf

end Segnalacity
