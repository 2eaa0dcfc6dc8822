import Segnalacity.World

/-! # Templates

`template.c` after startup: a template is a list of fragments of its source, rendered in one pass
into a buffer of fixed size. -/

namespace Segnalacity

open CStr StateProg

/-- A key and the text substituted for it. -/
structure TplVar where
  key : Bytes
  value : Bytes
deriving DecidableEq, Repr

def lookup (key : Bytes) (vars : List TplVar) : Bytes :=
  match vars.find? fun v => v.key = key with
  | some v => v.value
  | none => []

def fragmentText (tpl : Template) (vars : List TplVar) (f : Fragment) : Bytes :=
  let text := (tpl.src.drop f.ptr).take f.len
  match f.type with
  | .literal => text
  | .variable => lookup text vars

/-- The loop of `tpl_render`: what has been written at the end, and whether everything fitted. -/
def renderFragments (tpl : Template) (destSize : ℕ) (vars : List TplVar) :
    Bytes → List Fragment → Bytes × Bool
  | written, [] => (written, true)
  | written, f :: fs =>
      let data := fragmentText tpl vars f
      if written.length + data.length + 1 > destSize then (written, false)
      else renderFragments tpl destSize vars (written ++ data) fs

/-- `tpl_render`: the value returned and the destination. -/
def tplRender (tpl : Template) (dest : Bytes) (destSize : ℕ) (vars : List TplVar) : ℤ × Bytes :=
  let (written, fits) := renderFragments tpl destSize vars [] tpl.fragments
  (if fits then written.length else -1, overlay (written ++ [0]) dest)

/-- The text of a template with every placeholder replaced, of whatever length. -/
def substitute (tpl : Template) (vars : List TplVar) : Bytes :=
  tpl.fragments.flatMap (fragmentText tpl vars)

/-! ### What fits -/

/-- The loop ends with everything written exactly when the text fits with its NUL. -/
theorem renderFragments_spec (tpl : Template) {destSize : ℕ} (vars : List TplVar)
    (fragments : List Fragment) {written : Bytes} (hroom : written.length < destSize) :
    (renderFragments tpl destSize vars written fragments).2 =
        decide ((written ++ fragments.flatMap (fragmentText tpl vars)).length < destSize) ∧
      ((written ++ fragments.flatMap (fragmentText tpl vars)).length < destSize →
        (renderFragments tpl destSize vars written fragments).1 =
          written ++ fragments.flatMap (fragmentText tpl vars)) := by
  induction fragments generalizing written with
  | nil =>
      rw [List.flatMap_nil, List.append_nil]
      exact ⟨(decide_eq_true hroom).symm, fun _ => rfl⟩
  | cons f fs ih =>
      unfold renderFragments
      rw [List.flatMap_cons, ← List.append_assoc]
      dsimp only
      split_ifs with hfull
      · have hlong : ¬ (written ++ fragmentText tpl vars f ++
            fs.flatMap (fragmentText tpl vars)).length < destSize := by
          rw [List.length_append, List.length_append]
          omega
        exact ⟨(decide_eq_false hlong).symm, fun h => absurd h hlong⟩
      · have hroom' : (written ++ fragmentText tpl vars f).length < destSize := by
          rw [List.length_append]
          omega
        exact ih hroom'

/-- The body that `tpl_render` leaves is the whole text when that fits, and empty otherwise. -/
theorem tplRender_body (tpl : Template) (dest : Bytes) {destSize : ℕ} (hsize : 0 < destSize)
    (vars : List TplVar) :
    (tplRender tpl dest destSize vars).2.take (tplRender tpl dest destSize vars).1.toNat =
      if (substitute tpl vars).length < destSize then substitute tpl vars else [] := by
  have hroom : ([] : Bytes).length < destSize := hsize
  obtain ⟨hfits, hwritten⟩ := renderFragments_spec tpl vars tpl.fragments hroom
  rw [List.nil_append] at hfits hwritten
  unfold tplRender substitute
  generalize renderFragments tpl destSize vars [] tpl.fragments = r at hfits hwritten
  obtain ⟨written, fits⟩ := r
  dsimp only at hfits hwritten ⊢
  split_ifs with h₁ h₂ h₃
  · rw [← hwritten h₂]
    exact take_overlay_text written [0] dest
  · rw [hfits] at h₁
    exact absurd (of_decide_eq_true h₁) h₂
  · rw [hfits, decide_eq_true h₃] at h₁
    exact absurd rfl h₁
  · rfl

def tplGet [Platform] (path : Bytes) : App (Option Template) :=
  Prog.ask fun e => e.templates.find? fun t => t.path = path

end Segnalacity
