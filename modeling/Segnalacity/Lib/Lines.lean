import Segnalacity.Lib.CStr

/-! # Heads made of lines

A head is a list of lines with CRLF between them, and the first CRLFCRLF ends it.  Lines without CR
that are not empty are read back, whatever follows the head. -/

namespace CStr

def crlf : Bytes := [13, 10]

/-- The lines with CRLF between them. -/
def joinLines : List Bytes → Bytes
  | [] => []
  | [l] => l
  | l :: l' :: ls => l ++ crlf ++ joinLines (l' :: ls)

/-- What stands before the first CRLFCRLF, and what follows it. -/
def splitHead : Bytes → Option (Bytes × Bytes)
  | [] => none
  | c :: s =>
      if (crlf ++ crlf).isPrefixOf (c :: s) then some ([], s.drop 3)
      else (splitHead s).map fun x => (c :: x.1, x.2)

/-- One more byte on the first line. -/
def consLine (c : UInt8) : List Bytes → List Bytes
  | [] => [[c]]
  | l :: ls => (c :: l) :: ls

def splitLines : Bytes → List Bytes
  | [] => [[]]
  | 13 :: 10 :: s => [] :: splitLines s
  | c :: s => consLine c (splitLines s)

theorem flatMap_crlf {ls : List Bytes} (h : ls ≠ []) :
    ls.flatMap (· ++ crlf) = joinLines ls ++ crlf := by
  induction ls with
  | nil => exact absurd rfl h
  | cons l ls ih =>
      cases ls with
      | nil => simp [joinLines]
      | cons l' ls =>
          have hrest := ih (List.cons_ne_nil l' ls)
          rw [List.flatMap_cons, hrest]
          simp [joinLines, List.append_assoc]

/-! ### Heads -/

theorem splitHead_pass {l : Bytes} (h : (13 : UInt8) ∉ l) (s : Bytes) :
    splitHead (l ++ s) = (splitHead s).map fun x => (l ++ x.1, x.2) := by
  induction l with
  | nil => simp
  | cons c l ih =>
      rw [List.mem_cons, not_or] at h
      rw [List.cons_append, splitHead, ih h.2]
      simp [crlf, List.isPrefixOf, h.1, Function.comp_def]

theorem splitHead_crlf {c : UInt8} (h : c ≠ 13) (s : Bytes) :
    splitHead (13 :: 10 :: c :: s) =
      (splitHead (c :: s)).map fun x => (13 :: 10 :: x.1, x.2) := by
  rw [splitHead, splitHead]
  simp [crlf, List.isPrefixOf, h.symm, Function.comp_def]

/-- A head of lines is split from whatever follows it. -/
theorem splitHead_joinLines {ls : List Bytes} (hls : ls ≠ [])
    (h : ∀ l ∈ ls, l ≠ [] ∧ (13 : UInt8) ∉ l) (body : Bytes) :
    splitHead (joinLines ls ++ crlf ++ crlf ++ body) = some (joinLines ls, body) := by
  induction ls with
  | nil => exact absurd rfl hls
  | cons l ls ih =>
      have hl := (h l List.mem_cons_self).2
      cases ls with
      | nil =>
          have hend : splitHead (crlf ++ (crlf ++ body)) = some ([], body) := rfl
          rw [joinLines, List.append_assoc, List.append_assoc, splitHead_pass hl, hend]
          simp
      | cons l' ls =>
          have hrest := ih (List.cons_ne_nil l' ls) fun x hx => h x (List.mem_cons_of_mem l hx)
          have hl' := h l' (List.mem_cons_of_mem l List.mem_cons_self)
          obtain ⟨c, t, hct⟩ := List.exists_cons_of_ne_nil
            (show joinLines (l' :: ls) ++ crlf ++ crlf ++ body ≠ [] by simp [crlf])
          have hc : c ≠ 13 := by
            obtain ⟨d, t', rfl⟩ := List.exists_cons_of_ne_nil hl'.1
            have hd : c = d := by cases ls <;> simp [joinLines] at hct <;> exact hct.1.symm
            rw [hd]
            rintro rfl
            exact hl'.2 List.mem_cons_self
          have hsplit : joinLines (l :: l' :: ls) ++ crlf ++ crlf ++ body =
              l ++ 13 :: 10 :: c :: t := by
            rw [← hct]
            simp [joinLines, crlf]
          rw [hsplit, splitHead_pass hl, splitHead_crlf hc, ← hct, hrest]
          simp [joinLines, crlf]

/-! ### Lines -/

theorem splitLines_cons {c : UInt8} (h : c ≠ 13) (s : Bytes) :
    splitLines (c :: s) = consLine c (splitLines s) := by
  rw [splitLines]
  intro s' hc
  exact absurd hc h

theorem splitLines_pass {l : Bytes} (h : (13 : UInt8) ∉ l) (s : Bytes) :
    splitLines (l ++ 13 :: 10 :: s) = l :: splitLines s := by
  induction l with
  | nil => rfl
  | cons c l ih =>
      rw [List.mem_cons, not_or] at h
      rw [List.cons_append, splitLines_cons (Ne.symm h.1), ih h.2]
      rfl

theorem splitLines_single {l : Bytes} (h : (13 : UInt8) ∉ l) : splitLines l = [l] := by
  induction l with
  | nil => rfl
  | cons c l ih =>
      rw [List.mem_cons, not_or] at h
      rw [splitLines_cons (Ne.symm h.1), ih h.2]
      rfl

theorem splitLines_joinLines {ls : List Bytes} (hls : ls ≠ [])
    (h : ∀ l ∈ ls, (13 : UInt8) ∉ l) : splitLines (joinLines ls) = ls := by
  induction ls with
  | nil => exact absurd rfl hls
  | cons l ls ih =>
      have hl := h l List.mem_cons_self
      cases ls with
      | nil => exact splitLines_single hl
      | cons l' ls =>
          have hrest := ih (List.cons_ne_nil l' ls) fun x hx => h x (List.mem_cons_of_mem l hx)
          have hsplit : joinLines (l :: l' :: ls) = l ++ 13 :: 10 :: joinLines (l' :: ls) := by
            simp [joinLines, crlf]
          rw [hsplit, splitLines_pass hl, hrest]

end CStr
