import Segnalacity.Template
import Segnalacity.Lib.Store

/-! # Parsing templates

`parse_fragments` cuts a template source into fragments when the template is loaded, and
`tpl_render` works on the fragments alone.  Together they replace every placeholder in one scan of
the source, `onePass`, with the values never scanned again: `tplRender_parse`. -/

namespace Segnalacity

open CStr

/-! ### The searches -/

/-- `memchr`: the offset of the first `c`. -/
def memchr (c : UInt8) (s : Bytes) : Option ℕ :=
  if c ∈ s then some (s.takeWhile (· ≠ c)).length else none

/-- The common loop of `find_open` and `find_close` on the bytes from `cur` to `end`: the offset of
the first `cc`.  The byte at `end` is the NUL of the source. -/
def findPairLoop (c : UInt8) : ℕ → Bytes → Option ℕ
  | 0, _ => none
  | fuel + 1, s =>
      if s.length ≤ 1 then none
      else match memchr c s with
        | none => none
        | some i =>
            if s[i + 1]? = some c then some i
            else (findPairLoop c fuel (s.drop (i + 1))).map (· + (i + 1))

def findOpen (s : Bytes) : Option ℕ := findPairLoop 123 s.length s

/-- In contrast to `find_open` the result is the end when nothing is found. -/
def findClose (s : Bytes) : ℕ := (findPairLoop 125 s.length s).getD s.length

/-! ### The two passes -/

/-- Where the scan goes on behind a placeholder that is closed at `ke`. -/
def afterClose (src : Bytes) (ke : ℕ) : ℕ := if ke < src.length then ke + 2 else src.length

/-- The first pass of `parse_fragments`, from `cur`. -/
def countLoop (src : Bytes) : ℕ → ℕ → ℕ → ℕ
  | 0, _, count => count
  | fuel + 1, cur, count =>
      if cur < src.length then
        match findOpen (src.drop cur) with
        | none => count + 1
        | some i =>
            let ke := cur + i + 2 + findClose (src.drop (cur + i + 2))
            countLoop src fuel (afterClose src ke) (if 0 < i then count + 2 else count + 1)
      else count

/-- `fragments[fragCount++] = f` in an array of `count` elements. -/
def pushFragment (count : ℕ) (fragments : List Fragment) (f : Fragment) : Option (List Fragment) :=
  if fragments.length < count then some (fragments ++ [f]) else none

/-- The second pass, which fills the array. -/
def fillLoop (src : Bytes) (count : ℕ) : ℕ → ℕ → List Fragment → Option (List Fragment)
  | 0, _, fragments => some fragments
  | fuel + 1, cur, fragments =>
      if cur < src.length then
        match findOpen (src.drop cur) with
        | none => pushFragment count fragments ⟨.literal, cur, src.length - cur⟩
        | some i =>
            let ks := cur + i + 2
            let ke := ks + findClose (src.drop ks)
            (if 0 < i then pushFragment count fragments ⟨.literal, cur, i⟩
              else some fragments).bind fun fragments =>
            (pushFragment count fragments ⟨.variable, ks, ke - ks⟩).bind
              (fillLoop src count fuel (afterClose src ke))
      else some fragments

/-- `parse_fragments` when its array can be allocated; `none` is a store outside of the array. -/
def parseFragments (src : Bytes) : Option (List Fragment) :=
  fillLoop src (max (countLoop src (src.length + 1) 0 0) 1) (src.length + 1) 0 []

/-- The stores of `tpl_render` into `dest`, with the loop at `written` bytes. -/
def renderInto (tpl : Template) (destSize : ℕ) (vars : List TplVar) :
    ℕ → List Fragment → Bytes → Option (Bytes × ℤ)
  | written, [], dest => (poke dest written 0).map fun dest => (dest, written)
  | written, f :: fs, dest =>
      let data := fragmentText tpl vars f
      if written + data.length + 1 > destSize then
        (poke dest written 0).map fun dest => (dest, -1)
      else (memcpy dest written data).bind (renderInto tpl destSize vars (written + data.length) fs)

def tplRenderInto (tpl : Template) (dest : Bytes) (destSize : ℕ) (vars : List TplVar) :
    Option (Bytes × ℤ) := renderInto tpl destSize vars 0 tpl.fragments dest

/-! ### One scan -/

/-- The source with every placeholder replaced, scanned once from left to right: outside of a
placeholder, or inside of one with the key read so far. -/
def onePass (vars : List TplVar) : Option Bytes → Bytes → Bytes
  | none, [] => []
  | some key, [] => lookup key vars
  | none, [c] => [c]
  | some key, [c] => lookup (key ++ [c]) vars
  | none, c :: d :: s =>
      if c = 123 ∧ d = 123 then onePass vars (some []) s else c :: onePass vars none (d :: s)
  | some key, c :: d :: s =>
      if c = 125 ∧ d = 125 then lookup key vars ++ onePass vars none s
      else onePass vars (some (key ++ [c])) (d :: s)

/-! ### Pieces of a source -/

/-- What a template source is made of. -/
inductive Piece where
  | text (s : Bytes)
  | placeholder (key : Bytes)
  | unclosed (key : Bytes)
deriving DecidableEq, Repr

/-- A piece as it stands in the source. -/
def Piece.source : Piece → Bytes
  | .text s => s
  | .placeholder key => 123 :: 123 :: (key ++ [125, 125])
  | .unclosed key => 123 :: 123 :: key

/-- Inside of text, or of a placeholder, with what has been read of it. -/
inductive Scanning where
  | text (read : Bytes)
  | key (read : Bytes)

def Scanning.source : Scanning → Bytes
  | .text x => x
  | .key x => 123 :: 123 :: x

/-- Text between two placeholders is a piece when there is any. -/
def textPiece (s : Bytes) : List Piece := if s = [] then [] else [.text s]

def piecesFrom : Scanning → Bytes → List Piece
  | .text x, [] => textPiece x
  | .key key, [] => [.unclosed key]
  | .text x, [c] => textPiece (x ++ [c])
  | .key key, [c] => [.unclosed (key ++ [c])]
  | .text x, c :: d :: s =>
      if c = 123 ∧ d = 123 then textPiece x ++ piecesFrom (.key []) s
      else piecesFrom (.text (x ++ [c])) (d :: s)
  | .key key, c :: d :: s =>
      if c = 125 ∧ d = 125 then .placeholder key :: piecesFrom (.text []) s
      else piecesFrom (.key (key ++ [c])) (d :: s)

/-- The pieces of a source, found in one scan. -/
def pieces (src : Bytes) : List Piece := piecesFrom (.text []) src

theorem textPiece_source (s : Bytes) : (textPiece s).flatMap Piece.source = s := by
  unfold textPiece
  split_ifs with h
  · exact h.symm
  · exact List.flatMap_singleton _ _

/-- **The pieces are the source.** -/
theorem piecesFrom_source (place : Scanning) (s : Bytes) :
    (piecesFrom place s).flatMap Piece.source = place.source ++ s := by
  fun_induction piecesFrom place s with
  | case1 x => rw [textPiece_source, List.append_nil]; rfl
  | case2 key => rw [List.flatMap_singleton, List.append_nil]; rfl
  | case3 x c => rw [textPiece_source]; rfl
  | case4 key c => rw [List.flatMap_singleton]; rfl
  | case5 x c d s h ih =>
      obtain ⟨rfl, rfl⟩ := h
      rw [List.flatMap_append, textPiece_source, ih]
      rfl
  | case6 x c d s h ih =>
      rw [ih]
      simp [Scanning.source]
  | case7 key c d s h ih =>
      obtain ⟨rfl, rfl⟩ := h
      rw [List.flatMap_cons, ih]
      simp [Scanning.source, Piece.source]
  | case8 key c d s h ih =>
      rw [ih]
      simp [Scanning.source]

/-! ### Pairs -/

/-- No two neighbours are both `c`. -/
def NoPair (c : UInt8) (s : Bytes) : Prop := ¬ [c, c] <:+: s

theorem noPair_cons_cons {c a b : UInt8} {s : Bytes} :
    NoPair c (a :: b :: s) ↔ ¬ (a = c ∧ b = c) ∧ NoPair c (b :: s) := by
  unfold NoPair
  rw [List.infix_cons_iff, List.cons_prefix_cons, List.cons_prefix_cons]
  simp only [List.nil_prefix, and_true, not_or]
  rw [eq_comm (a := c), eq_comm (a := c)]

theorem noPair_of_notMem {c : UInt8} {s : Bytes} (h : c ∉ s) : NoPair c s := fun hpair =>
  h (hpair.subset List.mem_cons_self)

theorem noPair_of_length {c : UInt8} {s : Bytes} (h : s.length ≤ 1) : NoPair c s := fun hpair => by
  have hle := hpair.length_le
  simp only [List.length_cons, List.length_nil] at hle
  omega

theorem noPair_singleton {c : UInt8} {x : Bytes} (h : c ∉ x) : NoPair c (x ++ [c]) := by
  induction x with
  | nil => exact noPair_of_length (le_refl 1)
  | cons a x ih =>
      rw [List.mem_cons, not_or] at h
      have hrest := ih h.2
      have hac : a ≠ c := fun heq => h.1 heq.symm
      cases x with
      | nil => exact noPair_cons_cons.mpr ⟨fun hpair => hac hpair.1, hrest⟩
      | cons b x => exact noPair_cons_cons.mpr ⟨fun hpair => hac hpair.1, hrest⟩

theorem noPair_append {c : UInt8} {x z : Bytes} (hx : NoPair c (x ++ [c])) (hz : NoPair c (c :: z)) :
    NoPair c (x ++ c :: z) := by
  induction x with
  | nil => exact hz
  | cons a x ih =>
      cases x with
      | nil =>
          have hpair := noPair_cons_cons.mp hx
          exact noPair_cons_cons.mpr ⟨hpair.1, hz⟩
      | cons b x =>
          have hpair := noPair_cons_cons.mp hx
          exact noPair_cons_cons.mpr ⟨hpair.1, ih hpair.2⟩

theorem noPair_cons {c : UInt8} {s : Bytes} (hhead : s.head? ≠ some c) (hs : NoPair c s) :
    NoPair c (c :: s) := by
  cases s with
  | nil => exact noPair_of_length (le_refl 1)
  | cons a s =>
      refine noPair_cons_cons.mpr ⟨fun hpair => hhead ?_, hs⟩
      rw [hpair.2]
      rfl

/-! ### What the searches find -/

theorem memchr_append {c : UInt8} {x : Bytes} (h : c ∉ x) (t : Bytes) :
    memchr c (x ++ c :: t) = some x.length := by
  have hx : ∀ a ∈ x, decide (a ≠ c) = true := by
    intro a ha
    rw [decide_eq_true_eq]
    rintro rfl
    exact h ha
  unfold memchr
  rw [if_pos (by simp), List.takeWhile_append_of_pos hx, List.takeWhile_cons_of_neg (by simp),
    List.append_nil]

theorem findPairLoop_notMem {c : UInt8} {s : Bytes} (h : c ∉ s) (fuel : ℕ) :
    findPairLoop c fuel s = none := by
  cases fuel with
  | zero => rfl
  | succ fuel =>
      unfold findPairLoop memchr
      rw [if_neg h]
      simp

/-- One round of the loop ends at the first `c`, or goes on behind it. -/
theorem findPairLoop_split {c : UInt8} {x : Bytes} (h : c ∉ x) (t : Bytes) (fuel : ℕ) :
    findPairLoop c (fuel + 1) (x ++ c :: t) =
      if t.head? = some c then some x.length
      else (findPairLoop c fuel t).map (· + (x.length + 1)) := by
  have hnext : (x ++ c :: t)[x.length + 1]? = t.head? := by
    rw [List.getElem?_append_right (Nat.le_add_right _ _), Nat.add_sub_cancel_left]
    cases t <;> rfl
  have hdrop : (x ++ c :: t).drop (x.length + 1) = t := by simp
  rw [findPairLoop]
  split_ifs with hshort hpair hpair
  · rw [List.length_append, List.length_cons] at hshort
    rw [List.length_eq_zero_iff.mp (show t.length = 0 by omega)] at hpair
    cases hpair
  · rw [List.length_append, List.length_cons] at hshort
    rw [List.length_eq_zero_iff.mp (show t.length = 0 by omega), findPairLoop_notMem (by simp)]
    rfl
  · simp only [memchr_append h, hnext, if_pos hpair]
  · simp only [memchr_append h, hnext, hdrop, if_neg hpair]

/-- The first pair, and none before it. -/
theorem findPairLoop_some {c : UInt8} {fuel : ℕ} {s : Bytes} {i : ℕ}
    (h : findPairLoop c fuel s = some i) :
    ∃ x r, s = x ++ c :: c :: r ∧ x.length = i ∧ NoPair c (x ++ [c]) := by
  induction fuel generalizing s i with
  | zero => cases h
  | succ fuel ih =>
      by_cases hmem : c ∈ s
      · obtain ⟨x, t, rfl, hx⟩ := List.eq_append_cons_of_mem hmem
        rw [findPairLoop_split hx] at h
        split_ifs at h with hpair
        · obtain ⟨r, rfl⟩ := List.head?_eq_some_iff.mp hpair
          exact ⟨x, r, rfl, Option.some.inj h, noPair_singleton hx⟩
        · obtain ⟨k, hk, rfl⟩ := Option.map_eq_some_iff.mp h
          obtain ⟨y, r, rfl, rfl, hy⟩ := ih hk
          refine ⟨x ++ c :: y, r, by simp, by simp; omega, ?_⟩
          rw [List.append_assoc, List.cons_append]
          refine noPair_append (noPair_singleton hx) (noPair_cons ?_ hy)
          cases y with
          | nil => exact absurd rfl hpair
          | cons d y => exact hpair
      · rw [findPairLoop_notMem hmem] at h
        cases h

theorem findPairLoop_none {c : UInt8} {fuel : ℕ} {s : Bytes} (hfuel : s.length ≤ fuel)
    (h : findPairLoop c fuel s = none) : NoPair c s := by
  induction fuel generalizing s with
  | zero => exact noPair_of_length (by omega)
  | succ fuel ih =>
      by_cases hmem : c ∈ s
      · obtain ⟨x, t, rfl, hx⟩ := List.eq_append_cons_of_mem hmem
        rw [findPairLoop_split hx] at h
        split_ifs at h with hpair
        have hlength : t.length ≤ fuel := by
          simp only [List.length_append, List.length_cons] at hfuel
          omega
        exact noPair_append (noPair_singleton hx)
          (noPair_cons hpair (ih hlength (Option.map_eq_none_iff.mp h)))
      · exact noPair_of_notMem hmem

/-! ### The fragments -/

/-- The fragments that the second pass adds, from `cur`. -/
def fragmentsFrom (src : Bytes) : ℕ → ℕ → List Fragment
  | 0, _ => []
  | fuel + 1, cur =>
      if cur < src.length then
        match findOpen (src.drop cur) with
        | none => [⟨.literal, cur, src.length - cur⟩]
        | some i =>
            let ks := cur + i + 2
            let ke := ks + findClose (src.drop ks)
            (if 0 < i then [⟨.literal, cur, i⟩] else []) ++
              ⟨.variable, ks, ke - ks⟩ :: fragmentsFrom src fuel (afterClose src ke)
      else []

theorem fragmentsFrom_end {src : Bytes} {cur : ℕ} (h : src.length ≤ cur) (fuel : ℕ) :
    fragmentsFrom src fuel cur = [] := by
  cases fuel with
  | zero => rfl
  | succ fuel => rw [fragmentsFrom, if_neg (by omega)]

theorem countLoop_eq (src : Bytes) (fuel cur count : ℕ) :
    countLoop src fuel cur count = count + (fragmentsFrom src fuel cur).length := by
  induction fuel generalizing cur count with
  | zero => rfl
  | succ fuel ih =>
      unfold countLoop fragmentsFrom
      split_ifs with hcur
      · cases findOpen (src.drop cur) with
        | none => rfl
        | some i =>
            dsimp only
            rw [ih, List.length_append, List.length_cons]
            split_ifs
            · rw [List.length_singleton]
              omega
            · rw [List.length_nil]
              omega
      · rfl

theorem pushFragment_eq {count : ℕ} {fragments : List Fragment} (f : Fragment)
    (h : fragments.length < count) :
    pushFragment count fragments f = some (fragments ++ [f]) := if_pos h

/-- The array of the size that the first pass has counted is never overrun. -/
theorem fillLoop_eq {src : Bytes} {count fuel cur : ℕ} {fragments : List Fragment}
    (h : fragments.length + (fragmentsFrom src fuel cur).length ≤ count) :
    fillLoop src count fuel cur fragments = some (fragments ++ fragmentsFrom src fuel cur) := by
  induction fuel generalizing cur fragments with
  | zero => simp [fillLoop, fragmentsFrom]
  | succ fuel ih =>
      unfold fillLoop
      unfold fragmentsFrom at h ⊢
      split_ifs at h ⊢ with hcur
      · cases ho : findOpen (src.drop cur) with
        | none =>
            rw [ho] at h
            exact pushFragment_eq _ (by simpa using h)
        | some i =>
            rw [ho] at h
            dsimp only at h ⊢
            rw [List.length_append, List.length_cons] at h
            split_ifs at h ⊢ with hi
            · rw [List.length_singleton] at h
              rw [pushFragment_eq _ (by omega), Option.bind_some,
                pushFragment_eq _ (by rw [List.length_append, List.length_singleton]; omega),
                Option.bind_some, ih (by simp only [List.length_append, List.length_singleton]; omega)]
              simp
            · rw [List.length_nil] at h
              rw [Option.bind_some, pushFragment_eq _ (by omega), Option.bind_some,
                ih (by rw [List.length_append, List.length_singleton]; omega)]
              simp
      · simp

theorem parseFragments_eq (src : Bytes) :
    parseFragments src = some (fragmentsFrom src (src.length + 1) 0) := by
  have hcount := countLoop_eq src (src.length + 1) 0 0
  exact fillLoop_eq (by rw [List.length_nil]; omega)

/-- Where a placeholder ends: at the next `}}`, or with the source. -/
theorem findClose_cases (s : Bytes) :
    (∃ y r, s = y ++ 125 :: 125 :: r ∧ findClose s = y.length ∧ NoPair 125 (y ++ [125])) ∨
      (findClose s = s.length ∧ NoPair 125 s) := by
  unfold findClose
  cases h : findPairLoop 125 s.length s with
  | none => exact Or.inr ⟨rfl, findPairLoop_none (le_refl _) h⟩
  | some j =>
      obtain ⟨y, r, hs, rfl, hy⟩ := findPairLoop_some h
      exact Or.inl ⟨y, r, hs, rfl, hy⟩

theorem pieces_plain {s : Bytes} (h : NoPair 123 s) (x : Bytes) :
    piecesFrom (.text x) s = textPiece (x ++ s) := by
  induction s generalizing x with
  | nil => rw [List.append_nil]; rfl
  | cons a s ih =>
      cases s with
      | nil => rfl
      | cons b s =>
          obtain ⟨hpair, hs⟩ := noPair_cons_cons.mp h
          rw [piecesFrom, if_neg hpair, ih hs, List.append_assoc]
          rfl

theorem pieces_text {x : Bytes} (h : NoPair 123 (x ++ [123])) (y r : Bytes) :
    piecesFrom (.text y) (x ++ 123 :: 123 :: r) = textPiece (y ++ x) ++ piecesFrom (.key []) r := by
  induction x generalizing y with
  | nil => rw [List.append_nil]; rfl
  | cons a x ih =>
      have hrest : piecesFrom (.text (y ++ [a])) (x ++ 123 :: 123 :: r) =
          textPiece (y ++ a :: x) ++ piecesFrom (.key []) r := by
        have hx : NoPair 123 (x ++ [123]) := by
          cases x with
          | nil => exact (noPair_cons_cons.mp h).2
          | cons b x => exact (noPair_cons_cons.mp h).2
        rw [ih hx, List.append_assoc]
        rfl
      rw [← hrest]
      cases x with
      | nil =>
          show piecesFrom (.text y) (a :: 123 :: 123 :: r) = _
          rw [piecesFrom, if_neg (noPair_cons_cons.mp h).1]
          rfl
      | cons b x =>
          show piecesFrom (.text y) (a :: b :: (x ++ 123 :: 123 :: r)) = _
          rw [piecesFrom, if_neg (noPair_cons_cons.mp h).1]
          rfl

theorem pieces_unclosed {s : Bytes} (h : NoPair 125 s) (key : Bytes) :
    piecesFrom (.key key) s = [.unclosed (key ++ s)] := by
  induction s generalizing key with
  | nil => rw [List.append_nil]; rfl
  | cons a s ih =>
      cases s with
      | nil => rfl
      | cons b s =>
          obtain ⟨hpair, hs⟩ := noPair_cons_cons.mp h
          rw [piecesFrom, if_neg hpair, ih hs, List.append_assoc]
          rfl

theorem pieces_key {y : Bytes} (h : NoPair 125 (y ++ [125])) (key r : Bytes) :
    piecesFrom (.key key) (y ++ 125 :: 125 :: r) =
      .placeholder (key ++ y) :: piecesFrom (.text []) r := by
  induction y generalizing key with
  | nil => rw [List.append_nil]; rfl
  | cons a y ih =>
      have hrest : piecesFrom (.key (key ++ [a])) (y ++ 125 :: 125 :: r) =
          .placeholder (key ++ a :: y) :: piecesFrom (.text []) r := by
        have hy : NoPair 125 (y ++ [125]) := by
          cases y with
          | nil => exact (noPair_cons_cons.mp h).2
          | cons b y => exact (noPair_cons_cons.mp h).2
        rw [ih hy, List.append_assoc]
        rfl
      rw [← hrest]
      cases y with
      | nil =>
          show piecesFrom (.key key) (a :: 125 :: 125 :: r) = _
          rw [piecesFrom, if_neg (noPair_cons_cons.mp h).1]
          rfl
      | cons b y =>
          show piecesFrom (.key key) (a :: b :: (y ++ 125 :: 125 :: r)) = _
          rw [piecesFrom, if_neg (noPair_cons_cons.mp h).1]
          rfl

/-- The piece that a fragment stands for. -/
def fragmentPiece (src : Bytes) (f : Fragment) : Piece :=
  let text := (src.drop f.ptr).take f.len
  match f.type with
  | .literal => .text text
  | .variable => if f.ptr + f.len < src.length then .placeholder text else .unclosed text

/-- **The fragments are the pieces.** -/
theorem fragmentsFrom_pieces {src : Bytes} {fuel cur : ℕ} (hfuel : src.length < fuel + cur) :
    (fragmentsFrom src fuel cur).map (fragmentPiece src) = piecesFrom (.text []) (src.drop cur) := by
  induction fuel generalizing cur with
  | zero =>
      rw [List.drop_eq_nil_of_le (by omega)]
      rfl
  | succ fuel ih =>
      by_cases hcur : cur < src.length
      · rw [fragmentsFrom, if_pos hcur]
        cases ho : findOpen (src.drop cur) with
        | none =>
            have hne : src.drop cur ≠ [] := by
              rw [ne_eq, List.drop_eq_nil_iff]
              omega
            rw [pieces_plain (findPairLoop_none (le_refl _) ho), List.nil_append, textPiece, if_neg hne]
            simp [fragmentPiece, List.take_of_length_le]
        | some i =>
            obtain ⟨x, s, hx, rfl, hopen⟩ := findPairLoop_some ho
            have hks : src.drop (cur + x.length + 2) = s := by
              rw [Nat.add_assoc, ← List.drop_drop, hx]
              simp [← List.drop_drop]
            have htext : (if 0 < x.length then [(⟨.literal, cur, x.length⟩ : Fragment)] else []).map
                (fragmentPiece src) = textPiece x := by
              cases x with
              | nil => rfl
              | cons a x => simp [fragmentPiece, hx, textPiece]
            have hlength : src.length = cur + x.length + 2 + s.length := by
              have hdrop := congrArg List.length hx
              simp only [List.length_drop, List.length_append, List.length_cons] at hdrop
              omega
            dsimp only
            rw [List.map_append, htext, List.map_cons, hks, hx, pieces_text hopen, List.nil_append,
              Nat.add_sub_cancel_left]
            congr 1
            have hkey : fragmentPiece src ⟨.variable, cur + x.length + 2, findClose s⟩ =
                if cur + x.length + 2 + findClose s < src.length then .placeholder (s.take (findClose s))
                else .unclosed (s.take (findClose s)) := by
              show (if _ then Piece.placeholder ((src.drop (cur + x.length + 2)).take (findClose s))
                else .unclosed ((src.drop (cur + x.length + 2)).take (findClose s))) = _
              rw [hks]
            rw [hkey]
            unfold afterClose
            rcases findClose_cases s with ⟨y, r, rfl, hclose, hy⟩ | ⟨hclose, hy⟩
            · have hr : src.drop (cur + x.length + 2 + y.length + 2) = r := by
                rw [Nat.add_assoc, ← List.drop_drop, hks]
                simp [← List.drop_drop]
              have hlt : cur + x.length + 2 + y.length < src.length := by
                simp only [List.length_append, List.length_cons] at hlength
                omega
              rw [hclose, if_pos hlt, if_pos hlt, ih (by omega), hr, pieces_key hy, List.take_left]
              rfl
            · rw [hclose, if_neg (by omega), if_neg (by omega), ih (by omega), List.drop_length,
                List.take_length, pieces_unclosed hy]
              rfl
      · rw [fragmentsFrom_end (by omega), List.drop_eq_nil_of_le (by omega)]
        rfl

/-! ### The text of one scan -/

/-- A piece with its placeholder replaced. -/
def Piece.render (vars : List TplVar) : Piece → Bytes
  | .text s => s
  | .placeholder key => lookup key vars
  | .unclosed key => lookup key vars

/-- The text that the scan gives from within text or a placeholder. -/
def onePassFrom (vars : List TplVar) : Scanning → Bytes → Bytes
  | .text x, s => x ++ onePass vars none s
  | .key x, s => onePass vars (some x) s

theorem textPiece_render (vars : List TplVar) (s : Bytes) :
    (textPiece s).flatMap (Piece.render vars) = s := by
  unfold textPiece
  split_ifs with h
  · exact h.symm
  · exact List.flatMap_singleton _ _

/-- The scan replaces the placeholders of the pieces. -/
theorem piecesFrom_render (vars : List TplVar) (place : Scanning) (s : Bytes) :
    (piecesFrom place s).flatMap (Piece.render vars) = onePassFrom vars place s := by
  fun_induction piecesFrom place s with
  | case1 x =>
      rw [textPiece_render]
      exact (List.append_nil x).symm
  | case2 key => exact List.flatMap_singleton _ _
  | case3 x c => exact textPiece_render vars _
  | case4 key c => exact List.flatMap_singleton _ _
  | case5 x c d s h ih =>
      rw [List.flatMap_append, textPiece_render, ih, onePassFrom, onePassFrom, onePass, if_pos h]
  | case6 x c d s h ih =>
      rw [ih, onePassFrom, onePassFrom, onePass.eq_5, if_neg h, List.append_assoc]
      rfl
  | case7 key c d s h ih =>
      rw [List.flatMap_cons, ih, onePassFrom, onePassFrom, onePass.eq_6, if_pos h]
      rfl
  | case8 key c d s h ih =>
      rw [ih, onePassFrom, onePassFrom, onePass.eq_6, if_neg h]

theorem fragmentPiece_render (tpl : Template) (vars : List TplVar) (f : Fragment) :
    (fragmentPiece tpl.src f).render vars = fragmentText tpl vars f := by
  obtain ⟨type, ptr, len⟩ := f
  unfold fragmentPiece fragmentText
  cases type
  · rfl
  · dsimp only
    split_ifs <;> rfl

/-- **The fragments are the scan.** -/
theorem fragmentsFrom_onePass (tpl : Template) (vars : List TplVar) {fuel cur : ℕ}
    (hfuel : tpl.src.length < fuel + cur) :
    (fragmentsFrom tpl.src fuel cur).flatMap (fragmentText tpl vars) =
      onePass vars none (tpl.src.drop cur) := by
  have hrender := piecesFrom_render vars (.text []) (tpl.src.drop cur)
  change _ = onePass vars none (tpl.src.drop cur) at hrender
  rw [← fragmentsFrom_pieces hfuel, List.flatMap_map] at hrender
  simpa only [fragmentPiece_render] using hrender

theorem onePass_plain {vars : List TplVar} {s : Bytes} (h : NoPair 123 s) : onePass vars none s = s := by
  have hrender := piecesFrom_render vars (.text []) s
  rw [pieces_plain h, textPiece_render] at hrender
  exact hrender.symm

/-! ### Rendering -/

/-- What the loop of `tpl_render` has written when it stops is the start of the whole text. -/
theorem renderFragments_isPrefix (tpl : Template) (destSize : ℕ) (vars : List TplVar)
    (fragments : List Fragment) {written : Bytes} (hroom : written.length < destSize) :
    (renderFragments tpl destSize vars written fragments).1 <+:
        written ++ fragments.flatMap (fragmentText tpl vars) ∧
      (renderFragments tpl destSize vars written fragments).1.length < destSize := by
  induction fragments generalizing written with
  | nil => exact ⟨List.prefix_append _ _, hroom⟩
  | cons f fs ih =>
      unfold renderFragments
      dsimp only
      split_ifs with hfull
      · exact ⟨List.prefix_append _ _, hroom⟩
      · rw [List.flatMap_cons, ← List.append_assoc]
        exact ih (by rw [List.length_append]; omega)

/-- The stores of the loop stay inside of `dest`. -/
theorem renderInto_eq (tpl : Template) {dest : Bytes} {destSize : ℕ} (vars : List TplVar)
    (hdest : destSize ≤ dest.length) (fragments : List Fragment) {written : Bytes}
    (hroom : written.length < destSize) :
    renderInto tpl destSize vars written.length fragments (overlay written dest) =
      some (overlay ((renderFragments tpl destSize vars written fragments).1 ++ [0]) dest,
        if (renderFragments tpl destSize vars written fragments).2 then
          ((renderFragments tpl destSize vars written fragments).1.length : ℤ) else -1) := by
  induction fragments generalizing written with
  | nil =>
      unfold renderInto renderFragments
      rw [poke_overlay (by omega)]
      rfl
  | cons f fs ih =>
      unfold renderInto renderFragments
      dsimp only
      by_cases hfull : written.length + (fragmentText tpl vars f).length + 1 > destSize
      · rw [if_pos hfull, if_pos hfull, poke_overlay (by omega)]
        rfl
      · have hrest := @ih (written ++ fragmentText tpl vars f) (by rw [List.length_append]; omega)
        rw [List.length_append] at hrest
        rw [if_neg hfull, if_neg hfull, memcpy_overlay (by omega), Option.bind_some, hrest]

theorem tplRenderInto_eq (tpl : Template) {dest : Bytes} {destSize : ℕ} (vars : List TplVar)
    (hsize : 1 ≤ destSize) (hdest : destSize ≤ dest.length) :
    tplRenderInto tpl dest destSize vars =
      some ((tplRender tpl dest destSize vars).2, (tplRender tpl dest destSize vars).1) := by
  have hroom : ([] : Bytes).length < destSize := hsize
  exact renderInto_eq tpl vars hdest tpl.fragments hroom

/-- **Templates.**  A source that is parsed and rendered gives the text of one scan, its length and
a NUL when that fits, and otherwise -1 and a part from the start of that text with a NUL. -/
theorem tplRender_parse (path src : Bytes) (vars : List TplVar) {dest : Bytes} {destSize : ℕ}
    (hsize : 1 ≤ destSize) (hdest : destSize ≤ dest.length) :
    ∃ fragments, parseFragments src = some fragments ∧
      ((onePass vars none src).length + 1 ≤ destSize →
        tplRenderInto ⟨path, src, fragments⟩ dest destSize vars =
          some (overlay (onePass vars none src ++ [0]) dest, ((onePass vars none src).length : ℤ))) ∧
      (destSize < (onePass vars none src).length + 1 →
        ∃ text, text <+: onePass vars none src ∧ text.length < destSize ∧
          tplRenderInto ⟨path, src, fragments⟩ dest destSize vars =
            some (overlay (text ++ [0]) dest, -1)) ∧
      (¬ [123, 123] <:+: src → onePass vars none src = src) := by
  refine ⟨_, parseFragments_eq src, ?_⟩
  have hroom : ([] : Bytes).length < destSize := hsize
  have hscan := fragmentsFrom_onePass ⟨path, src, fragmentsFrom src (src.length + 1) 0⟩ vars
    (show src.length < src.length + 1 + 0 by omega)
  rw [List.drop_zero] at hscan
  change _ = onePass vars none src at hscan
  obtain ⟨hfits, hwritten⟩ := renderFragments_spec
    ⟨path, src, fragmentsFrom src (src.length + 1) 0⟩ vars (fragmentsFrom src (src.length + 1) 0) hroom
  have hstart := renderFragments_isPrefix ⟨path, src, fragmentsFrom src (src.length + 1) 0⟩ destSize vars
    (fragmentsFrom src (src.length + 1) 0) hroom
  rw [List.nil_append, hscan] at hfits hwritten hstart
  have hrender := tplRenderInto_eq ⟨path, src, fragmentsFrom src (src.length + 1) 0⟩ vars hsize hdest
  unfold tplRender at hrender
  refine ⟨fun hle => ?_, fun hlt => ?_, fun hplain => onePass_plain hplain⟩
  · rw [hrender]
    dsimp only
    rw [hfits, hwritten (by omega), decide_eq_true (by omega)]
    rfl
  · refine ⟨_, hstart.1, hstart.2, ?_⟩
    rw [hrender]
    dsimp only
    rw [hfits, decide_eq_false (by omega)]
    rfl

/-- Three braces, an unclosed placeholder, and a value that looks like a placeholder. -/
def sampleSource : Bytes := bytes "a\x7bb\x7d\x7d \x7b\x7b\x7bK\x7d\x7d \x7b\x7bA\x7d\x7d\x7b\x7b"

def sampleVars : List TplVar := [⟨bytes "A", bytes "\x7b\x7bA\x7d\x7d"⟩]

example : onePass sampleVars none sampleSource = bytes "a\x7bb\x7d\x7d  \x7b\x7bA\x7d\x7d" := by
  decide

end Segnalacity
