import Segnalacity.Lib.WhileLoop
import Segnalacity.TemplateParse

/-! # The two passes of `parse_fragments`

`parse_fragments` on the memory it reads, the source and its NUL: pointers are offsets, `end` is the
offset of the NUL, and the counters are `int`s.  A read or a comparison of pointers beyond the NUL, a
store outside of the array that the first pass has counted, and a counter that passes `INT_MAX` all have
no outcome, like a loop that does not end.

The fragments that the passes find are the pieces of the source, so they tile it, and the passes end with
them exactly when the source has fewer than `2^31` pieces (`passesAgree_iff`).  With the `int` that
`tpl_render` returns this is also what rendering depends on (`substitutesOnce_iff`). -/

namespace Segnalacity

open CStr WhileLoop

/-! ### Pointers and counters -/

/-- `p < q` for pointers into the memory `m`, which ends with the NUL. -/
def ptrLt (m : Bytes) (p q : ℕ) : Option Bool :=
  if p < m.length ∧ q < m.length then some (decide (p < q)) else none

/-- `p - 1`, inside of the source. -/
def ptrPred (p : ℕ) : Option ℕ := if 0 < p then some (p - 1) else none

/-- `memchr(p, c, q - p)`. -/
def memchrAt (m : Bytes) (c : UInt8) (p q : ℕ) : Option (Option ℕ) :=
  if p ≤ q ∧ q ≤ m.length then some ((memchr c ((m.take q).drop p)).map (p + ·)) else none

/-- `n + 1` on a nonnegative `int`. -/
def intSucc (n : ℕ) : Option ℕ := if n + 1 < 2 ^ 31 then some (n + 1) else none

/-! ### The searches -/

/-- One turn of the loop of `find_open` and `find_close`. -/
def findPairTurn (m : Bytes) (c : UInt8) (last cur : ℕ) : Option (Turn ℕ (Option ℕ)) := do
  let beforeLast ← ptrPred last
  if ← ptrLt m cur beforeLast then
    match ← memchrAt m c cur last with
    | none => return .stop none
    | some cur =>
        let ahead ← m[cur + 1]?
        return if ahead = c then .stop (some cur) else .next (cur + 1)
  else return .stop none

/-- `find_open`. -/
def findOpenAt (m : Bytes) (last fuel cur : ℕ) : Option (Option ℕ) :=
  WhileLoop.run (findPairTurn m 123 last) fuel cur

/-- `find_close`. -/
def findCloseAt (m : Bytes) (last fuel cur : ℕ) : Option ℕ :=
  (WhileLoop.run (findPairTurn m 125 last) fuel cur).map fun found => found.getD last

/-! ### The passes -/

/-- One turn of the first pass, with `cur` and `count`. -/
def countTurn (m : Bytes) (last fuel : ℕ) : ℕ × ℕ → Option (Turn (ℕ × ℕ) ℕ)
  | (cur, count) => do
      if ← ptrLt m cur last then
        match ← findOpenAt m last fuel cur with
        | none =>
            let count ← if ← ptrLt m cur last then intSucc count else pure count
            return .stop count
        | some op =>
            let count ← if ← ptrLt m cur op then intSucc count else pure count
            let count ← intSucc count
            let ke ← findCloseAt m last fuel (op + 2)
            let closed ← ptrLt m ke last
            return .next (if closed then ke + 2 else last, count)
      else return .stop count

/-- `fragments[fragCount++] = f`. -/
def storeFragment (capacity : ℕ) (fragments : List Fragment) (f : Fragment) :
    Option (List Fragment) :=
  (intSucc fragments.length).bind fun _ => pushFragment capacity fragments f

/-- One turn of the second pass, with `cur` and the fragments that have been stored. -/
def fillTurn (m : Bytes) (last capacity fuel : ℕ) :
    ℕ × List Fragment → Option (Turn (ℕ × List Fragment) (List Fragment))
  | (cur, fragments) => do
      if ← ptrLt m cur last then
        match ← findOpenAt m last fuel cur with
        | none =>
            let fragments ← if ← ptrLt m cur last then
                storeFragment capacity fragments ⟨.literal, cur, last - cur⟩
              else pure fragments
            return .stop fragments
        | some op =>
            let fragments ← if ← ptrLt m cur op then
                storeFragment capacity fragments ⟨.literal, cur, op - cur⟩
              else pure fragments
            let ks := op + 2
            let ke ← findCloseAt m last fuel ks
            let fragments ← storeFragment capacity fragments ⟨.variable, ks, ke - ks⟩
            let closed ← ptrLt m ke last
            return .next (if closed then ke + 2 else last, fragments)
      else return .stop fragments

/-- `parse_fragments` when its array can be allocated: what the first pass has counted, and the
fragments that the second pass has stored. -/
def parsePasses (fuel : ℕ) (src : Bytes) : Option (ℕ × List Fragment) := do
  let m := src ++ [0]
  let count ← WhileLoop.run (countTurn m src.length fuel) fuel (0, 0)
  let fragments ← WhileLoop.run (fillTurn m src.length (max count 1) fuel) fuel (0, [])
  return (count, fragments)

/-! ### What the searches find -/

/-- The result of the search does not depend on the fuel. -/
theorem findPairLoop_fuel {c : UInt8} {fuel fuel' : ℕ} {s : Bytes} (h : s.length ≤ fuel)
    (h' : s.length ≤ fuel') : findPairLoop c fuel s = findPairLoop c fuel' s := by
  induction fuel generalizing fuel' s with
  | zero =>
      rw [List.length_eq_zero_iff.mp (Nat.le_zero.mp h), findPairLoop_notMem List.not_mem_nil,
        findPairLoop_notMem List.not_mem_nil]
  | succ fuel ih =>
      by_cases hmem : c ∈ s
      · obtain ⟨x, t, rfl, hx⟩ := List.eq_append_cons_of_mem hmem
        rw [List.length_append, List.length_cons] at h h'
        obtain ⟨k, rfl⟩ := Nat.exists_eq_add_of_le' (show 1 ≤ fuel' by omega)
        rw [findPairLoop_split hx, findPairLoop_split hx, @ih k t (by omega) (by omega)]
      · rw [findPairLoop_notMem hmem, findPairLoop_notMem hmem]

/-- The pair that the search finds from `cur` on, as a position in the source. -/
def pairFrom (c : UInt8) (src : Bytes) (cur : ℕ) : Option ℕ :=
  (findPairLoop c src.length (src.drop cur)).map (cur + ·)

theorem drop_behind {src x t : Bytes} {c : UInt8} {p : ℕ} (h : src.drop p = x ++ c :: t) :
    src.drop (p + x.length + 1) = t := by
  rw [Nat.add_assoc, ← List.drop_drop, h]
  simp

theorem pairFrom_notMem {src : Bytes} {c : UInt8} {p : ℕ} (h : c ∉ src.drop p) :
    pairFrom c src p = none := by
  unfold pairFrom
  rw [findPairLoop_notMem h]
  rfl

theorem pairFrom_short {src : Bytes} (c : UInt8) {p : ℕ} (h : src.length ≤ p + 1) :
    pairFrom c src p = none := by
  have hlength : (src.drop p).length ≤ 1 := by
    rw [List.length_drop]
    omega
  unfold pairFrom
  cases src.length with
  | zero => rfl
  | succ n =>
      rw [findPairLoop, if_pos hlength]
      rfl

theorem pairFrom_split {src x t : Bytes} {c : UInt8} {p : ℕ} (h : src.drop p = x ++ c :: t)
    (hx : c ∉ x) : pairFrom c src p =
      if t.head? = some c then some (p + x.length) else pairFrom c src (p + x.length + 1) := by
  have hlength := congrArg List.length h
  rw [List.length_drop, List.length_append, List.length_cons] at hlength
  obtain ⟨n, hn⟩ := Nat.exists_eq_add_of_le' (show 1 ≤ src.length by omega)
  unfold pairFrom
  rw [drop_behind h, h, hn, findPairLoop_split hx,
    @findPairLoop_fuel c n (n + 1) t (by omega) (by omega)]
  split_ifs with hpair
  · rfl
  · rw [Option.map_map]
    congr 1
    funext i
    show p + (i + (x.length + 1)) = p + x.length + 1 + i
    omega

theorem ptrLt_source {src : Bytes} {p q : ℕ} (hp : p ≤ src.length) (hq : q ≤ src.length) :
    ptrLt (src ++ [0]) p q = some (decide (p < q)) := by
  unfold ptrLt
  rw [List.length_append, List.length_singleton, if_pos ⟨by omega, by omega⟩]

theorem ptrPred_pos {p : ℕ} (h : 0 < p) : ptrPred p = some (p - 1) := if_pos h

theorem memchrAt_source {src : Bytes} {c : UInt8} {p : ℕ} (hp : p ≤ src.length) :
    memchrAt (src ++ [0]) c p src.length = some ((memchr c (src.drop p)).map (p + ·)) := by
  unfold memchrAt
  rw [List.length_append, if_pos ⟨hp, Nat.le_add_right _ _⟩, List.take_left]

/-- A turn of the search, where it ends before the last byte. -/
theorem findPairTurn_short {src : Bytes} (c : UInt8) {p : ℕ} (hsrc : 0 < src.length)
    (hp : p ≤ src.length) (h : src.length ≤ p + 1) :
    findPairTurn (src ++ [0]) c src.length p = some (.stop none) := by
  unfold findPairTurn
  rw [ptrPred_pos hsrc, Option.bind_eq_bind, Option.bind_some, ptrLt_source hp (by omega),
    Option.bind_eq_bind, Option.bind_some, if_neg (by rw [decide_eq_true_eq]; omega)]
  rfl

/-- A turn of the search, where at least two bytes are left. -/
theorem findPairTurn_eq {src : Bytes} {c : UInt8} {cur : ℕ} (h : cur + 1 < src.length) :
    findPairTurn (src ++ [0]) c src.length cur =
      ((memchr c (src.drop cur)).map (cur + ·)).elim (some (.stop none)) fun found =>
        ((src ++ [0])[found + 1]?).map fun ahead =>
          if ahead = c then .stop (some found) else .next (found + 1) := by
  unfold findPairTurn
  rw [ptrPred_pos (by omega), Option.bind_eq_bind, Option.bind_some,
    ptrLt_source (by omega) (by omega), Option.bind_eq_bind, Option.bind_some,
    if_pos (decide_eq_true (by omega)), memchrAt_source (by omega)]
  cases (memchr c (src.drop cur)).map (cur + ·) with
  | none => rfl
  | some found => cases h : (src ++ [0])[found + 1]? <;> simp [h]

/-- The search ends, with the first pair. -/
theorem findPair_run {src : Bytes} {c : UInt8} {fuel cur : ℕ} (hc : c ≠ 0) (hsrc : 0 < src.length)
    (hcur : cur ≤ src.length) (hfuel : src.length < fuel) :
    WhileLoop.run (findPairTurn (src ++ [0]) c src.length) fuel cur = some (pairFrom c src cur) := by
  have hrun := @run_of_variant ℕ (Option ℕ) (findPairTurn (src ++ [0]) c src.length)
    (fun p => p ≤ src.length ∧ pairFrom c src p = pairFrom c src cur) (fun p => src.length - p)
    (fun found => found = pairFrom c src cur) ?_ fuel cur ⟨hcur, rfl⟩ (by omega)
  · obtain ⟨r, hr, rfl⟩ := hrun
    exact hr
  rintro p ⟨hp, hpair⟩
  by_cases htwo : p + 1 < src.length
  · rw [findPairTurn_eq htwo]
    by_cases hmem : c ∈ src.drop p
    · obtain ⟨x, t, hx, hxc⟩ := List.eq_append_cons_of_mem hmem
      have hlength := congrArg List.length hx
      rw [List.length_drop, List.length_append, List.length_cons] at hlength
      -- the byte ahead is the next one of the source, or its NUL
      have hahead : (src ++ [0])[p + x.length + 1]? = some (t.head?.getD 0) := by
        have hdrop : (src ++ [0]).drop (p + x.length + 1) = t ++ [0] := by
          rw [List.drop_append_of_le_length (by omega), drop_behind hx]
        rw [← List.head?_drop, hdrop]
        cases t <;> rfl
      rw [hx, memchr_append hxc, Option.map_some, Option.elim_some, hahead, Option.map_some]
      rw [pairFrom_split hx hxc] at hpair
      by_cases hnext : t.head? = some c
      · rw [if_pos hnext] at hpair
        refine Or.inl ⟨some (p + x.length), ?_, hpair⟩
        rw [hnext, Option.getD_some, if_pos rfl]
      · rw [if_neg hnext] at hpair
        refine Or.inr ⟨p + x.length + 1, ?_, ⟨by omega, hpair⟩, by omega⟩
        rw [if_neg]
        cases hhead : t.head? with
        | none => exact hc.symm
        | some d => exact fun hd => hnext (hhead.trans (congrArg some hd))
    · rw [pairFrom_notMem hmem] at hpair
      refine Or.inl ⟨none, ?_, hpair⟩
      rw [memchr, if_neg hmem]
      rfl
  · rw [pairFrom_short c (by omega)] at hpair
    exact Or.inl ⟨none, findPairTurn_short c hsrc hp (by omega), hpair⟩

theorem findOpenAt_eq {src : Bytes} {fuel cur : ℕ} (hcur : cur < src.length)
    (hfuel : src.length < fuel) :
    findOpenAt (src ++ [0]) src.length fuel cur = some ((findOpen (src.drop cur)).map (cur + ·)) := by
  have hrun := @findPair_run src 123 fuel cur (by decide) (by omega) (by omega) hfuel
  unfold pairFrom at hrun
  rw [@findPairLoop_fuel 123 src.length (src.drop cur).length (src.drop cur)
    (by rw [List.length_drop]; omega) (le_refl _)] at hrun
  exact hrun

theorem findCloseAt_eq {src : Bytes} {fuel ks : ℕ} (hsrc : 0 < src.length) (hks : ks ≤ src.length)
    (hfuel : src.length < fuel) :
    findCloseAt (src ++ [0]) src.length fuel ks = some (ks + findClose (src.drop ks)) := by
  unfold findCloseAt
  rw [@findPair_run src 125 fuel ks (by decide) hsrc hks hfuel, Option.map_some, pairFrom,
    @findPairLoop_fuel 125 src.length (src.drop ks).length (src.drop ks)
      (by rw [List.length_drop]; omega) (le_refl _), findClose]
  cases findPairLoop 125 (src.drop ks).length (src.drop ks) with
  | none =>
      show some src.length = some (ks + (src.drop ks).length)
      rw [List.length_drop, Nat.add_sub_cancel' hks]
  | some i => rfl

/-! ### One turn of a pass -/

/-- What a turn of either pass finds from `cur` on: its fragments, and where the next turn starts. -/
def cut (src : Bytes) (cur : ℕ) : List Fragment × Option ℕ :=
  match findOpen (src.drop cur) with
  | none => ([⟨.literal, cur, src.length - cur⟩], none)
  | some i =>
      let ks := cur + i + 2
      let ke := ks + findClose (src.drop ks)
      ((if 0 < i then [⟨.literal, cur, i⟩] else []) ++ [⟨.variable, ks, ke - ks⟩],
        some (afterClose src ke))

/-- A placeholder that is opened in the source leaves room for its braces. -/
theorem findOpen_le {src : Bytes} {cur i : ℕ} (h : findOpen (src.drop cur) = some i) :
    cur + i + 2 ≤ src.length := by
  obtain ⟨x, r, hx, rfl, -⟩ := findPairLoop_some h
  have hlength := congrArg List.length hx
  simp only [List.length_drop, List.length_append, List.length_cons] at hlength
  omega

theorem findClose_le {src : Bytes} {ks : ℕ} (h : ks ≤ src.length) :
    ks + findClose (src.drop ks) + 2 ≤ src.length ∨ ks + findClose (src.drop ks) = src.length := by
  rcases findClose_cases (src.drop ks) with ⟨y, r, hs, hclose, -⟩ | ⟨hclose, -⟩
  · have hlength := congrArg List.length hs
    simp only [List.length_drop, List.length_append, List.length_cons] at hlength
    exact Or.inl (by omega)
  · rw [List.length_drop] at hclose
    exact Or.inr (by omega)

/-- `n + k` on a nonnegative `int`. -/
def intAdd (n k : ℕ) : Option ℕ := if n + k < 2 ^ 31 then some (n + k) else none

theorem intSucc_intSucc (n : ℕ) : (intSucc n).bind intSucc = intAdd n 2 := by
  unfold intSucc intAdd
  split_ifs with h h'
  · rw [Option.bind_some, if_pos (by omega)]
  · rw [Option.bind_some, if_neg (by omega)]
  · omega
  · rfl

/-- Where a turn of a pass goes. -/
def turnTo {ρ : Type} (next : Option ℕ) (r : ρ) : Turn (ℕ × ρ) ρ := match next with
  | none => .stop r
  | some cur => .next (cur, r)

theorem countTurn_eq {src : Bytes} {fuel cur count : ℕ} (hcur : cur < src.length)
    (hfuel : src.length < fuel) :
    countTurn (src ++ [0]) src.length fuel (cur, count) =
      (intAdd count (cut src cur).1.length).map (turnTo (cut src cur).2) := by
  unfold countTurn cut
  simp only [Option.bind_eq_bind, ptrLt_source (le_of_lt hcur) (le_refl _), Option.bind_some,
    if_pos (decide_eq_true hcur), findOpenAt_eq hcur hfuel]
  cases ho : findOpen (src.drop cur) with
  | none =>
      show (intSucc count).bind (fun n => some (Turn.stop n)) = (intSucc count).map (turnTo none)
      cases intSucc count <;> rfl
  | some i =>
      have hopen := findOpen_le ho
      have hclose := @findClose_le src (cur + i + 2) hopen
      rw [Option.map_some]
      dsimp only
      rw [ptrLt_source (by omega) (by omega), findCloseAt_eq (by omega) hopen hfuel]
      simp only [Option.bind_some, ptrLt_source (show cur + i + 2 +
        findClose (src.drop (cur + i + 2)) ≤ src.length by omega) (le_refl _), decide_eq_true_eq]
      by_cases hi : 0 < i
      · rw [if_pos (show cur < cur + i by omega), if_pos hi]
        show _ = (intAdd count 2).map _
        rw [← intSucc_intSucc]
        cases intSucc count with
        | none => rfl
        | some n =>
            rw [Option.bind_some, Option.bind_some]
            cases intSucc n <;> rfl
      · rw [if_neg (show ¬ cur < cur + i by omega), if_neg hi]
        show (intSucc count).bind _ = (intSucc count).map _
        cases intSucc count <;> rfl

theorem storeFragment_eq {capacity : ℕ} {fragments : List Fragment} (f : Fragment)
    (hcap : fragments.length < capacity) (hint : fragments.length + 1 < 2 ^ 31) :
    storeFragment capacity fragments f = some (fragments ++ [f]) := by
  unfold storeFragment intSucc
  rw [if_pos hint, Option.bind_some, pushFragment_eq f hcap]

theorem fillTurn_eq {src : Bytes} {capacity fuel cur : ℕ} {fragments : List Fragment}
    (hcur : cur < src.length) (hfuel : src.length < fuel)
    (hcap : fragments.length + (cut src cur).1.length ≤ capacity) (hint : capacity < 2 ^ 31) :
    fillTurn (src ++ [0]) src.length capacity fuel (cur, fragments) =
      some (turnTo (cut src cur).2 (fragments ++ (cut src cur).1)) := by
  unfold fillTurn
  unfold cut at hcap ⊢
  simp only [Option.bind_eq_bind, ptrLt_source (le_of_lt hcur) (le_refl _), Option.bind_some,
    if_pos (decide_eq_true hcur), findOpenAt_eq hcur hfuel]
  cases ho : findOpen (src.drop cur) with
  | none =>
      rw [ho] at hcap
      dsimp only [List.length_singleton] at hcap
      show (storeFragment capacity fragments _).bind _ = _
      rw [storeFragment_eq _ (by omega) (by omega)]
      rfl
  | some i =>
      rw [ho] at hcap
      have hopen := findOpen_le ho
      have hclose := @findClose_le src (cur + i + 2) hopen
      rw [Option.map_some]
      dsimp only at hcap ⊢
      rw [List.length_append, List.length_singleton] at hcap
      rw [ptrLt_source (by omega) (by omega), findCloseAt_eq (by omega) hopen hfuel]
      simp only [Option.bind_some, ptrLt_source (show cur + i + 2 +
        findClose (src.drop (cur + i + 2)) ≤ src.length by omega) (le_refl _), decide_eq_true_eq]
      by_cases hi : 0 < i
      · rw [if_pos hi, List.length_singleton] at hcap
        rw [if_pos (show cur < cur + i by omega), if_pos hi, storeFragment_eq _ (by omega) (by omega),
          Option.bind_some, storeFragment_eq _ (by rw [List.length_append, List.length_singleton]; omega)
            (by rw [List.length_append, List.length_singleton]; omega), Nat.add_sub_cancel_left]
        simp only [List.append_assoc]
        rfl
      · rw [if_neg hi, List.length_nil] at hcap
        rw [if_neg (show ¬ cur < cur + i by omega), if_neg hi, List.nil_append]
        show (storeFragment capacity fragments _).bind _ = _
        rw [storeFragment_eq _ (by omega) (by omega)]
        rfl

/-! ### The passes -/

/-- The fragments from `cur` on. -/
def fragmentsAt (src : Bytes) (cur : ℕ) : List Fragment := fragmentsFrom src (src.length + 1) cur

theorem fragmentsFrom_succ {src : Bytes} {fuel cur : ℕ} (hcur : cur < src.length) :
    fragmentsFrom src (fuel + 1) cur =
      (cut src cur).1 ++ ((cut src cur).2.elim [] (fragmentsFrom src fuel)) := by
  unfold cut
  rw [fragmentsFrom, if_pos hcur]
  cases findOpen (src.drop cur) with
  | none => rfl
  | some i =>
      dsimp only
      rw [List.append_assoc]
      rfl

/-- The next turn starts behind this one, inside of the source or at its end. -/
theorem cut_next {src : Bytes} {cur next : ℕ} (h : (cut src cur).2 = some next) :
    cur < next ∧ next ≤ src.length := by
  unfold cut at h
  cases ho : findOpen (src.drop cur) with
  | none =>
      rw [ho] at h
      cases h
  | some i =>
      rw [ho] at h
      have hopen := findOpen_le ho
      have hclose := @findClose_le src (cur + i + 2) hopen
      rw [← Option.some.inj h]
      dsimp only [afterClose]
      split_ifs <;> omega

theorem fragmentsFrom_fuel {src : Bytes} {fuel fuel' cur : ℕ} (h : src.length < fuel + cur)
    (h' : src.length < fuel' + cur) : fragmentsFrom src fuel cur = fragmentsFrom src fuel' cur := by
  induction fuel generalizing fuel' cur with
  | zero => rw [fragmentsFrom_end (by omega), fragmentsFrom_end (by omega)]
  | succ fuel ih =>
      by_cases hcur : cur < src.length
      · obtain ⟨k, rfl⟩ := Nat.exists_eq_add_of_le' (show 1 ≤ fuel' by omega)
        rw [fragmentsFrom_succ hcur, fragmentsFrom_succ hcur]
        cases hnext : (cut src cur).2 with
        | none => rfl
        | some next =>
            have hlt := (cut_next hnext).1
            rw [Option.elim_some, Option.elim_some, @ih k next (by omega) (by omega)]
      · rw [fragmentsFrom_end (by omega), fragmentsFrom_end (by omega)]

theorem fragmentsAt_eq {src : Bytes} {cur : ℕ} (hcur : cur < src.length) :
    fragmentsAt src cur = (cut src cur).1 ++ (cut src cur).2.elim [] (fragmentsAt src) := by
  unfold fragmentsAt
  rw [fragmentsFrom_succ hcur]
  cases hnext : (cut src cur).2 with
  | none => rfl
  | some next =>
      have hlt := (cut_next hnext).1
      rw [Option.elim_some, Option.elim_some, @fragmentsFrom_fuel src src.length (src.length + 1) next
        (by omega) (by omega)]

theorem countTurn_end {src : Bytes} {fuel count : ℕ} :
    countTurn (src ++ [0]) src.length fuel (src.length, count) = some (.stop count) := by
  simp [countTurn, @ptrLt_source src src.length src.length (le_refl _) (le_refl _)]

theorem fillTurn_end {src : Bytes} {capacity fuel : ℕ} {fragments : List Fragment} :
    fillTurn (src ++ [0]) src.length capacity fuel (src.length, fragments) =
      some (.stop fragments) := by
  simp [fillTurn, @ptrLt_source src src.length src.length (le_refl _) (le_refl _)]

/-- Between two turns: what has been counted and what is still ahead. -/
def Counted (src : Bytes) (s : ℕ × ℕ) : Prop :=
  s.1 ≤ src.length ∧ s.2 + (fragmentsAt src s.1).length = (fragmentsAt src 0).length ∧ s.2 < 2 ^ 31

/-- Between two turns: what has been stored and what is still ahead. -/
def Filled (src : Bytes) (s : ℕ × List Fragment) : Prop :=
  s.1 ≤ src.length ∧ s.2 ++ fragmentsAt src s.1 = fragmentsAt src 0

/-- A turn of the first pass stops with the number of all fragments, goes on, or has passed `INT_MAX`. -/
theorem countTurn_step {src : Bytes} {fuel : ℕ} {s : ℕ × ℕ} (hfuel : src.length < fuel)
    (hs : Counted src s) :
    (countTurn (src ++ [0]) src.length fuel s = some (.stop (fragmentsAt src 0).length) ∧
        (fragmentsAt src 0).length < 2 ^ 31) ∨
      (∃ s', countTurn (src ++ [0]) src.length fuel s = some (.next s') ∧ Counted src s' ∧
        src.length - s'.1 < src.length - s.1) ∨
      (countTurn (src ++ [0]) src.length fuel s = none ∧ 2 ^ 31 ≤ (fragmentsAt src 0).length) := by
  obtain ⟨cur, count⟩ := s
  obtain ⟨hcur, hcount, hint⟩ := hs
  dsimp only at hcur hcount hint
  rcases Nat.lt_or_eq_of_le hcur with hlt | rfl
  · rw [fragmentsAt_eq hlt, List.length_append] at hcount
    rw [countTurn_eq hlt hfuel, intAdd]
    split_ifs with hsum
    · rw [Option.map_some]
      cases hnext : (cut src cur).2 with
      | none =>
          rw [hnext, Option.elim_none, List.length_nil, Nat.add_zero] at hcount
          rw [hcount] at hsum ⊢
          exact Or.inl ⟨rfl, hsum⟩
      | some next =>
          rw [hnext, Option.elim_some] at hcount
          have hle := cut_next hnext
          exact Or.inr (Or.inl ⟨_, rfl, ⟨hle.2, by dsimp only; omega, hsum⟩, by dsimp only; omega⟩)
    · exact Or.inr (Or.inr ⟨rfl, by omega⟩)
  · rw [fragmentsAt, fragmentsFrom_end (le_refl _), List.length_nil, Nat.add_zero] at hcount
    rw [countTurn_end, ← hcount]
    exact Or.inl ⟨rfl, hint⟩

theorem counted_zero (src : Bytes) : Counted src (0, 0) :=
  ⟨Nat.zero_le _, Nat.zero_add _, show 0 < 2 ^ 31 by decide⟩

/-- The first pass ends, and has counted every fragment. -/
theorem count_run {src : Bytes} {fuel : ℕ} (hfuel : src.length < fuel)
    (hint : (fragmentsAt src 0).length < 2 ^ 31) :
    WhileLoop.run (countTurn (src ++ [0]) src.length fuel) fuel (0, 0) =
      some (fragmentsAt src 0).length := by
  have hrun := @run_of_variant (ℕ × ℕ) ℕ (countTurn (src ++ [0]) src.length fuel) (Counted src)
    (fun s => src.length - s.1) (fun count => count = (fragmentsAt src 0).length) ?_ fuel (0, 0)
    (counted_zero src) (by dsimp only; omega)
  · obtain ⟨r, hr, rfl⟩ := hrun
    exact hr
  intro s hs
  rcases countTurn_step hfuel hs with ⟨hstop, -⟩ | hnext | ⟨-, hlarge⟩
  · exact Or.inl ⟨_, hstop, rfl⟩
  · exact Or.inr hnext
  · omega

/-- Where the first pass returns, the number of all fragments is an `int`. -/
theorem count_sound {src : Bytes} {fuel count : ℕ} (hfuel : src.length < fuel)
    (h : WhileLoop.run (countTurn (src ++ [0]) src.length fuel) fuel (0, 0) = some count) :
    (fragmentsAt src 0).length < 2 ^ 31 := by
  refine run_sound (Counted src) (fun _ => (fragmentsAt src 0).length < 2 ^ 31) ?_ ?_
    (counted_zero src) h
  · intro s r hs hturn
    rcases countTurn_step hfuel hs with ⟨-, hint⟩ | ⟨s', hnext, -⟩ | ⟨hnone, -⟩
    · exact hint
    · rw [hnext] at hturn
      cases hturn
    · rw [hnone] at hturn
      cases hturn
  · intro s s' hs hturn
    rcases countTurn_step hfuel hs with ⟨hstop, -⟩ | ⟨s'', hnext, hs'', -⟩ | ⟨hnone, -⟩
    · rw [hstop] at hturn
      cases hturn
    · rw [hnext] at hturn
      cases hturn
      exact hs''
    · rw [hnone] at hturn
      cases hturn

/-- The second pass ends, and has stored every fragment in an array that has room for them. -/
theorem fill_run {src : Bytes} {fuel capacity : ℕ} (hfuel : src.length < fuel)
    (hcap : (fragmentsAt src 0).length ≤ capacity) (hint : capacity < 2 ^ 31) :
    WhileLoop.run (fillTurn (src ++ [0]) src.length capacity fuel) fuel (0, []) =
      some (fragmentsAt src 0) := by
  have hrun := @run_of_variant (ℕ × List Fragment) (List Fragment)
    (fillTurn (src ++ [0]) src.length capacity fuel) (Filled src) (fun s => src.length - s.1)
    (fun fragments => fragments = fragmentsAt src 0) ?_ fuel (0, [])
    ⟨Nat.zero_le _, List.nil_append _⟩ (by dsimp only; omega)
  · obtain ⟨r, hr, rfl⟩ := hrun
    exact hr
  rintro ⟨cur, fragments⟩ ⟨hcur, hfilled⟩
  dsimp only at hcur hfilled
  rcases Nat.lt_or_eq_of_le hcur with hlt | rfl
  · rw [fragmentsAt_eq hlt, ← List.append_assoc] at hfilled
    have hlength := congrArg List.length hfilled
    rw [List.length_append, List.length_append] at hlength
    rw [fillTurn_eq hlt hfuel (by omega) hint]
    cases hnext : (cut src cur).2 with
    | none =>
        rw [hnext, Option.elim_none, List.append_nil] at hfilled
        exact Or.inl ⟨_, rfl, hfilled⟩
    | some next =>
        rw [hnext, Option.elim_some] at hfilled
        have hle := cut_next hnext
        exact Or.inr ⟨_, rfl, ⟨hle.2, hfilled⟩, by dsimp only; omega⟩
  · rw [fragmentsAt, fragmentsFrom_end (le_refl _), List.append_nil] at hfilled
    exact Or.inl ⟨fragments, fillTurn_end, hfilled⟩

/-! ### Pieces -/

theorem mem_dropLast_append {p : Piece} {l l' : List Piece} (h : p ∈ (l ++ l').dropLast) :
    p ∈ l ∨ p ∈ l'.dropLast := by
  rw [List.dropLast_append] at h
  split_ifs at h
  · exact Or.inl (List.mem_of_mem_dropLast h)
  · exact List.mem_append.mp h

/-- Only the last piece can be a placeholder that is not closed. -/
theorem piecesFrom_closed (place : Scanning) (s : Bytes) {p : Piece}
    (h : p ∈ (piecesFrom place s).dropLast) (key : Bytes) : p ≠ .unclosed key := by
  have htext : ∀ x : Bytes, p ∈ textPiece x → p ≠ .unclosed key := by
    intro x hp
    unfold textPiece at hp
    split_ifs at hp
    · cases hp
    · rw [List.mem_singleton.mp hp]
      intro he
      cases he
  fun_induction piecesFrom place s with
  | case1 x => exact htext x (List.mem_of_mem_dropLast h)
  | case2 => cases h
  | case3 x c => exact htext _ (List.mem_of_mem_dropLast h)
  | case4 => cases h
  | case5 x c d s _ ih =>
      rcases mem_dropLast_append h with hx | hs
      · exact htext x hx
      · exact ih hs
  | case6 x c d s _ ih => exact ih h
  | case7 k c d s _ ih =>
      rw [← List.singleton_append] at h
      rcases mem_dropLast_append h with hk | hs
      · rw [List.mem_singleton.mp hk]
        intro he
        cases he
      · exact ih hs
  | case8 k c d s _ ih => exact ih h

/-- Every piece takes up some of the source. -/
theorem piecesFrom_length (place : Scanning) (s : Bytes) :
    (piecesFrom place s).length ≤ place.source.length + s.length := by
  have htext : ∀ x : Bytes, (textPiece x).length ≤ x.length := by
    intro x
    unfold textPiece
    split_ifs with hx
    · exact Nat.zero_le _
    · exact List.length_pos_of_ne_nil hx
  fun_induction piecesFrom place s with
  | case1 x => exact htext x
  | case2 => simp [Scanning.source]
  | case3 x c => simpa [Scanning.source] using htext (x ++ [c])
  | case4 => simp [Scanning.source]
  | case5 x c d s _ ih =>
      have hx := htext x
      simp only [Scanning.source, List.length_append, List.length_cons, List.length_nil] at ih ⊢
      omega
  | case6 x c d s _ ih =>
      simp only [Scanning.source, List.length_append, List.length_cons, List.length_nil] at ih ⊢
      omega
  | case7 key c d s _ ih =>
      simp only [Scanning.source, List.length_cons, List.length_nil] at ih ⊢
      omega
  | case8 key c d s _ ih =>
      simp only [Scanning.source, List.length_append, List.length_cons, List.length_nil] at ih ⊢
      omega

/-! ### Agreement -/

/-- A fragment as it stands in the source: a variable in its braces, of which the closing ones are
missing when the source ends first. -/
def fragmentSource (src : Bytes) (f : Fragment) : Bytes :=
  let text := (src.drop f.ptr).take f.len
  match f.type with
  | .literal => text
  | .variable =>
      [123, 123] ++ text ++ if f.ptr + f.len < src.length then [125, 125] else []

/-- The fragments in order are the source, and only the last one can be unclosed. -/
def Tiles (src : Bytes) (fragments : List Fragment) : Prop :=
  fragments.flatMap (fragmentSource src) = src ∧
    ∀ f ∈ fragments.dropLast, f.type = .variable → f.ptr + f.len < src.length

/-- Both passes end, without a read or a comparison beyond the NUL, a store outside of the array or an
overflow; the second stores as many fragments as the first has counted, and they tile the source. -/
def PassesAgree (src : Bytes) : Prop :=
  ∃ turns count fragments, (∀ fuel ≥ turns, parsePasses fuel src = some (count, fragments)) ∧
    fragments.length = count ∧ Tiles src fragments

theorem fragmentPiece_source (src : Bytes) (f : Fragment) :
    (fragmentPiece src f).source = fragmentSource src f := by
  obtain ⟨type, ptr, len⟩ := f
  unfold fragmentPiece fragmentSource
  cases type
  · rfl
  · dsimp only
    split_ifs
    · rfl
    · rw [List.append_nil]
      rfl

theorem fragmentsAt_pieces (src : Bytes) :
    (fragmentsAt src 0).map (fragmentPiece src) = pieces src := by
  have h := @fragmentsFrom_pieces src (src.length + 1) 0 (by omega)
  rwa [List.drop_zero] at h

theorem fragmentsAt_length (src : Bytes) : (fragmentsAt src 0).length = (pieces src).length := by
  rw [← fragmentsAt_pieces, List.length_map]

theorem tiles_fragmentsAt (src : Bytes) : Tiles src (fragmentsAt src 0) := by
  constructor
  · have h := piecesFrom_source (.text []) src
    change (pieces src).flatMap Piece.source = src at h
    rw [← fragmentsAt_pieces, List.flatMap_map] at h
    simpa only [fragmentPiece_source] using h
  · intro f hf htype
    have hmem : fragmentPiece src f ∈ (piecesFrom (.text []) src).dropLast := by
      rw [← pieces, ← fragmentsAt_pieces, ← List.map_dropLast]
      exact List.mem_map_of_mem hf
    by_contra hopen
    refine piecesFrom_closed (.text []) src hmem ((src.drop f.ptr).take f.len) ?_
    unfold fragmentPiece
    rw [htype]
    exact if_neg hopen

/-- The passes on a source whose pieces an `int` can count. -/
theorem parsePasses_eq {src : Bytes} {fuel : ℕ} (hint : (pieces src).length < 2 ^ 31)
    (hfuel : src.length < fuel) :
    parsePasses fuel src = some ((pieces src).length, fragmentsAt src 0) := by
  rw [← fragmentsAt_length] at hint ⊢
  unfold parsePasses
  dsimp only
  rw [count_run hfuel hint, Option.bind_eq_bind, Option.bind_some,
    fill_run hfuel (le_max_left _ _) (max_lt hint (by decide))]
  rfl

/-- They store the fragments that `parseFragments` gives. -/
theorem parsePasses_parseFragments {src : Bytes} {fuel : ℕ} (hint : (pieces src).length < 2 ^ 31)
    (hfuel : src.length < fuel) : (parsePasses fuel src).map Prod.snd = parseFragments src := by
  rw [parsePasses_eq hint hfuel, parseFragments_eq]
  rfl

/-- Where the passes end, an `int` counts the pieces. -/
theorem pieces_lt {src : Bytes} {turns count : ℕ} {fragments : List Fragment}
    (hrun : ∀ fuel ≥ turns, parsePasses fuel src = some (count, fragments)) :
    (pieces src).length < 2 ^ 31 := by
  have hparse := hrun (max turns (src.length + 1)) (le_max_left _ _)
  have hfuel : src.length < max turns (src.length + 1) := lt_of_lt_of_le (Nat.lt_succ_self _)
    (le_max_right _ _)
  unfold parsePasses at hparse
  obtain ⟨n, hcount, -⟩ := Option.bind_eq_some_iff.mp hparse
  rw [← fragmentsAt_length]
  exact count_sound hfuel hcount

theorem PassesAgree.pieces_lt {src : Bytes} (h : PassesAgree src) : (pieces src).length < 2 ^ 31 := by
  obtain ⟨turns, count, fragments, hrun, -⟩ := h
  exact Segnalacity.pieces_lt hrun

theorem passesAgree_of_pieces {src : Bytes} (hint : (pieces src).length < 2 ^ 31) : PassesAgree src :=
  ⟨src.length + 1, (pieces src).length, fragmentsAt src 0, fun _ hfuel => parsePasses_eq hint hfuel,
    fragmentsAt_length src, tiles_fragmentsAt src⟩

theorem passesAgree_of_length {src : Bytes} (h : src.length < 2 ^ 31) : PassesAgree src := by
  refine passesAgree_of_pieces (lt_of_le_of_lt (piecesFrom_length (.text []) src) ?_)
  rwa [Scanning.source, List.length_nil, Nat.zero_add]

/-- **The two passes.**  They agree and tile the source exactly when it has fewer than `2^31` pieces,
so that the `int`s count them. -/
theorem passesAgree_iff (src : Bytes) : PassesAgree src ↔ (pieces src).length < 2 ^ 31 :=
  ⟨PassesAgree.pieces_lt, passesAgree_of_pieces⟩

/-- As many empty placeholders as wanted. -/
def placeholders (n : ℕ) : Bytes := (List.replicate n (bytes "{{}}")).flatten

theorem pieces_placeholders (n : ℕ) : pieces (placeholders n) = List.replicate n (.placeholder []) := by
  induction n with
  | zero => rfl
  | succ n ih =>
      have hsource : placeholders (n + 1) = 123 :: 123 :: 125 :: 125 :: placeholders n := rfl
      rw [List.replicate_succ, ← ih, hsource]
      rfl

theorem placeholders_overflow : ¬ PassesAgree (placeholders (2 ^ 31)) := by
  intro h
  have hint := h.pieces_lt
  rw [pieces_placeholders, List.length_replicate] at hint
  exact Nat.lt_irrefl _ hint

/-! ### Rendering what the passes have found -/

/-- `tpl_render`, which returns a length as an `int`. -/
def tplRenderInt (tpl : Template) (dest : Bytes) (destSize : ℕ) (vars : List TplVar) :
    Option (Bytes × ℤ) :=
  (tplRenderInto tpl dest destSize vars).map fun (dest, n) => (dest, n.bmod (2 ^ 32))

/-- `parse_fragments` and `tpl_render` give the text of one scan with its length and a NUL when that
fits, and otherwise -1 and a part from the start of that text with a NUL. -/
def SubstitutesOnce (path src : Bytes) (vars : List TplVar) (dest : Bytes) (destSize : ℕ) : Prop :=
  ∃ turns count fragments, (∀ fuel ≥ turns, parsePasses fuel src = some (count, fragments)) ∧
    ((onePass vars none src).length + 1 ≤ destSize →
      tplRenderInt ⟨path, src, fragments⟩ dest destSize vars =
        some (overlay (onePass vars none src ++ [0]) dest, ((onePass vars none src).length : ℤ))) ∧
    (destSize < (onePass vars none src).length + 1 →
      ∃ text, text <+: onePass vars none src ∧ text.length < destSize ∧
        tplRenderInt ⟨path, src, fragments⟩ dest destSize vars = some (overlay (text ++ [0]) dest, -1)) ∧
    (¬ [123, 123] <:+: src → onePass vars none src = src)

theorem natCast_bmod_iff (n : ℕ) : (n : ℤ).bmod (2 ^ 32) = n ↔ n < 2 ^ 31 := by
  rw [Int.bmod_eq_iff (by decide), sub_self]
  refine ⟨fun h => by omega, fun h => ⟨by omega, by omega, dvd_zero _⟩⟩

/-- **Rendering.**  It is one substitution exactly when an `int` counts the pieces of the source and
measures the text, if that fits. -/
theorem substitutesOnce_iff (path src : Bytes) (vars : List TplVar) {dest : Bytes} {destSize : ℕ}
    (hsize : 1 ≤ destSize) (hdest : destSize ≤ dest.length) :
    SubstitutesOnce path src vars dest destSize ↔ (pieces src).length < 2 ^ 31 ∧
      ((onePass vars none src).length < destSize → (onePass vars none src).length < 2 ^ 31) := by
  obtain ⟨fragments, hparse, hfits, hfull, hplain⟩ := tplRender_parse path src vars hsize hdest
  rw [parseFragments_eq] at hparse
  cases hparse
  constructor
  · rintro ⟨turns, count, fragments, hrun, hrender, -⟩
    have hint := pieces_lt hrun
    refine ⟨hint, fun hlt => ?_⟩
    have hparse := hrun (max turns (src.length + 1)) (le_max_left _ _)
    rw [parsePasses_eq hint (lt_of_lt_of_le (Nat.lt_succ_self _) (le_max_right _ _))] at hparse
    cases hparse
    have hreturn := hrender hlt
    rw [tplRenderInt, fragmentsAt, hfits hlt, Option.map_some, Option.some.injEq,
      Prod.mk.injEq] at hreturn
    exact (natCast_bmod_iff (onePass vars none src).length).mp hreturn.2
  · rintro ⟨hint, hlength⟩
    refine ⟨src.length + 1, (pieces src).length, fragmentsAt src 0,
      fun fuel hfuel => parsePasses_eq hint hfuel, fun hle => ?_, fun hlt => ?_, hplain⟩
    · rw [tplRenderInt, fragmentsAt, hfits hle, Option.map_some]
      dsimp only
      rw [(natCast_bmod_iff _).mpr (hlength hle)]
    · obtain ⟨text, hstart, hshort, hrender⟩ := hfull hlt
      refine ⟨text, hstart, hshort, ?_⟩
      rw [tplRenderInt, fragmentsAt, hrender]
      rfl

theorem substitutesOnce_iff_sampleSource :
    SubstitutesOnce [] sampleSource sampleVars (List.replicate 30 7) 20 ↔
      (pieces sampleSource).length < 2 ^ 31 ∧
        ((onePass sampleVars none sampleSource).length < 20 →
          (onePass sampleVars none sampleSource).length < 2 ^ 31) :=
  substitutesOnce_iff [] sampleSource sampleVars (by decide) (by decide)

theorem placeholders_render : ¬ SubstitutesOnce [] (placeholders (2 ^ 31)) [] [0] 1 := by
  rintro ⟨turns, count, fragments, hrun, -⟩
  have hint := pieces_lt hrun
  rw [pieces_placeholders, List.length_replicate] at hint
  exact Nat.lt_irrefl _ hint

end Segnalacity
