import Mathlib.Data.List.Induction
import Mathlib.Algebra.Order.Group.Nat

/-! # Counting in windows

Calls arrive at times that are numbered windows, from 0 on; each is admitted or not.  A `History` lists
them in order.

* `admitted h t` and `calls h t` count one window, `carried h t` what was admitted in the last
  window before `t` that has a call at all.
* `replay limit ts` is the history of a limiter that admits a call as long as the two counts
  together stay below `limit`; `admitted_add_carried_le` is its bound, `decisionsAt_replay` says
  what a window sees of the windows before it.
* A `Counter` keeps two numbers and the window they belong to.  `Tracks c h` says that they are
  the two counts of the history; a call keeps it (`Tracks.count`). -/

namespace Window

/-- Calls in order of their windows, each with whether it was admitted. -/
abbrev History := List (ℤ × Bool)

def admitted (h : History) (t : ℤ) : ℕ := h.countP fun x => x.1 = t ∧ x.2

def calls (h : History) (t : ℤ) : ℕ := h.countP fun x => x.1 = t

/-- The last window before `t` with a call. -/
def lastBefore (h : History) (t : ℤ) : Option ℤ :=
  ((h.map Prod.fst).filter fun u => u < t).getLast?

/-- Calls admitted in the last window before `t` that has one. -/
def carried (h : History) (t : ℤ) : ℕ := (lastBefore h t).elim 0 (admitted h)

/-- Calls made in the last window before `t` that has one. -/
def callsBefore (h : History) (t : ℤ) : ℕ := (lastBefore h t).elim 0 (calls h)

def decisionsAt (h : History) (t : ℤ) : List Bool := (h.filter fun x => x.1 = t).map Prod.snd

/-! ### One more call -/

section snoc
variable {h : History} {s t : ℤ} {b : Bool}

theorem admitted_snoc :
    admitted (h ++ [(t, b)]) s = admitted h s + if t = s ∧ b = true then 1 else 0 := by
  simp [admitted, List.countP_append, List.countP_singleton]

theorem calls_snoc : calls (h ++ [(t, b)]) s = calls h s + if t = s then 1 else 0 := by
  simp [calls, List.countP_append, List.countP_singleton]

theorem decisionsAt_snoc :
    decisionsAt (h ++ [(t, b)]) s = decisionsAt h s ++ if t = s then [b] else [] := by
  unfold decisionsAt
  rw [List.filter_append, List.map_append]
  by_cases hts : t = s <;> simp [hts]

theorem lt_of_mem_snoc (hle : ∀ x ∈ h, x.1 ≤ t) (hlt : t < s) :
    ∀ x ∈ h ++ [(t, b)], x.1 < s := by
  intro x hx
  rcases List.mem_append.mp hx with hx | hx
  · exact (hle x hx).trans_lt hlt
  · rw [List.mem_singleton.mp hx]
    exact hlt

theorem calls_eq_zero (hlt : ∀ x ∈ h, x.1 < s) : calls h s = 0 := by
  refine List.countP_eq_zero.mpr fun x hx hs => ?_
  have := hlt x hx
  have : x.1 = s := of_decide_eq_true hs
  omega

theorem admitted_le_calls (h : History) (s : ℤ) : admitted h s ≤ calls h s := by
  refine List.countP_mono_left fun x _ hx => ?_
  simp only [decide_eq_true_eq] at hx ⊢
  exact hx.1

theorem admitted_eq_zero (hlt : ∀ x ∈ h, x.1 < s) : admitted h s = 0 :=
  Nat.le_zero.mp ((admitted_le_calls h s).trans (calls_eq_zero hlt).le)

theorem decisionsAt_length (h : History) (s : ℤ) : (decisionsAt h s).length = calls h s := by
  rw [decisionsAt, List.length_map, calls, List.countP_eq_length_filter]

theorem lastBefore_lt {u : ℤ} (hu : lastBefore h t = some u) : u < t := by
  have hmem := List.mem_of_getLast? hu
  exact of_decide_eq_true (List.mem_filter.mp hmem).2

theorem lastBefore_snoc_of_le (hle : s ≤ t) : lastBefore (h ++ [(t, b)]) s = lastBefore h s := by
  unfold lastBefore
  rw [List.map_append, List.filter_append]
  simp [not_lt.mpr hle]

theorem lastBefore_snoc_of_lt (hlt : t < s) : lastBefore (h ++ [(t, b)]) s = some t := by
  unfold lastBefore
  rw [List.map_append, List.filter_append]
  simp [hlt]

theorem carried_snoc_of_le (hle : s ≤ t) : carried (h ++ [(t, b)]) s = carried h s := by
  unfold carried
  rw [lastBefore_snoc_of_le hle]
  cases hu : lastBefore h s with
  | none => rfl
  | some u =>
      have hlt := lastBefore_lt hu
      have hne : ¬ (t = u ∧ b = true) := fun h => by omega
      show admitted (h ++ [(t, b)]) u = admitted h u
      rw [admitted_snoc, if_neg hne, Nat.add_zero]

theorem carried_snoc_of_lt (hlt : t < s) :
    carried (h ++ [(t, b)]) s = admitted (h ++ [(t, b)]) t := by
  unfold carried
  rw [lastBefore_snoc_of_lt hlt]
  rfl

theorem callsBefore_snoc_of_le (hle : s ≤ t) :
    callsBefore (h ++ [(t, b)]) s = callsBefore h s := by
  unfold callsBefore
  rw [lastBefore_snoc_of_le hle]
  cases hu : lastBefore h s with
  | none => rfl
  | some u =>
      have hlt := lastBefore_lt hu
      have hne : t ≠ u := by omega
      show calls (h ++ [(t, b)]) u = calls h u
      rw [calls_snoc, if_neg hne, Nat.add_zero]

end snoc

/-- When everything was admitted the two ways of counting agree. -/
theorem admitted_eq_calls {h : History} (hall : ∀ x ∈ h, x.2 = true) (s : ℤ) :
    admitted h s = calls h s := by
  refine List.countP_congr fun x hx => ?_
  simp [hall x hx]

theorem carried_eq_callsBefore {h : History} (hall : ∀ x ∈ h, x.2 = true) (s : ℤ) :
    carried h s = callsBefore h s := by
  unfold carried callsBefore
  cases lastBefore h s with
  | none => rfl
  | some u => exact admitted_eq_calls hall u

/-! ### The limiter -/

/-- Whether a call at `t` is admitted after the history `h`. -/
def admits (limit : ℕ) (h : History) (t : ℤ) : Bool := carried h t + admitted h t < limit

/-- The history that a list of times makes. -/
def replay (limit : ℕ) (ts : List ℤ) : History :=
  ts.foldl (fun h t => h ++ [(t, admits limit h t)]) []

section replay
variable {limit : ℕ} {ts : List ℤ} {s t : ℤ}

theorem replay_snoc :
    replay limit (ts ++ [t]) = replay limit ts ++ [(t, admits limit (replay limit ts) t)] := by
  rw [replay, List.foldl_append]
  rfl

theorem map_fst_replay (limit : ℕ) (ts : List ℤ) : (replay limit ts).map Prod.fst = ts := by
  induction ts using List.reverseRecOn with
  | nil => rfl
  | append_singleton ts t ih => rw [replay_snoc, List.map_append, ih, List.map_singleton]

theorem le_of_mem_replay (hle : ∀ u ∈ ts, u ≤ t) {x : ℤ × Bool} (hx : x ∈ replay limit ts) :
    x.1 ≤ t := by
  have hmem := List.mem_map_of_mem (f := Prod.fst) hx
  rw [map_fst_replay] at hmem
  exact hle _ hmem

/-- Splitting the order of a list at its last element. -/
theorem pairwise_snoc (hts : (ts ++ [t]).Pairwise (· ≤ ·)) :
    ts.Pairwise (· ≤ ·) ∧ ∀ u ∈ ts, u ≤ t := by
  obtain ⟨h₁, -, h₂⟩ := List.pairwise_append.mp hts
  exact ⟨h₁, fun u hu => h₂ u hu t (List.mem_singleton_self t)⟩

/-- Two windows in a row stay within the limit together. -/
theorem admitted_add_carried_le (limit : ℕ) (hts : ts.Pairwise (· ≤ ·)) (s : ℤ) :
    admitted (replay limit ts) s + carried (replay limit ts) s ≤ limit := by
  induction ts using List.reverseRecOn generalizing s with
  | nil => exact Nat.zero_le limit
  | append_singleton ts t ih =>
      obtain ⟨hts', hle⟩ := pairwise_snoc hts
      rw [replay_snoc]
      generalize hh : replay limit ts = h at ih
      have hbound : ∀ x ∈ h, x.1 ≤ t := fun x hx => le_of_mem_replay hle (hh ▸ hx)
      have hlast : admitted (h ++ [(t, admits limit h t)]) t +
          carried (h ++ [(t, admits limit h t)]) t ≤ limit := by
        rw [carried_snoc_of_le le_rfl, admitted_snoc]
        have := ih hts' t
        by_cases hroom : carried h t + admitted h t < limit
        · simp only [admits, hroom, decide_true, and_self, if_true]
          omega
        · simp only [admits, hroom, decide_false, Bool.false_eq_true, and_false, if_false]
          omega
      rcases lt_trichotomy s t with hlt | rfl | hgt
      · rw [carried_snoc_of_le hlt.le, admitted_snoc, if_neg (fun h => by omega), Nat.add_zero]
        exact ih hts' s
      · exact hlast
      · have hnone : ∀ x ∈ h ++ [(t, admits limit h t)], x.1 < s := lt_of_mem_snoc hbound hgt
        rw [admitted_eq_zero hnone, carried_snoc_of_lt hgt]
        omega

/-- A window admits its first calls, as many as there is room. -/
theorem admitted_replay (limit : ℕ) (hts : ts.Pairwise (· ≤ ·)) (s : ℤ) :
    admitted (replay limit ts) s =
      min (calls (replay limit ts) s) (limit - carried (replay limit ts) s) := by
  induction ts using List.reverseRecOn with
  | nil => exact (Nat.zero_min _).symm
  | append_singleton ts t ih =>
      obtain ⟨hts', hle⟩ := pairwise_snoc hts
      rw [replay_snoc]
      have ih := ih hts'
      generalize hh : replay limit ts = h at ih
      have hbound : ∀ x ∈ h, x.1 ≤ t := fun x hx => le_of_mem_replay hle (hh ▸ hx)
      rcases lt_trichotomy s t with hlt | rfl | hgt
      · rw [carried_snoc_of_le hlt.le, admitted_snoc, calls_snoc, if_neg (fun h => by omega),
          if_neg (by omega)]
        exact ih
      · rw [carried_snoc_of_le le_rfl, admitted_snoc, calls_snoc, if_pos rfl]
        by_cases hroom : carried h s + admitted h s < limit
        · simp only [admits, hroom, decide_true, and_self, if_true]
          omega
        · simp only [admits, hroom, decide_false, Bool.false_eq_true, and_false, if_false]
          omega
      · have hnone : ∀ x ∈ h ++ [(t, admits limit h t)], x.1 < s := lt_of_mem_snoc hbound hgt
        rw [admitted_eq_zero hnone, calls_eq_zero hnone, Nat.zero_min]

/-- What a window sees of the windows before it is one number. -/
theorem decisionsAt_replay (hts : ts.Pairwise (· ≤ ·)) (s : ℤ) :
    decisionsAt (replay limit ts) s =
      (List.range (calls (replay limit ts) s)).map
        fun i => decide (carried (replay limit ts) s + i < limit) := by
  induction ts using List.reverseRecOn with
  | nil => rfl
  | append_singleton ts t ih =>
      obtain ⟨hts', hle⟩ := pairwise_snoc hts
      have hcount := admitted_replay limit hts' s
      rw [replay_snoc]
      have ih := ih hts'
      generalize hh : replay limit ts = h at ih hcount
      have hbound : ∀ x ∈ h, x.1 ≤ t := fun x hx => le_of_mem_replay hle (hh ▸ hx)
      rcases lt_trichotomy s t with hlt | rfl | hgt
      · rw [decisionsAt_snoc, calls_snoc, carried_snoc_of_le hlt.le, if_neg hlt.ne', if_neg hlt.ne',
          List.append_nil, Nat.add_zero]
        exact ih
      · have hadmits : admits limit h s = decide (carried h s + calls h s < limit) := by
          rw [admits, hcount]
          congr 1
          apply propext
          omega
        rw [decisionsAt_snoc, calls_snoc, carried_snoc_of_le le_rfl, if_pos rfl, if_pos rfl,
          List.range_succ, List.map_append, ih, List.map_singleton, hadmits]
      · have hnone : ∀ x ∈ h ++ [(t, admits limit h t)], x.1 < s := lt_of_mem_snoc hbound hgt
        have hlength := decisionsAt_length (h ++ [(t, admits limit h t)]) s
        rw [calls_eq_zero hnone] at hlength ⊢
        exact List.length_eq_zero_iff.mp hlength

theorem admitted_eq_count (h : History) (s : ℤ) : admitted h s = (decisionsAt h s).count true := by
  rw [admitted, decisionsAt, List.count, List.countP_map, List.countP_filter]
  refine List.countP_congr fun x _ => ?_
  simp [and_comm]

/-- A call in the window just before `s + 1` is what that window carries over. -/
theorem carried_succ (hts : ts.Pairwise (· ≤ ·)) (hcalls : calls (replay limit ts) s ≠ 0) :
    carried (replay limit ts) (s + 1) = admitted (replay limit ts) s := by
  induction ts using List.reverseRecOn with
  | nil => exact absurd rfl hcalls
  | append_singleton ts t ih =>
      obtain ⟨hts', hle⟩ := pairwise_snoc hts
      rw [replay_snoc] at hcalls ⊢
      generalize hh : replay limit ts = h at ih hcalls
      have hbound : ∀ x ∈ h, x.1 ≤ t := fun x hx => le_of_mem_replay hle (hh ▸ hx)
      rcases lt_trichotomy s t with hlt | rfl | hgt
      · rw [calls_snoc, if_neg hlt.ne', Nat.add_zero] at hcalls
        rw [carried_snoc_of_le hlt, admitted_snoc, if_neg (fun h => by omega), Nat.add_zero]
        exact ih hts' hcalls
      · exact carried_snoc_of_lt (Int.lt_succ s)
      · exact absurd (calls_eq_zero (lt_of_mem_snoc hbound hgt)) hcalls

/-- Every call is admitted if and only if no window with a call, together with the one before
it, has more calls than the limit. -/
theorem all_admitted_iff (hts : ts.Pairwise (· ≤ ·)) :
    (∀ x ∈ replay limit ts, x.2 = true) ↔
      ∀ s ∈ ts, calls (replay limit ts) s + callsBefore (replay limit ts) s ≤ limit := by
  constructor
  · intro hall s _
    have := admitted_add_carried_le limit hts s
    rw [admitted_eq_calls hall, carried_eq_callsBefore hall] at this
    exact this
  · intro hspaced
    induction ts using List.reverseRecOn with
    | nil => exact fun x hx => absurd hx List.not_mem_nil
    | append_singleton ts t ih =>
        obtain ⟨hts', hle⟩ := pairwise_snoc hts
        rw [replay_snoc] at hspaced ⊢
        generalize hh : replay limit ts = h at ih hspaced
        have hall : ∀ x ∈ h, x.2 = true := by
          refine ih hts' fun s hs => ?_
          have := hspaced s (List.mem_append_left _ hs)
          rw [callsBefore_snoc_of_le (hle s hs), calls_snoc] at this
          omega
        intro x hx
        rcases List.mem_append.mp hx with hx | hx
        · exact hall x hx
        · have hlast := hspaced t (List.mem_append_right _ (List.mem_singleton_self t))
          rw [callsBefore_snoc_of_le le_rfl, calls_snoc, if_pos rfl] at hlast
          rw [List.mem_singleton.mp hx]
          show decide (carried h t + admitted h t < limit) = true
          rw [carried_eq_callsBefore hall, admitted_eq_calls hall]
          exact decide_eq_true (by omega)

end replay

/-- How many of the first calls of a window two carried counts admit alike. -/
theorem range_decide_eq_iff {c d n limit : ℕ} :
    (List.range n).map (fun i => decide (c + i < limit)) =
        (List.range n).map (fun i => decide (d + i < limit)) ↔
      min n (limit - c) = min n (limit - d) := by
  rw [List.map_inj_left]
  constructor
  · intro hsame
    by_contra hne
    -- the calls differ at the smaller of the two numbers
    have hlt : min (limit - c) (limit - d) < n := by omega
    have := hsame _ (List.mem_range.mpr hlt)
    rw [decide_eq_decide] at this
    omega
  · intro hmin i hi
    rw [List.mem_range] at hi
    rw [decide_eq_decide]
    omega

/-! ### Two counters -/

/-- The counts of a window and of the one before it. -/
structure Counter where
  curr : ℕ
  prev : ℕ
  start : ℤ
deriving DecidableEq, Repr

namespace Counter

/-- Move on to the window `t`. -/
def roll (c : Counter) (t : ℤ) : Counter := if c.start < t then ⟨0, c.curr, t⟩ else c

def count (c : Counter) (b : Bool) : Counter := if b then { c with curr := c.curr + 1 } else c

/-- Moved on to any window from the last one on, the counter shows the counts of the history. -/
def Tracks (c : Counter) (h : History) : Prop :=
  ∀ t, 0 ≤ t → (∀ x ∈ h, x.1 ≤ t) → c.roll t = ⟨admitted h t, carried h t, t⟩

theorem tracks_nil : Tracks ⟨0, 0, 0⟩ [] := by
  intro t h0 _
  rcases h0.eq_or_lt with rfl | hpos
  · rfl
  · rw [roll, if_pos hpos]
    rfl

theorem Tracks.count {c : Counter} {h : History} (hc : c.Tracks h) {t : ℤ} (h0 : 0 ≤ t)
    (hle : ∀ x ∈ h, x.1 ≤ t) (b : Bool) :
    ((c.roll t).count b).Tracks (h ++ [(t, b)]) := by
  have hroll : (c.roll t).count b =
      ⟨admitted (h ++ [(t, b)]) t, carried (h ++ [(t, b)]) t, t⟩ := by
    rw [hc t h0 hle, admitted_snoc, carried_snoc_of_le le_rfl]
    cases b <;> simp [Counter.count]
  intro s _ hs
  have hts : t ≤ s := hs (t, b) (List.mem_append_right _ (List.mem_singleton_self _))
  rw [hroll]
  rcases hts.eq_or_lt with rfl | hlt
  · rw [roll, if_neg (lt_irrefl t)]
  · rw [roll, if_pos hlt, carried_snoc_of_lt hlt, admitted_eq_zero (lt_of_mem_snoc hle hlt)]

end Counter

end Window
