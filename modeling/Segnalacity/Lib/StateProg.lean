import Mathlib.Data.List.Basic
import Mathlib.Order.Defs.Unbundled

/-! # Deterministic programs over a state

A program `Prog ρ σ α` reads a fixed environment `ρ` (clock readings, random draws, the
outcome of every fallible call), returns an `α` and leaves a new state `σ`.  Running it is
plain application: `m e s = (a, s')`.

* `bind_run_iff` and its siblings turn such an equation into the equations of the parts, so
  that a run of a long program is taken apart by `obtain`, with nothing unfolded.
* `Keeps f m` says that `m` leaves the view `f` of the state alone; it is closed under the
  program constructors, so frame facts are proved once per program.
* `Moves e R m` says that every run of `m` takes the state to one related to it by `R`, such as a
  counter that never goes back.
* `Ensures e I Q m` says that `m` keeps the invariant `I` of the state and, started with it,
  returns a value with `Q`.
* `Uniform P m` says of a family of programs that all of them end in the same state, with results
  that satisfy `P` as a family.
* `Run step e s₀ log s` is a finite run of commands, each with the value it returned;
  `Run.invariant` is the induction over it, for invariants that may speak of the whole log,
  `Run.split` gives the state between two parts of the log, `Run.invariant_each` is the induction
  under a condition on every command, `Run.ensured` carries an invariant that the commands ensure,
  and `Run.of_exec` is the run that a list of commands makes.
* `guardedRun` carries out events that may be disabled or have no result;
  `guardedRun_induction` gives what the events preserve, one after the other. -/

namespace StateProg

/-- A program: environment and state in, result and state out. -/
def Prog (ρ σ α : Type) : Type := ρ → σ → α × σ

namespace Prog

variable {ρ σ τ υ α β : Type}

instance : Monad (Prog ρ σ) where
  pure a := fun _ s => (a, s)
  bind m f := fun e s => f (m e s).1 e (m e s).2

/-- Look at the state. -/
def view (f : σ → α) : Prog ρ σ α := fun _ s => (f s, s)

/-- Change the state. -/
def update (f : σ → σ) : Prog ρ σ Unit := fun _ s => ((), f s)

/-- Look at the environment. -/
def ask (f : ρ → α) : Prog ρ σ α := fun e s => (f e, s)

/-- Look at the environment at a position kept in the state. -/
def askAt (f : ρ → σ → α) : Prog ρ σ α := fun e s => (f e s, s)

/-! ### Runs of compound programs -/

section runs

variable {e : ρ} {s s' : σ}

theorem pure_run_iff {a b : α} : (pure a : Prog ρ σ α) e s = (b, s') ↔ b = a ∧ s' = s := by
  show (a, s) = (b, s') ↔ _
  simp only [Prod.mk.injEq, eq_comm]

theorem bind_run_iff {m : Prog ρ σ α} {f : α → Prog ρ σ β} {b : β} :
    (m >>= f) e s = (b, s') ↔ ∃ a s₁, m e s = (a, s₁) ∧ f a e s₁ = (b, s') := by
  constructor
  · intro h
    exact ⟨(m e s).1, (m e s).2, rfl, h⟩
  · rintro ⟨a, s₁, hm, hf⟩
    show f (m e s).1 e (m e s).2 = _
    rw [hm]
    exact hf

theorem view_run_iff {f : σ → α} {a : α} :
    (view f : Prog ρ σ α) e s = (a, s') ↔ a = f s ∧ s' = s := by
  simp only [view, Prod.mk.injEq, eq_comm]

theorem update_run_iff {f : σ → σ} {u : Unit} :
    (update f : Prog ρ σ Unit) e s = (u, s') ↔ s' = f s := by
  simp only [update, Prod.mk.injEq, eq_comm, true_and]

theorem ask_run_iff {f : ρ → α} {a : α} :
    (ask f : Prog ρ σ α) e s = (a, s') ↔ a = f e ∧ s' = s := by
  simp only [ask, Prod.mk.injEq, eq_comm]

theorem askAt_run_iff {f : ρ → σ → α} {a : α} :
    (askAt f : Prog ρ σ α) e s = (a, s') ↔ a = f e s ∧ s' = s := by
  simp only [askAt, Prod.mk.injEq, eq_comm]

theorem ite_run (c : Prop) [Decidable c] (m n : Prog ρ σ α) :
    (if c then m else n) e s = if c then m e s else n e s := by
  split_ifs <;> rfl

theorem ite_run_iff {c : Prop} [Decidable c] {m n : Prog ρ σ α} {a : α} :
    (if c then m else n) e s = (a, s') ↔
      (c ∧ m e s = (a, s')) ∨ (¬ c ∧ n e s = (a, s')) := by
  by_cases h : c
  · simp [h]
  · simp [h]

/-- A run from its result alone. -/
theorem run_of_fst {m : Prog ρ σ α} {a : α} (h : (m e s).1 = a) : m e s = (a, (m e s).2) := by
  rw [← h]

end runs

/-! ### Frames -/

/-- `m` leaves the view `f` of the state as it was. -/
def Keeps (f : σ → τ) (m : Prog ρ σ α) : Prop := ∀ e s, f (m e s).2 = f s

theorem Keeps.out {f : σ → τ} {m : Prog ρ σ α} (h : Keeps f m) {e : ρ} {s s' : σ} {a : α}
    (hm : m e s = (a, s')) : f s' = f s := by
  have := h e s
  rw [hm] at this
  exact this

theorem keeps_pure (f : σ → τ) (a : α) : Keeps f (pure a : Prog ρ σ α) := fun _ _ => rfl

theorem keeps_view (f : σ → τ) (g : σ → α) : Keeps f (view g : Prog ρ σ α) := fun _ _ => rfl

theorem keeps_update {f : σ → τ} {g : σ → σ} (h : ∀ s, f (g s) = f s) :
    Keeps f (update g : Prog ρ σ Unit) := fun _ s => h s

theorem Keeps.bind {f : σ → τ} {m : Prog ρ σ α} {g : α → Prog ρ σ β} (hm : Keeps f m)
    (hg : ∀ a, Keeps f (g a)) : Keeps f (m >>= g) :=
  fun e s => (hg (m e s).1 e (m e s).2).trans (hm e s)

theorem Keeps.ite {f : σ → τ} {c : Prop} [Decidable c] {m n : Prog ρ σ α} (hm : Keeps f m)
    (hn : Keeps f n) : Keeps f (if c then m else n) := by
  split_ifs
  · exact hm
  · exact hn

theorem Keeps.comp {f : σ → τ} {m : Prog ρ σ α} (h : Keeps f m) (g : τ → υ) :
    Keeps (fun s => g (f s)) m := fun e s => congrArg g (h e s)

/-! ### State changes along a relation -/

section moves

variable {e : ρ} {R : σ → σ → Prop}

/-- Every run of `m` takes the state to one related to it. -/
def Moves (e : ρ) (R : σ → σ → Prop) (m : Prog ρ σ α) : Prop := ∀ s, R s (m e s).2

theorem Moves.out {m : Prog ρ σ α} (h : Moves e R m) {s s' : σ} {a : α} (hm : m e s = (a, s')) :
    R s s' := by
  have hs := h s
  rw [hm] at hs
  exact hs

theorem moves_pure [Std.Refl R] (a : α) : Moves e R (pure a) := fun s => Std.Refl.refl s

theorem moves_update {f : σ → σ} (h : ∀ s, R s (f s)) : Moves e R (update f) := h

theorem Moves.bind [IsTrans σ R] {m : Prog ρ σ α} {k : α → Prog ρ σ β} (hm : Moves e R m)
    (hk : ∀ a, Moves e R (k a)) : Moves e R (m >>= k) :=
  fun s => IsTrans.trans _ _ _ (hm s) (hk (m e s).1 (m e s).2)

theorem Moves.ite {c : Prop} [Decidable c] {m n : Prog ρ σ α} (hm : Moves e R m)
    (hn : Moves e R n) : Moves e R (if c then m else n) := by
  split_ifs
  · exact hm
  · exact hn

end moves

/-! ### Invariants

What a first part has returned is known to the second only through its `Q`, and what the state
holds only through `I`. -/

section ensures

variable {e : ρ} {I : σ → Prop} {Q : α → Prop}

/-- `m` keeps the invariant and returns a value with `Q`. -/
def Ensures (e : ρ) (I : σ → Prop) (Q : α → Prop) (m : Prog ρ σ α) : Prop :=
  ∀ s, I s → I (m e s).2 ∧ Q (m e s).1

theorem ensures_pure {a : α} (h : Q a) : Ensures e I Q (pure a) := fun _ hs => ⟨hs, h⟩

theorem ensures_view {f : σ → α} (h : ∀ s, I s → Q (f s)) : Ensures e I Q (view f) :=
  fun s hs => ⟨hs, h s hs⟩

theorem ensures_ask {f : ρ → α} (h : Q (f e)) : Ensures e I Q (ask f) := fun _ hs => ⟨hs, h⟩

theorem ensures_update {f : σ → σ} (h : ∀ s, I s → I (f s)) :
    Ensures e I (fun _ => True) (update f) := fun s hs => ⟨h s hs, trivial⟩

theorem Ensures.bind {R : α → Prop} {P : β → Prop} {m : Prog ρ σ α} {k : α → Prog ρ σ β}
    (hm : Ensures e I R m) (hk : ∀ a, R a → Ensures e I P (k a)) : Ensures e I P (m >>= k) :=
  fun s hs => hk (m e s).1 (hm s hs).2 (m e s).2 (hm s hs).1

/-- A first part of whose result nothing is needed. -/
theorem Ensures.andThen {R : α → Prop} {P : β → Prop} {m : Prog ρ σ α} {k : α → Prog ρ σ β}
    (hm : Ensures e I R m) (hk : ∀ a, Ensures e I P (k a)) : Ensures e I P (m >>= k) :=
  hm.bind fun a _ => hk a

theorem ensures_ite {c : Prop} [Decidable c] {m n : Prog ρ σ α} (hm : c → Ensures e I Q m)
    (hn : ¬ c → Ensures e I Q n) : Ensures e I Q (if c then m else n) := by
  split_ifs with hc
  · exact hm hc
  · exact hn hc

theorem Ensures.mono {R : α → Prop} {m : Prog ρ σ α} (hm : Ensures e I R m)
    (h : ∀ a, R a → Q a) : Ensures e I Q m := fun s hs => ⟨(hm s hs).1, h _ (hm s hs).2⟩

/-- A program that leaves alone what the invariant is about. -/
theorem Keeps.ensures {f : σ → τ} {m : Prog ρ σ α} (h : Keeps f m)
    (hI : ∀ s s', f s' = f s → I s → I s') : Ensures e I (fun _ => True) m :=
  fun s hs => ⟨hI s _ (h e s) hs, trivial⟩

end ensures

/-! ### Families of programs

The programs `m i` of a family differ in data `i` that their effect is not to depend on.  `P` may
say that the results are equal, or in what they may differ; what does not mention `i` is run once
for all of them. -/

section uniform

variable {ι : Type} {P : (ι → α) → Prop} {e : ρ} {s s₁ : σ}

/-- All programs of the family end in one state, with results that satisfy `P`. -/
def Uniform (P : (ι → α) → Prop) (m : ι → Prog ρ σ α) (e : ρ) (s : σ) : Prop :=
  ∃ f s', (∀ i, m i e s = (f i, s')) ∧ P f

theorem uniform_pure {f : ι → α} (h : P f) : Uniform P (fun i => (pure (f i) : Prog ρ σ α)) e s :=
  ⟨f, s, fun _ => rfl, h⟩

/-- A first part that does not mention the data. -/
theorem uniform_after {m : Prog ρ σ β} {k : ι → β → Prog ρ σ α} {a : β} (hm : m e s = (a, s₁))
    (hk : Uniform P (fun i => k i a) e s₁) : Uniform P (fun i => m >>= k i) e s := by
  obtain ⟨f, s', hrun, hf⟩ := hk
  exact ⟨f, s', fun i => bind_run_iff.mpr ⟨a, s₁, hm, hrun i⟩, hf⟩

/-- A first part that does. -/
theorem Uniform.bind {Q : (ι → β) → Prop} {m : ι → Prog ρ σ β} {k : ι → β → Prog ρ σ α}
    (hm : Uniform Q m e s) (hk : ∀ g s₁, Q g → Uniform P (fun i => k i (g i)) e s₁) :
    Uniform P (fun i => m i >>= k i) e s := by
  obtain ⟨g, s₁, hrun, hg⟩ := hm
  obtain ⟨f, s', hrun', hf⟩ := hk g s₁ hg
  exact ⟨f, s', fun i => bind_run_iff.mpr ⟨g i, s₁, hrun i, hrun' i⟩, hf⟩

theorem uniform_ite {c : Prop} [Decidable c] {m n : ι → Prog ρ σ α}
    (hm : c → Uniform P m e s) (hn : ¬ c → Uniform P n e s) :
    Uniform P (fun i => if c then m i else n i) e s := by
  by_cases hc : c
  · simp only [if_pos hc]
    exact hm hc
  · simp only [if_neg hc]
    exact hn hc

theorem Uniform.mono {Q : (ι → α) → Prop} {m : ι → Prog ρ σ α} (hm : Uniform P m e s)
    (h : ∀ f, P f → Q f) : Uniform Q m e s := by
  obtain ⟨f, s', hrun, hf⟩ := hm
  exact ⟨f, s', hrun, h f hf⟩

/-- The results of the family. -/
theorem Uniform.results {m : ι → Prog ρ σ α} (hm : Uniform P m e s) : P fun i => (m i e s).1 := by
  obtain ⟨f, s', hrun, hf⟩ := hm
  rw [show (fun i => (m i e s).1) = f from funext fun i => by rw [hrun i]]
  exact hf

end uniform

end Prog

/-! ### Runs of commands -/

variable {ρ σ κ α : Type}

/-- `Run step e s₀ log s`: from `s₀` the commands of `log`, in order, returned the values
recorded there and left the state `s`. -/
inductive Run (step : κ → Prog ρ σ α) (e : ρ) (s₀ : σ) : List (κ × α) → σ → Prop
  | nil : Run step e s₀ [] s₀
  | snoc {log : List (κ × α)} {s s' : σ} {k : κ} {a : α} :
      Run step e s₀ log s → step k e s = (a, s') → Run step e s₀ (log ++ [(k, a)]) s'

namespace Run

variable {step : κ → Prog ρ σ α} {e : ρ} {s₀ s : σ} {log : List (κ × α)}

/-- An invariant of log and state that every command extends holds at the end of every run. -/
theorem invariant {I : List (κ × α) → σ → Prop} (h0 : I [] s₀)
    (hstep : ∀ log s k a s', I log s → step k e s = (a, s') → I (log ++ [(k, a)]) s')
    (h : Run step e s₀ log s) : I log s := by
  induction h with
  | nil => exact h0
  | snoc _ hs ih => exact hstep _ _ _ _ _ ih hs

/-- Commands that all keep the invariant. -/
theorem ensured {I : σ → Prop} {Q : κ → α → Prop} (hstep : ∀ k, Prog.Ensures e I (Q k) (step k))
    (h0 : I s₀) (h : Run step e s₀ log s) : I s := by
  refine h.invariant (I := fun _ s => I s) h0 fun _ s k a s' hs hk => ?_
  have hkept := (hstep k s hs).1
  rw [hk] at hkept
  exact hkept

/-- A log determines the state behind it. -/
theorem unique {s' : σ} (h : Run step e s₀ log s) (h' : Run step e s₀ log s') : s = s' := by
  induction h generalizing s' with
  | nil =>
      generalize hl : ([] : List (κ × α)) = l at h'
      cases h' with
      | nil => rfl
      | snoc _ _ => exact absurd hl (by simp)
  | @snoc log s s₁ k a _ hs ih =>
      generalize hl : log ++ [(k, a)] = l at h'
      cases h' with
      | nil => exact absurd hl (by simp)
      | @snoc log' s₂ _ k' a' hr' hs' =>
          obtain ⟨rfl, hx⟩ := List.append_inj' hl rfl
          obtain ⟨rfl, rfl⟩ := Prod.mk.inj (List.singleton_inj.mp hx)
          rw [← ih hr', hs] at hs'
          exact congrArg Prod.snd hs'

/-- The state between two parts of the log. -/
theorem split {p q : List (κ × α)} (h : Run step e s₀ (p ++ q) s) :
    ∃ s₁, Run step e s₀ p s₁ ∧ Run step e s₁ q s := by
  generalize hl : p ++ q = l at h
  induction h generalizing q with
  | nil =>
      obtain ⟨rfl, rfl⟩ := List.append_eq_nil_iff.mp hl
      exact ⟨s₀, nil, nil⟩
  | @snoc log s s' k a hr hs ih =>
      rcases List.eq_nil_or_concat q with rfl | ⟨q', x, rfl⟩
      · rw [List.append_nil] at hl
        subst hl
        exact ⟨s', snoc hr hs, nil⟩
      · rw [List.concat_eq_append, ← List.append_assoc] at hl
        obtain ⟨hlog, hx⟩ := List.append_inj' hl rfl
        obtain ⟨s₁, h₁, h₂⟩ := ih hlog
        rw [List.concat_eq_append, List.singleton_inj.mp hx]
        exact ⟨s₁, h₁, snoc h₂ hs⟩

/-- The two sides of one command inside a run. -/
theorem split_at {p q : List (κ × α)} {k : κ} {a : α} (h : Run step e s₀ (p ++ (k, a) :: q) s) :
    ∃ s₁ s₂, Run step e s₀ p s₁ ∧ step k e s₁ = (a, s₂) ∧ Run step e s₂ q s := by
  have h' : Run step e s₀ ((p ++ [(k, a)]) ++ q) s := by simpa using h
  obtain ⟨s₂, h₁, h₂⟩ := h'.split
  obtain ⟨s₁, hp, hk⟩ := h₁.split
  generalize hl : [(k, a)] = l at hk
  cases hk with
  | nil => cases hl
  | @snoc log' _ _ k' a' hr hs =>
      have hl' : [] ++ [(k, a)] = log' ++ [(k', a')] := hl
      obtain ⟨rfl, hx⟩ := List.append_inj' hl' rfl
      obtain ⟨rfl, rfl⟩ := Prod.mk.inj (List.singleton_inj.mp hx)
      generalize hn : ([] : List (κ × α)) = l' at hr
      cases hr with
      | nil => exact ⟨_, _, hp, hs, h₂⟩
      | snoc _ _ => exact absurd hn (by simp)

/-- Every command of the log met `P` in the state in which it was carried out. -/
def Each (step : κ → Prog ρ σ α) (e : ρ) (s₀ : σ) (log : List (κ × α)) (P : κ → σ → Prop) : Prop :=
  ∀ p x q s, log = p ++ x :: q → Run step e s₀ p s → P x.1 s

/-- An invariant that the commands keep when they meet `P`. -/
theorem invariant_each {P : κ → σ → Prop} {I : σ → Prop} (h : Run step e s₀ log s)
    (heach : Each step e s₀ log P) (h0 : I s₀)
    (hstep : ∀ s k a s', I s → P k s → step k e s = (a, s') → I s') : I s := by
  induction h with
  | nil => exact h0
  | @snoc log s s' k a hr hs ih =>
      refine hstep s k a s' (ih fun p x q s₁ hlog => ?_) (heach log (k, a) [] s rfl hr) hs
      refine heach p x (q ++ [(k, a)]) s₁ ?_
      rw [hlog, List.append_assoc, List.cons_append]

/-- Carry out a list of commands. -/
def exec (step : κ → Prog ρ σ α) (e : ρ) : σ → List κ → List (κ × α) × σ
  | s, [] => ([], s)
  | s, k :: ks =>
      let r := step k e s
      let rest := exec step e r.2 ks
      ((k, r.1) :: rest.1, rest.2)

theorem append_exec (h : Run step e s₀ log s) (ks : List κ) :
    Run step e s₀ (log ++ (exec step e s ks).1) (exec step e s ks).2 := by
  induction ks generalizing log s with
  | nil =>
      simp only [exec, List.append_nil]
      exact h
  | cons k ks ih =>
      have := ih (snoc (k := k) (a := (step k e s).1) h rfl)
      simpa [exec] using this

theorem map_fst_exec (step : κ → Prog ρ σ α) (e : ρ) (s : σ) (ks : List κ) :
    (exec step e s ks).1.map Prod.fst = ks := by
  induction ks generalizing s with
  | nil => rfl
  | cons k ks ih => exact congrArg (k :: ·) (ih _)

theorem of_exec (step : κ → Prog ρ σ α) (e : ρ) (s : σ) (ks : List κ) :
    Run step e s (exec step e s ks).1 (exec step e s ks).2 := by
  simpa using nil.append_exec ks

end Run

/-! ### Runs of guarded events -/

section guarded
variable {κ σ : Type} (enabled : σ → κ → Prop) [∀ s k, Decidable (enabled s k)]
  (next : κ → σ → Option σ)

/-- The events one after the other, as long as they are enabled. -/
def guardedRun : List κ → σ → Option σ
  | [], s => some s
  | k :: ks, s => if enabled s k then next k s >>= guardedRun ks else none

variable {enabled next}

theorem guardedRun_induction {P : List κ → σ → Prop}
    (hstep : ∀ ks s k s', P ks s → enabled s k → next k s = some s' → P (ks ++ [k]) s')
    {before ks : List κ} {s s' : σ} (h : P before s)
    (hrun : guardedRun enabled next ks s = some s') : P (before ++ ks) s' := by
  induction ks generalizing before s with
  | nil =>
      obtain rfl := Option.some.inj hrun
      rwa [List.append_nil]
  | cons k ks ih =>
      rw [guardedRun] at hrun
      by_cases henabled : enabled s k
      · rw [if_pos henabled] at hrun
        obtain ⟨s₁, hnext, hrun⟩ := Option.bind_eq_some_iff.mp hrun
        have hmore := ih (hstep before s k s₁ h henabled hnext) hrun
        rwa [List.append_assoc] at hmore
      · rw [if_neg henabled] at hrun
        cases hrun

end guarded

end StateProg
