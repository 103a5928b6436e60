import Mathlib.Logic.Basic

/-!
# `ACoral.Lib.GuardedRun`: runs of a partial step function

A system is a state type `σ`, an input type `ι` and a step function
`step : σ → ι → Option σ`, where `none` says that the input cannot be
executed in that state (it is not enabled, or the code does not
return). `run step s is` executes a list of inputs in order.

`guarded guard step` is the same system cut down to the steps whose
state before the step meets `guard`.

The induction over a run is packaged once, as `run_induct`: a
predicate that holds of the start state and is preserved by every
step holds of the state a run ends in. `guarded_induct` is the same
rule with the guard available at each step, and `guarded_induct_mem`
knows what is known of the inputs. `run_append` cuts a run
in two, so that a fact about "every point of a run" is a fact about
the end of every prefix. `run_flag` is about a flag that some steps set
and none clears: it says that one of them was taken. `run_rel` relates
the runs of two systems that answer every input alike, and
`guarded_simulates` a guarded run and the run that answers it.
-/

set_option autoImplicit false

namespace ACoral.Lib

universe u v

variable {σ : Type u} {ι : Type v}

/-- Execute the inputs in order, from the state `s`. The result is
`none` as soon as one input cannot be executed. -/
def run (step : σ → ι → Option σ) : σ → List ι → Option σ
  | s, []      => some s
  | s, i :: is => (step s i).bind fun s' => run step s' is

/-- The step function restricted to the steps that meet `guard`. -/
def guarded (guard : σ → ι → Bool) (step : σ → ι → Option σ) (s : σ) (i : ι) : Option σ :=
  if guard s i then step s i else none

@[simp] theorem run_nil (step : σ → ι → Option σ) (s : σ) : run step s [] = some s := rfl

theorem run_cons (step : σ → ι → Option σ) (s : σ) (i : ι) (is : List ι) :
    run step s (i :: is) = (step s i).bind fun s' => run step s' is := rfl

/-- A nonempty run is one step and the run of the rest. -/
theorem run_cons_eq_some {step : σ → ι → Option σ} {s t : σ} {i : ι} {is : List ι} :
    run step s (i :: is) = some t ↔ ∃ s', step s i = some s' ∧ run step s' is = some t := by
  rw [run_cons, Option.bind_eq_some_iff]

/-- A run of a concatenation is the run of the first part followed by
the run of the second. -/
theorem run_append {step : σ → ι → Option σ} {s t : σ} {is js : List ι} :
    run step s (is ++ js) = some t ↔ ∃ m, run step s is = some m ∧ run step m js = some t := by
  induction is generalizing s with
  | nil => simp
  | cons i is ih =>
      rw [List.cons_append, run_cons_eq_some]
      constructor
      · rintro ⟨s', hstep, hrest⟩
        obtain ⟨m, hm, ht⟩ := ih.mp hrest
        exact ⟨m, run_cons_eq_some.mpr ⟨s', hstep, hm⟩, ht⟩
      · rintro ⟨m, hm, ht⟩
        obtain ⟨s', hstep, hm⟩ := run_cons_eq_some.mp hm
        exact ⟨s', hstep, ih.mpr ⟨m, hm, ht⟩⟩

/-- The invariant rule. A predicate that holds at the start and is
preserved by every executable step holds at the end of every run. -/
theorem run_induct {step : σ → ι → Option σ} {P : σ → Prop}
    (hstep : ∀ s i s', P s → step s i = some s' → P s')
    {s t : σ} {is : List ι} (hs : P s) (hrun : run step s is = some t) : P t := by
  induction is generalizing s with
  | nil =>
      rw [run_nil, Option.some.injEq] at hrun
      exact hrun ▸ hs
  | cons i is ih =>
      obtain ⟨s', h1, h2⟩ := run_cons_eq_some.mp hrun
      exact ih (hstep s i s' hs h1) h2

/-- The rule of bisimulation. Two systems whose steps are both not executable, or lead from
related states to related ones, run alike. -/
theorem run_rel {τ : Type u} {step : σ → ι → Option σ} {spec : τ → ι → Option τ}
    {R : σ → τ → Prop} (hstep : ∀ s t i, R s t → Option.Rel R (step s i) (spec t i))
    {s : σ} {t : τ} (h : R s t) (is : List ι) : Option.Rel R (run step s is) (run spec t is) := by
  induction is generalizing s t with
  | nil => exact Option.Rel.some h
  | cons i is ih =>
      rw [run_cons, run_cons]
      have hi := hstep s t i h
      generalize step s i = r at hi
      generalize spec t i = r' at hi
      cases hi with
      | none => exact Option.Rel.none
      | some h' => exact ih h'

/-- The step `n` of a run is `i`, taken in the state `t`. -/
def StepAt (step : σ → ι → Option σ) (s : σ) (is : List ι) (n : Nat) (i : ι) (t : σ) : Prop :=
  is[n]? = some i ∧ run step s (is.take n) = some t

theorem stepAt_cons_succ {step : σ → ι → Option σ} {s s' t : σ} {i j : ι} {is : List ι} {n : Nat}
    (hstep : step s i = some s') :
    StepAt step s (i :: is) (n + 1) j t ↔ StepAt step s' is n j t := by
  simp [StepAt, run_cons, hstep]

/-- A step of the first `n` is a step of the run. -/
theorem stepAt_take {step : σ → ι → Option σ} {s t : σ} {i : ι} {is : List ι} {m n : Nat} :
    StepAt step s (is.take n) m i t ↔ m < n ∧ StepAt step s is m i t := by
  by_cases hlt : m < n
  · simp [StepAt, hlt, List.take_take, Nat.min_eq_left (Nat.le_of_lt hlt)]
  · simp [StepAt, hlt, List.getElem?_take]

/-- A flag that no step clears is set at the end of a run if it was set before, or one of
the steps that set it has been taken. -/
theorem run_flag {step : σ → ι → Option σ} {flag : σ → Prop} {sets : σ → ι → Prop}
    (hstep : ∀ s i s', step s i = some s' → (flag s' ↔ flag s ∨ sets s i))
    {s t : σ} {is : List ι} (hrun : run step s is = some t) :
    flag t ↔ flag s ∨ ∃ n i m, StepAt step s is n i m ∧ sets m i := by
  induction is generalizing s with
  | nil =>
      rw [run_nil, Option.some.injEq] at hrun
      subst hrun
      refine ⟨Or.inl, fun h => h.resolve_right ?_⟩
      rintro ⟨n, i, m, ⟨hn, -⟩, -⟩
      rw [List.getElem?_nil] at hn
      cases hn
  | cons i is ih =>
      obtain ⟨s', hfirst, hrest⟩ := run_cons_eq_some.mp hrun
      rw [ih hrest, hstep s i s' hfirst, or_assoc]
      refine or_congr_right ⟨?_, ?_⟩
      · rintro (hsets | ⟨n, j, m, hat, hsets⟩)
        · exact ⟨0, i, s, ⟨rfl, rfl⟩, hsets⟩
        · exact ⟨n + 1, j, m, (stepAt_cons_succ hfirst).mpr hat, hsets⟩
      · rintro ⟨n, j, m, hat, hsets⟩
        cases n with
        | zero =>
            obtain ⟨hj, hm⟩ := hat
            obtain rfl : i = j := Option.some.inj hj
            obtain rfl : s = m := Option.some.inj hm
            exact Or.inl hsets
        | succ n => exact Or.inr ⟨n, j, m, (stepAt_cons_succ hfirst).mp hat, hsets⟩

/-- A guarded step is a step whose state before it meets the guard. -/
theorem guarded_eq_some {guard : σ → ι → Bool} {step : σ → ι → Option σ} {s t : σ} {i : ι} :
    guarded guard step s i = some t ↔ guard s i = true ∧ step s i = some t := by
  unfold guarded
  split <;> simp_all

/-- The invariant rule for guarded runs: the guard is available at
every step. -/
theorem guarded_induct {guard : σ → ι → Bool} {step : σ → ι → Option σ} {P : σ → Prop}
    (hstep : ∀ s i s', P s → guard s i = true → step s i = some s' → P s')
    {s t : σ} {is : List ι} (hs : P s) (hrun : run (guarded guard step) s is = some t) : P t :=
  run_induct (fun s i s' hP h => by
    obtain ⟨hg, h⟩ := guarded_eq_some.mp h
    exact hstep s i s' hP hg h) hs hrun

/-- The invariant rule for the inputs of one run: what is known of them is
available at every step. -/
theorem run_induct_mem {step : σ → ι → Option σ} {P : σ → Prop} {s t : σ} {is : List ι}
    (hstep : ∀ s i s', i ∈ is → P s → step s i = some s' → P s') (hs : P s)
    (hrun : run step s is = some t) : P t := by
  induction is generalizing s with
  | nil =>
      rw [run_nil, Option.some.injEq] at hrun
      exact hrun ▸ hs
  | cons i is ih =>
      obtain ⟨s', h1, h2⟩ := run_cons_eq_some.mp hrun
      refine ih (fun s j s' hj => hstep s j s' (List.mem_cons_of_mem i hj)) ?_ h2
      exact hstep s i s' List.mem_cons_self hs h1

/-- The same for guarded runs. -/
theorem guarded_induct_mem {guard : σ → ι → Bool} {step : σ → ι → Option σ} {P : σ → Prop}
    {s t : σ} {is : List ι}
    (hstep : ∀ s i s', i ∈ is → P s → guard s i = true → step s i = some s' → P s')
    (hs : P s) (hrun : run (guarded guard step) s is = some t) : P t :=
  run_induct_mem (fun s i s' hi hP h => by
    obtain ⟨hg, h⟩ := guarded_eq_some.mp h
    exact hstep s i s' hi hP hg h) hs hrun

/-- The rule of simulation. Where every guarded step is answered by a step of another system,
every guarded run is answered by a run of it. -/
theorem guarded_simulates {τ : Type u} {guard : σ → ι → Bool} {step : σ → ι → Option σ}
    {spec : τ → ι → Option τ} {R : σ → τ → Prop}
    (hstep : ∀ s t i s', R s t → guard s i = true → step s i = some s' →
      ∃ t', spec t i = some t' ∧ R s' t')
    {s s' : σ} {t : τ} {is : List ι} (h : R s t) (hrun : run (guarded guard step) s is = some s') :
    ∃ t', run spec t is = some t' ∧ R s' t' := by
  induction is generalizing s t with
  | nil =>
      rw [run_nil, Option.some.injEq] at hrun
      exact ⟨t, rfl, hrun ▸ h⟩
  | cons i is ih =>
      obtain ⟨m, hfirst, hrest⟩ := run_cons_eq_some.mp hrun
      obtain ⟨hguard, hfirst⟩ := guarded_eq_some.mp hfirst
      obtain ⟨t', hspec, hR⟩ := hstep s t i m h hguard hfirst
      obtain ⟨u, hu, hR'⟩ := ih hR hrest
      exact ⟨u, run_cons_eq_some.mpr ⟨t', hspec, hu⟩, hR'⟩

end ACoral.Lib
