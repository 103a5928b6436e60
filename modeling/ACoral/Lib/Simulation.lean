import Mathlib.Data.List.Forall2

/-!
# `ACoral.Lib.Simulation`: two machines with outputs

A machine answers each input with an output. `outputs` runs a machine that
can get stuck, `answers` one that cannot. `outputs_sim` packages the induction
of a refinement: when a relation of the states is kept by every input, and the
outputs match there, they match over whole runs, and the first machine does
not get stuck.
-/

set_option autoImplicit false

namespace ACoral.Lib

variable {σ τ ι ω υ : Type}

/-- The outputs of a machine that can get stuck, and the state at the end. -/
def outputs (step : σ → ι → Option (ω × σ)) : σ → List ι → Option (List ω × σ)
  | s, []      => some ([], s)
  | s, i :: is =>
      (step s i).bind fun res =>
        (outputs step res.2 is).map fun rest => (res.1 :: rest.1, rest.2)

/-- The outputs of a machine that always answers, and the state at the end. -/
def answers (step : τ → ι → υ × τ) : τ → List ι → List υ × τ
  | t, []      => ([], t)
  | t, i :: is =>
      let res := step t i
      let rest := answers step res.2 is
      (res.1 :: rest.1, rest.2)

@[simp] theorem outputs_nil (step : σ → ι → Option (ω × σ)) (s : σ) :
    outputs step s [] = some ([], s) := rfl

theorem outputs_cons_of_eq_some {step : σ → ι → Option (ω × σ)} {s s' : σ} {i : ι} {o : ω}
    (h : step s i = some (o, s')) (is : List ι) :
    outputs step s (i :: is) =
      (outputs step s' is).map fun rest => (o :: rest.1, rest.2) := by
  show (step s i).bind _ = _
  rw [h]
  rfl

/-- The refinement rule. -/
theorem outputs_sim {step : σ → ι → Option (ω × σ)} {spec : τ → ι → υ × τ} {R : σ → τ → Prop}
    {M : ω → υ → Prop}
    (hstep : ∀ s t i, R s t → ∃ o s', step s i = some (o, s') ∧ M o (spec t i).1 ∧
      R s' (spec t i).2)
    {s : σ} {t : τ} (hs : R s t) (is : List ι) :
    ∃ os s', outputs step s is = some (os, s') ∧ List.Forall₂ M os (answers spec t is).1 ∧
      R s' (answers spec t is).2 := by
  induction is generalizing s t with
  | nil => exact ⟨[], s, rfl, List.Forall₂.nil, hs⟩
  | cons i is ih =>
      obtain ⟨o, s', hi, hm, hr⟩ := hstep s t i hs
      obtain ⟨os, s'', hrest, hms, hr'⟩ := ih hr
      refine ⟨o :: os, s'', ?_, List.Forall₂.cons hm hms, hr'⟩
      rw [outputs_cons_of_eq_some hi, hrest]
      rfl

end ACoral.Lib
