import Mathlib.Data.List.Count
import Mathlib.Tactic.Common

/-!
# `ACoral.Lib.Rounds`: a graph whose nodes all run once a round

The nodes of a graph run again and again, each of them once a round. A history
is the list of what they did, the last event first. `InRounds pre` says that a
history keeps to the graph: in every round a node begins when the nodes before
it have finished that round, and when the nodes behind it are through with the
round before.

* `InRounds.alone`: while a node runs, each node before it has finished this
  round and has not begun the next one, so that what it left is in place.
-/

set_option autoImplicit false

namespace ACoral.Lib

variable {T : Type}

/-- What a node does. -/
inductive RoundEvent (T : Type) where
  | begin (t : T)
  | finish (t : T)
deriving DecidableEq, Repr

variable [DecidableEq T]

/-- How often a node began. -/
def begun (h : List (RoundEvent T)) (t : T) : Nat := h.count (.begin t)

/-- How often a node finished. -/
def finished (h : List (RoundEvent T)) (t : T) : Nat := h.count (.finish t)

@[simp] theorem begun_nil (t : T) : begun [] t = 0 := rfl

@[simp] theorem finished_nil (t : T) : finished [] t = 0 := rfl

@[simp] theorem begun_cons_finish (h : List (RoundEvent T)) (s t : T) :
    begun (.finish s :: h) t = begun h t :=
  List.count_cons_of_ne (by simp)

@[simp] theorem finished_cons_begin (h : List (RoundEvent T)) (s t : T) :
    finished (.begin s :: h) t = finished h t :=
  List.count_cons_of_ne (by simp)

theorem begun_cons_begin (h : List (RoundEvent T)) (s t : T) :
    begun (.begin s :: h) t = begun h t + if s = t then 1 else 0 := by
  simp [begun, List.count_cons]

theorem finished_cons_finish (h : List (RoundEvent T)) (s t : T) :
    finished (.finish s :: h) t = finished h t + if s = t then 1 else 0 := by
  simp [finished, List.count_cons]

/-- A node begins its next round: those before it have finished that round, and
those behind it the one before. -/
structure MayBegin (pre : T → T → Prop) (h : List (RoundEvent T)) (t : T) : Prop where
  idle : begun h t = finished h t
  before : ∀ p, pre p t → begun h p = begun h t + 1 ∧ finished h p = begun h t + 1
  behind : ∀ s, pre t s → finished h s = begun h t

/-- The history keeps to the graph. -/
def InRounds (pre : T → T → Prop) : List (RoundEvent T) → Prop
  | []             => True
  | .begin t :: h  => MayBegin pre h t ∧ InRounds pre h
  | .finish t :: h => begun h t = finished h t + 1 ∧ InRounds pre h

namespace InRounds

variable {pre : T → T → Prop} {h : List (RoundEvent T)}

/-- While a node runs, those before it have finished this round and rest. -/
theorem alone (hin : InRounds pre h) {p t : T} (hpre : pre p t)
    (hrunning : begun h t = finished h t + 1) :
    begun h p = begun h t ∧ finished h p = begun h t := by
  induction h with
  | nil => exact absurd hrunning (by simp)
  | cons e h ih =>
      cases e with
      | begin s =>
          obtain ⟨hmay, hin⟩ := hin
          rw [begun_cons_begin, finished_cons_begin] at hrunning
          rw [begun_cons_begin, begun_cons_begin, finished_cons_begin]
          by_cases hst : s = t
          · -- the node begins now
            subst hst
            obtain ⟨hbegun, hfinished⟩ := hmay.before p hpre
            have hne : s ≠ p := by
              intro he
              subst he
              omega
            rw [if_pos rfl, if_neg hne]
            exact ⟨hbegun, hfinished⟩
          · rw [if_neg hst] at hrunning ⊢
            obtain ⟨hbegun, hfinished⟩ := ih hin hrunning
            have hne : s ≠ p := by
              intro he
              subst he
              -- one before it cannot begin while it runs
              have hlate := hmay.behind t hpre
              omega
            rw [if_neg hne]
            exact ⟨hbegun, hfinished⟩
      | finish s =>
          obtain ⟨hdone, hin⟩ := hin
          rw [begun_cons_finish, finished_cons_finish] at hrunning
          rw [begun_cons_finish, begun_cons_finish, finished_cons_finish]
          by_cases hst : s = t
          · rw [if_pos hst] at hrunning
            subst hst
            omega
          · rw [if_neg hst] at hrunning
            obtain ⟨hbegun, hfinished⟩ := ih hin hrunning
            have hne : s ≠ p := by
              intro he
              subst he
              omega
            rw [if_neg hne]
            exact ⟨hbegun, hfinished⟩

end InRounds

end ACoral.Lib
