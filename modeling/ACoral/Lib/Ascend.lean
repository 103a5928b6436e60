import Mathlib.Data.Nat.Basic
import Mathlib.Order.Bounds.Basic
import Mathlib.Order.Monotone.Defs

/-!
# `ACoral.Lib.Ascend`: least fixed points below a bound

A monotone function on the natural numbers is applied again and again to a
start that it does not lower, until a value comes back unchanged or exceeds
a bound. `ascend` is that loop, with a number of rounds. It needs no more
rounds than there are numbers up to the bound, and finds the least fixed
point at or above the start.

- `ascend_spec`: what the loop finds, and that it ends.
- `foldl_le_foldl`: folds of monotone steps are monotone.
-/

set_option autoImplicit false

namespace ACoral.Lib

universe u

/-- Apply `F` from `x` on; `some none` if the bound is exceeded. -/
def ascend (F : Nat → Nat) (bound : Nat) : (rounds : Nat) → (x : Nat) → Option (Option Nat)
  | 0,          _ => none
  | rounds + 1, x =>
      if x ≤ bound then
        if x = F x then some (some x) else ascend F bound rounds (F x)
      else some none

/-- `r` is the least fixed point of `F` at or above `a`. -/
def LeastFixed (F : Nat → Nat) (a r : Nat) : Prop := IsLeast {t | a ≤ t ∧ t = F t} r

/-- What `ascend` finds. -/
def AscendResult (F : Nat → Nat) (bound a : Nat) : Option Nat → Prop
  | some r => LeastFixed F a r ∧ r ≤ bound
  | none   => ∀ t, a ≤ t → t = F t → bound < t

theorem LeastFixed.unique {F : Nat → Nat} {a r r' : Nat} (h : LeastFixed F a r)
    (h' : LeastFixed F a r') : r = r' := IsLeast.unique h h'

/-- The loop ends, and finds the least fixed point if it is not above the
bound. The induction is on the rounds; each one raises the value, and no
value is above a fixed point. -/
theorem ascend_spec {F : Nat → Nat} (hmono : Monotone F) (bound rounds : Nat) {a x : Nat}
    (hax : a ≤ x) (hup : x ≤ F x) (hbelow : ∀ t, a ≤ t → t = F t → x ≤ t) (hpos : 0 < rounds)
    (hrounds : bound + 1 < rounds + x) :
    ∃ res, ascend F bound rounds x = some res ∧ AscendResult F bound a res := by
  induction rounds generalizing x with
  | zero => exact absurd hpos (Nat.lt_irrefl 0)
  | succ rounds ih =>
      unfold ascend
      by_cases hx : x ≤ bound
      · rw [if_pos hx]
        by_cases hfix : x = F x
        · exact ⟨some x, if_pos hfix, ⟨⟨hax, hfix⟩, fun t ht => hbelow t ht.1 ht.2⟩, hx⟩
        · rw [if_neg hfix]
          have hlt : x < F x := Nat.lt_of_le_of_ne hup hfix
          refine ih (Nat.le_trans hax hup) (hmono hup) (fun t hat ht => ?_) (by omega) (by omega)
          rw [ht]
          exact hmono (hbelow t hat ht)
      · exact ⟨none, if_neg hx, fun t hat ht =>
          Nat.lt_of_lt_of_le (Nat.lt_of_not_le hx) (hbelow t hat ht)⟩

/-- A fold is monotone in its start and in its steps. -/
theorem foldl_le_foldl {α : Type u} {f g : Nat → α → Nat} (l : List α) {a b : Nat} (hab : a ≤ b)
    (hstep : ∀ x ∈ l, ∀ c d, c ≤ d → f c x ≤ g d x) : l.foldl f a ≤ l.foldl g b := by
  induction l generalizing a b with
  | nil => exact hab
  | cons x l ih =>
      exact ih (hstep x List.mem_cons_self a b hab) fun y hy =>
        hstep y (List.mem_cons_of_mem x hy)

/-- A fold whose steps lower nothing lowers nothing. -/
theorem le_foldl {α : Type u} {f : Nat → α → Nat} (l : List α) (a : Nat)
    (hstep : ∀ x ∈ l, ∀ c, c ≤ f c x) : a ≤ l.foldl f a := by
  induction l generalizing a with
  | nil => exact Nat.le_refl a
  | cons x l ih =>
      exact Nat.le_trans (hstep x List.mem_cons_self a) (ih (f a x) fun y hy =>
        hstep y (List.mem_cons_of_mem x hy))

end ACoral.Lib
