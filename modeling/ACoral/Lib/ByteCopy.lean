import Mathlib.Data.List.Basic
import Mathlib.Logic.Function.Basic

/-!
# `ACoral.Lib.ByteCopy`: copying within a memory, and lists in it

A memory is a function from places to values. `copyUp` and `copyDown` copy a region one
place after the other, from its start and from its end. Regions may overlap: in the right
direction both do what a copy through another memory does (`moved`).

`Holds` says that the first places of a memory hold a list, and the fill value behind it.
Moving the rest of the list by one place makes room for another element (`Holds.insert`),
or takes one out (`Holds.erase`).
-/

set_option autoImplicit false

namespace ACoral.Lib

variable {A : Type}

/-! ### Copying -/

/-- Copy `count` places from `src` to `dest`, from the start on. -/
def copyUp (dest src : Nat) : (count : Nat) → (Nat → A) → Nat → A
  | 0,         m => m
  | count + 1, m => copyUp (dest + 1) (src + 1) count (Function.update m dest (m src))

/-- Copy `count` places from `src` to `dest`, from the end on. -/
def copyDown (dest src : Nat) : (count : Nat) → (Nat → A) → Nat → A
  | 0,         m => m
  | count + 1, m => copyDown dest src count (Function.update m (dest + count) (m (src + count)))

/-- The memory in which the region at `dest` has what was at `src`. -/
def moved (dest src count : Nat) (m : Nat → A) (i : Nat) : A :=
  if dest ≤ i ∧ i < dest + count then m (src + (i - dest)) else m i

theorem moved_zero (dest src : Nat) (m : Nat → A) : moved dest src 0 m = m := by
  funext i
  exact if_neg (by omega)

/-- Towards the start, each place is read before it is written. -/
theorem copyUp_eq {dest src : Nat} (h : dest ≤ src) (count : Nat) (m : Nat → A) :
    copyUp dest src count m = moved dest src count m := by
  induction count generalizing dest src m with
  | zero =>
      funext i
      rw [moved, if_neg (by omega)]
      rfl
  | succ count ih =>
      funext i
      rw [copyUp, ih (by omega), moved, moved]
      by_cases hi : dest + 1 ≤ i ∧ i < dest + 1 + count
      · have hsrc : src + 1 + (i - (dest + 1)) = src + (i - dest) := by omega
        rw [if_pos hi, if_pos (by omega), Function.update_of_ne (by omega), hsrc]
      · rw [if_neg hi]
        by_cases hfirst : i = dest
        · rw [hfirst, Function.update_self, if_pos (by omega), Nat.sub_self, Nat.add_zero]
        · rw [Function.update_of_ne hfirst, if_neg (by omega)]

/-- Away from it, from the end on. -/
theorem copyDown_eq {dest src : Nat} (h : src ≤ dest) (count : Nat) (m : Nat → A) :
    copyDown dest src count m = moved dest src count m := by
  induction count generalizing m with
  | zero =>
      funext i
      rw [moved, if_neg (by omega)]
      rfl
  | succ count ih =>
      funext i
      rw [copyDown, ih, moved, moved]
      by_cases hi : dest ≤ i ∧ i < dest + count
      · rw [if_pos hi, if_pos (by omega), Function.update_of_ne (by omega)]
      · rw [if_neg hi]
        by_cases hlast : i = dest + count
        · rw [hlast, Function.update_self, if_pos (by omega), Nat.add_sub_cancel_left]
        · rw [Function.update_of_ne hlast, if_neg (by omega)]

/-! ### Lists in a memory -/

/-- The first `size` places hold the list, and `fill` behind it. -/
def Holds (size : Nat) (fill : A) (m : Nat → A) (l : List A) : Prop :=
  ∀ i < size, m i = l[i]?.getD fill

namespace Holds

variable {size : Nat} {fill : A} {m : Nat → A} {l : List A}

theorem nil : Holds size fill (fun _ => fill) [] := fun _ _ => rfl

/-- A place of the list. -/
theorem get (h : Holds size fill m l) (hl : l.length ≤ size) {i : Nat} (hi : i < l.length) :
    m i = l[i] := by
  rw [h i (by omega), List.getElem?_eq_getElem hi, Option.getD_some]

/-- A place behind it. -/
theorem fill_of_le (h : Holds size fill m l) {i : Nat} (hi : i < size) (hl : l.length ≤ i) :
    m i = fill := by
  rw [h i hi, List.getElem?_eq_none hl, Option.getD_none]

/-- An element goes where there is room for it. -/
theorem insert (h : Holds size fill m l) {c : Nat} (hc : c ≤ l.length) (x : A) :
    Holds size fill (Function.update (moved (c + 1) c (l.length - c) m) c x) (l.insertIdx c x) := by
  intro i hi
  rw [List.getElem?_insertIdx]
  by_cases hlt : i < c
  · rw [if_pos hlt, Function.update_of_ne (by omega), moved, if_neg (by omega)]
    exact h i hi
  rw [if_neg hlt]
  by_cases heq : i = c
  · rw [if_pos heq, if_pos (by omega), heq, Function.update_self, Option.getD_some]
  rw [if_neg heq, Function.update_of_ne heq, moved]
  by_cases hin : c + 1 ≤ i ∧ i < c + 1 + (l.length - c)
  · have hsrc : c + (i - (c + 1)) = i - 1 := by omega
    rw [if_pos hin, hsrc]
    exact h (i - 1) (by omega)
  · rw [if_neg hin, h i hi, List.getElem?_eq_none (by omega), List.getElem?_eq_none (by omega)]

/-- An element goes. -/
theorem erase (h : Holds size fill m l) {c : Nat} (hc : c < l.length) (hl : l.length ≤ size) :
    Holds size fill (Function.update (moved c (c + 1) (l.length - 1 - c) m) (l.length - 1) fill)
      (l.eraseIdx c) := by
  intro i hi
  rw [List.getElem?_eraseIdx]
  by_cases hlast : i = l.length - 1
  · have hend : (if i < c then l[i]? else l[i + 1]?) = none := by
      rw [if_neg (by omega), List.getElem?_eq_none (by omega)]
    rw [hend, hlast, Function.update_self, Option.getD_none]
  rw [Function.update_of_ne hlast, moved]
  by_cases hlt : i < c
  · rw [if_pos hlt, if_neg (by omega)]
    exact h i hi
  rw [if_neg hlt]
  by_cases hin : c ≤ i ∧ i < c + (l.length - 1 - c)
  · have hsrc : c + 1 + (i - c) = i + 1 := by omega
    rw [if_pos hin, hsrc]
    exact h (i + 1) (by omega)
  · rw [if_neg hin, h i hi, List.getElem?_eq_none (by omega), List.getElem?_eq_none (by omega)]

/-- Two lists of the memory's size that both do not have the fill value are the same. -/
theorem unique {l' : List A} (h : Holds size fill m l) (h' : Holds size fill m l')
    (hl : l.length ≤ size) (hl' : l'.length ≤ size) (hfill : fill ∉ l) (hfill' : fill ∉ l') :
    l = l' := by
  have hlen : ∀ {l₁ l₂ : List A}, Holds size fill m l₁ → Holds size fill m l₂ →
      l₂.length ≤ size → fill ∉ l₂ → l₂.length ≤ l₁.length := by
    intro l₁ l₂ h₁ h₂ hsize hnot
    by_contra hlt
    have hi : l₁.length < l₂.length := by omega
    refine hnot ?_
    rw [← h₁.fill_of_le (by omega : l₁.length < size) (Nat.le_refl _), h₂.get hsize hi]
    exact List.getElem_mem hi
  refine List.ext_getElem ?_ fun i hi hi' => ?_
  · exact Nat.le_antisymm (hlen h' h hl hfill) (hlen h h' hl' hfill')
  · rw [← h.get hl hi, ← h'.get hl' hi']

end Holds

end ACoral.Lib
