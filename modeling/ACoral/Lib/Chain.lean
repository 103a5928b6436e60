import Mathlib.Data.List.Sort
import Mathlib.Logic.Function.Basic
import Mathlib.Tactic.Common

/-!
# `ACoral.Lib.Chain`: lists that are linked through an array

The cells of a type `α` are linked by a map `next`, from a first cell on
up to the end mark `nil`. `Chain next nil c ws` says that the cells met on
the way from `c` are `ws`. A cell that is not among them may hold anything.

- `Chain.unique`: the first cell determines the list.
- `Chain.push`, `Chain.insert`: the two ways to link a cell, at the front
  and behind a given cell.
- `Chain.pop`: the first cell leaves the list.
-/

set_option autoImplicit false

namespace ACoral.Lib

universe u

variable {α : Type u}

/-- `ws` are the cells that are linked from `c` on. -/
def Chain (next : α → α) (nil : α) : α → List α → Prop
  | c, []      => c = nil
  | c, w :: ws => c = w ∧ w ≠ nil ∧ Chain next nil (next w) ws

namespace Chain

variable {next next' : α → α} {nil c w : α} {ws ws' us vs : List α}

theorem nil_iff : Chain next nil c [] ↔ c = nil := Iff.rfl

/-- A list that does not start at the end mark has a first cell. -/
theorem exists_cons (h : Chain next nil c ws) (hc : c ≠ nil) :
    ∃ vs, ws = c :: vs ∧ Chain next nil (next c) vs := by
  cases ws with
  | nil => exact absurd h hc
  | cons v vs =>
      obtain ⟨rfl, -, hrest⟩ := h
      exact ⟨vs, rfl, hrest⟩

/-- A list starts with its first cell, or with the end mark. -/
theorem head_eq (h : Chain next nil c ws) : c = ws.headD nil := by
  cases ws with
  | nil => exact h
  | cons w ws => exact h.1

/-- The list from the end mark is empty. -/
theorem eq_nil (h : Chain next nil nil ws) : ws = [] := by
  cases ws with
  | nil => rfl
  | cons v vs => exact absurd h.1.symm h.2.1

/-- The cells that are linked from a cell are determined. -/
theorem unique (h : Chain next nil c ws) (h' : Chain next nil c ws') : ws = ws' := by
  induction ws generalizing c ws' with
  | nil =>
      obtain rfl : c = nil := h
      exact h'.eq_nil.symm
  | cons w ws ih =>
      obtain ⟨rfl, hw, hrest⟩ := h
      obtain ⟨vs, rfl, hrest'⟩ := h'.exists_cons hw
      rw [ih hrest hrest']

/-- From a cell of the list on, the rest of it is linked. -/
theorem suffix (h : Chain next nil c (us ++ w :: vs)) : Chain next nil w (w :: vs) := by
  induction us generalizing c with
  | nil =>
      obtain ⟨rfl, hrest⟩ := h
      exact ⟨rfl, hrest⟩
  | cons u us ih => exact ih h.2.2

/-- No cell is in the list twice: the rest of the list would be the same from both
places on. -/
theorem nodup (h : Chain next nil c ws) : ws.Nodup := by
  induction ws generalizing c with
  | nil => exact List.nodup_nil
  | cons w ws ih =>
      refine List.nodup_cons.mpr ⟨fun hw => ?_, ih h.2.2⟩
      obtain ⟨us, vs, rfl⟩ := List.append_of_mem hw
      have hsame : w :: (us ++ w :: vs) = w :: vs := by
        have hw' := h.1 ▸ h
        exact unique hw' (suffix (show Chain next nil c ((w :: us) ++ w :: vs) from h))
      have hlen := congrArg List.length hsame
      simp only [List.length_cons, List.length_append] at hlen
      omega

/-- What the other cells hold does not matter. -/
theorem congr (h : Chain next nil c ws) (heq : ∀ w ∈ ws, next' w = next w) :
    Chain next' nil c ws := by
  induction ws generalizing c with
  | nil => exact h
  | cons w ws ih =>
      obtain ⟨hc, hw, hrest⟩ := h
      refine ⟨hc, hw, ?_⟩
      rw [heq w List.mem_cons_self]
      exact ih hrest fun v hv => heq v (List.mem_cons_of_mem w hv)

/-- Without its first cell, the list starts at the next one. -/
theorem pop (h : Chain next nil c (w :: ws)) : Chain next nil (next c) ws := by
  obtain ⟨rfl, -, hrest⟩ := h
  exact hrest

section

variable [DecidableEq α]

theorem update_of_notMem {v : α} (h : Chain next nil c ws) (hw : w ∉ ws) :
    Chain (Function.update next w v) nil c ws := by
  refine h.congr fun x hx => Function.update_of_ne (fun hxw => ?_) _ _
  rw [hxw] at hx
  exact hw hx

/-- A cell is linked at the front. -/
theorem push (h : Chain next nil c ws) (hw : w ∉ ws) (hnil : w ≠ nil) :
    Chain (Function.update next w c) nil w (w :: ws) := by
  refine ⟨rfl, hnil, ?_⟩
  rw [Function.update_self]
  exact h.update_of_notMem hw

/-- A cell is linked behind the cell `u`. The induction is on the cells
before `u`. -/
theorem insert {u : α} (h : Chain next nil c (us ++ u :: vs))
    (hnodup : (us ++ u :: vs).Nodup) (hw : w ∉ us ++ u :: vs) (hnil : w ≠ nil) :
    Chain (Function.update (Function.update next w (next u)) u w) nil c (us ++ u :: w :: vs) := by
  induction us generalizing c with
  | nil =>
      obtain ⟨rfl, hu, hrest⟩ := h
      rw [List.nil_append] at hnodup hw ⊢
      obtain ⟨hcv, -⟩ := List.nodup_cons.mp hnodup
      have hwc : w ≠ c := fun he => hw (he ▸ List.mem_cons_self)
      have hwv : w ∉ vs := fun hm => hw (List.mem_cons_of_mem c hm)
      refine ⟨rfl, hu, ?_⟩
      rw [Function.update_self]
      refine ⟨rfl, hnil, ?_⟩
      rw [Function.update_of_ne hwc, Function.update_self]
      exact (hrest.update_of_notMem hwv).update_of_notMem hcv
  | cons x us ih =>
      obtain ⟨hc, hx, hrest⟩ := h
      rw [List.cons_append] at hnodup hw ⊢
      obtain ⟨hxrest, hnodup⟩ := List.nodup_cons.mp hnodup
      have hxu : x ≠ u := fun he => hxrest (by simp [he])
      have hxw : x ≠ w := fun he => hw (he ▸ List.mem_cons_self)
      refine ⟨hc, hx, ?_⟩
      rw [Function.update_of_ne hxu, Function.update_of_ne hxw]
      exact ih hrest hnodup fun hm => hw (List.mem_cons_of_mem x hm)

end

end Chain

end ACoral.Lib
