import Mathlib.Algebra.Ring.Int.Defs
import Mathlib.Data.List.Perm.Basic
import Mathlib.Tactic.Common

/-!
# `ACoral.Lib.DeltaList`: lists of waiting times, each after the one before

A delta list is a list of keys with values; the expiry of a key is the
sum of the values up to it. `expiry_append_left` and
`expiry_append_right` cut a list in two. `Ordered` lists have no key
twice and no negative value, so their expiries ascend
(`expiry_nonneg`).

`expiry_remove_right` is what unlinking a key does to the ones behind
it: they expire earlier by its value, unless somebody hands the value
on.
-/

set_option autoImplicit false

namespace ACoral.Lib

variable {T : Type}

/-- The keys of a delta list. -/
def keys (q : List (T × Int)) : List T := q.map Prod.fst

/-- The sum of the values. -/
def total (q : List (T × Int)) : Int := (q.map Prod.snd).sum

@[simp] theorem keys_nil : keys ([] : List (T × Int)) = [] := rfl

@[simp] theorem keys_cons (t : T) (v : Int) (q : List (T × Int)) :
    keys ((t, v) :: q) = t :: keys q := rfl

@[simp] theorem keys_append (q₁ q₂ : List (T × Int)) : keys (q₁ ++ q₂) = keys q₁ ++ keys q₂ :=
  List.map_append

@[simp] theorem total_nil : total ([] : List (T × Int)) = 0 := rfl

@[simp] theorem total_cons (t : T) (v : Int) (q : List (T × Int)) :
    total ((t, v) :: q) = v + total q := by simp [total]

/-- No key occurs twice and no value is negative. -/
structure Ordered (q : List (T × Int)) : Prop where
  nodup : (keys q).Nodup
  nonneg : ∀ node ∈ q, 0 ≤ node.2

theorem Ordered.tail {node : T × Int} {q : List (T × Int)} (h : Ordered (node :: q)) :
    Ordered q :=
  ⟨(List.nodup_cons.mp h.nodup).2, fun n hn => h.nonneg n (List.mem_cons_of_mem _ hn)⟩

theorem Ordered.head_nonneg {t : T} {v : Int} {q : List (T × Int)} (h : Ordered ((t, v) :: q)) :
    0 ≤ v := h.nonneg _ List.mem_cons_self

theorem Ordered.notMem {t : T} {v : Int} {q : List (T × Int)} (h : Ordered ((t, v) :: q)) :
    t ∉ keys q := (List.nodup_cons.mp h.nodup).1

/-- A sublist of an ordered list is ordered. -/
theorem Ordered.sublist {q q' : List (T × Int)} (h : Ordered q) (hs : q'.Sublist q) :
    Ordered q' :=
  ⟨h.nodup.sublist (hs.map _), fun n hn => h.nonneg n (hs.subset hn)⟩

variable [DecidableEq T]

/-- The sum of the values up to the first occurrence of a key. -/
def expiry : List (T × Int) → T → Int
  | [],          _ => 0
  | (t, v) :: q, x => if t = x then v else v + expiry q x

@[simp] theorem expiry_cons_self (t : T) (v : Int) (q : List (T × Int)) :
    expiry ((t, v) :: q) t = v := by simp [expiry]

theorem expiry_cons_of_ne {t x : T} (h : t ≠ x) (v : Int) (q : List (T × Int)) :
    expiry ((t, v) :: q) x = v + expiry q x := by simp [expiry, h]

theorem expiry_append_left {q₁ : List (T × Int)} {x : T} (h : x ∈ keys q₁)
    (q₂ : List (T × Int)) : expiry (q₁ ++ q₂) x = expiry q₁ x := by
  induction q₁ with
  | nil => simp at h
  | cons node q ih =>
      obtain ⟨t, v⟩ := node
      by_cases ht : t = x
      · simp [expiry, ht]
      · have hx : x ∈ keys q := by
          rw [keys_cons, List.mem_cons] at h
          exact h.resolve_left (Ne.symm ht)
        rw [List.cons_append, expiry_cons_of_ne ht, expiry_cons_of_ne ht, ih hx]

theorem expiry_append_right {q₁ : List (T × Int)} {x : T} (h : x ∉ keys q₁)
    (q₂ : List (T × Int)) : expiry (q₁ ++ q₂) x = total q₁ + expiry q₂ x := by
  induction q₁ with
  | nil => simp
  | cons node q ih =>
      obtain ⟨t, v⟩ := node
      rw [keys_cons, List.mem_cons, not_or] at h
      rw [List.cons_append, expiry_cons_of_ne (Ne.symm h.1), ih h.2, total_cons]
      omega

/-- The keys before a removed one expire as before. -/
theorem expiry_remove_left {q₁ : List (T × Int)} {x : T} (h : x ∈ keys q₁) (r : T) (v : Int)
    (q₂ : List (T × Int)) : expiry (q₁ ++ q₂) x = expiry (q₁ ++ (r, v) :: q₂) x := by
  rw [expiry_append_left h, expiry_append_left h]

/-- The keys after a removed one expire earlier by its value. -/
theorem expiry_remove_right {q₁ : List (T × Int)} {x : T} (h : x ∉ keys q₁) {r : T} (hr : r ≠ x)
    (v : Int) (q₂ : List (T × Int)) :
    expiry (q₁ ++ q₂) x = expiry (q₁ ++ (r, v) :: q₂) x - v := by
  rw [expiry_append_right h, expiry_append_right h, expiry_cons_of_ne hr]
  omega

/-- The keys in front of a place expire as they do without the rest, so the
next key expires after all their values. -/
theorem expiry_append_cons_self {q₁ : List (T × Int)} {x : T} (h : x ∉ keys q₁) (v : Int)
    (q₂ : List (T × Int)) : expiry (q₁ ++ (x, v) :: q₂) x = total q₁ + v := by
  rw [expiry_append_right h, expiry_cons_self]

/-- Expiries are not negative. -/
theorem Ordered.expiry_nonneg {q : List (T × Int)} (h : Ordered q) (x : T) :
    0 ≤ expiry q x := by
  induction q with
  | nil => simp [expiry]
  | cons node q ih =>
      obtain ⟨t, v⟩ := node
      have hv := h.head_nonneg
      have hq := ih h.tail
      unfold expiry
      split <;> omega

/-- The keys are in the order of their expiries. -/
theorem Ordered.pairwise_expiry {q : List (T × Int)} (h : Ordered q) :
    (keys q).Pairwise fun x y => expiry q x ≤ expiry q y := by
  induction q with
  | nil => exact List.Pairwise.nil
  | cons node q ih =>
      obtain ⟨t, v⟩ := node
      have hne : ∀ x ∈ keys q, t ≠ x := fun x hx he => h.notMem (he ▸ hx)
      refine List.pairwise_cons.mpr ⟨fun y hy => ?_, (ih h.tail).imp_of_mem fun hx hy hxy => ?_⟩
      · have hpos := h.tail.expiry_nonneg y
        rw [expiry_cons_self, expiry_cons_of_ne (hne y hy)]
        omega
      · rw [expiry_cons_of_ne (hne _ hx), expiry_cons_of_ne (hne _ hy)]
        omega

end ACoral.Lib
