import Mathlib.Data.Int.ModEq
import Mathlib.Data.List.Basic

/-!
# `ACoral.Lib.BoundedFifo`: a queue of bounded length, and its ring layout

- `BoundedFifo`: a first-in first-out queue of a capacity, that drops its
  oldest element when one comes and there is no room.
- `Laid`: the elements of a list stand one behind the other in a buffer, from
  a start on, and around its end. `Laid.push` and `Laid.pop` are what a write
  behind the last element and a step of the start do.
-/

set_option autoImplicit false

namespace ACoral.Lib

variable {A : Type} {cap : Nat}

/-! ### The queue -/

/-- A queue of at most `cap` elements, the oldest first. -/
@[ext]
structure BoundedFifo (A : Type) (cap : Nat) where
  items : List A
  length_le : items.length ≤ cap

namespace BoundedFifo

/-- There is no room. -/
def isFull (q : BoundedFifo A cap) : Bool := q.items.length = cap

/-- The empty queue. -/
def empty : BoundedFifo A cap := ⟨[], Nat.zero_le _⟩

/-- The newest elements of a list, as many as there is room for. -/
def last (items : List A) : BoundedFifo A cap :=
  ⟨items.drop (items.length - cap), by rw [List.length_drop]; omega⟩

/-- An element comes. -/
def push (q : BoundedFifo A cap) (a : A) : BoundedFifo A cap := last (q.items ++ [a])

/-- The oldest element leaves. -/
def pop (q : BoundedFifo A cap) : BoundedFifo A cap :=
  ⟨q.items.tail, by rw [List.length_tail]; exact Nat.le_trans (Nat.sub_le _ _) q.length_le⟩

/-- Many of the oldest elements leave. -/
def popMany (q : BoundedFifo A cap) (n : Nat) : BoundedFifo A cap :=
  ⟨q.items.drop n, by rw [List.length_drop]; exact Nat.le_trans (Nat.sub_le _ _) q.length_le⟩

theorem pop_eq_popMany (q : BoundedFifo A cap) : q.pop = q.popMany 1 :=
  BoundedFifo.ext List.drop_one.symm

theorem pop_popMany (q : BoundedFifo A cap) (n : Nat) :
    q.pop.popMany n = q.popMany (n + 1) := BoundedFifo.ext List.drop_tail

/-- No more leave than there are. -/
theorem popMany_of_le {q : BoundedFifo A cap} {m n : Nat} (hm : q.items.length ≤ m)
    (hn : q.items.length ≤ n) : q.popMany m = q.popMany n :=
  BoundedFifo.ext ((List.drop_of_length_le hm).trans (List.drop_of_length_le hn).symm)

theorem push_items_of_lt {q : BoundedFifo A cap} (h : q.items.length < cap) (a : A) :
    (q.push a).items = q.items ++ [a] := by
  show (q.items ++ [a]).drop _ = _
  rw [List.length_append, List.length_singleton, Nat.sub_eq_zero_of_le h, List.drop_zero]

/-- Where there is no room, the oldest element leaves first. -/
theorem push_of_full {q : BoundedFifo A cap} (hcap : 0 < cap) (h : q.items.length = cap) (a : A) :
    q.push a = q.pop.push a := by
  have hone : 1 ≤ q.items.length := by omega
  have hlen : q.pop.items.length < cap := by
    show q.items.tail.length < cap
    rw [List.length_tail]
    omega
  have hitems : (q.push a).items = (q.pop.push a).items := by
    rw [push_items_of_lt hlen]
    show (q.items ++ [a]).drop _ = q.items.tail ++ [a]
    rw [List.length_append, List.length_singleton, h, Nat.add_sub_cancel_left,
      List.drop_append_of_le_length hone, List.drop_one]
  exact BoundedFifo.ext hitems

/-- Many elements come; how many of the oldest are dropped for them. -/
def pushAll (q : BoundedFifo A cap) : List A → Nat × BoundedFifo A cap
  | []      => (0, q)
  | a :: as =>
      let rest := (q.push a).pushAll as
      (if q.isFull then rest.1 + 1 else rest.1, rest.2)

/-- No more are dropped than come. -/
theorem pushAll_dropped_le (q : BoundedFifo A cap) (as : List A) :
    (q.pushAll as).1 ≤ as.length := by
  induction as generalizing q with
  | nil => exact Nat.le_refl 0
  | cons a as ih =>
      have hle := ih (q.push a)
      simp only [pushAll, List.length_cons]
      split <;> omega

end BoundedFifo

/-! ### The layout -/

/-- The list stands in the buffer from `start` on, around the end. -/
structure Laid (buf : List A) (start : Nat) (items : List A) : Prop where
  fits : items.length ≤ buf.length
  place : ∀ i (hi : i < items.length), buf[(start + i) % buf.length]? = some items[i]

namespace Laid

variable {buf items : List A} {start : Nat} {a : A}

theorem nil (buf : List A) (start : Nat) : Laid buf start [] where
  fits := Nat.zero_le _
  place _ hi := absurd hi (Nat.not_lt_zero _)

/-- The places of two elements differ. -/
theorem place_ne {n i j : Nat} (hij : i < j) (hj : j < n) :
    (start + i) % n ≠ (start + j) % n := by
  intro heq
  have hdvd := (Nat.modEq_iff_dvd' (by omega)).mp heq
  have hle := Nat.le_of_dvd (by omega) hdvd
  omega

/-- A write behind the last element. -/
theorem push (h : Laid buf start items) (hroom : items.length < buf.length) (a : A) :
    Laid (buf.set ((start + items.length) % buf.length) a) start (items ++ [a]) where
  fits := by
    rw [List.length_set, List.length_append, List.length_singleton]
    exact hroom
  place i hi := by
    rw [List.length_append, List.length_singleton] at hi
    rw [List.length_set]
    rcases Nat.lt_succ_iff_lt_or_eq.mp hi with hlt | rfl
    · -- the elements before it are elsewhere
      rw [List.getElem?_set_ne (place_ne hlt hroom).symm, h.place i hlt, List.getElem_append_left hlt]
    · rw [List.getElem?_set_self (Nat.mod_lt _ (by omega))]
      simp

/-- The start moves on. -/
theorem pop (h : Laid buf start (a :: items)) :
    buf[start % buf.length]? = some a ∧ Laid buf ((start + 1) % buf.length) items where
  left := h.place 0 (Nat.succ_pos _)
  right :=
    { fits := Nat.le_trans (Nat.le_succ _) h.fits
      place := fun i hi => by
        have hplace : ((start + 1) % buf.length + i) % buf.length =
            (start + (i + 1)) % buf.length := by
          rw [Nat.mod_add_mod, Nat.add_assoc, Nat.add_comm 1 i]
        rw [hplace]
        exact h.place (i + 1) (Nat.succ_lt_succ hi) }

end Laid

end ACoral.Lib
