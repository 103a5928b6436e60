import Mathlib.Data.List.Basic
import Mathlib.Tactic.Common
import Mathlib.Algebra.Group.Nat.Defs

/-!
# `ACoral.Lib.Base128`: numbers as groups of seven bits

A number is written as bytes with seven of its bits each, the low ones first. Every byte but
the last has its high bit set. `Groups` says that a list of bytes has this form, and `value128`
is its number. A number has many such forms; `encode128` is the shortest one
(`length_encode128_le`).

A stream of bytes starts with a form, or all its bytes have the high bit set
(`groups_or_open`).
-/

set_option autoImplicit false

namespace ACoral.Lib

/-- The shortest form of a number. -/
def encode128 (n : Nat) : List UInt8 :=
  if n < 128 then [UInt8.ofNat n] else UInt8.ofNat (n % 128 + 128) :: encode128 (n / 128)
termination_by n

/-- The number of a form. -/
def value128 : List UInt8 → Nat
  | []      => 0
  | b :: bs => b.toNat % 128 + 128 * value128 bs

/-- Every byte but the last has its high bit set. -/
inductive Groups : List UInt8 → Prop
  | last {b : UInt8} : b.toNat < 128 → Groups [b]
  | more {b : UInt8} {bs : List UInt8} : 128 ≤ b.toNat → Groups bs → Groups (b :: bs)

variable {n k : Nat} {g g' l r r' : List UInt8}

theorem encode128_of_lt (h : n < 128) : encode128 n = [UInt8.ofNat n] := by
  rw [encode128, if_pos h]

theorem encode128_of_le (h : 128 ≤ n) :
    encode128 n = UInt8.ofNat (n % 128 + 128) :: encode128 (n / 128) := by
  rw [encode128, if_neg (by omega)]

theorem toNat_ofNat_lt (h : n < 256) : (UInt8.ofNat n).toNat = n := by
  rw [UInt8.toNat_ofNat']
  exact Nat.mod_eq_of_lt h

/-! ### The shortest form -/

theorem groups_encode128 (n : Nat) : Groups (encode128 n) := by
  induction n using Nat.strongRecOn with
  | ind n ih =>
      by_cases hlt : n < 128
      · rw [encode128_of_lt hlt]
        exact .last (by rw [toNat_ofNat_lt (by omega)]; exact hlt)
      · rw [encode128_of_le (by omega)]
        exact .more (by rw [toNat_ofNat_lt (by omega)]; omega) (ih (n / 128) (by omega))

theorem value128_encode128 (n : Nat) : value128 (encode128 n) = n := by
  induction n using Nat.strongRecOn with
  | ind n ih =>
      by_cases hlt : n < 128
      · rw [encode128_of_lt hlt, value128, value128, toNat_ofNat_lt (by omega)]
        omega
      · rw [encode128_of_le (by omega), value128, ih (n / 128) (by omega),
          toNat_ofNat_lt (by omega)]
        omega

/-- Seven bits a byte. -/
theorem length_encode128_le_of_lt (h : n < 128 ^ (k + 1)) : (encode128 n).length ≤ k + 1 := by
  induction k generalizing n with
  | zero =>
      rw [encode128_of_lt (by omega)]
      exact Nat.le_refl _
  | succ k ih =>
      by_cases hlt : n < 128
      · rw [encode128_of_lt hlt]
        exact Nat.le_add_left _ _
      · have hdiv : n / 128 < 128 ^ (k + 1) := by
          rw [Nat.div_lt_iff_lt_mul (by decide), ← Nat.pow_succ]
          exact h
        rw [encode128_of_le (by omega), List.length_cons]
        exact Nat.succ_le_succ (ih hdiv)

theorem length_encode128_pos (n : Nat) : 0 < (encode128 n).length := by
  by_cases hlt : n < 128
  · rw [encode128_of_lt hlt]
    exact Nat.one_pos
  · rw [encode128_of_le (by omega)]
    exact Nat.succ_pos _

/-- A larger number has no shorter form. -/
theorem length_encode128_mono {m n : Nat} (h : m ≤ n) :
    (encode128 m).length ≤ (encode128 n).length := by
  induction n using Nat.strongRecOn generalizing m with
  | ind n ih =>
      by_cases hlt : m < 128
      · rw [encode128_of_lt hlt]
        exact length_encode128_pos n
      · have hm : 128 ≤ m := by omega
        have hn : 128 ≤ n := by omega
        rw [encode128_of_le hm, encode128_of_le hn, List.length_cons, List.length_cons]
        exact Nat.succ_le_succ (ih (n / 128) (by omega) (by omega))

/-! ### Any form -/

theorem Groups.ne_nil (h : Groups g) : g ≠ [] := by
  cases h <;> exact List.cons_ne_nil _ _

theorem value128_lt (g : List UInt8) : value128 g < 128 ^ g.length := by
  induction g with
  | nil => exact Nat.one_pos
  | cons b g ih =>
      rw [value128, List.length_cons, Nat.pow_succ]
      omega

/-- No form of a number is shorter. -/
theorem Groups.length_encode128_le (h : Groups g) :
    (encode128 (value128 g)).length ≤ g.length := by
  obtain ⟨k, hk⟩ := Nat.exists_eq_succ_of_ne_zero (mt List.length_eq_zero_iff.mp h.ne_nil)
  have hlt := value128_lt g
  rw [hk] at hlt ⊢
  exact length_encode128_le_of_lt hlt

/-- A stream starts with a form, or every byte of it has its high bit set. -/
theorem groups_or_open (l : List UInt8) :
    (∃ g r, Groups g ∧ l = g ++ r) ∨ ∀ b ∈ l, 128 ≤ b.toNat := by
  induction l with
  | nil => exact Or.inr nofun
  | cons b l ih =>
      by_cases hlt : b.toNat < 128
      · exact Or.inl ⟨[b], l, .last hlt, rfl⟩
      · rcases ih with ⟨g, r, hg, rfl⟩ | hopen
        · exact Or.inl ⟨b :: g, r, .more (by omega) hg, rfl⟩
        · exact Or.inr (List.forall_mem_cons.mpr ⟨by omega, hopen⟩)

end ACoral.Lib
