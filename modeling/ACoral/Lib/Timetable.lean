import Mathlib.Order.Monotone.Basic
import Mathlib.Data.List.Basic

/-!
# `ACoral.Lib.Timetable`: a timetable repeated for ever

A timetable lists when its entries are due, and its last entry is the end of
the round. The entries are numbered through the rounds: entry number `m` is
the entry `m % n` of a table with `n` entries, in round `m / n`, and is due at
`instant m`. When the table goes up strictly from above zero, so do the
instants, and the wait from one to the next is the difference of two entries,
or the first entry at the start of a round.
-/

set_option autoImplicit false

namespace ACoral.Lib

/-- A timetable: it goes up strictly, from above zero. -/
structure Timetable where
  entries : List Nat
  nonempty : 0 < entries.length
  sorted : entries.Pairwise (· < ·)
  pos : ∀ e ∈ entries, 0 < e

namespace Timetable

variable (tab : Timetable)

/-- The number of entries. -/
def size : Nat := tab.entries.length

/-- When an entry is due within the round. -/
def entry (k : Nat) : Nat := tab.entries.getD k 0

/-- How long a round takes. -/
def round : Nat := tab.entry (tab.size - 1)

/-- When entry number `m` is due. -/
def instant (m : Nat) : Nat := m / tab.size * tab.round + tab.entry (m % tab.size)

theorem size_pos : 0 < tab.size := tab.nonempty

variable {tab}

theorem entry_eq {k : Nat} (hk : k < tab.size) : tab.entry k = tab.entries.get ⟨k, hk⟩ := by
  rw [entry, List.getD_eq_getElem?_getD, List.getElem?_eq_getElem hk]
  rfl

theorem entry_pos {k : Nat} (hk : k < tab.size) : 0 < tab.entry k := by
  rw [entry_eq hk]
  exact tab.pos _ (List.get_mem _ _)

theorem entry_lt {j k : Nat} (hjk : j < k) (hk : k < tab.size) : tab.entry j < tab.entry k := by
  rw [entry_eq hk, entry_eq (hjk.trans hk)]
  exact List.pairwise_iff_getElem.mp tab.sorted j k _ hk hjk

/-- The number of an entry, counted from the start of a round. -/
theorem instant_add (q : Nat) {k : Nat} (hk : k < tab.size) :
    tab.instant (q * tab.size + k) = q * tab.round + tab.entry k := by
  have hdiv : (q * tab.size + k) / tab.size = q := by
    rw [Nat.mul_comm, Nat.mul_add_div tab.size_pos, Nat.div_eq_of_lt hk, Nat.add_zero]
  have hmod : (q * tab.size + k) % tab.size = k := by
    rw [Nat.mul_comm, Nat.mul_add_mod, Nat.mod_eq_of_lt hk]
  rw [instant, hdiv, hmod]

theorem instant_zero : tab.instant 0 = tab.entry 0 := by
  rw [instant, Nat.zero_div, Nat.zero_mul, Nat.zero_mod, Nat.zero_add]

/-- Within a round the next instant is the next entry. -/
theorem instant_succ_of_lt {m : Nat} (h : m % tab.size + 1 < tab.size) :
    tab.instant (m + 1) = m / tab.size * tab.round + tab.entry (m % tab.size + 1) := by
  have hm : m + 1 = m / tab.size * tab.size + (m % tab.size + 1) := by
    have := Nat.div_add_mod m tab.size
    rw [Nat.mul_comm] at this
    omega
  rw [hm]
  exact instant_add _ h

/-- The last entry ends the round. -/
theorem instant_last {m : Nat} (h : m % tab.size + 1 = tab.size) :
    tab.instant m = (m / tab.size + 1) * tab.round := by
  have hk : m % tab.size = tab.size - 1 := by omega
  rw [instant, hk, Nat.add_mul, Nat.one_mul]
  rfl

theorem instant_succ_of_last {m : Nat} (h : m % tab.size + 1 = tab.size) :
    tab.instant (m + 1) = tab.instant m + tab.entry 0 := by
  have hm : m + 1 = (m / tab.size + 1) * tab.size + 0 := by
    have := Nat.div_add_mod m tab.size
    rw [Nat.mul_comm] at this
    rw [Nat.add_mul, Nat.one_mul]
    omega
  rw [hm, instant_add _ tab.size_pos, instant_last h]

theorem instant_lt_succ (m : Nat) : tab.instant m < tab.instant (m + 1) := by
  have hlt := Nat.mod_lt m tab.size_pos
  rcases Nat.lt_or_eq_of_le (Nat.succ_le_of_lt hlt) with hless | hlast
  · rw [instant_succ_of_lt hless]
    exact Nat.add_lt_add_left (entry_lt (Nat.lt_succ_self _) hless) _
  · rw [instant_succ_of_last hlast]
    exact Nat.lt_add_of_pos_right (entry_pos tab.size_pos)

theorem instant_strictMono : StrictMono tab.instant := strictMono_nat_of_lt_succ instant_lt_succ

theorem instant_pos (m : Nat) : 0 < tab.instant m :=
  Nat.add_pos_right _ (entry_pos (Nat.mod_lt m tab.size_pos))

end Timetable

end ACoral.Lib
