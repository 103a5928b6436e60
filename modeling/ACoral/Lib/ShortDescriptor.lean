import Mathlib.Data.Nat.Bitwise

/-!
# `ACoral.Lib.ShortDescriptor`: a two-level translation table

The walk of a memory management unit with short descriptors. The first level
has one descriptor for each megabyte of virtual addresses. It is a fault, a
section of one megabyte, or the base of a table of 256 descriptors, one for
each 4 KB of that megabyte. A descriptor of the second level is a fault, a
large page of 64 KB or a small page of 4 KB.

A table of the first level is a function from the number of the megabyte to
its descriptor, and the memory a function from the address of a word to the
word. Only the address that comes out is modelled, not the attributes: in a
descriptor they are the low bits, below the base (`or_mod`, `or_div`).

* `walk_fault`: no descriptor, no address.
* `walk_section`: the address a descriptor for a section gives.
* `walk_table`, `walkTable_congr`: a descriptor for a table, and what of the memory it reads.
* `walk_smallPage`: the address a pair of descriptors for a small page gives.
-/

set_option autoImplicit false

namespace ACoral.Lib

/-- The second level: the descriptor of `va` in the table at `base`. -/
def walkTable (mem : Nat → Nat) (base va : Nat) : Option Nat :=
  let desc := mem (base + 4 * (va / 2 ^ 12 % 256))
  if desc % 4 = 0 then none
  else if desc % 4 = 1 then some (desc / 2 ^ 16 * 2 ^ 16 + va % 2 ^ 16)
  else some (desc / 2 ^ 12 * 2 ^ 12 + va % 2 ^ 12)

/-- The physical address of `va`, or `none` for a translation fault. -/
def walk (level1 mem : Nat → Nat) (va : Nat) : Option Nat :=
  let desc := level1 (va / 2 ^ 20)
  if desc % 4 = 0 then none
  else if desc % 4 = 1 then walkTable mem (desc / 2 ^ 10 * 2 ^ 10) va
  else some (desc / 2 ^ 20 * 2 ^ 20 + va % 2 ^ 20)

/-! ### A base with its attributes -/

/-- Attributes below an aligned base are added to it. -/
theorem or_attr {n base attr : Nat} (hbase : base % 2 ^ n = 0) (hattr : attr < 2 ^ n) :
    base ||| attr = base + attr := by
  obtain ⟨k, rfl⟩ := Nat.dvd_of_mod_eq_zero hbase
  exact (Nat.two_pow_add_eq_or_of_lt hattr k).symm

/-- The type of a descriptor is the type in its attributes. -/
theorem or_mod {n base attr : Nat} (hn : 2 ≤ n) (hbase : base % 2 ^ n = 0)
    (hattr : attr < 2 ^ n) : (base ||| attr) % 4 = attr % 4 := by
  have hfour : 4 ∣ base := by
    have hdvd : 2 ^ 2 ∣ 2 ^ n := Nat.pow_dvd_pow 2 hn
    exact hdvd.trans (Nat.dvd_of_mod_eq_zero hbase)
  rw [or_attr hbase hattr, Nat.add_mod, Nat.mod_eq_zero_of_dvd hfour, Nat.zero_add,
    Nat.mod_mod]

/-- The base of a descriptor, without its attributes. -/
theorem or_div {n base attr : Nat} (hbase : base % 2 ^ n = 0) (hattr : attr < 2 ^ n) :
    (base ||| attr) / 2 ^ n * 2 ^ n = base := by
  obtain ⟨k, rfl⟩ := Nat.dvd_of_mod_eq_zero hbase
  rw [or_attr hbase hattr, Nat.mul_add_div (Nat.two_pow_pos n), Nat.div_eq_of_lt hattr,
    Nat.add_zero, Nat.mul_comm]

/-! ### The walk -/

/-- No address comes out of a fault in the first level. -/
theorem walk_fault {level1 mem : Nat → Nat} {va : Nat} (h : level1 (va / 2 ^ 20) = 0) :
    walk level1 mem va = none := by
  unfold walk
  rw [h]
  rfl

/-- A descriptor for a section. -/
theorem walk_section {level1 mem : Nat → Nat} {va base attr : Nat}
    (h : level1 (va / 2 ^ 20) = base ||| attr) (hbase : base % 2 ^ 20 = 0)
    (hattr : attr < 2 ^ 20) (hsection : 2 ≤ attr % 4) :
    walk level1 mem va = some (base + va % 2 ^ 20) := by
  have htype : (base ||| attr) % 4 = attr % 4 := or_mod (by omega) hbase hattr
  simp only [walk, h, htype]
  rw [if_neg (by omega), if_neg (by omega), or_div hbase hattr]

/-- A descriptor for a table. -/
theorem walk_table {level1 mem : Nat → Nat} {va : Nat} (h : level1 (va / 2 ^ 20) % 4 = 1) :
    walk level1 mem va = walkTable mem (level1 (va / 2 ^ 20) / 2 ^ 10 * 2 ^ 10) va := by
  simp only [walk, h]
  rfl

/-- The first level decides alone if it has no descriptor for a table. -/
theorem walk_of_not_table {level1 mem mem' : Nat → Nat} {va : Nat}
    (h : level1 (va / 2 ^ 20) % 4 ≠ 1) : walk level1 mem va = walk level1 mem' va := by
  simp only [walk, if_neg h]

/-- The second level reads one word of the table. -/
theorem walkTable_congr {mem mem' : Nat → Nat} {base va : Nat}
    (h : ∀ q < 256, mem (base + 4 * q) = mem' (base + 4 * q)) :
    walkTable mem base va = walkTable mem' base va := by
  simp only [walkTable, h _ (Nat.mod_lt (va / 2 ^ 12) (by decide : 0 < 256))]

/-- The walk reads one descriptor of the first level. -/
theorem walk_congr {level1 level1' mem : Nat → Nat} {va : Nat}
    (h : level1 (va / 2 ^ 20) = level1' (va / 2 ^ 20)) :
    walk level1 mem va = walk level1' mem va := by
  simp only [walk, h]

/-- A descriptor for a small page. -/
theorem walkTable_smallPage {mem : Nat → Nat} {base va frame attr : Nat}
    (h : mem (base + 4 * (va / 2 ^ 12 % 256)) = frame ||| attr) (hframe : frame % 2 ^ 12 = 0)
    (hattr : attr < 2 ^ 12) (hpage : 2 ≤ attr % 4) :
    walkTable mem base va = some (frame + va % 2 ^ 12) := by
  have htype : (frame ||| attr) % 4 = attr % 4 := or_mod (by omega) hframe hattr
  simp only [walkTable, h, htype]
  rw [if_neg (by omega), if_neg (by omega), or_div hframe hattr]

/-- A descriptor for a table, and a descriptor for a small page in it. -/
theorem walk_smallPage {level1 mem : Nat → Nat} {va base frame attr1 attr2 : Nat}
    (h1 : level1 (va / 2 ^ 20) = base ||| attr1) (hbase : base % 2 ^ 10 = 0)
    (hattr1 : attr1 < 2 ^ 10) (htable : attr1 % 4 = 1)
    (h2 : mem (base + 4 * (va / 2 ^ 12 % 256)) = frame ||| attr2) (hframe : frame % 2 ^ 12 = 0)
    (hattr2 : attr2 < 2 ^ 12) (hpage : 2 ≤ attr2 % 4) :
    walk level1 mem va = some (frame + va % 2 ^ 12) := by
  have htype1 : (base ||| attr1) % 4 = 1 := by rw [or_mod (by omega) hbase hattr1, htable]
  have htab : walkTable mem base va = some (frame + va % 2 ^ 12) :=
    walkTable_smallPage h2 hframe hattr2 hpage
  simp only [walk, h1, htype1, or_div hbase hattr1, htab, Nat.one_ne_zero, if_false, if_true]

end ACoral.Lib
