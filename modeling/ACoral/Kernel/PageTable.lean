import ACoral.Kernel.UsrAlloc

/-!
# `ACoral.Kernel.PageTable`: the two ways of `mmu.c` to map a range

`mmu_set_L1table` enters a range of virtual addresses in the table of the first level, one
section for each megabyte. `mmu_set_L2table` enters the tables of `_2nd_page_table` there,
one for each megabyte, and fills them with small pages.

As in `ACoral.Kernel.UsrVspace`, the table of the first level is an array of its own, and the
memory is a function from the address of a word to the word. The two functions stop for good
on a range or an address that is not aligned: this and a write outside of the first table
are `none`.
-/

set_option autoImplicit false

namespace ACoral

/-- `_1st_page_table`, and the memory with `_2nd_page_table`. -/
structure PageTables where
  first : Nat → Nat
  mem : Nat → Nat

/-- The physical address of `va`, or `none` for a translation fault. -/
def PageTables.walk (t : PageTables) (va : Nat) : Option Nat := Lib.walk t.first t.mem va

/-- The address of `_2nd_page_table`, an array of 4096 tables that is aligned to 16 KB. -/
structure SecondPageTable where
  adr : Nat
  aligned : adr % 2 ^ 14 = 0
  fits : adr + 4096 * 1024 ≤ 2 ^ 32

/-- `&_2nd_page_table[k][0]` -/
def SecondPageTable.table (second : SecondPageTable) (k : Nat) : Nat := second.adr + 1024 * k

/-! ### Sections -/

/-- The loop of `mmu_set_L1table` from `i` on, with `n` more sections. -/
def setSections (paddrStart attr : Nat) :
    (n i ptt : Nat) → (Nat → Nat) → Option (Nat → Nat)
  | 0,     _, _,   first => some first
  | n + 1, i, ptt, first =>
      if ptt < 4 * 1024 then
        setSections paddrStart attr n (i + 1) (ptt + 1)
          (Function.update first ptt (attr ||| (paddrStart >>> 20 + i) <<< 20 % 2 ^ 32))
      else none

/-- `mmu_set_L1table`. The test of the size is `x & (0xfffff != 0)`, for `!=` binds closer: it
looks at the lowest bit only. -/
def mmuSetL1Table (vaddrStart vaddrEnd paddrStart attr : Nat) (t : PageTables) :
    Option PageTables :=
  if (u32Add (u32Sub vaddrEnd vaddrStart) 1) &&& 1 ≠ 0 then none
  else
    let nSec : Int := (vaddrEnd >>> 20 : Nat) - (vaddrStart >>> 20 : Nat)
    (setSections paddrStart attr (nSec + 1).toNat 0 (vaddrStart >>> 20) t.first).map
      fun first => { t with first := first }

/-! ### Pages -/

/-- The inner loop of `mmu_set_L2table` from `j` on, with `n` more entries. -/
def setPages (paddrStart i : Nat) : (n j pte2nd : Nat) → (Nat → Nat) → Option (Nat → Nat)
  | 0,     _, _,      mem => some mem
  | n + 1, j, pte2nd, mem =>
      let targetPaddr := (paddrStart + i <<< 20 + j <<< 12) % 2 ^ 32
      if targetPaddr &&& (1 <<< 12 - 1) ≠ 0 then none
      else
        setPages paddrStart i n (j + 1) (pte2nd + 4)
          (Function.update mem pte2nd (targetPaddr ||| 0x576))

/-- The outer loop from `i` on, with `n` more tables. -/
def setTables (second : SecondPageTable) (ptr1stIndexStart paddrStart : Nat) :
    (n i : Nat) → PageTables → Option PageTables
  | 0,     _, t => some t
  | n + 1, i, t =>
      let pte2nd := second.table (ptr1stIndexStart + i)
      if pte2nd &&& 0x3ff ≠ 0 then none
      else if ptr1stIndexStart + i < 4 * 1024 then
        (setPages paddrStart i 256 0 pte2nd t.mem).bind fun mem =>
          setTables second ptr1stIndexStart paddrStart n (i + 1)
            { first := Function.update t.first (ptr1stIndexStart + i) (pte2nd ||| 0x1e1)
              mem := mem }
      else none

/-- `mmu_set_L2table`, which does not use its last argument. -/
def mmuSetL2Table (second : SecondPageTable) (vaddrStart vaddrEnd paddrStart : Nat)
    (t : PageTables) : Option PageTables :=
  setTables second (vaddrStart >>> 20) paddrStart
    (u32Sub (vaddrEnd >>> 20) (vaddrStart >>> 20)) 0 t

/-! ### A range that is mapped both ways -/

/-- A range of whole megabytes, up to and including `vaddrEnd`, with an aligned physical base
and the attributes of a section. -/
structure MapRange where
  vaddrStart : Nat
  vaddrEnd : Nat
  paddrStart : Nat
  attr : Nat
  start_aligned : vaddrStart % 2 ^ 20 = 0
  end_aligned : (vaddrEnd + 1) % 2 ^ 20 = 0
  start_le : vaddrStart ≤ vaddrEnd
  end_lt : vaddrEnd < 2 ^ 32
  paddr_aligned : paddrStart % 2 ^ 20 = 0
  attr_lt : attr < 2 ^ 18
  attr_section : attr % 4 = 2

namespace MapRange

variable (r : MapRange)

/-- The number of the first megabyte. -/
def firstMb : Nat := r.vaddrStart / 2 ^ 20

/-- The number of the last megabyte. -/
def lastMb : Nat := r.vaddrEnd / 2 ^ 20

/-- The physical address that megabyte `k` of the range is to have. -/
def target (k : Nat) : Nat := (r.paddrStart + (k - r.firstMb) * 2 ^ 20) % 2 ^ 32

end MapRange

/-- Both functions return, both of them give every address of the range the same physical
address, and none of them changes the translation of another address. -/
def PathsAgree (second : SecondPageTable) (r : MapRange) (t : PageTables) : Prop :=
  ∃ t1 t2, mmuSetL1Table r.vaddrStart r.vaddrEnd r.paddrStart r.attr t = some t1 ∧
    mmuSetL2Table second r.vaddrStart r.vaddrEnd r.paddrStart t = some t2 ∧
    (∀ va, r.vaddrStart ≤ va → va ≤ r.vaddrEnd → t1.walk va = t2.walk va) ∧
    ∀ va < 2 ^ 32, va < r.vaddrStart ∨ r.vaddrEnd < va →
      t1.walk va = t.walk va ∧ t2.walk va = t.walk va

/-- The descriptor of megabyte `m` is for the table `k` of `_2nd_page_table`. -/
def PointsTo (second : SecondPageTable) (t : PageTables) (m k : Nat) : Prop :=
  t.first m % 4 = 1 ∧ t.first m / 2 ^ 10 * 2 ^ 10 = second.table k

/-- What `mmu_set_L2table` leaves out has been there before: the last megabyte has its
translation, and not through a table that is filled now. And who else uses one of these
tables has the translation that is filled in. -/
structure AlreadyMapped (second : SecondPageTable) (r : MapRange) (t : PageTables) : Prop where
  last : ∀ va, va / 2 ^ 20 = r.lastMb → t.walk va = some (r.target r.lastMb + va % 2 ^ 20)
  last_entry : ∀ k, r.firstMb ≤ k → k < r.lastMb → ¬ PointsTo second t r.lastMb k
  others : ∀ m < 4096, m < r.firstMb ∨ r.lastMb < m →
    ∀ k, r.firstMb ≤ k → k < r.lastMb → PointsTo second t m k →
      ∀ va, va / 2 ^ 20 = m → t.walk va = some (r.target k + va % 2 ^ 20)

end ACoral
