import Mathlib.Data.Set.BooleanAlgebra
import Mathlib.Data.Set.Disjoint
import Mathlib.Order.CompletePartialOrder
import ACoral.Lib.GuardedRun
import ACoral.Lib.ShortDescriptor

/-!
# `ACoral.Kernel.UsrVspace`: address spaces for the user

`mmu_alloc_usr_space_aligned` takes physical memory and a table of the second
level for a space, `mmu_map_usr_space` fills the table, and
`mmu_activate_usr_space` enters it in the table of the first level.

Every address is a `u32`. The memory is a function from the address of a word
to the word; the table of the first level is an array of its own. The two
loops of `mmu_map_usr_space` and the one of `mmu_activate_usr_space` stop for
good where a base is not aligned: this and a write outside of the first table
are `none`. The functions that map and activate return -1 in every case, so
that what they return is left out.
-/

set_option autoImplicit false

namespace ACoral

/-! ### Addresses of the linker script -/

/-- `_usr_space_start` -/
def usrSpaceStart : Nat := 0x30000000

/-- `_usr_space_end` -/
def usrSpaceEnd : Nat := 0x30000000 + 0x0ff00000

/-- `_L2tables_start` -/
def l2tablesStart : Nat := 0x3ff00000

/-- `_L2tables_end` -/
def l2tablesEnd : Nat := 0x3ff00000 + 0x00100000

/-- `MMU_L2TBL_SIZE` -/
def mmuL2tblSize : Nat := 256 * 4

/-- `usr_vspace_t` -/
structure UsrVspace where
  vaddrStart : Nat
  l2tableAddr : Nat
  length : Nat
deriving DecidableEq, Repr

/-- The static variables of the file, the memory and `_1st_page_table`. -/
structure Mmu where
  usrSpaceAllocIndex : Nat
  l2tablesAllocIndex : Nat
  mem : Nat → Nat
  firstPageTable : Nat → Nat

/-! ### Allocation -/

/-- `mmu_alloc_L2_table`, which `mmu_alloc_usr_space_aligned` has once more in
its body. -/
def mmuAllocL2Table (m : Mmu) : Option (Nat × Mmu) :=
  -- the address of the end against an offset
  if mmuL2tblSize ≤ (l2tablesEnd + 2 ^ 32 - m.l2tablesAllocIndex) % 2 ^ 32 then
    some ((l2tablesStart + m.l2tablesAllocIndex) % 2 ^ 32,
      { m with l2tablesAllocIndex := (m.l2tablesAllocIndex + mmuL2tblSize) % 2 ^ 32 })
  else none

/-- `mmu_alloc_usr_space_aligned`: the address of the table, that of the
memory, and the new state. A failure changes nothing and is `none`. -/
def mmuAllocUsrSpaceAligned (m : Mmu) (length : Nat) : Option (Nat × Nat × Mmu) :=
  if length &&& 0x00000fff = 0 then
    if length ≤ (usrSpaceEnd + 2 ^ 32 - m.usrSpaceAllocIndex) % 2 ^ 32 then
      (mmuAllocL2Table m).map fun (l2tableAddr, m) =>
        (l2tableAddr, (usrSpaceStart + m.usrSpaceAllocIndex) % 2 ^ 32,
          { m with usrSpaceAllocIndex := (m.usrSpaceAllocIndex + length) % 2 ^ 32 })
    else none
  else none

/-! ### Mapping -/

/-- `ptr_1st_num` in both functions: the megabytes of a space, but one at
least. -/
def ptr1stNum (length : Nat) : Nat :=
  if length >>> 20 = 0 then 1 else length >>> 20

/-- The inner loop of `mmu_map_usr_space` from `j` on, with `n` more entries. -/
def mapEntries (paddr i : Nat) : Nat → Nat → Nat → (Nat → Nat) → Option (Nat → Nat)
  | 0,     _, _,      mem => some mem
  | n + 1, j, pte2nd, mem =>
      let targetPaddr := (paddr + i <<< 20 + j <<< 12) % 2 ^ 32
      if targetPaddr &&& (1 <<< 12 - 1) ≠ 0 then none
      else
        mapEntries paddr i n (j + 1) ((pte2nd + 4) % 2 ^ 32)
          (Function.update mem pte2nd (targetPaddr ||| 0xd76))

/-- The outer loop from `i` on, with `n` more tables. The inner loop has moved
`pte_2nd` over all the 256 entries of one. -/
def mapTables (paddr : Nat) : Nat → Nat → Nat → (Nat → Nat) → Option (Nat → Nat)
  | 0,     _, _,      mem => some mem
  | n + 1, i, pte2nd, mem =>
      if pte2nd &&& 0x3ff ≠ 0 then none
      else
        (mapEntries paddr i 256 0 pte2nd mem).bind fun mem =>
          mapTables paddr n (i + 1) ((pte2nd + 256 * 4) % 2 ^ 32) mem

/-- `mmu_map_usr_space` -/
def mmuMapUsrSpace (m : Mmu) (l2tableAddr vaddr paddr length : Nat) :
    Option (UsrVspace × Mmu) :=
  (mapTables paddr (ptr1stNum length) 0 l2tableAddr m.mem).map fun mem =>
    ({ vaddrStart := vaddr, l2tableAddr := l2tableAddr, length := length }, { m with mem := mem })

/-! ### Activation -/

/-- The loop of `mmu_activate_usr_space`, with `n` more tables. -/
def activateTables : Nat → Nat → Nat → (Nat → Nat) → Option (Nat → Nat)
  | 0,     _,      _,      firstPageTable => some firstPageTable
  | n + 1, ptr1st, pte2nd, firstPageTable =>
      if pte2nd &&& 0x3ff ≠ 0 then none
      else if ptr1st < 4 * 1024 then
        activateTables n (ptr1st + 1) ((pte2nd + 256 * 4) % 2 ^ 32)
          (Function.update firstPageTable ptr1st (pte2nd ||| 0x1e1))
      else none

/-- `mmu_activate_usr_space` -/
def mmuActivateUsrSpace (m : Mmu) (uvs : UsrVspace) : Option Mmu :=
  (activateTables (ptr1stNum uvs.length) (uvs.vaddrStart >>> 20) uvs.l2tableAddr
    m.firstPageTable).map fun firstPageTable => { m with firstPageTable := firstPageTable }

/-! ### Sequences of spaces -/

/-- What is asked for: a length, and the virtual address the space is for. -/
structure SpaceReq where
  length : Nat
  vaddr : Nat
deriving DecidableEq, Repr

/-- A space that was made, with the physical memory that was allocated for it. -/
structure UsrSpace where
  uvs : UsrVspace
  paddr : Nat
deriving DecidableEq, Repr

/-- The state of a sequence of calls: the module, and the spaces in the order
they were made. -/
structure UsrSystem where
  mmu : Mmu
  spaces : List UsrSpace

/-- One space: it is allocated, mapped and activated. A length that the
allocator does not accept, or a loop that does not end, is `none`. -/
def usrSpaceStep (s : UsrSystem) (req : SpaceReq) : Option UsrSystem := do
  let (l2tableAddr, paddr, m) ← mmuAllocUsrSpaceAligned s.mmu req.length
  let (uvs, m) ← mmuMapUsrSpace m l2tableAddr req.vaddr paddr req.length
  let m ← mmuActivateUsrSpace m uvs
  some { mmu := m, spaces := s.spaces ++ [{ uvs := uvs, paddr := paddr }] }

/-- The allocations of a sequence alone. -/
def allocStep (m : Mmu) (req : SpaceReq) : Option Mmu :=
  (mmuAllocUsrSpaceAligned m req.length).map fun r => r.2.2

/-- The allocator accepts every length of the sequence. -/
def AllAccepted (m : Mmu) (reqs : List SpaceReq) : Prop :=
  (Lib.run allocStep m reqs).isSome

/-! ### What a space maps -/

/-- The address that `va` has once the space is activated in an empty table of
the first level: what the activation itself maps. -/
def mappedAddr (m : Mmu) (uvs : UsrVspace) (va : Nat) : Option Nat :=
  (mmuActivateUsrSpace { m with firstPageTable := fun _ => 0 } uvs).bind fun m =>
    Lib.walk m.firstPageTable m.mem va

/-- The physical pages that the activation of a space maps. -/
def mappedPages (m : Mmu) (uvs : UsrVspace) : Set Nat :=
  {page | ∃ va pa, mappedAddr m uvs va = some pa ∧ pa / 4096 = page}

/-- The physical pages that were allocated for a space. -/
def allocatedPages (sp : UsrSpace) : Set Nat :=
  {page | sp.paddr ≤ 4096 * page ∧ 4096 * page < sp.paddr + sp.uvs.length}

/-- The addresses of the tables of the second level that a space uses. -/
def tableAddrs (uvs : UsrVspace) : Set Nat :=
  {a | uvs.l2tableAddr ≤ a ∧ a < uvs.l2tableAddr + ptr1stNum uvs.length * mmuL2tblSize}

/-- The spaces are isolated: no physical page and no table is shared, and the
mapping of a space covers its virtual range and only pages allocated for it. -/
structure SpacesIsolated (s : UsrSystem) : Prop where
  pages : s.spaces.Pairwise fun a b => Disjoint (mappedPages s.mmu a.uvs) (mappedPages s.mmu b.uvs)
  tables : s.spaces.Pairwise fun a b => Disjoint (tableAddrs a.uvs) (tableAddrs b.uvs)
  covers : ∀ sp ∈ s.spaces, ∀ va, sp.uvs.vaddrStart ≤ va →
    va < sp.uvs.vaddrStart + sp.uvs.length → (mappedAddr s.mmu sp.uvs va).isSome
  within : ∀ sp ∈ s.spaces, mappedPages s.mmu sp.uvs ⊆ allocatedPages sp

end ACoral
