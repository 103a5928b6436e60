import ACoral.Kernel.UsrVspace

/-!
# `ACoral.Kernel.UsrAlloc`: the two allocators of `usr_vspace.c` on any placement

`mmu_alloc_L2_table` and `mmu_alloc_usr_space_aligned` cut tables and memory off two regions
whose ends are symbols of the linker script. Here the symbols are a `Placement`: any two
regions of the address space that do not overlap. `linkerScript` is the one of the
repository, and on it the functions are those of `ACoral.Kernel.UsrVspace`
(`mmuAllocL2Table_eq_at`, `mmuAllocUsrSpaceAligned_eq_at`).

A call answers its outputs, or `none` for a return value other than 0, and the counters
that it leaves behind.
-/

set_option autoImplicit false

namespace ACoral

/-- The symbols of the linker script for the two regions. Every symbol is a `u32`. -/
structure Placement where
  /-- `_usr_space_start` -/
  usrSpaceStart : Nat
  /-- `_usr_space_end` -/
  usrSpaceEnd : Nat
  /-- `_L2tables_start` -/
  l2tablesStart : Nat
  /-- `_L2tables_end` -/
  l2tablesEnd : Nat
  usrSpace_le : usrSpaceStart ≤ usrSpaceEnd
  usrSpace_lt : usrSpaceEnd < 2 ^ 32
  l2tables_le : l2tablesStart ≤ l2tablesEnd
  l2tables_lt : l2tablesEnd < 2 ^ 32
  apart : l2tablesEnd ≤ usrSpaceStart ∨ usrSpaceEnd ≤ l2tablesStart

/-- The placement of the repository. -/
def linkerScript : Placement where
  usrSpaceStart := usrSpaceStart
  usrSpaceEnd := usrSpaceEnd
  l2tablesStart := l2tablesStart
  l2tablesEnd := l2tablesEnd
  usrSpace_le := by decide
  usrSpace_lt := by decide
  l2tables_le := by decide
  l2tables_lt := by decide
  apart := Or.inr (by decide)

/-- `usr_space_alloc_index` and `L2tables_alloc_index`. -/
structure AllocIndex where
  usrSpace : Nat
  l2tables : Nat
deriving DecidableEq, Repr

/-- A sum of two `u32`. -/
def u32Add (x y : Nat) : Nat := (x + y) % 2 ^ 32

/-- A difference of two `u32`. -/
def u32Sub (x y : Nat) : Nat := (x + 2 ^ 32 - y) % 2 ^ 32

theorem u32Add_of_lt {x y : Nat} (h : x + y < 2 ^ 32) : u32Add x y = x + y := Nat.mod_eq_of_lt h

theorem u32Sub_of_le {x y : Nat} (h : y ≤ x) (hx : x < 2 ^ 32) : u32Sub x y = x - y := by
  unfold u32Sub
  omega

variable (p : Placement)

/-- `mmu_alloc_L2_table`. -/
def mmuAllocL2TableAt (a : AllocIndex) : Option Nat × AllocIndex :=
  -- the address of the end against an offset
  if u32Sub p.l2tablesEnd a.l2tables ≥ mmuL2tblSize then
    (some (u32Add p.l2tablesStart a.l2tables),
      { a with l2tables := u32Add a.l2tables mmuL2tblSize })
  else (none, a)

/-- `mmu_alloc_usr_space_aligned`: the address of the table and that of the memory. -/
def mmuAllocUsrSpaceAlignedAt (length : Nat) (a : AllocIndex) :
    Option (Nat × Nat) × AllocIndex :=
  if length &&& 0x00000fff = 0 then
    if u32Sub p.usrSpaceEnd a.usrSpace ≥ length then
      match mmuAllocL2TableAt p a with
      | (some l2tableAddr, a) =>
          (some (l2tableAddr, u32Add p.usrSpaceStart a.usrSpace),
            { a with usrSpace := u32Add a.usrSpace length })
      | (none, a) => (none, a)
    else (none, a)
  else (none, a)

/-! ### Sequences of calls -/

/-- A call of one of the two allocators. -/
inductive AllocOp where
  | l2Table
  | usrSpace (length : Nat)
deriving DecidableEq, Repr

/-- The counters, and the tables and the memory that have been returned, the last first. -/
structure AllocRun where
  index : AllocIndex
  tables : List Nat
  spaces : List (Nat × Nat)
deriving DecidableEq, Repr

/-- Nothing has been allocated. -/
def allocInit : AllocRun := ⟨⟨0, 0⟩, [], []⟩

/-- What a call returns, a table and the start of the memory, and the counters behind it. -/
def allocCall (a : AllocIndex) : AllocOp → Option (Nat × Option Nat) × AllocIndex
  | .l2Table => ((mmuAllocL2TableAt p a).1.map fun table => (table, none), (mmuAllocL2TableAt p a).2)
  | .usrSpace length =>
      ((mmuAllocUsrSpaceAlignedAt p length a).1.map fun (table, paddr) => (table, some paddr),
        (mmuAllocUsrSpaceAlignedAt p length a).2)

/-- The bytes of memory that a call asks for. -/
def AllocOp.length : AllocOp → Nat
  | .l2Table         => 0
  | .usrSpace length => length

/-- One call. -/
def allocRunStep (r : AllocRun) (op : AllocOp) : Option AllocRun :=
  match allocCall p r.index op with
  | (none, a)                => some { r with index := a }
  | (some (table, paddr), a) =>
      some
        { index := a
          tables := table :: r.tables
          spaces := (paddr.map fun adr => (adr, op.length)).toList ++ r.spaces }

/-! ### When the check is right -/

/-- A table fits behind the ones allocated. -/
def tableFits (a : AllocIndex) : Bool :=
  decide (p.l2tablesStart + a.l2tables + mmuL2tblSize ≤ p.l2tablesEnd)

/-- What a call asks for fits behind what has been allocated. -/
def allocFits (a : AllocIndex) : AllocOp → Bool
  | .l2Table         => tableFits p a
  | .usrSpace length =>
      decide (p.usrSpaceStart + a.usrSpace + length ≤ p.usrSpaceEnd) && tableFits p a

/-- A table does not even fit below the address of the end, counted from address 0. -/
def tableFar (a : AllocIndex) : Bool := decide (p.l2tablesEnd < a.l2tables + mmuL2tblSize)

/-- What the call asks for fits, or its length is not aligned, or it would not even fit if its
region began at address 0. -/
def allocGuard (r : AllocRun) (op : AllocOp) : Bool :=
  allocFits p r.index op ||
    match op with
    | .l2Table         => tableFar p r.index
    | .usrSpace length =>
        decide (length % 4096 ≠ 0) || decide (p.usrSpaceEnd < r.index.usrSpace + length) ||
          tableFar p r.index

end ACoral
