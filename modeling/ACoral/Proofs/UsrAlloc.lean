import ACoral.Kernel.UsrAlloc
import ACoral.Lib.Bump

/-!
# `ACoral.Proofs.UsrAlloc`: tables and spaces inside their regions

The two allocators compare the size of a request with the difference of the end address of
the region and the counter, which counts from the start of the region. So they find room for
a request that needs more than the rest of the region, by up to the start address.

`InRegions` is the invariant of a run: what has been returned is `Packed` in the two regions,
with the two counters. A call that meets `allocGuard` keeps it (`InRegions.step`), so it holds
in every run of such calls (`usrAlloc_inRegions`), where a request that does not fit fails and
changes nothing. `allocGuard` is exact at each call: the calls without it are the ones that
succeed although they do not fit (`allocGuard_iff`).
-/

set_option autoImplicit false

namespace ACoral

open Lib

variable {p : Placement} {a : AllocIndex} {r r' : AllocRun} {op : AllocOp} {length : Nat}

/-! ### The model on the placement of the repository -/

/-- The counters of the module. -/
def Mmu.allocIndex (m : Mmu) : AllocIndex := ⟨m.usrSpaceAllocIndex, m.l2tablesAllocIndex⟩

/-- The module with other counters. -/
def Mmu.withIndex (m : Mmu) (a : AllocIndex) : Mmu :=
  { m with usrSpaceAllocIndex := a.usrSpace, l2tablesAllocIndex := a.l2tables }

theorem mmuAllocL2Table_eq_at (m : Mmu) :
    mmuAllocL2Table m = (mmuAllocL2TableAt linkerScript m.allocIndex).1.map
      fun table => (table, m.withIndex (mmuAllocL2TableAt linkerScript m.allocIndex).2) := by
  show (if mmuL2tblSize ≤ u32Sub l2tablesEnd m.l2tablesAllocIndex then _ else _) = _
  unfold mmuAllocL2TableAt
  by_cases hroom : mmuL2tblSize ≤ u32Sub l2tablesEnd m.l2tablesAllocIndex
  · have hroom' : u32Sub linkerScript.l2tablesEnd m.allocIndex.l2tables ≥ mmuL2tblSize := hroom
    rw [if_pos hroom, if_pos hroom']
    rfl
  · have hroom' : ¬ u32Sub linkerScript.l2tablesEnd m.allocIndex.l2tables ≥ mmuL2tblSize := hroom
    rw [if_neg hroom, if_neg hroom']
    rfl

theorem mmuAllocUsrSpaceAligned_eq_at (m : Mmu) (length : Nat) :
    mmuAllocUsrSpaceAligned m length =
      (mmuAllocUsrSpaceAlignedAt linkerScript length m.allocIndex).1.map fun (table, paddr) =>
        (table, paddr,
          m.withIndex (mmuAllocUsrSpaceAlignedAt linkerScript length m.allocIndex).2) := by
  unfold mmuAllocUsrSpaceAligned mmuAllocUsrSpaceAlignedAt
  by_cases halign : length &&& 0x00000fff = 0
  · rw [if_pos halign, if_pos halign]
    show (if length ≤ u32Sub usrSpaceEnd m.usrSpaceAllocIndex then _ else _) = _
    by_cases hspace : length ≤ u32Sub usrSpaceEnd m.usrSpaceAllocIndex
    · have hspace' : u32Sub linkerScript.usrSpaceEnd m.allocIndex.usrSpace ≥ length := hspace
      rw [if_pos hspace, if_pos hspace', mmuAllocL2Table_eq_at]
      rcases mmuAllocL2TableAt linkerScript m.allocIndex with ⟨_ | table, a⟩
      · rfl
      · rfl
    · have hspace' : ¬ u32Sub linkerScript.usrSpaceEnd m.allocIndex.usrSpace ≥ length := hspace
      rw [if_neg hspace, if_neg hspace']
      rfl
  · rw [if_neg halign, if_neg halign]
    rfl

/-! ### One call -/

/-- The counters are within their regions. -/
structure AllocIndex.Within (a : AllocIndex) (p : Placement) : Prop where
  usrSpace : p.usrSpaceStart + a.usrSpace ≤ p.usrSpaceEnd
  l2tables : p.l2tablesStart + a.l2tables ≤ p.l2tablesEnd

/-- A table is refused if it would not even fit below the end counted from 0. -/
theorem mmuAllocL2TableAt_far (ha : a.Within p) (hfar : tableFar p a = true) :
    mmuAllocL2TableAt p a = (none, a) := by
  have hl2 := ha.l2tables
  have hfar := of_decide_eq_true hfar
  unfold mmuAllocL2TableAt
  rw [u32Sub_of_le (by omega) p.l2tables_lt, if_neg (by omega)]

/-- Otherwise the check lets it pass. -/
theorem mmuAllocL2TableAt_near (ha : a.Within p) (hnear : ¬ tableFar p a = true) :
    mmuAllocL2TableAt p a = (some (u32Add p.l2tablesStart a.l2tables),
      { a with l2tables := u32Add a.l2tables mmuL2tblSize }) := by
  have hl2 := ha.l2tables
  rw [tableFar, decide_eq_true_eq] at hnear
  unfold mmuAllocL2TableAt
  rw [u32Sub_of_le (by omega) p.l2tables_lt, if_pos (by omega)]

/-- A table that fits is the next one of its region. -/
theorem mmuAllocL2TableAt_fits (ha : a.Within p) (hfits : tableFits p a = true) :
    mmuAllocL2TableAt p a = (some (p.l2tablesStart + a.l2tables),
      { a with l2tables := a.l2tables + mmuL2tblSize }) := by
  have hend := p.l2tables_lt
  have hfits := of_decide_eq_true hfits
  have hnear : ¬ tableFar p a = true := by
    rw [tableFar, decide_eq_true_eq]
    omega
  rw [mmuAllocL2TableAt_near ha hnear, u32Add_of_lt (by omega), u32Add_of_lt (by omega)]

/-- The test of the length lets the multiples of 4 KB pass. -/
theorem length_aligned_iff : length &&& 0x00000fff = 0 ↔ length % 4096 = 0 := by
  rw [show (0x00000fff : Nat) = 2 ^ 12 - 1 from rfl, Nat.and_two_pow_sub_one_eq_mod]

/-- A space is refused if its length is not aligned, or it would not even fit below the end of
its region counted from 0, or no table is found. -/
theorem mmuAllocUsrSpaceAlignedAt_far (ha : a.Within p)
    (hfar : length % 4096 ≠ 0 ∨ p.usrSpaceEnd < a.usrSpace + length ∨ tableFar p a = true) :
    mmuAllocUsrSpaceAlignedAt p length a = (none, a) := by
  have hspace := ha.usrSpace
  unfold mmuAllocUsrSpaceAlignedAt
  rw [u32Sub_of_le (by omega) p.usrSpace_lt]
  by_cases halign : length &&& 0x00000fff = 0
  · rw [if_pos halign]
    by_cases hroom : p.usrSpaceEnd - a.usrSpace ≥ length
    · have htable : tableFar p a = true := by
        rw [length_aligned_iff] at halign
        rcases hfar with hfar | hfar | hfar
        · exact absurd halign hfar
        · omega
        · exact hfar
      rw [if_pos hroom, mmuAllocL2TableAt_far ha htable]
    · rw [if_neg hroom]
  · rw [if_neg halign]

/-- Otherwise the checks let it pass. -/
theorem mmuAllocUsrSpaceAlignedAt_near (ha : a.Within p) (halign : length % 4096 = 0)
    (hspace : a.usrSpace + length ≤ p.usrSpaceEnd) (hnear : ¬ tableFar p a = true) :
    mmuAllocUsrSpaceAlignedAt p length a =
      (some (u32Add p.l2tablesStart a.l2tables, u32Add p.usrSpaceStart a.usrSpace),
        { usrSpace := u32Add a.usrSpace length
          l2tables := u32Add a.l2tables mmuL2tblSize }) := by
  unfold mmuAllocUsrSpaceAlignedAt
  rw [if_pos (length_aligned_iff.mpr halign), u32Sub_of_le (by omega) p.usrSpace_lt,
    if_pos (by omega), mmuAllocL2TableAt_near ha hnear]

/-- A space that fits is the next one of its region, with the next table. -/
theorem mmuAllocUsrSpaceAlignedAt_fits (ha : a.Within p) (halign : length % 4096 = 0)
    (hfits : allocFits p a (.usrSpace length) = true) :
    mmuAllocUsrSpaceAlignedAt p length a =
      (some (p.l2tablesStart + a.l2tables, p.usrSpaceStart + a.usrSpace),
        { usrSpace := a.usrSpace + length, l2tables := a.l2tables + mmuL2tblSize }) := by
  have hend := p.usrSpace_lt
  have hend2 := p.l2tables_lt
  obtain ⟨hspace, htable⟩ := (Bool.and_eq_true _ _).mp hfits
  have hspace := of_decide_eq_true hspace
  have htable := of_decide_eq_true htable
  have hnear : ¬ tableFar p a = true := by
    rw [tableFar, decide_eq_true_eq]
    omega
  rw [mmuAllocUsrSpaceAlignedAt_near ha halign (by omega) hnear, u32Add_of_lt (by omega),
    u32Add_of_lt (by omega), u32Add_of_lt (by omega), u32Add_of_lt (by omega)]

/-- A call is refused and changes nothing, or its checks let it pass. -/
theorem allocCall_cases (op : AllocOp) (ha : r.index.Within p) :
    (allocCall p r.index op = (none, r.index) ∧ allocGuard p r op = true) ∨
    ((allocCall p r.index op).1.isSome = true ∧
      (allocGuard p r op = true ↔ allocFits p r.index op = true)) := by
  cases op with
  | l2Table =>
      by_cases hfar : tableFar p r.index = true
      · left
        simp [allocCall, allocGuard, mmuAllocL2TableAt_far ha hfar, hfar]
      · right
        simp [allocCall, allocGuard, mmuAllocL2TableAt_near ha hfar, hfar]
  | usrSpace length =>
      by_cases hfar : length % 4096 ≠ 0 ∨ p.usrSpaceEnd < r.index.usrSpace + length ∨
          tableFar p r.index = true
      · left
        have hcall := mmuAllocUsrSpaceAlignedAt_far ha hfar
        refine ⟨by simp [allocCall, hcall], ?_⟩
        rcases hfar with hfar | hfar | hfar <;> simp [allocGuard, hfar]
      · right
        obtain ⟨halign, hspace, htable⟩ := not_or.mp hfar |>.imp id not_or.mp
        have hcall := mmuAllocUsrSpaceAlignedAt_near ha (not_not.mp halign) (by omega) htable
        simp [allocCall, allocGuard, hcall, not_not.mp halign, hspace, htable]

/-- The calls without `allocGuard` are the ones that succeed although they do not fit. -/
theorem allocGuard_iff (ha : r.index.Within p) :
    allocGuard p r op = true ↔
      (¬ allocFits p r.index op = true → allocCall p r.index op = (none, r.index)) := by
  rcases allocCall_cases op ha with ⟨hcall, hguard⟩ | ⟨hsome, hguard⟩
  · simp [hcall, hguard]
  · rw [hguard]
    constructor
    · intro hfits hnot
      exact absurd hfits hnot
    · intro himp
      by_contra hnot
      simp [himp hnot] at hsome

/-! ### Sequences of calls -/

/-- The tables and the memory that have been returned, as blocks. -/
def AllocRun.blocks (r : AllocRun) : List (Nat × Nat) :=
  r.tables.map (fun table => (table, mmuL2tblSize)) ++ r.spaces

/-- What has been returned lies in its region, and apart from all the rest. -/
structure AllocSafe (p : Placement) (r : AllocRun) : Prop where
  tables : ∀ table ∈ r.tables, BlockIn p.l2tablesStart p.l2tablesEnd (table, mmuL2tblSize)
  spaces : ∀ space ∈ r.spaces, BlockIn p.usrSpaceStart p.usrSpaceEnd space
  apart : r.blocks.Pairwise BlocksApart

/-- The two allocators hand out their regions from the start on. -/
structure InRegions (p : Placement) (r : AllocRun) : Prop where
  tables : Packed p.l2tablesStart p.l2tablesEnd r.index.l2tables
    (r.tables.map fun table => (table, mmuL2tblSize))
  spaces : Packed p.usrSpaceStart p.usrSpaceEnd r.index.usrSpace r.spaces

namespace InRegions

theorem init : InRegions p allocInit := ⟨packed_nil p.l2tables_le, packed_nil p.usrSpace_le⟩

theorem within (h : InRegions p r) : r.index.Within p := ⟨h.spaces.index_le, h.tables.index_le⟩

theorem safe (h : InRegions p r) : AllocSafe p r where
  tables := by
    intro table htable
    exact h.tables.inside _ (List.mem_map_of_mem htable)
  spaces := h.spaces.inside
  apart := h.tables.apart_of_regions h.spaces p.apart

/-- A call that asks for what fits. -/
theorem fits (h : InRegions p r) (hfits : allocFits p r.index op = true)
    (hsome : (allocCall p r.index op).1.isSome = true) :
    ∃ r', allocRunStep p r op = some r' ∧ InRegions p r' := by
  cases op with
  | l2Table =>
      have hcall : allocCall p r.index .l2Table =
          (some (p.l2tablesStart + r.index.l2tables, none),
            { r.index with l2tables := r.index.l2tables + mmuL2tblSize }) := by
        rw [allocCall, mmuAllocL2TableAt_fits h.within hfits, Option.map_some]
      refine ⟨_, by rw [allocRunStep, hcall], ?_⟩
      exact ⟨h.tables.grant (of_decide_eq_true hfits), h.spaces⟩
  | usrSpace length =>
      have halign : length % 4096 = 0 := by
        by_contra hodd
        rw [allocCall, mmuAllocUsrSpaceAlignedAt_far h.within (Or.inl hodd)] at hsome
        exact absurd hsome Bool.false_ne_true
      obtain ⟨hspace, htable⟩ := (Bool.and_eq_true _ _).mp hfits
      have hcall : allocCall p r.index (.usrSpace length) =
          (some (p.l2tablesStart + r.index.l2tables,
              some (p.usrSpaceStart + r.index.usrSpace)),
            { usrSpace := r.index.usrSpace + length
              l2tables := r.index.l2tables + mmuL2tblSize }) := by
        rw [allocCall, mmuAllocUsrSpaceAlignedAt_fits h.within halign hfits, Option.map_some]
      refine ⟨_, by rw [allocRunStep, hcall], ?_⟩
      exact ⟨h.tables.grant (of_decide_eq_true htable), h.spaces.grant (of_decide_eq_true hspace)⟩

/-- Every call that meets `allocGuard` keeps the regions in order. -/
theorem step (h : InRegions p r) (hguard : allocGuard p r op = true)
    (hstep : allocRunStep p r op = some r') : InRegions p r' := by
  rcases allocCall_cases op h.within with ⟨hcall, -⟩ | ⟨hsome, hiff⟩
  · simp only [allocRunStep, hcall, Option.some.injEq] at hstep
    exact hstep ▸ h
  · obtain ⟨r'', hstep', hr''⟩ := h.fits (hiff.mp hguard) hsome
    rw [hstep, Option.some.injEq] at hstep'
    exact hstep' ▸ hr''

end InRegions

/-- In every run whose calls meet `allocGuard`, the tables and the spaces that have been
returned lie in their regions, apart from each other. A further call of that kind that asks
for what does not fit fails and changes no counter. -/
theorem usrAlloc_safe {ops : List AllocOp}
    (hrun : run (guarded (allocGuard p) (allocRunStep p)) allocInit ops = some r) :
    AllocSafe p r ∧ ∀ op, allocGuard p r op = true → ¬ allocFits p r.index op = true →
      allocCall p r.index op = (none, r.index) := by
  have hregions : InRegions p r :=
    guarded_induct (fun r op r' hr hguard hstep => hr.step hguard hstep) InRegions.init hrun
  refine ⟨hregions.safe, ?_⟩
  intro op hguard hfits
  exact (allocGuard_iff hregions.within).mp hguard hfits

/-- Two tables and a space of 8 KB on the placement of the repository. A request for the
whole address space is refused. -/
theorem usrAlloc_safe_three :
    ∃ r, run (guarded (allocGuard linkerScript) (allocRunStep linkerScript)) allocInit
        [.l2Table, .usrSpace 0x2000, .usrSpace 0xfffff000] = some r ∧
      (AllocSafe linkerScript r ∧ ∀ op, allocGuard linkerScript r op = true →
        ¬ allocFits linkerScript r.index op = true →
        allocCall linkerScript r.index op = (none, r.index)) := by
  have hrun : (run (guarded (allocGuard linkerScript) (allocRunStep linkerScript)) allocInit
      [.l2Table, .usrSpace 0x2000, .usrSpace 0xfffff000]).isSome = true := by decide +kernel
  obtain ⟨r, hr⟩ := Option.isSome_iff_exists.mp hrun
  exact ⟨r, hr, usrAlloc_safe hr⟩

/-- On the placement of the repository, a request for 256 MB is granted, and the space ends a
megabyte behind its region, in the region of the tables. -/
theorem usrAlloc_unsafe :
    ∃ r, run (allocRunStep linkerScript) allocInit [.usrSpace 0x10000000] = some r ∧
      r.spaces = [(0x30000000, 0x10000000)] ∧ ¬ AllocSafe linkerScript r := by
  have hrun : (run (allocRunStep linkerScript) allocInit [.usrSpace 0x10000000]).map
      AllocRun.spaces = some [(0x30000000, 0x10000000)] := by decide +kernel
  obtain ⟨r, hr, hspaces⟩ := Option.map_eq_some_iff.mp hrun
  refine ⟨r, hr, hspaces, ?_⟩
  intro hsafe
  have hmem : (0x30000000, 0x10000000) ∈ r.spaces := by
    rw [hspaces]
    exact List.mem_singleton_self _
  have hin := (hsafe.spaces _ hmem).2
  exact absurd hin (by decide)

end ACoral
