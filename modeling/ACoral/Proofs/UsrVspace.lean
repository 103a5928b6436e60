import ACoral.Kernel.UsrVspace

/-!
# `ACoral.Proofs.UsrVspace`: isolation of the user spaces

Every space gets one table of 256 entries and the memory it asked for, one
behind the other. What a space maps goes by whole megabytes, rounded down but
one at least, and a table is used for each. So the spaces are apart exactly
when each of them fills its megabytes, begins on one, and none but the last
is larger than the megabyte of its table.

* `mapTables_spec`, `activateTables_spec`: what the loops write.
* `mappedAddr_of_entry`, `mappedAddr_eq_none`: what an activated space maps.
* `Laid`: where the spaces are and what their tables hold, with its step lemma
  `laid_step` and run lemma `laid_run`.
* `isolated_iff_fits`: `Laid` spaces are isolated exactly when they fit.
* `usrSpaces_isolated`: the same of every sequence of accepted lengths.
-/

set_option autoImplicit false

namespace ACoral

open Lib

-- `omega` normalises sums of large numerals, such as `1024 * (n + 1)`, by
-- recursion over the numeral
set_option maxRecDepth 10000

/-! ### The numbers of a space -/

/-- The tables of a space, as a quotient. -/
theorem ptr1stNum_eq (length : Nat) : ptr1stNum length = max 1 (length / 2 ^ 20) := by
  unfold ptr1stNum
  rw [Nat.shiftRight_eq_div_pow]
  split <;> omega

theorem ptr1stNum_pos (length : Nat) : 0 < ptr1stNum length := by
  rw [ptr1stNum_eq]
  omega

/-- The test of a table's address lets a multiple of a kilobyte pass. -/
theorem table_aligned {pte : Nat} (h : pte % 1024 = 0) : pte &&& 0x3ff = 0 := by
  rw [show (0x3ff : Nat) = 2 ^ 10 - 1 by rfl, Nat.and_two_pow_sub_one_eq_mod]
  exact h

/-- The test of a page's address lets a multiple of 4 KB pass. -/
theorem page_aligned {pa : Nat} (h : pa % 4096 = 0) : pa &&& (1 <<< 12 - 1) = 0 := by
  rw [show (1 <<< 12 - 1 : Nat) = 2 ^ 12 - 1 by rfl, Nat.and_two_pow_sub_one_eq_mod]
  exact h

/-- The target of an entry, without the shifts. -/
theorem target_eq {paddr i j : Nat} (h : paddr + i * 2 ^ 20 + j * 4096 < 2 ^ 32) :
    (paddr + i <<< 20 + j <<< 12) % 2 ^ 32 = paddr + i * 2 ^ 20 + j * 4096 := by
  rw [Nat.shiftLeft_eq, Nat.shiftLeft_eq]
  omega

/-! ### The loops -/

/-- The inner loop fills `n` entries, each with the next page from `j` on, and
writes nothing else. -/
theorem mapEntries_spec {paddr i : Nat} (hpaddr : paddr % 4096 = 0) (n : Nat) :
    ∀ (j pte : Nat) (mem : Nat → Nat), pte + 4 * n < 2 ^ 32 →
      paddr + i * 2 ^ 20 + (j + n) * 4096 ≤ 2 ^ 32 →
      ∃ mem', mapEntries paddr i n j pte mem = some mem' ∧
        (∀ q, q < n → mem' (pte + 4 * q) = (paddr + i * 2 ^ 20 + (j + q) * 4096) ||| 0xd76) ∧
        ∀ a, a < pte ∨ pte + 4 * n ≤ a → mem' a = mem a := by
  induction n with
  | zero =>
      intro j pte mem _ _
      exact ⟨mem, rfl, by omega, fun _ _ => rfl⟩
  | succ n ih =>
      intro j pte mem hpte hpage
      obtain ⟨mem', hrun, hwritten, hframe⟩ := ih (j + 1) (pte + 4)
        (Function.update mem pte ((paddr + i * 2 ^ 20 + j * 4096) ||| 0xd76)) (by omega) (by omega)
      refine ⟨mem', ?_, ?_, ?_⟩
      · rw [mapEntries, target_eq (by omega), page_aligned (by omega),
          Nat.mod_eq_of_lt (by omega : pte + 4 < 2 ^ 32)]
        exact hrun
      · intro q hq
        cases q with
        | zero =>
            -- the rest of the loop leaves the first entry alone
            rw [hframe _ (Or.inl (by omega))]
            exact Function.update_self ..
        | succ q =>
            have hnext := hwritten q (by omega)
            rw [show pte + 4 + 4 * q = pte + 4 * (q + 1) by omega,
              show j + 1 + q = j + (q + 1) by omega] at hnext
            exact hnext
      · intro a ha
        rw [hframe a (by omega)]
        exact Function.update_of_ne (by omega) ..

/-- The outer loop fills `n` tables with the pages from the megabyte `i` on, up
to the megabyte `last`. -/
theorem mapTables_spec {paddr last : Nat} (hpaddr : paddr % 4096 = 0)
    (hlast : paddr + last * 2 ^ 20 ≤ 2 ^ 32) (n : Nat) :
    ∀ (i pte : Nat) (mem : Nat → Nat), pte % 1024 = 0 → pte + 1024 * n < 2 ^ 32 →
      i + n = last →
      ∃ mem', mapTables paddr n i pte mem = some mem' ∧
        (∀ q, q < 256 * n → mem' (pte + 4 * q) = (paddr + i * 2 ^ 20 + q * 4096) ||| 0xd76) ∧
        ∀ a, a < pte ∨ pte + 1024 * n ≤ a → mem' a = mem a := by
  induction n with
  | zero =>
      intro i pte mem _ _ _
      exact ⟨mem, rfl, by omega, fun _ _ => rfl⟩
  | succ n ih =>
      intro i pte mem halign hpte hpage
      obtain ⟨mem1, hrun1, hwritten1, hframe1⟩ :=
        mapEntries_spec (i := i) hpaddr 256 0 pte mem (by omega) (by omega)
      obtain ⟨mem2, hrun2, hwritten2, hframe2⟩ :=
        ih (i + 1) (pte + 1024) mem1 (by omega) (by omega) (by omega)
      refine ⟨mem2, ?_, ?_, ?_⟩
      · rw [mapTables, table_aligned halign, hrun1, Nat.mod_eq_of_lt (by omega : pte + 256 * 4 < 2 ^ 32)]
        exact hrun2
      · intro q hq
        by_cases hq1 : q < 256
        · rw [hframe2 _ (Or.inl (by omega)), hwritten1 q hq1, Nat.zero_add]
        · have hnext := hwritten2 (q - 256) (by omega)
          rw [show pte + 1024 + 4 * (q - 256) = pte + 4 * q by omega,
            show paddr + (i + 1) * 2 ^ 20 + (q - 256) * 4096 = paddr + i * 2 ^ 20 + q * 4096 by
              omega] at hnext
          exact hnext
      · intro a ha
        rw [hframe2 a (by omega), hframe1 a (by omega)]

/-- Activation enters `n` tables in the first one, and nothing else. -/
theorem activateTables_spec (n : Nat) :
    ∀ (ptr pte : Nat) (t : Nat → Nat), pte % 1024 = 0 → pte + 1024 * n < 2 ^ 32 →
      ptr + n ≤ 4096 →
      ∃ t', activateTables n ptr pte t = some t' ∧
        (∀ k, k < n → t' (ptr + k) = (pte + 1024 * k) ||| 0x1e1) ∧
        ∀ k, k < ptr ∨ ptr + n ≤ k → t' k = t k := by
  induction n with
  | zero =>
      intro ptr pte t _ _ _
      exact ⟨t, rfl, by omega, fun _ _ => rfl⟩
  | succ n ih =>
      intro ptr pte t halign hpte hptr
      obtain ⟨t', hrun, hwritten, hframe⟩ := ih (ptr + 1) (pte + 1024)
        (Function.update t ptr (pte ||| 0x1e1)) (by omega) (by omega) (by omega)
      refine ⟨t', ?_, ?_, ?_⟩
      · rw [activateTables, table_aligned halign, Nat.mod_eq_of_lt (by omega : pte + 256 * 4 < 2 ^ 32),
          if_neg (by omega), if_pos (by omega)]
        exact hrun
      · intro k hk
        cases k with
        | zero =>
            rw [hframe _ (Or.inl (by omega))]
            exact Function.update_self ..
        | succ k =>
            have hnext := hwritten k (by omega)
            rw [show ptr + 1 + k = ptr + (k + 1) by omega,
              show pte + 1024 + 1024 * k = pte + 1024 * (k + 1) by omega] at hnext
            exact hnext
      · intro k hk
        rw [hframe k (by omega)]
        exact Function.update_of_ne (by omega) ..

/-! ### What an activated space maps -/

/-- The tables of a space and its virtual addresses lie where they can. -/
structure SpacePlaced (uvs : UsrVspace) : Prop where
  aligned : uvs.l2tableAddr % 1024 = 0
  tables : uvs.l2tableAddr + 1024 * ptr1stNum uvs.length < 2 ^ 32
  vaddr : uvs.vaddrStart / 2 ^ 20 + ptr1stNum uvs.length ≤ 4096

/-- The activation of a space ends, and enters its tables. -/
theorem mmuActivateUsrSpace_spec {uvs : UsrVspace} (h : SpacePlaced uvs) (m : Mmu) :
    ∃ t, mmuActivateUsrSpace m uvs = some { m with firstPageTable := t } ∧
      (∀ k, k < ptr1stNum uvs.length →
        t (uvs.vaddrStart / 2 ^ 20 + k) = (uvs.l2tableAddr + 1024 * k) ||| 0x1e1) ∧
      ∀ k, k < uvs.vaddrStart / 2 ^ 20 ∨ uvs.vaddrStart / 2 ^ 20 + ptr1stNum uvs.length ≤ k →
        t k = m.firstPageTable k := by
  obtain ⟨t, hrun, hwritten, hframe⟩ := activateTables_spec (ptr1stNum uvs.length)
    (uvs.vaddrStart / 2 ^ 20) uvs.l2tableAddr m.firstPageTable h.aligned h.tables h.vaddr
  refine ⟨t, ?_, hwritten, hframe⟩
  rw [mmuActivateUsrSpace, Nat.shiftRight_eq_div_pow, hrun, Option.map_some]

/-- Nothing is mapped outside of the megabytes that a space enters. -/
theorem mappedAddr_eq_none {uvs : UsrVspace} (h : SpacePlaced uvs) (m : Mmu) {va : Nat}
    (hva : va / 2 ^ 20 < uvs.vaddrStart / 2 ^ 20 ∨
      uvs.vaddrStart / 2 ^ 20 + ptr1stNum uvs.length ≤ va / 2 ^ 20) :
    mappedAddr m uvs va = none := by
  obtain ⟨t, hrun, _, hframe⟩ :=
    mmuActivateUsrSpace_spec h { m with firstPageTable := fun _ => 0 }
  rw [mappedAddr, hrun, Option.bind_some]
  exact walk_fault (hframe _ hva)

/-- Inside of them, the entry for `va` decides. It is the entry `q` of all the
tables of the space. -/
theorem mappedAddr_of_entry {uvs : UsrVspace} (h : SpacePlaced uvs) {m : Mmu} {va q page : Nat}
    (hq : va / 4096 = uvs.vaddrStart / 2 ^ 20 * 256 + q) (hlt : q < 256 * ptr1stNum uvs.length)
    (hpage : page % 4096 = 0) (hentry : m.mem (uvs.l2tableAddr + 4 * q) = page ||| 0xd76) :
    mappedAddr m uvs va = some (page + va % 4096) := by
  obtain ⟨t, hrun, hwritten, _⟩ :=
    mmuActivateUsrSpace_spec h { m with firstPageTable := fun _ => 0 }
  rw [mappedAddr, hrun, Option.bind_some]
  -- the table and the entry in it that the walk takes
  have hmega : va / 2 ^ 20 = uvs.vaddrStart / 2 ^ 20 + q / 256 := by
    rw [show (2 : Nat) ^ 20 = 4096 * 256 by rfl, ← Nat.div_div_eq_div_mul va, hq]
    omega
  have htable : t (va / 2 ^ 20) = (uvs.l2tableAddr + 1024 * (q / 256)) ||| 0x1e1 := by
    rw [hmega]
    exact hwritten _ (by omega)
  have haddr : uvs.l2tableAddr + 1024 * (q / 256) + 4 * (va / 2 ^ 12 % 256)
      = uvs.l2tableAddr + 4 * q := by
    rw [show (2 : Nat) ^ 12 = 4096 by rfl, hq]
    omega
  have hbase : (uvs.l2tableAddr + 1024 * (q / 256)) % 2 ^ 10 = 0 := by
    have := h.aligned
    omega
  exact walk_smallPage htable hbase (by decide) rfl (haddr ▸ hentry) hpage (by decide) (by decide)

/-! ### Allocation -/

/-- The allocation of a table, without the wrap of a `u32`. -/
theorem mmuAllocL2Table_eq {m : Mmu} (hl2 : m.l2tablesAllocIndex ≤ l2tablesEnd) :
    mmuAllocL2Table m =
      if m.l2tablesAllocIndex + 1024 ≤ l2tablesEnd then
        some (l2tablesStart + m.l2tablesAllocIndex,
          { m with l2tablesAllocIndex := m.l2tablesAllocIndex + 1024 })
      else none := by
  have ⟨hend, hstart⟩ : l2tablesEnd = 0x40000000 ∧ l2tablesStart = 0x3ff00000 := ⟨rfl, rfl⟩
  have hsize : mmuL2tblSize = 1024 := rfl
  unfold mmuAllocL2Table
  rw [hsize, Nat.mod_eq_of_lt (by omega : l2tablesStart + m.l2tablesAllocIndex < 2 ^ 32)]
  by_cases htable : m.l2tablesAllocIndex + 1024 ≤ l2tablesEnd
  · rw [if_pos htable, if_pos (by omega),
      Nat.mod_eq_of_lt (by omega : m.l2tablesAllocIndex + 1024 < 2 ^ 32)]
  · rw [if_neg htable, if_neg (by omega)]

/-- What an accepted allocation gives and changes, as long as both indexes are
within what the allocator compares them with. -/
theorem mmuAllocUsrSpaceAligned_eq_some {m m' : Mmu} {length l2tableAddr paddr : Nat}
    (husr : m.usrSpaceAllocIndex ≤ usrSpaceEnd) (hl2 : m.l2tablesAllocIndex ≤ l2tablesEnd) :
    mmuAllocUsrSpaceAligned m length = some (l2tableAddr, paddr, m') ↔
      length % 4096 = 0 ∧ m.usrSpaceAllocIndex + length ≤ usrSpaceEnd ∧
      m.l2tablesAllocIndex + 1024 ≤ l2tablesEnd ∧
      l2tableAddr = l2tablesStart + m.l2tablesAllocIndex ∧
      paddr = usrSpaceStart + m.usrSpaceAllocIndex ∧
      m' = { m with
        usrSpaceAllocIndex := m.usrSpaceAllocIndex + length
        l2tablesAllocIndex := m.l2tablesAllocIndex + 1024 } := by
  have hmask : length &&& 0x00000fff = length % 4096 := by
    rw [show (0x00000fff : Nat) = 2 ^ 12 - 1 by rfl, Nat.and_two_pow_sub_one_eq_mod]
  have ⟨hend, hstart⟩ : usrSpaceEnd = 0x3ff00000 ∧ usrSpaceStart = 0x30000000 := ⟨rfl, rfl⟩
  unfold mmuAllocUsrSpaceAligned
  rw [hmask, mmuAllocL2Table_eq hl2]
  by_cases hlen : length % 4096 = 0
  · by_cases hspace : m.usrSpaceAllocIndex + length ≤ usrSpaceEnd
    · rw [if_pos hlen, if_pos (by omega)]
      by_cases htable : m.l2tablesAllocIndex + 1024 ≤ l2tablesEnd
      · simp only [if_pos htable, Option.map_some, Option.some.injEq, Prod.mk.injEq]
        rw [Nat.mod_eq_of_lt (by omega : usrSpaceStart + m.usrSpaceAllocIndex < 2 ^ 32),
          Nat.mod_eq_of_lt (by omega : m.usrSpaceAllocIndex + length < 2 ^ 32)]
        constructor
        · rintro ⟨rfl, rfl, rfl⟩
          exact ⟨hlen, hspace, htable, rfl, rfl, rfl⟩
        · rintro ⟨-, -, -, rfl, rfl, rfl⟩
          exact ⟨rfl, rfl, rfl⟩
      · simp [htable]
    · rw [if_pos hlen, if_neg (by omega)]
      simp [hspace]
  · rw [if_neg hlen]
    simp [hlen]

/-! ### Where the spaces are -/

/-- The request that a space was made for. -/
def UsrSpace.req (sp : UsrSpace) : SpaceReq :=
  { length := sp.uvs.length, vaddr := sp.uvs.vaddrStart }

/-- The virtual range of a request ends where the 32 bits of an address do, or
before. -/
def SpaceReq.InRange (req : SpaceReq) : Prop :=
  req.vaddr < 2 ^ 32 ∧ req.vaddr + req.length ≤ 2 ^ 32

/-- The entry `q` of the tables of a space is for the page `q` of its memory. -/
def EntryHeld (mem : Nat → Nat) (sp : UsrSpace) (q : Nat) : Prop :=
  mem (sp.uvs.l2tableAddr + 4 * q) = (sp.paddr + q * 4096) ||| 0xd76

/-- The invariant of a sequence of calls. Each space has its memory and one
table behind those of the space before it, and what was written to its first
table is still there. The tables of the last space are all still there. -/
structure Laid (s : UsrSystem) (reqs : List SpaceReq) : Prop where
  made : s.spaces.map UsrSpace.req = reqs
  inRange : ∀ req ∈ reqs, req.InRange
  pageAligned : ∀ sp ∈ s.spaces, sp.paddr % 4096 = 0 ∧ sp.uvs.length % 4096 = 0
  usrIndex : s.mmu.usrSpaceAllocIndex % 4096 = 0 ∧ s.mmu.usrSpaceAllocIndex ≤ usrSpaceEnd
  l2Index : s.mmu.l2tablesAllocIndex = 1024 * s.spaces.length ∧
    s.mmu.l2tablesAllocIndex ≤ l2tablesEnd
  l2table : ∀ k sp, s.spaces[k]? = some sp → sp.uvs.l2tableAddr = l2tablesStart + 1024 * k
  below : ∀ sp ∈ s.spaces,
    sp.paddr + sp.uvs.length ≤ usrSpaceStart + s.mmu.usrSpaceAllocIndex
  apart : s.spaces.Pairwise fun a b => a.paddr + a.uvs.length ≤ b.paddr
  entries : ∀ sp ∈ s.spaces, ∀ q, q < 256 → EntryHeld s.mmu.mem sp q
  lastEntries : ∀ sp, s.spaces.getLast? = some sp →
    ∀ q, q < 256 * ptr1stNum sp.uvs.length → EntryHeld s.mmu.mem sp q

/-- A space that is `Laid` is in the reach of the hardware. -/
theorem Laid.placed {s : UsrSystem} {reqs : List SpaceReq} (h : Laid s reqs) {sp : UsrSpace}
    (hsp : sp ∈ s.spaces) : SpacePlaced sp.uvs := by
  obtain ⟨k, hk⟩ := List.mem_iff_getElem?.mp hsp
  have hbound : k < s.spaces.length := (List.getElem?_eq_some_iff.mp hk).1
  have htable : sp.uvs.l2tableAddr = 0x3ff00000 + 1024 * k := h.l2table k sp hk
  have hindex : 1024 * s.spaces.length ≤ 0x40000000 := h.l2Index.1 ▸ h.l2Index.2
  have hlength : sp.uvs.length ≤ 0x30000000 + 0x3ff00000 :=
    (Nat.le_add_left _ _).trans ((h.below sp hsp).trans (Nat.add_le_add_left h.usrIndex.2 _))
  have hrange : sp.req.InRange := h.inRange _ (h.made ▸ List.mem_map_of_mem hsp)
  obtain ⟨hvaddr, hend⟩ : sp.uvs.vaddrStart < 2 ^ 32 ∧
    sp.uvs.vaddrStart + sp.uvs.length ≤ 2 ^ 32 := hrange
  constructor
  · omega
  · rw [ptr1stNum_eq]
    omega
  · rw [ptr1stNum_eq]
    omega

/-- The spaces stay `Laid` with one more behind them, whose tables are filled
and where nothing below its tables is written. -/
theorem Laid.append {s : UsrSystem} {reqs : List SpaceReq} (h : Laid s reqs) (sp : UsrSpace)
    (m : Mmu) (hreq : sp.req.InRange) (hlen : sp.uvs.length % 4096 = 0)
    (hl2 : sp.uvs.l2tableAddr = l2tablesStart + s.mmu.l2tablesAllocIndex)
    (hpaddr : sp.paddr = usrSpaceStart + s.mmu.usrSpaceAllocIndex)
    (husrIndex : m.usrSpaceAllocIndex = s.mmu.usrSpaceAllocIndex + sp.uvs.length)
    (hl2Index : m.l2tablesAllocIndex = s.mmu.l2tablesAllocIndex + 1024)
    (husrEnd : m.usrSpaceAllocIndex ≤ usrSpaceEnd) (hl2End : m.l2tablesAllocIndex ≤ l2tablesEnd)
    (hwritten : ∀ q, q < 256 * ptr1stNum sp.uvs.length → EntryHeld m.mem sp q)
    (hframe : ∀ a, a < sp.uvs.l2tableAddr → m.mem a = s.mmu.mem a) :
    Laid { mmu := m, spaces := s.spaces ++ [sp] } (reqs ++ [sp.req]) where
  made := by rw [List.map_append, h.made, List.map_singleton]
  inRange := by
    intro req hmem
    rcases List.mem_append.mp hmem with hold | hnew
    · exact h.inRange req hold
    · exact List.mem_singleton.mp hnew ▸ hreq
  pageAligned := by
    intro x hx
    rcases List.mem_append.mp hx with hold | hnew
    · exact h.pageAligned x hold
    · rw [List.mem_singleton.mp hnew, hpaddr]
      have hstart : usrSpaceStart = 0x30000000 := rfl
      have hidx := h.usrIndex.1
      exact ⟨by omega, hlen⟩
  usrIndex := by
    have hidx := h.usrIndex.1
    exact ⟨by show m.usrSpaceAllocIndex % 4096 = 0; omega, husrEnd⟩
  l2Index := by
    refine ⟨?_, hl2End⟩
    show m.l2tablesAllocIndex = 1024 * (s.spaces ++ [sp]).length
    rw [hl2Index, h.l2Index.1, List.length_append, List.length_singleton, Nat.mul_succ]
  l2table := by
    intro k x hk
    by_cases hlt : k < s.spaces.length
    · rw [List.getElem?_append_left hlt] at hk
      exact h.l2table k x hk
    · rw [List.getElem?_append_right (by omega)] at hk
      obtain ⟨hzero, hx⟩ := List.getElem?_eq_some_iff.mp hk
      have hk : k = s.spaces.length := by
        rw [List.length_singleton] at hzero
        omega
      rw [List.getElem_singleton] at hx
      rw [← hx, hl2, h.l2Index.1, hk]
  below := by
    intro x hx
    show x.paddr + x.uvs.length ≤ usrSpaceStart + m.usrSpaceAllocIndex
    rcases List.mem_append.mp hx with hold | hnew
    · have hbelow := h.below x hold
      omega
    · rw [List.mem_singleton.mp hnew]
      omega
  apart := by
    refine List.pairwise_append.mpr ⟨h.apart, List.pairwise_singleton _ _, ?_⟩
    intro x hx y hy
    rw [List.mem_singleton.mp hy, hpaddr]
    exact h.below x hx
  entries := by
    intro x hx q hq
    rcases List.mem_append.mp hx with hold | hnew
    · -- the table of `x` lies below the one of the new space
      have hlt : x.uvs.l2tableAddr + 1024 ≤ sp.uvs.l2tableAddr := by
        obtain ⟨k, hk⟩ := List.mem_iff_getElem?.mp hold
        have hbound : k < s.spaces.length := (List.getElem?_eq_some_iff.mp hk).1
        rw [h.l2table k x hk, hl2, h.l2Index.1]
        omega
      exact (hframe _ (by omega)).trans (h.entries x hold q hq)
    · rw [List.mem_singleton.mp hnew]
      have hpos := ptr1stNum_pos sp.uvs.length
      exact hwritten q (by omega)
  lastEntries := by
    intro x hx
    rw [List.getLast?_concat, Option.some.injEq] at hx
    exact hx ▸ hwritten

/-- The three calls of a step, one after the other. -/
theorem usrSpaceStep_eq {s : UsrSystem} {req : SpaceReq} {l2tableAddr paddr : Nat} {m m' : Mmu}
    {mem : Nat → Nat}
    (halloc : mmuAllocUsrSpaceAligned s.mmu req.length = some (l2tableAddr, paddr, m))
    (hmap : mapTables paddr (ptr1stNum req.length) 0 l2tableAddr m.mem = some mem)
    (hactivate : mmuActivateUsrSpace { m with mem := mem }
      { vaddrStart := req.vaddr, l2tableAddr := l2tableAddr, length := req.length } = some m') :
    usrSpaceStep s req = some
      { mmu := m'
        spaces := s.spaces ++
          [{ uvs := { vaddrStart := req.vaddr, l2tableAddr := l2tableAddr, length := req.length }
             paddr := paddr }] } := by
  simp [usrSpaceStep, halloc, mmuMapUsrSpace, hmap, hactivate]

/-- The step lemma. A space that the allocator accepts is mapped and activated,
and the spaces are `Laid` with it. -/
theorem laid_step {s : UsrSystem} {reqs : List SpaceReq} (h : Laid s reqs) {req : SpaceReq}
    (hreq : req.InRange) {l2tableAddr paddr : Nat} {m : Mmu}
    (halloc : mmuAllocUsrSpaceAligned s.mmu req.length = some (l2tableAddr, paddr, m)) :
    ∃ s', usrSpaceStep s req = some s' ∧ Laid s' (reqs ++ [req]) ∧
      s'.mmu.usrSpaceAllocIndex = m.usrSpaceAllocIndex ∧
      s'.mmu.l2tablesAllocIndex = m.l2tablesAllocIndex := by
  obtain ⟨hlen, hspace, htable, rfl, rfl, rfl⟩ :=
    (mmuAllocUsrSpaceAligned_eq_some h.usrIndex.2 h.l2Index.2).mp halloc
  have ⟨hend, hstart⟩ : usrSpaceEnd = 0x3ff00000 ∧ usrSpaceStart = 0x30000000 := ⟨rfl, rfl⟩
  have ⟨hl2end, hl2start⟩ : l2tablesEnd = 0x40000000 ∧ l2tablesStart = 0x3ff00000 := ⟨rfl, rfl⟩
  have hnum : ptr1stNum req.length ≤ 1023 := by
    rw [ptr1stNum_eq]
    omega
  have hidx := h.usrIndex.1
  have hidx2 := h.l2Index.1
  have hplaced : SpacePlaced
      { vaddrStart := req.vaddr
        l2tableAddr := l2tablesStart + s.mmu.l2tablesAllocIndex
        length := req.length } := by
    obtain ⟨hvaddr, hvend⟩ := hreq
    constructor
    · show (l2tablesStart + s.mmu.l2tablesAllocIndex) % 1024 = 0
      omega
    · show l2tablesStart + s.mmu.l2tablesAllocIndex + 1024 * ptr1stNum req.length < 2 ^ 32
      omega
    · show req.vaddr / 2 ^ 20 + ptr1stNum req.length ≤ 4096
      rw [ptr1stNum_eq]
      omega
  obtain ⟨mem, hmap, hwritten, hframe⟩ := mapTables_spec
    (by omega : (usrSpaceStart + s.mmu.usrSpaceAllocIndex) % 4096 = 0)
    (by omega : _ + ptr1stNum req.length * 2 ^ 20 ≤ 2 ^ 32) (ptr1stNum req.length) 0
    (l2tablesStart + s.mmu.l2tablesAllocIndex) s.mmu.mem hplaced.aligned hplaced.tables
    (Nat.zero_add _)
  obtain ⟨t, hactivate, _, _⟩ := mmuActivateUsrSpace_spec hplaced
    { s.mmu with
      usrSpaceAllocIndex := s.mmu.usrSpaceAllocIndex + req.length
      l2tablesAllocIndex := s.mmu.l2tablesAllocIndex + 1024
      mem := mem }
  refine ⟨_, usrSpaceStep_eq halloc hmap hactivate,
    h.append _ _ hreq hlen rfl rfl rfl rfl hspace htable ?_ ?_, rfl, rfl⟩
  · intro q hq
    have hentry := hwritten q hq
    rw [Nat.zero_mul, Nat.add_zero] at hentry
    exact hentry
  · intro a ha
    exact hframe a (Or.inl ha)

/-- The run lemma. Where the allocator accepts every length, every space is
mapped and activated, and the spaces are `Laid`. -/
theorem laid_run {s : UsrSystem} {done reqs : List SpaceReq} (h : Laid s done) {m : Mmu}
    (husr : s.mmu.usrSpaceAllocIndex = m.usrSpaceAllocIndex)
    (hl2 : s.mmu.l2tablesAllocIndex = m.l2tablesAllocIndex)
    (hrange : ∀ req ∈ reqs, req.InRange) (hacc : AllAccepted m reqs) :
    ∃ s', run usrSpaceStep s reqs = some s' ∧ Laid s' (done ++ reqs) := by
  induction reqs generalizing s m done with
  | nil => exact ⟨s, rfl, (List.append_nil done).symm ▸ h⟩
  | cons req reqs ih =>
      obtain ⟨m', hrun⟩ := Option.isSome_iff_exists.mp hacc
      obtain ⟨m1, hstep, hrest⟩ := run_cons_eq_some.mp hrun
      obtain ⟨⟨l2tableAddr, paddr, m1⟩, halloc, rfl⟩ := Option.map_eq_some_iff.mp hstep
      -- the allocator sees nothing but the two indexes
      obtain ⟨hlen, hspace, htable, -, -, rfl⟩ := (mmuAllocUsrSpaceAligned_eq_some
        (husr ▸ h.usrIndex.2) (hl2 ▸ h.l2Index.2)).mp halloc
      obtain ⟨s1, hstep1, hlaid1, husr1, hl21⟩ := laid_step h (hrange req List.mem_cons_self)
        ((mmuAllocUsrSpaceAligned_eq_some h.usrIndex.2 h.l2Index.2).mpr
          ⟨hlen, husr ▸ hspace, hl2 ▸ htable, rfl, rfl, rfl⟩)
      obtain ⟨s', hrun', hlaid'⟩ := ih hlaid1 (husr ▸ husr1) (hl2 ▸ hl21)
        (fun req hreq => hrange req (List.mem_cons_of_mem _ hreq))
        (Option.isSome_iff_exists.mpr ⟨m', hrest⟩)
      rw [List.append_assoc, List.singleton_append] at hlaid'
      exact ⟨s', run_cons_eq_some.mpr ⟨s1, hstep1, hrun'⟩, hlaid'⟩

/-! ### Isolation -/

/-- The spaces fit their tables: each is made of whole megabytes and begins on
one, and each but the last is a single megabyte. -/
structure SpacesFit (reqs : List SpaceReq) : Prop where
  whole : ∀ req ∈ reqs, 0 < req.length ∧ req.length % 2 ^ 20 = 0
  vaddr : ∀ req ∈ reqs, req.vaddr % 2 ^ 20 = 0
  single : ∀ req ∈ reqs.dropLast, req.length = 2 ^ 20

/-- A statement about the requests is one about the spaces made for them. -/
theorem Laid.forall_iff {s : UsrSystem} {reqs : List SpaceReq} (h : Laid s reqs)
    (P : SpaceReq → Prop) : (∀ req ∈ reqs, P req) ↔ ∀ sp ∈ s.spaces, P sp.req := by
  rw [← h.made, List.forall_mem_map]

/-- A page that an entry of a space is for is mapped by the space. -/
theorem Laid.mappedAddr_eq {s : UsrSystem} {reqs : List SpaceReq} (h : Laid s reqs)
    {sp : UsrSpace} (hsp : sp ∈ s.spaces) {va q : Nat}
    (hq : va / 4096 = sp.uvs.vaddrStart / 2 ^ 20 * 256 + q)
    (hlt : q < 256 * ptr1stNum sp.uvs.length) (hentry : EntryHeld s.mmu.mem sp q) :
    mappedAddr s.mmu sp.uvs va = some (sp.paddr + q * 4096 + va % 4096) := by
  have hpage := (h.pageAligned sp hsp).1
  exact mappedAddr_of_entry (h.placed hsp) hq hlt (by omega) hentry

/-- A space that is isolated fills its megabytes and begins on one. The last
page of its first table shows that it has a whole megabyte, and the last byte
of its range that no part of one is left over. -/
theorem whole_of_isolated {s : UsrSystem} {reqs : List SpaceReq} (h : Laid s reqs)
    (hiso : SpacesIsolated s) {sp : UsrSpace} (hsp : sp ∈ s.spaces) :
    0 < sp.uvs.length ∧ sp.uvs.length % 2 ^ 20 = 0 ∧ sp.uvs.vaddrStart % 2 ^ 20 = 0 := by
  obtain ⟨hpaddr, hlen⟩ := h.pageAligned sp hsp
  have hpos := ptr1stNum_pos sp.uvs.length
  have hmega : 2 ^ 20 ≤ sp.uvs.length := by
    have hmapped := h.mappedAddr_eq hsp
      (by omega : (sp.uvs.vaddrStart / 2 ^ 20 * 256 + 255) * 4096 / 4096 = _ + 255) (by omega)
      (h.entries sp hsp 255 (by omega))
    obtain ⟨-, hpage⟩ := hiso.within sp hsp ⟨_, _, hmapped, rfl⟩
    omega
  have hcovered := hiso.covers sp hsp (sp.uvs.vaddrStart + sp.uvs.length - 1) (by omega) (by omega)
  have hnum : ptr1stNum sp.uvs.length = sp.uvs.length / 2 ^ 20 := by
    rw [ptr1stNum_eq]
    omega
  have hreach : (sp.uvs.vaddrStart + sp.uvs.length - 1) / 2 ^ 20
      < sp.uvs.vaddrStart / 2 ^ 20 + sp.uvs.length / 2 ^ 20 := by
    by_contra hout
    rw [mappedAddr_eq_none (h.placed hsp) s.mmu (Or.inr (by omega))] at hcovered
    exact absurd hcovered (by decide)
  omega

/-- A relation between the entries of a list, by their places. -/
theorem rel_of_pairwise {α : Type} {R : α → α → Prop} {l : List α} (h : l.Pairwise R) {i j : Nat}
    {a b : α} (hi : l[i]? = some a) (hj : l[j]? = some b) (hij : i < j) : R a b := by
  obtain ⟨hi', rfl⟩ := List.getElem?_eq_some_iff.mp hi
  obtain ⟨hj', rfl⟩ := List.getElem?_eq_some_iff.mp hj
  exact List.pairwise_iff_getElem.mp h i j hi' hj' hij

/-- An isolated space that is not the last has no more than a megabyte: the
table of the next one begins right behind its first. -/
theorem single_of_isolated {s : UsrSystem} {reqs : List SpaceReq} (h : Laid s reqs)
    (hiso : SpacesIsolated s) {sp : UsrSpace} (hsp : sp ∈ s.spaces.dropLast) :
    sp.uvs.length = 2 ^ 20 := by
  obtain ⟨k, hk⟩ := List.mem_iff_getElem?.mp hsp
  rw [List.getElem?_dropLast] at hk
  obtain ⟨hlt, hk⟩ := Option.ite_none_right_eq_some.mp hk
  have hnext : s.spaces[k + 1]? = some (s.spaces.get ⟨k + 1, by omega⟩) :=
    List.getElem?_eq_getElem (by omega)
  have hapart := rel_of_pairwise hiso.tables hk hnext (Nat.lt_succ_self k)
  obtain ⟨hpos, hwhole, -⟩ := whole_of_isolated h hiso (List.mem_of_getElem? hk)
  have hnum := ptr1stNum_eq sp.uvs.length
  have hnum' := ptr1stNum_pos (s.spaces.get ⟨k + 1, by omega⟩).uvs.length
  have htable := h.l2table k sp hk
  have htable' := h.l2table (k + 1) _ hnext
  by_contra hlarge
  have hnum2 : 2 ≤ ptr1stNum sp.uvs.length := by omega
  have hin : l2tablesStart + 1024 * (k + 1) ∈ tableAddrs sp.uvs := by
    constructor
    · omega
    · rw [mmuL2tblSize]
      omega
  have hin' : l2tablesStart + 1024 * (k + 1)
      ∈ tableAddrs (s.spaces.get ⟨k + 1, by omega⟩).uvs := by
    constructor
    · omega
    · rw [mmuL2tblSize]
      omega
  exact Set.disjoint_left.mp hapart hin hin'

/-- In spaces that fit, every entry of every table is still there. -/
theorem entryHeld_of_fit {s : UsrSystem} {reqs : List SpaceReq} (h : Laid s reqs)
    (hsingle : ∀ sp ∈ s.spaces.dropLast, sp.uvs.length = 2 ^ 20) {sp : UsrSpace}
    (hsp : sp ∈ s.spaces) {q : Nat} (hq : q < 256 * ptr1stNum sp.uvs.length) :
    EntryHeld s.mmu.mem sp q := by
  obtain ⟨k, hk⟩ := List.mem_iff_getElem?.mp hsp
  have hbound : k < s.spaces.length := (List.getElem?_eq_some_iff.mp hk).1
  by_cases hlast : k + 1 = s.spaces.length
  · refine h.lastEntries sp ?_ q hq
    rw [List.getLast?_eq_getElem?, ← hk, ← hlast, Nat.add_sub_cancel]
  · have hmem : sp ∈ s.spaces.dropLast := by
      refine List.mem_iff_getElem?.mpr ⟨k, ?_⟩
      rw [List.getElem?_dropLast, if_pos (by omega), hk]
    rw [hsingle sp hmem] at hq
    exact h.entries sp hsp q hq

/-- What a space maps, when all fit: its virtual range, byte by byte, to its
memory. -/
theorem mappedAddr_of_fit {s : UsrSystem} {reqs : List SpaceReq} (h : Laid s reqs)
    (hsingle : ∀ sp ∈ s.spaces.dropLast, sp.uvs.length = 2 ^ 20) {sp : UsrSpace}
    (hsp : sp ∈ s.spaces) (hwhole : 0 < sp.uvs.length ∧ sp.uvs.length % 2 ^ 20 = 0)
    (hvaddr : sp.uvs.vaddrStart % 2 ^ 20 = 0) (va : Nat) :
    mappedAddr s.mmu sp.uvs va =
      if sp.uvs.vaddrStart ≤ va ∧ va < sp.uvs.vaddrStart + sp.uvs.length then
        some (sp.paddr + (va - sp.uvs.vaddrStart))
      else none := by
  have hnum : ptr1stNum sp.uvs.length = sp.uvs.length / 2 ^ 20 := by
    rw [ptr1stNum_eq]
    omega
  split
  case isTrue hin =>
      have hlt : (va - sp.uvs.vaddrStart) / 4096 < 256 * ptr1stNum sp.uvs.length := by omega
      rw [h.mappedAddr_eq hsp (by omega) hlt (entryHeld_of_fit h hsingle hsp hlt)]
      congr 1
      omega
  case isFalse hout => exact mappedAddr_eq_none (h.placed hsp) s.mmu (by omega)

/-- Every page that a fitting space maps was allocated for it. -/
theorem within_of_fit {s : UsrSystem} {reqs : List SpaceReq} (h : Laid s reqs)
    (hsingle : ∀ sp ∈ s.spaces.dropLast, sp.uvs.length = 2 ^ 20) {sp : UsrSpace}
    (hsp : sp ∈ s.spaces) (hwhole : 0 < sp.uvs.length ∧ sp.uvs.length % 2 ^ 20 = 0)
    (hvaddr : sp.uvs.vaddrStart % 2 ^ 20 = 0) :
    mappedPages s.mmu sp.uvs ⊆ allocatedPages sp := by
  rintro page ⟨va, pa, hmapped, rfl⟩
  rw [mappedAddr_of_fit h hsingle hsp hwhole hvaddr] at hmapped
  obtain ⟨hin, hpa⟩ := Option.ite_none_right_eq_some.mp hmapped
  obtain rfl := Option.some.inj hpa
  have hpaddr := (h.pageAligned sp hsp).1
  constructor <;> omega

/-- Spaces before the last that have one table each share none. -/
theorem tables_of_single {s : UsrSystem} {reqs : List SpaceReq} (h : Laid s reqs)
    (hsingle : ∀ sp ∈ s.spaces.dropLast, sp.uvs.length = 2 ^ 20) :
    s.spaces.Pairwise fun a b => Disjoint (tableAddrs a.uvs) (tableAddrs b.uvs) := by
  refine List.pairwise_iff_getElem.mpr ?_
  intro i j hi hj hij
  have hl2i := h.l2table i _ (List.getElem?_eq_getElem hi)
  have hl2j := h.l2table j _ (List.getElem?_eq_getElem hj)
  have hmem : s.spaces[i] ∈ s.spaces.dropLast := by
    refine List.mem_iff_getElem?.mpr ⟨i, ?_⟩
    rw [List.getElem?_dropLast, if_pos (by omega), List.getElem?_eq_getElem hi]
  have hnum : ptr1stNum (s.spaces[i]).uvs.length = 1 := by
    rw [hsingle _ hmem]
    rfl
  refine Set.disjoint_left.mpr ?_
  rintro a ⟨-, hai⟩ ⟨haj, -⟩
  rw [hnum, mmuL2tblSize] at hai
  omega

/-- `Laid` spaces are isolated exactly when they fit. -/
theorem isolated_iff_fit {s : UsrSystem} {reqs : List SpaceReq} (h : Laid s reqs) :
    SpacesIsolated s ↔ SpacesFit reqs := by
  have hlast : reqs.dropLast = s.spaces.dropLast.map UsrSpace.req := by
    rw [← h.made, List.map_dropLast]
  constructor
  · intro hiso
    constructor
    · intro req hreq
      obtain ⟨sp, hsp, rfl⟩ := List.mem_map.mp (h.made ▸ hreq)
      exact ⟨(whole_of_isolated h hiso hsp).1, (whole_of_isolated h hiso hsp).2.1⟩
    · intro req hreq
      obtain ⟨sp, hsp, rfl⟩ := List.mem_map.mp (h.made ▸ hreq)
      exact (whole_of_isolated h hiso hsp).2.2
    · rw [hlast, List.forall_mem_map]
      intro sp hsp
      exact single_of_isolated h hiso hsp
  · intro hfit
    have hwhole := (h.forall_iff _).mp hfit.whole
    have hvaddr := (h.forall_iff _).mp hfit.vaddr
    have hsingle : ∀ sp ∈ s.spaces.dropLast, sp.uvs.length = 2 ^ 20 :=
      List.forall_mem_map.mp (hlast ▸ hfit.single)
    have hwithin := fun sp hsp => within_of_fit h hsingle hsp (hwhole sp hsp) (hvaddr sp hsp)
    refine ⟨?_, tables_of_single h hsingle, ?_, hwithin⟩
    · refine h.apart.imp_of_mem ?_
      intro a b ha hb hab
      refine Set.disjoint_left.mpr ?_
      intro page hpa hpb
      have hina := (hwithin a ha hpa).2
      have hinb := (hwithin b hb hpb).1
      omega
    · intro sp hsp va hstart hend
      rw [mappedAddr_of_fit h hsingle hsp (hwhole sp hsp) (hvaddr sp hsp), if_pos ⟨hstart, hend⟩]
      rfl

/-! ### Every sequence of spaces -/

/-- The state in which nothing is allocated, with any memory and any first
table. -/
def usrSystemInit (mem firstPageTable : Nat → Nat) : UsrSystem where
  mmu :=
    { usrSpaceAllocIndex := 0
      l2tablesAllocIndex := 0
      mem := mem
      firstPageTable := firstPageTable }
  spaces := []

/-- Without a space there is nothing to lay out. -/
theorem laid_init (mem firstPageTable : Nat → Nat) : Laid (usrSystemInit mem firstPageTable) [] where
  made := rfl
  inRange := by simp
  pageAligned := by simp [usrSystemInit]
  usrIndex := ⟨rfl, Nat.zero_le _⟩
  l2Index := ⟨rfl, Nat.zero_le _⟩
  l2table := by simp [usrSystemInit]
  below := by simp [usrSystemInit]
  apart := List.Pairwise.nil
  entries := by simp [usrSystemInit]
  lastEntries := by simp [usrSystemInit]

/-- Every sequence of lengths that the allocator accepts, each for a range of
virtual addresses, is mapped and activated to its end, and its spaces are
isolated exactly when they fit their tables. -/
theorem usrSpaces_isolated (mem firstPageTable : Nat → Nat) (reqs : List SpaceReq)
    (hrange : ∀ req ∈ reqs, req.InRange)
    (hacc : AllAccepted (usrSystemInit mem firstPageTable).mmu reqs) :
    ∃ s, run usrSpaceStep (usrSystemInit mem firstPageTable) reqs = some s ∧
      (SpacesIsolated s ↔ SpacesFit reqs) := by
  obtain ⟨s, hrun, hlaid⟩ := laid_run (laid_init mem firstPageTable) rfl rfl hrange hacc
  exact ⟨s, hrun, isolated_iff_fit hlaid⟩

/-- Two spaces of a megabyte at the same virtual address, and a third one of
three megabytes. -/
theorem usrSpaces_isolated_three :
    ∃ s, run usrSpaceStep (usrSystemInit (fun _ => 0) fun _ => 0)
        [⟨0x100000, 0xc0000000⟩, ⟨0x100000, 0xc0000000⟩, ⟨0x300000, 0xd0000000⟩] = some s ∧
      (SpacesIsolated s ↔
        SpacesFit [⟨0x100000, 0xc0000000⟩, ⟨0x100000, 0xc0000000⟩, ⟨0x300000, 0xd0000000⟩]) :=
  usrSpaces_isolated (fun _ => 0) (fun _ => 0) _ (by simp [SpaceReq.InRange])
    (by unfold AllAccepted; decide)

/-- Two spaces of 8 KB and 12 KB, as the test of the module makes them. The
first one maps the memory of the second. -/
theorem small_spaces_shared :
    ∃ s, run usrSpaceStep (usrSystemInit (fun _ => 0) fun _ => 0)
        [⟨0x2000, 0xc0000000⟩, ⟨0x3000, 0xc0000000⟩] = some s ∧ ¬ SpacesIsolated s := by
  obtain ⟨s, hrun, hlaid⟩ := laid_run (laid_init (fun _ => 0) fun _ => 0) rfl rfl
    (by simp [SpaceReq.InRange] :
      ∀ req ∈ [SpaceReq.mk 0x2000 0xc0000000, ⟨0x3000, 0xc0000000⟩], req.InRange)
    (by unfold AllAccepted; decide)
  refine ⟨s, hrun, ?_⟩
  intro hiso
  have hwhole := ((isolated_iff_fit hlaid).mp hiso).whole ⟨0x2000, 0xc0000000⟩ (by simp)
  exact absurd hwhole.2 (by decide)

end ACoral
