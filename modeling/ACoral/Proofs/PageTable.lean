import ACoral.Kernel.PageTable

/-!
# `ACoral.Proofs.PageTable`: sections and pages for the same range

`mmu_set_L1table` enters every megabyte of a range, the last one included.
`mmu_set_L2table` stops before the last one. So the two translate a range alike exactly when
the last megabyte had its translation before, and when nobody outside of the range is
affected by the tables that are filled (`pathsAgree_iff`).

* `setSections_spec`, `setPages_spec`, `setTables_spec`: what the loops write.
* `SectionMap.walk_in`, `SectionMap.walk_out`: what the range of sections translates.
* `PageMap.walk_in`, `PageMap.walk_table`, `PageMap.walk_out`: the same of the pages. An
  address whose megabyte is not entered is affected through a shared table only.

No descriptor is taken to be for a table inside of the table of the first level.
-/

set_option autoImplicit false

namespace ACoral

open Lib

variable {second : SecondPageTable} {r : MapRange} {t t' : PageTables}

/-! ### The numbers of a range -/

namespace MapRange

variable (r)

theorem firstMb_le : r.firstMb ≤ r.lastMb := Nat.div_le_div_right r.start_le

theorem lastMb_lt : r.lastMb < 4096 := by
  have hlt := r.end_lt
  unfold lastMb
  omega

/-- The addresses of the range are those of its megabytes. -/
theorem mem_iff (va : Nat) :
    (r.vaddrStart ≤ va ∧ va ≤ r.vaddrEnd) ↔ r.firstMb ≤ va / 2 ^ 20 ∧ va / 2 ^ 20 ≤ r.lastMb := by
  have hstart := r.start_aligned
  have hend := r.end_aligned
  unfold firstMb lastMb
  omega

theorem target_aligned (k : Nat) : r.target k % 2 ^ 20 = 0 := by
  have hp := r.paddr_aligned
  unfold target
  omega

theorem target_lt (k : Nat) : r.target k < 2 ^ 32 := Nat.mod_lt _ (by decide)

/-- Two megabytes of a range do not have the same physical address. -/
theorem target_inj {k l : Nat} (hk : r.firstMb ≤ k) (hkl : k < l) (hl : l ≤ r.lastMb) :
    r.target k ≠ r.target l := by
  have hlt := r.lastMb_lt
  unfold target
  omega

end MapRange

/-! ### The loops -/

/-- The loop enters `n` sections from `i` on, and nothing else. -/
theorem setSections_spec (paddrStart attr n : Nat) :
    ∀ (i ptt : Nat) (first : Nat → Nat), ptt + n ≤ 4096 →
      ∃ first', setSections paddrStart attr n i ptt first = some first' ∧
        (∀ q < n, first' (ptt + q) = attr ||| (paddrStart >>> 20 + (i + q)) <<< 20 % 2 ^ 32) ∧
        ∀ m, m < ptt ∨ ptt + n ≤ m → first' m = first m := by
  induction n with
  | zero =>
      intro i ptt first _
      exact ⟨first, rfl, by simp, fun _ _ => rfl⟩
  | succ n ih =>
      intro i ptt first hptt
      obtain ⟨first', hrun, hwritten, hframe⟩ := ih (i + 1) (ptt + 1)
        (Function.update first ptt (attr ||| (paddrStart >>> 20 + i) <<< 20 % 2 ^ 32)) (by omega)
      refine ⟨first', ?_, ?_, ?_⟩
      · rw [setSections, if_pos (by omega)]
        exact hrun
      · intro q hq
        cases q with
        | zero =>
            -- the rest of the loop leaves the first section alone
            rw [Nat.add_zero, hframe _ (Or.inl (Nat.lt_succ_self ptt))]
            exact Function.update_self ..
        | succ q =>
            have hnext := hwritten q (by omega)
            rw [show ptt + 1 + q = ptt + (q + 1) by omega,
              show i + 1 + q = i + (q + 1) by omega] at hnext
            exact hnext
      · intro m hm
        rw [hframe m (by omega)]
        exact Function.update_of_ne (by omega) ..

/-- The base of section `i`, without the shifts. -/
theorem target_section {paddrStart i : Nat} (hp : paddrStart % 2 ^ 20 = 0) :
    (paddrStart >>> 20 + i) <<< 20 % 2 ^ 32 = (paddrStart + i * 2 ^ 20) % 2 ^ 32 := by
  rw [Nat.shiftLeft_eq, Nat.shiftRight_eq_div_pow, Nat.add_mul,
    Nat.div_mul_cancel (Nat.dvd_of_mod_eq_zero hp)]

/-- The target of an entry of megabyte `i`, without the shifts. -/
theorem target_page {paddrStart i j : Nat} (hp : paddrStart % 2 ^ 20 = 0) (hj : j < 256) :
    (paddrStart + i <<< 20 + j <<< 12) % 2 ^ 32 =
      (paddrStart + i * 2 ^ 20) % 2 ^ 32 + j * 2 ^ 12 := by
  rw [Nat.shiftLeft_eq, Nat.shiftLeft_eq]
  omega

/-- The inner loop fills `n` entries from `j` on, and nothing else. -/
theorem setPages_spec {paddrStart i : Nat} (hp : paddrStart % 2 ^ 20 = 0) (n : Nat) :
    ∀ (j pte : Nat) (mem : Nat → Nat), j + n ≤ 256 →
      ∃ mem', setPages paddrStart i n j pte mem = some mem' ∧
        (∀ q < n, mem' (pte + 4 * q) =
          ((paddrStart + i * 2 ^ 20) % 2 ^ 32 + (j + q) * 2 ^ 12) ||| 0x576) ∧
        ∀ a, a < pte ∨ pte + 4 * n ≤ a → mem' a = mem a := by
  induction n with
  | zero =>
      intro j pte mem _
      exact ⟨mem, rfl, by simp, fun _ _ => rfl⟩
  | succ n ih =>
      intro j pte mem hj
      obtain ⟨mem', hrun, hwritten, hframe⟩ := ih (j + 1) (pte + 4)
        (Function.update mem pte
          (((paddrStart + i * 2 ^ 20) % 2 ^ 32 + j * 2 ^ 12) ||| 0x576)) (by omega)
      have haligned :
          ((paddrStart + i * 2 ^ 20) % 2 ^ 32 + j * 2 ^ 12) &&& (1 <<< 12 - 1) = 0 := by
        rw [show (1 <<< 12 - 1 : Nat) = 2 ^ 12 - 1 from rfl, Nat.and_two_pow_sub_one_eq_mod]
        omega
      refine ⟨mem', ?_, ?_, ?_⟩
      · rw [setPages]
        simp only [target_page hp (show j < 256 by omega), haligned, ne_eq, not_true, if_false]
        exact hrun
      · intro q hq
        cases q with
        | zero =>
            -- the rest of the loop leaves the first entry alone
            rw [hframe _ (Or.inl (by omega))]
            exact Function.update_self ..
        | succ q =>
            have hnext := hwritten q (by omega)
            rw [show pte + 4 + 4 * q = pte + 4 * (q + 1) by omega,
              show j + 1 + q = j + (q + 1) by omega] at hnext
            exact hnext
      · intro a ha
        rw [hframe a (by omega)]
        exact Function.update_of_ne (by omega) ..

/-- The tables `lo` to `hi - 1` of `_2nd_page_table` have been entered in the first level and
filled, table `k` with the pages of the megabyte `target k`. Nothing else has changed. -/
structure PageMap (second : SecondPageTable) (target : Nat → Nat) (lo hi : Nat)
    (t t' : PageTables) : Prop where
  entry : ∀ k, lo ≤ k → k < hi → t'.first k = second.table k ||| 0x1e1
  page : ∀ k, lo ≤ k → k < hi → ∀ q < 256,
    t'.mem (second.table k + 4 * q) = (target k + q * 2 ^ 12) ||| 0x576
  first_frame : ∀ m, m < lo ∨ hi ≤ m → t'.first m = t.first m
  mem_frame : ∀ a, a < second.table lo ∨ second.table hi ≤ a → t'.mem a = t.mem a

namespace PageMap

variable {target : Nat → Nat} {lo hi mid : Nat} {t1 : PageTables}

theorem refl : PageMap second target lo lo t t where
  entry := by omega
  page := by omega
  first_frame := fun _ _ => rfl
  mem_frame := fun _ _ => rfl

/-- One range of tables behind the other. -/
theorem trans (h : PageMap second target lo mid t t1) (h' : PageMap second target mid hi t1 t')
    (hlo : lo ≤ mid) (hhi : mid ≤ hi) : PageMap second target lo hi t t' where
  entry := by
    intro k hk hk'
    rcases Nat.lt_or_ge k mid with hmid | hmid
    · rw [h'.first_frame k (Or.inl hmid)]
      exact h.entry k hk hmid
    · exact h'.entry k hmid hk'
  page := by
    intro k hk hk' q hq
    rcases Nat.lt_or_ge k mid with hmid | hmid
    · rw [h'.mem_frame _ (Or.inl (by unfold SecondPageTable.table; omega))]
      exact h.page k hk hmid q hq
    · exact h'.page k hmid hk' q hq
  first_frame := by
    intro m hm
    rw [h'.first_frame m (by omega)]
    exact h.first_frame m (by omega)
  mem_frame := by
    intro a ha
    unfold SecondPageTable.table at ha
    rw [h'.mem_frame a (by unfold SecondPageTable.table; omega)]
    exact h.mem_frame a (by unfold SecondPageTable.table; omega)

end PageMap

/-- The test of a table's address lets every table of the array pass. -/
theorem SecondPageTable.table_aligned (second : SecondPageTable) (k : Nat) :
    second.table k % 2 ^ 10 = 0 := by
  have haligned := second.aligned
  unfold SecondPageTable.table
  omega

theorem SecondPageTable.table_succ (second : SecondPageTable) (k : Nat) :
    second.table (k + 1) = second.table k + 4 * 256 := by
  unfold SecondPageTable.table
  rw [Nat.mul_succ, Nat.add_assoc]

/-- The outer loop fills `n` tables from `i` on. -/
theorem setTables_spec {paddrStart : Nat} (second : SecondPageTable) (ptr1stIndexStart : Nat)
    (hp : paddrStart % 2 ^ 20 = 0) (n : Nat) :
    ∀ (i : Nat) (t : PageTables), ptr1stIndexStart + (i + n) ≤ 4096 →
      ∃ t', setTables second ptr1stIndexStart paddrStart n i t = some t' ∧
        PageMap second (fun k => (paddrStart + (k - ptr1stIndexStart) * 2 ^ 20) % 2 ^ 32)
          (ptr1stIndexStart + i) (ptr1stIndexStart + (i + n)) t t' := by
  induction n with
  | zero =>
      intro i t _
      exact ⟨t, rfl, PageMap.refl⟩
  | succ n ih =>
      intro i t hfits
      obtain ⟨mem, hpages, hwritten, hframe⟩ :=
        setPages_spec (i := i) hp 256 0 (second.table (ptr1stIndexStart + i)) t.mem (by omega)
      obtain ⟨t', hrun, hmap⟩ := ih (i + 1)
        { first := Function.update t.first (ptr1stIndexStart + i)
            (second.table (ptr1stIndexStart + i) ||| 0x1e1)
          mem := mem } (by omega)
      refine ⟨t', ?_, ?_⟩
      · have haligned : second.table (ptr1stIndexStart + i) &&& 0x3ff = 0 := by
          rw [show (0x3ff : Nat) = 2 ^ 10 - 1 from rfl, Nat.and_two_pow_sub_one_eq_mod]
          exact second.table_aligned _
        rw [setTables]
        simp only [haligned, ne_eq, not_true, if_false, hpages, Option.bind_some]
        rw [if_pos (by omega)]
        exact hrun
      · -- the table of this round, and those of the rest
        have hrest : PageMap second _ (ptr1stIndexStart + (i + 1)) (ptr1stIndexStart + (i + (n + 1)))
            _ t' := (show i + 1 + n = i + (n + 1) by omega) ▸ hmap
        refine PageMap.trans ⟨?_, ?_, ?_, ?_⟩ hrest (by omega) (by omega)
        · intro k hk hk'
          obtain rfl : k = ptr1stIndexStart + i := by omega
          exact Function.update_self ..
        · intro k hk hk' q hq
          obtain rfl : k = ptr1stIndexStart + i := by omega
          have hentry := hwritten q hq
          rw [Nat.zero_add] at hentry
          rw [show ptr1stIndexStart + i - ptr1stIndexStart = i by omega]
          exact hentry
        · intro m hm
          exact Function.update_of_ne (by omega) ..
        · intro a ha
          rw [← Nat.add_assoc, second.table_succ] at ha
          exact hframe a ha

/-! ### What the sections translate -/

/-- Every megabyte of the range has a section, and nothing else has changed. -/
structure SectionMap (r : MapRange) (t t' : PageTables) : Prop where
  entry : ∀ k, r.firstMb ≤ k → k ≤ r.lastMb → t'.first k = r.target k ||| r.attr
  first_frame : ∀ m, m < r.firstMb ∨ r.lastMb < m → t'.first m = t.first m
  mem_eq : t'.mem = t.mem

/-- `mmu_set_L1table` returns on every range. -/
theorem mmuSetL1Table_spec (r : MapRange) (t : PageTables) :
    ∃ t', mmuSetL1Table r.vaddrStart r.vaddrEnd r.paddrStart r.attr t = some t' ∧
      SectionMap r t t' := by
  have hle := r.firstMb_le
  have hlt := r.lastMb_lt
  obtain ⟨first, hrun, hwritten, hframe⟩ := setSections_spec r.paddrStart r.attr
    (r.lastMb - r.firstMb + 1) 0 r.firstMb t.first (by omega)
  refine ⟨{ t with first := first }, ?_, ?_, ?_, rfl⟩
  · have heven : u32Add (u32Sub r.vaddrEnd r.vaddrStart) 1 &&& 1 = 0 := by
      have hstart := r.start_aligned
      have hend := r.end_aligned
      have hvle := r.start_le
      -- the size of the whole address space wraps around to 0
      rw [u32Sub_of_le hvle r.end_lt, Nat.and_one_is_mod]
      unfold u32Add
      omega
    have hrounds : (((r.vaddrEnd >>> 20 : Nat) : Int) - (r.vaddrStart >>> 20 : Nat) + 1).toNat =
        r.lastMb - r.firstMb + 1 := by
      rw [Nat.shiftRight_eq_div_pow, Nat.shiftRight_eq_div_pow]
      unfold MapRange.lastMb MapRange.firstMb at hle ⊢
      omega
    rw [mmuSetL1Table, if_neg (not_not.mpr heven)]
    simp only [hrounds]
    rw [Nat.shiftRight_eq_div_pow r.vaddrStart]
    exact congrArg (Option.map _) hrun
  · intro k hk hk'
    have hentry := hwritten (k - r.firstMb) (by omega)
    rw [show r.firstMb + (k - r.firstMb) = k by omega, Nat.zero_add, Nat.lor_comm] at hentry
    rw [target_section r.paddr_aligned] at hentry
    exact hentry
  · intro m hm
    exact hframe m (by omega)

namespace SectionMap

/-- Every address of the range has its translation. -/
theorem walk_in (h : SectionMap r t t') {va : Nat} (hlo : r.firstMb ≤ va / 2 ^ 20)
    (hhi : va / 2 ^ 20 ≤ r.lastMb) :
    t'.walk va = some (r.target (va / 2 ^ 20) + va % 2 ^ 20) := by
  have hlt := r.attr_lt
  have htype := r.attr_section
  exact walk_section (h.entry _ hlo hhi) (r.target_aligned _) (by omega) (by omega)

/-- Every other address has the one it had. -/
theorem walk_out (h : SectionMap r t t') {va : Nat}
    (hout : va / 2 ^ 20 < r.firstMb ∨ r.lastMb < va / 2 ^ 20) : t'.walk va = t.walk va := by
  unfold PageTables.walk
  rw [h.mem_eq]
  exact walk_congr (h.first_frame _ hout)

end SectionMap

/-! ### What the pages translate -/

/-- `mmu_set_L2table` returns on every range, without the last megabyte. -/
theorem mmuSetL2Table_spec (second : SecondPageTable) (r : MapRange) (t : PageTables) :
    ∃ t', mmuSetL2Table second r.vaddrStart r.vaddrEnd r.paddrStart t = some t' ∧
      PageMap second r.target r.firstMb r.lastMb t t' := by
  have hle := r.firstMb_le
  have hlt := r.lastMb_lt
  obtain ⟨t', hrun, hmap⟩ := setTables_spec second r.firstMb r.paddr_aligned
    (r.lastMb - r.firstMb) 0 t (by omega)
  rw [Nat.add_zero, Nat.zero_add, show r.firstMb + (r.lastMb - r.firstMb) = r.lastMb by omega]
    at hmap
  refine ⟨t', ?_, hmap⟩
  have hrounds : u32Sub (r.vaddrEnd >>> 20) (r.vaddrStart >>> 20) = r.lastMb - r.firstMb := by
    rw [Nat.shiftRight_eq_div_pow, Nat.shiftRight_eq_div_pow]
    exact u32Sub_of_le hle (by unfold MapRange.lastMb at hlt; omega)
  rw [mmuSetL2Table, hrounds, Nat.shiftRight_eq_div_pow]
  exact hrun

namespace PageMap

variable {lo hi k : Nat} {va : Nat}

/-- A filled table translates a megabyte as a whole. -/
theorem walkTable_eq (h : PageMap second r.target lo hi t t') (hlo : lo ≤ k) (hhi : k < hi) :
    walkTable t'.mem (second.table k) va = some (r.target k + va % 2 ^ 20) := by
  have htarget := r.target_aligned k
  have hpage := h.page k hlo hhi (va / 2 ^ 12 % 256) (Nat.mod_lt _ (by decide))
  rw [walkTable_smallPage hpage (by omega) (by decide) (by decide)]
  congr 1
  omega

/-- An address of a megabyte that is entered has its translation. -/
theorem walk_in (h : PageMap second r.target lo hi t t') (hlo : lo ≤ va / 2 ^ 20)
    (hhi : va / 2 ^ 20 < hi) : t'.walk va = some (r.target (va / 2 ^ 20) + va % 2 ^ 20) := by
  have hbase := second.table_aligned (va / 2 ^ 20)
  have hentry := h.entry _ hlo hhi
  have htype : t'.first (va / 2 ^ 20) % 4 = 1 := by
    rw [hentry, or_mod (by decide) hbase (by decide)]
  rw [PageTables.walk, Lib.walk_table htype, hentry, or_div hbase (by decide)]
  exact h.walkTable_eq hlo hhi

/-- Who else uses a table that is filled gets its translation. -/
theorem walk_table (h : PageMap second r.target lo hi t t')
    (hout : va / 2 ^ 20 < lo ∨ hi ≤ va / 2 ^ 20) (hlo : lo ≤ k) (hhi : k < hi)
    (hpoints : PointsTo second t (va / 2 ^ 20) k) :
    t'.walk va = some (r.target k + va % 2 ^ 20) := by
  have hentry := h.first_frame _ hout
  rw [PageTables.walk, Lib.walk_table (hentry ▸ hpoints.1), hentry, hpoints.2]
  exact h.walkTable_eq hlo hhi

/-- The other addresses have the translation they had. -/
theorem walk_out (h : PageMap second r.target lo hi t t')
    (hout : va / 2 ^ 20 < lo ∨ hi ≤ va / 2 ^ 20)
    (hnot : ∀ k, lo ≤ k → k < hi → ¬ PointsTo second t (va / 2 ^ 20) k) :
    t'.walk va = t.walk va := by
  unfold PageTables.walk
  rw [Lib.walk_congr (h.first_frame _ hout)]
  by_cases htype : t.first (va / 2 ^ 20) % 4 = 1
  · rw [Lib.walk_table htype, Lib.walk_table htype]
    refine walkTable_congr ?_
    intro q hq
    refine h.mem_frame _ ?_
    -- a table that is not one of the filled ones lies before or behind all of them
    have haligned := second.aligned
    have hbase : ∀ k, lo ≤ k → k < hi →
        t.first (va / 2 ^ 20) / 2 ^ 10 * 2 ^ 10 ≠ second.table k := by
      intro k hk hk' heq
      exact hnot k hk hk' ⟨htype, heq⟩
    by_contra hin
    have hself := hbase ((t.first (va / 2 ^ 20) / 2 ^ 10 * 2 ^ 10 - second.adr) / 1024)
    unfold SecondPageTable.table at hin hself
    omega
  · exact walk_of_not_table htype

end PageMap

/-! ### When the two agree -/

/-- The two functions agree on a range exactly when the last megabyte, which `mmu_set_L2table`
leaves out, has been mapped before, and whoever else uses one of the tables that it fills has
been translated as the table says. -/
theorem pathsAgree_iff (second : SecondPageTable) (r : MapRange) (t : PageTables) :
    PathsAgree second r t ↔ AlreadyMapped second r t := by
  obtain ⟨t1, hrun1, hsec⟩ := mmuSetL1Table_spec r t
  obtain ⟨t2, hrun2, hpage⟩ := mmuSetL2Table_spec second r t
  have hle := r.firstMb_le
  have hlast : ∀ {va : Nat}, va / 2 ^ 20 = r.lastMb →
      va / 2 ^ 20 < r.firstMb ∨ r.lastMb ≤ va / 2 ^ 20 :=
    fun hva => Or.inr (Nat.le_of_eq hva.symm)
  constructor
  · rintro ⟨t1', t2', hrun1', hrun2', hin, hout⟩
    obtain rfl : t1 = t1' := Option.some.inj (hrun1.symm.trans hrun1')
    obtain rfl : t2 = t2' := Option.some.inj (hrun2.symm.trans hrun2')
    -- the last megabyte is translated by the pages as by the sections
    have hpage_last : ∀ va, va / 2 ^ 20 = r.lastMb →
        t2.walk va = some (r.target r.lastMb + va % 2 ^ 20) := by
      intro va hva
      have hmem := (r.mem_iff va).mpr ⟨hva ▸ hle, Nat.le_of_eq hva⟩
      rw [← hin va hmem.1 hmem.2, hsec.walk_in (hva ▸ hle) (Nat.le_of_eq hva), hva]
    have hentry : ∀ k, r.firstMb ≤ k → k < r.lastMb → ¬ PointsTo second t r.lastMb k := by
      intro k hk hk' hpoints
      have hva : r.lastMb * 2 ^ 20 / 2 ^ 20 = r.lastMb := Nat.mul_div_cancel _ (by decide)
      have hwalk := hpage.walk_table (hlast hva) hk hk' (hva.symm ▸ hpoints)
      rw [hpage_last _ hva, Option.some.injEq, Nat.add_right_cancel_iff] at hwalk
      exact r.target_inj hk hk' (Nat.le_refl _) hwalk.symm
    refine ⟨?_, hentry, ?_⟩
    · intro va hva
      rw [← hpage.walk_out (hlast hva) (hva.symm ▸ hentry)]
      exact hpage_last va hva
    · intro m hm hmout k hk hk' hpoints va hva
      have hnot := mt (r.mem_iff va).mp (by rw [hva]; omega)
      have hlt : va < 2 ^ 32 := by omega
      rw [← (hout va hlt (by omega)).2]
      exact hpage.walk_table (by omega) hk hk' (hva.symm ▸ hpoints)
  · intro hmapped
    refine ⟨t1, t2, hrun1, hrun2, ?_, ?_⟩
    · intro va hstart hend
      obtain ⟨hlo, hhi⟩ := (r.mem_iff va).mp ⟨hstart, hend⟩
      rw [hsec.walk_in hlo hhi]
      rcases Nat.lt_or_eq_of_le hhi with hlt | heq
      · exact (hpage.walk_in hlo hlt).symm
      · rw [hpage.walk_out (hlast heq) (heq.symm ▸ hmapped.last_entry),
          hmapped.last va heq, heq]
    · intro va hva hout
      have hmb : va / 2 ^ 20 < r.firstMb ∨ r.lastMb < va / 2 ^ 20 := by
        have hnot := mt (r.mem_iff va).mpr (by omega)
        omega
      refine ⟨hsec.walk_out hmb, ?_⟩
      by_cases hshared : ∃ k, r.firstMb ≤ k ∧ k < r.lastMb ∧ PointsTo second t (va / 2 ^ 20) k
      · obtain ⟨k, hk, hk', hpoints⟩ := hshared
        rw [hpage.walk_table (by omega) hk hk' hpoints,
          hmapped.others _ (by omega) hmb k hk hk' hpoints va rfl]
      · refine hpage.walk_out (by omega) ?_
        intro k hk hk' hpoints
        exact hshared ⟨k, hk, hk', hpoints⟩

/-- The first megabyte of the address space, mapped to itself, in tables without any
entry. -/
def firstMegabyte : MapRange where
  vaddrStart := 0
  vaddrEnd := 0xfffff
  paddrStart := 0
  attr := 0x15de6
  start_aligned := by decide
  end_aligned := by decide
  start_le := by decide
  end_lt := by decide
  paddr_aligned := by decide
  attr_lt := by decide
  attr_section := by decide

/-- `_2nd_page_table` at 1 MB. -/
def secondAtMegabyte : SecondPageTable := ⟨0x100000, by decide, by decide⟩

/-- On a single megabyte in empty tables, the sections map address 0, and the pages do not. -/
theorem pathsAgree_fails :
    (mmuSetL1Table 0 0xfffff 0 0x15de6 ⟨fun _ => 0, fun _ => 0⟩).bind (·.walk 0) = some 0 ∧
      (mmuSetL2Table secondAtMegabyte 0 0xfffff 0 ⟨fun _ => 0, fun _ => 0⟩).bind (·.walk 0) = none ∧
      ¬ PathsAgree secondAtMegabyte firstMegabyte ⟨fun _ => 0, fun _ => 0⟩ := by
  refine ⟨by decide +kernel, by decide +kernel, ?_⟩
  intro hagree
  have hlast := ((pathsAgree_iff _ _ _).mp hagree).last 0 (by decide)
  exact absurd hlast (by decide +kernel)

end ACoral
