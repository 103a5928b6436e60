import ACoral.Proofs.Buddy.Failure
import ACoral.Proofs.Buddy.Lists

/-!
# `ACoral.Proofs.Buddy.Requests`: requests without a release

While nothing is released, blocks are cut from their start only. So the
table always tells the free half of a pair right (`Steady.half`), and a
search goes wrong only when it finds no block. What it finds depends on the
free blocks alone.

- `Steady.found`, `Steady.spareFound`, `Steady.nothing`: what a request does
  that is not refused early.
- `Twins.buddyMallocs`: two heaps with the same free blocks answer every
  sequence of requests alike.
-/

set_option autoImplicit false

namespace ACoral

open Lib

variable {b b' : BlockCtr} {N k l m : Nat} {t t' : Tiling N (k + 1)} {s : Bool}

/-! ### Steady heaps -/

/-- The table has a level for the start of every pair whose second half is
free. -/
def RightEntries (b : BlockCtr) (t : Tiling N (k + 1)) : Prop :=
  ∀ l < k, ∀ j, t.Free l (2 * j + 1) → 0 ≤ b.blocks (j * 2 ^ l : Nat)

/-- The spare word of the top level, as long as it is linked. -/
def SpareIf (s : Bool) (N k : Nat) (w : Int) : Prop := s = true ∧ SpareWord N k w

/-- A heap on which every search that finds a set bit is sound. The flag `s`
says whether the spare word is linked. -/
structure Steady (b : BlockCtr) (t : Tiling N (k + 1)) (s : Bool) : Prop where
  marks : Marks b t
  range : ListRange b k
  entries : UsedEntries b t
  right : RightEntries b t
  listed : Listed b (SpareIf s N k) k
  state : b.state = MEM_OK
  levels : k < LEVEL

theorem noBlock_spareIf (s : Bool) (N k : Nat) : NoBlock N k (SpareIf s N k) :=
  fun i hi hs => noBlock_spareWord N k i hi hs.2

/-- The table and the counter matter for the entries only. -/
theorem Steady.congr (h : Steady b t s) (hmarks : Marks b' t) (hentries : UsedEntries b' t)
    (hright : RightEntries b' t) (hcur : b'.freeCur = b.freeCur)
    (hlist : b'.freeList = b.freeList) (hbitmap : b'.bitmap = b.bitmap)
    (hnum : b'.numL = b.numL) (hstate : b'.state = b.state) : Steady b' t s where
  marks := hmarks
  range := h.range.of_eq hcur hlist hnum
  entries := hentries
  right := hright
  listed := h.listed.of_eq hbitmap hlist hcur hnum
  state := hstate.trans h.state
  levels := h.levels

/-- A failed search stores a level before the table, and lowers the
counter. -/
theorem Steady.failed (h : Steady b t s) (num level0 : Nat) :
    Steady ((b.setFreeNum num).setBlock (-127) level0) t s := by
  have hblocks : ∀ x : Nat, ((b.setFreeNum num).setBlock (-127) level0).blocks x = b.blocks x :=
    fun x => by
      show Function.update b.blocks (-127) (level0 : Int) (x : Nat) = _
      rw [Function.update_of_ne (by omega)]
  refine h.congr ?_ ?_ ?_ rfl rfl rfl rfl rfl
  · refine ⟨h.marks.level, h.marks.blockNum, h.marks.small, h.marks.coalesced, h.marks.words,
      h.marks.mark, fun c hc j hj => ?_⟩
    rw [hblocks]
    exact h.marks.freeEntry c hc j hj
  · intro c j hc hu hj
    rw [hblocks]
    exact h.entries c j hc hu hj
  · intro c hc j hj
    rw [hblocks]
    exact h.right c hc j hj

/-- The table tells the free half of a pair right. If the first half is free,
no smaller block at its start is; if the second is, the table has a level. -/
theorem Steady.half {j : Nat} (h : Steady b t s) (hm : m < k) (hj : j < 32 * b.numL m)
    (hbit : (b.bitmap m).bit j = true) :
    b.blocks (j * 2 ^ m : Nat) ≥ 0 ∨ ∀ c < m, (b.bitmap c).bit (j * 2 ^ (m - c)) = false := by
  rcases h.marks.free_half hm hj hbit with hleft | hright
  · right
    intro c hc
    by_contra hset
    rw [Bool.not_eq_false] at hset
    obtain ⟨d, rfl⟩ := Nat.exists_eq_add_of_lt hc
    rw [show c + d + 1 - c = d + 1 by omega] at hset
    have hstart : 2 * (j * 2 ^ (d + 1)) * 2 ^ c = 2 * j * 2 ^ (c + d + 1) := by
      rw [Nat.add_assoc, Nat.pow_add 2 c]
      ring
    -- a smaller free block at the start would lie in the free half
    have hword := h.marks.words c (by omega) (2 * (j * 2 ^ (d + 1))) (by rw [hstart]; exact hleft.1.1)
    rw [bitIndex, if_neg (by omega), Nat.mul_div_cancel_left _ (by decide)] at hword
    have hnot : ∀ x, x / 2 = j * 2 ^ (d + 1) → ¬ t.Free c x := fun x hx hf => by
      have hmem : x * 2 ^ c / 2 ^ (c + d + 1) = 2 * j := by
        rw [Nat.add_assoc, Nat.pow_add 2 c, ← Nat.div_div_eq_div_mul, mul_two_pow_div,
          Nat.pow_succ', ← Nat.div_div_eq_div_mul, hx, ← two_mul_mul_two_pow, mul_two_pow_div]
      have := (hf.1.unique hleft.1 (mul_two_pow_div x c) hmem).1
      omega
    rcases h.marks.free_half (by omega) hword hset with hf | hf
    · exact hnot _ (by omega) hf
    · exact hnot _ (by omega) hf
  · exact Or.inl (h.right m hm j hright)

/-! ### What a search finds -/

/-- Where the search ends. -/
theorem firstLevel_eq_some {rounds : Nat} (h : firstLevel b rounds l = some m) :
    l ≤ m ∧ m < l + rounds ∧ 0 ≤ b.freeCur m := by
  induction rounds generalizing l with
  | zero => simp [firstLevel] at h
  | succ rounds ih =>
      unfold firstLevel at h
      split at h
      · have := ih h
        omega
      · obtain rfl := Option.some.inj h
        omega

theorem firstLevel_eq_none {rounds : Nat} (h : firstLevel b rounds l = none) :
    ∀ m, l ≤ m → m < l + rounds → b.freeCur m < 0 := by
  induction rounds generalizing l with
  | zero => exact fun m hm hm' => by omega
  | succ rounds ih =>
      unfold firstLevel at h
      split at h
      · rename_i hcur
        intro m hm hm'
        rcases Nat.eq_or_lt_of_le hm with rfl | hm
        · exact hcur
        · exact ih h m hm (by omega)
      · simp at h

/-- An entry of the table stays, or gets the level of a request. -/
theorem buddyRMalloc_entry (l : Nat) (b : BlockCtr) (x : Int) :
    (buddyRMalloc l b).2.blocks x = b.blocks x ∨ (buddyRMalloc l b).2.blocks x = l := by
  have hblocks : (recusMalloc l (b.setFreeNum (u32 (b.freeNum - 2 ^ l)))).2.blocks = b.blocks :=
    (recusMallocFrom_sameHeap _ l _).blocks
  unfold buddyRMalloc
  dsimp only
  split
  · show Function.update (recusMalloc l _).2.blocks _ (l : Int) x = _ ∨
      Function.update (recusMalloc l _).2.blocks _ (l : Int) x = _
    rw [hblocks]
    by_cases hx : x = blockIndex (recusMalloc l (b.setFreeNum (u32 (b.freeNum - 2 ^ l)))).1
    · exact Or.inr (by rw [hx, Function.update_self])
    · exact Or.inl (Function.update_of_ne hx _ _)
  · exact Or.inl (congrFun hblocks x)

/-- The address that `buddy_r_malloc` returns. -/
theorem buddyRMalloc_fst (l : Nat) (b : BlockCtr) :
    (buddyRMalloc l b).1 = u32 (b.startAdr +
      (recusMalloc l (b.setFreeNum (u32 (b.freeNum - 2 ^ l)))).1 * 2 ^ BLOCK_SHIFT) := by
  have hstart : (recusMalloc l (b.setFreeNum (u32 (b.freeNum - 2 ^ l)))).2.startAdr = b.startAdr :=
    (recusMallocFrom_sameHeap _ l _).startAdr
  unfold buddyRMalloc
  dsimp only
  split
  · show u32 ((recusMalloc l _).2.startAdr + _) = _
    rw [hstart]
  · rw [hstart]

/-- A search that finds a set bit takes a block from the start of the free
block that the bit stands for. -/
theorem Steady.found (h : Steady b t s) (hl : l ≤ k)
    (hm : firstLevel b (k + 1 - l) l = some m) (hword : b.bitmap m (b.freeCur m) ≠ 0) :
    ∃ i x, ∃ t' : Tiling N (k + 1), t.Free m x ∧ bitIndex k m x = headIndex b m ∧
      i * 2 ^ l = x * 2 ^ m ∧ t.Taken t' l i ∧ Steady (buddyRMalloc l b).2 t' s ∧
      (buddyRMalloc l b).1 = b.startAdr + i * 2 ^ l * 2 ^ BLOCK_SHIFT ∧
      (buddyRMalloc l b).2.freeNum = u32 (b.freeNum - 2 ^ l) ∧
      (buddyRMalloc l b).2.startAdr = b.startAdr ∧ (buddyRMalloc l b).2.numL = b.numL := by
  obtain ⟨-, hmk, hcur⟩ := firstLevel_eq_some hm
  obtain ⟨hbit, hhead, hj⟩ := headIndex_spec h.marks h.range (by omega) hcur hword
  have hhalf := fun hmk => h.half hmk hj hbit
  have hsearch : searchSound b l = true := by
    unfold searchSound
    rw [h.marks.level, hm]
    simp only [Bool.and_eq_true, Bool.or_eq_true, decide_eq_true_iff]
    refine ⟨hword, ?_⟩
    by_cases hmk' : m = k
    · exact Or.inl (by omega)
    · right
      unfold halfSound
      simpa [acoralGetBit_eq_bit] using hhalf (by omega)
  obtain ⟨i, t', hptr, hmarks, hrange, hentries, htaken, hcut, hnum, hstate, hstart, -, hwords⟩ :=
    buddyRMalloc_spec h.marks h.range h.entries hl hsearch
  -- the block starts where the free block does that the bit stands for
  have hlow : Marks (b.setFreeNum (u32 (b.freeNum - 2 ^ l))) t :=
    ⟨h.marks.level, h.marks.blockNum, h.marks.small, h.marks.coalesced, h.marks.words,
      h.marks.mark, h.marks.freeEntry⟩
  obtain ⟨x, hx, hxj, hblock⟩ := blockOfBit_spec hlow h.entries (by omega)
    (takeBit_sameHeap m _) hj hbit hhalf
  have hstart' : i * 2 ^ l = x * 2 ^ m := by
    have hfirst : firstLevel (b.setFreeNum (u32 (b.freeNum - 2 ^ l))) (k + 1 - l) l = some m := by
      rw [← hm]
      exact firstLevel_congr _ _ fun _ _ _ => rfl
    have hsearched := recusMallocFrom_num hfirst hblock
    have hlt := hx.1.1
    have hsmall := h.marks.small
    have hptr' := buddyRMalloc_fst l b
    unfold recusMalloc at hptr'
    rw [show (b.setFreeNum (u32 (b.freeNum - 2 ^ l))).level = k + 1 from h.marks.level,
      hsearched, hptr] at hptr'
    unfold u32 BLOCK_SHIFT at hptr'
    unfold BLOCK_SHIFT at hsmall
    omega
  refine ⟨i, x, t', hx, hxj, hstart', htaken, ⟨hmarks, hrange, hentries, fun c hc j hfree => ?_,
    buddyRMalloc_listed h.marks h.range h.entries h.listed (noBlock_spareIf s N k) hl hsearch,
    hstate.trans h.state, h.levels⟩, hptr, hnum, hstart, hwords⟩
  rcases hcut c j hfree with hfree | hat
  · rcases buddyRMalloc_entry l b (j * 2 ^ c : Nat) with he | he
    · rw [he]
      exact h.right c hc j hfree
    · rw [he]
      exact Int.natCast_nonneg l
  · rw [Nat.mul_assoc] at hat
    have he := hentries l i htaken.tile htaken.used_self (by omega)
    rw [show i * 2 ^ l / 2 = j * 2 ^ c by omega] at he
    rw [he]
    exact Int.natCast_nonneg l

/-! ### What a failed search leaves -/

/-- A search that ends at a word without a set bit, or finds no word. -/
theorem recusMallocFrom_failed {rounds : Nat} (hm : firstLevel b rounds l = some m)
    (hnum : blockOfBit m (headIndex b m) (takeBit m b).2 = KernelError.KR_MEM_ERR_UNDEF.code) :
    recusMallocFrom rounds l b = (KernelError.KR_MEM_ERR_UNDEF.code, (takeBit m b).2) := by
  induction rounds generalizing l with
  | zero => simp [firstLevel] at hm
  | succ rounds ih =>
      unfold firstLevel at hm
      unfold recusMallocFrom
      by_cases hcur : b.freeCur l < 0
      · rw [if_pos hcur] at hm ⊢
        rw [ih hm]
        exact if_pos (by decide)
      · rw [if_neg hcur] at hm ⊢
        obtain rfl := Option.some.inj hm
        exact Prod.ext hnum rfl

theorem Steady.nothing (h : Steady b t s) (hm : firstLevel b (k + 1 - l) l = none) :
    (buddyRMalloc l b).1 = u32 (b.startAdr - 254 * 2 ^ BLOCK_SHIFT) ∧
      Steady (buddyRMalloc l b).2 t s ∧
      (buddyRMalloc l b).2.freeNum = u32 (b.freeNum - 2 ^ l) ∧
      (buddyRMalloc l b).2.startAdr = b.startAdr ∧ (buddyRMalloc l b).2.numL = b.numL := by
  rw [buddyRMalloc_nothing fun m hl hm' => ?_]
  · exact ⟨rfl, h.failed _ l, rfl, rfl, rfl⟩
  · rw [h.marks.level] at hm'
    exact firstLevel_eq_none hm m hl (by omega)

/-- The spare word has no set bit. -/
theorem SpareWord.lt {w : Int} (h : SpareWord N k w) (hk : k < LEVEL) (hN : N < 2 ^ 25) :
    ∃ v : Nat, w = v ∧ (32 * v + 32) * 2 ^ k < 2 ^ 26 ∧ N / 2 ^ k ≤ 32 * v := by
  obtain ⟨hpos, rfl, hle⟩ := h
  refine ⟨lastWord N k, rfl, ?_, hle⟩
  have hmul : lastWord N k * (2 ^ k * 32) ≤ N - 1 := Nat.div_mul_le_self _ _
  have hpow : 2 ^ k ≤ 2 ^ 13 := Nat.pow_le_pow_right (by decide) (by unfold LEVEL at hk; omega)
  have hexp : (32 * lastWord N k + 32) * 2 ^ k = lastWord N k * (2 ^ k * 32) + 32 * 2 ^ k := by ring
  omega

/-- The word that is taken out of the list of the top level without a set
bit is the spare one. The bit that is looked at is beyond the heap. -/
theorem Steady.takeSpare (h : Steady b t s) (hcur : 0 ≤ b.freeCur k)
    (hword : b.bitmap k (b.freeCur k) = 0) :
    blockOfBit k (headIndex b k) (takeBit k b).2 = KernelError.KR_MEM_ERR_UNDEF.code ∧
      Steady (takeBit k b).2 t false := by
  obtain ⟨ws, hws⟩ := h.listed k (Nat.le_refl k)
  obtain ⟨vs, rfl, -⟩ := hws.exists_cons hcur
  have hmem := (hws.mem _).mp List.mem_cons_self
  obtain ⟨-, -, hspare⟩ := hmem.2.2.resolve_left fun hne => hne hword
  have hN := h.marks.small'
  obtain ⟨v, hv, hlt, hbeyond⟩ := hspare.lt h.levels hN
  have hpos := Nat.two_pow_pos k
  have hle : 32 * v + 32 ≤ (32 * v + 32) * 2 ^ k := Nat.le_mul_of_pos_right _ hpos
  have hhead : headIndex b k = 32 * v + 31 := by
    unfold headIndex
    rw [hword, hv, show acoralFfs 0 = 31 by decide]
    unfold u32
    omega
  have hclear : acoralClearBit (headIndex b k) (b.bitmap k) = b.bitmap k := by
    refine acoralClearBit_of_word_zero ?_
    rwa [hhead, show (32 * v + 31) / 32 = v by omega, ← hv]
  have hbitmap : (takeBit k b).2.bitmap = b.bitmap := by
    rw [takeBit_bitmap, hclear, Function.update_eq_self]
  have htake : (takeBit k b).2 = (b.setBitmap k (acoralClearBit (headIndex b k)
      (b.bitmap k))).setFreeCur k (b.freeList k (b.freeCur k)) := by
    refine if_pos ?_
    show Function.update b.bitmap k (acoralClearBit (headIndex b k) _) k _ = 0
    rw [hclear, Function.update_self]
    exact hword
  have hheap := takeBit_sameHeap k b
  constructor
  · have hmul : 32 * v * 2 ^ k + 32 * 2 ^ k < 2 ^ 26 := by rwa [← Nat.add_mul]
    have hindex : ((32 * v + 31 : Nat) : Int) * 2 ^ (k + 1) =
        (2 * (32 * v * 2 ^ k + 31 * 2 ^ k) : Nat) := by
      push_cast
      ring
    have hover : N < 32 * v * 2 ^ k + 32 * 2 ^ k := by
      have hdiv := Nat.lt_mul_of_div_lt (Nat.lt_of_le_of_lt hbeyond
        (by omega : 32 * v < 32 * v + 32)) hpos
      rwa [Nat.add_mul] at hdiv
    unfold blockOfBit
    dsimp only
    rw [hheap.level, hheap.blockNum, h.marks.level, h.marks.blockNum, if_pos rfl, hhead, hindex,
      i32_natCast (by omega), if_pos]
    have hhalf : ((2 * (32 * v * 2 ^ k + 31 * 2 ^ k) : Nat) : Int) / 2 =
        (32 * v * 2 ^ k + 31 * 2 ^ k : Nat) := by omega
    have hcap : u32 ((32 * v * 2 ^ k + 31 * 2 ^ k : Nat) + 2 ^ k) =
        32 * v * 2 ^ k + 32 * 2 ^ k := by
      rw [← u32_natCast (by omega : 32 * v * 2 ^ k + 32 * 2 ^ k < 2 ^ 32)]
      push_cast
      congr 1
      ring
    rw [hhalf, hcap]
    exact hover
  · refine ⟨h.marks.congr hheap hbitmap fun _ _ => Iff.rfl,
      takeBit_listRange h.range (Nat.le_refl k) hcur, ?_, ?_, fun l hl => ?_,
      hheap.state.trans h.state, h.levels⟩
    · intro c j hc hu hj
      rw [hheap.blocks]
      exact h.entries c j hc hu hj
    · intro c hc j hj
      rw [hheap.blocks]
      exact h.right c hc j hj
    · by_cases hlk : l = k
      · subst hlk
        refine ⟨vs, hws.pop (by rw [htake]; rfl) ?_ fun w => ?_⟩
        · rw [htake]
          exact Function.update_self _ _ _
        · unfold Linked
          rw [hheap.numL, hbitmap]
          constructor
          · rintro ⟨hw, hw', hne | ⟨-, hfalse, -⟩⟩
            · exact ⟨⟨hw, hw', Or.inl hne⟩, fun heq => hne (heq ▸ hword)⟩
            · exact absurd hfalse (by decide)
          · rintro ⟨⟨hw, hw', hne | ⟨-, -, hspare'⟩⟩, hout⟩
            · exact ⟨hw, hw', Or.inl hne⟩
            · -- there is one spare word only
              exact absurd (hspare'.2.1.trans hspare.2.1.symm) hout
      · obtain ⟨xs, hxs⟩ := h.listed l hl
        have hother := takeBit_sameElse k b
        refine ⟨xs, hxs.keep (hother.freeList l hlk) (hother.freeCur l hlk) fun w => ?_⟩
        unfold Linked
        rw [hheap.numL, hbitmap]
        simp only [hlk, false_and]

/-- A search that ends at the spare word takes it out of the list. -/
theorem Steady.spareFound (h : Steady b t s) (hm : firstLevel b (k + 1 - l) l = some m)
    (hword : b.bitmap m (b.freeCur m) = 0) :
    (buddyRMalloc l b).1 = u32 (b.startAdr - 254 * 2 ^ BLOCK_SHIFT) ∧
      Steady (buddyRMalloc l b).2 t false ∧
      (buddyRMalloc l b).2.freeNum = u32 (b.freeNum - 2 ^ l) ∧
      (buddyRMalloc l b).2.startAdr = b.startAdr ∧ (buddyRMalloc l b).2.numL = b.numL := by
  obtain ⟨hlm, hmk, hcur⟩ := firstLevel_eq_some hm
  -- below the top level every linked word has a set bit
  obtain rfl : m = k := by
    obtain ⟨ws, hws⟩ := h.listed m (by omega)
    obtain ⟨vs, rfl, -⟩ := hws.exists_cons hcur
    exact (((hws.mem _).mp List.mem_cons_self).2.2.resolve_left fun hne => hne hword).1
  have hlow : Steady (b.setFreeNum (u32 (b.freeNum - 2 ^ l))) t s :=
    h.congr ⟨h.marks.level, h.marks.blockNum, h.marks.small, h.marks.coalesced, h.marks.words,
      h.marks.mark, h.marks.freeEntry⟩ h.entries h.right rfl rfl rfl rfl rfl
  obtain ⟨hnum, hsteady⟩ := hlow.takeSpare hcur hword
  have hfirst : firstLevel (b.setFreeNum (u32 (b.freeNum - 2 ^ l))) (m + 1 - l) l = some m := by
    rw [← hm]
    exact firstLevel_congr _ _ fun _ _ _ => rfl
  have hsearch : recusMalloc l (b.setFreeNum (u32 (b.freeNum - 2 ^ l))) =
      (KernelError.KR_MEM_ERR_UNDEF.code,
        (takeBit m (b.setFreeNum (u32 (b.freeNum - 2 ^ l)))).2) := by
    unfold recusMalloc
    rw [show (b.setFreeNum (u32 (b.freeNum - 2 ^ l))).level = m + 1 from h.marks.level]
    exact recusMallocFrom_failed hfirst hnum
  have hheap := takeBit_sameHeap m (b.setFreeNum (u32 (b.freeNum - 2 ^ l)))
  rw [buddyRMalloc_failed hsearch]
  refine ⟨?_, ?_, hheap.freeNum, hheap.startAdr, hheap.numL⟩
  · show u32 ((takeBit m _).2.startAdr - _) = _
    rw [hheap.startAdr]
    rfl
  · exact hsteady.failed _ l

/-! ### Two heaps with the same free blocks -/

/-- Two steady heaps at the same address, with the same counter and the same
free blocks. -/
structure Twins (b b' : BlockCtr) (t t' : Tiling N (k + 1)) (s : Bool) : Prop where
  left : Steady b t s
  right : Steady b' t' s
  used : ∀ x < N, t'.used x = t.used x
  startAdr : b'.startAdr = b.startAdr
  freeNum : b'.freeNum = b.freeNum
  numL : b'.numL = b.numL

namespace Twins

theorem free_iff (h : Twins b b' t t' s) {i : Nat} : t'.Free l i ↔ t.Free l i :=
  Tiling.free_iff_of_coalesced h.left.marks.coalesced h.right.marks.coalesced h.used

/-- The bitmaps have the same words. -/
theorem word_eq (h : Twins b b' t t' s) (hl : l ≤ k) {w : Int} (hw : 0 ≤ w)
    (hw' : w < b.numL l) : b'.bitmap l w = b.bitmap l w := by
  obtain ⟨v, rfl⟩ := Int.eq_ofNat_of_zero_le hw
  refine word_eq_of_bits fun j hj => ?_
  have hj' : j < 32 * b.numL l := by omega
  rw [Bool.eq_iff_iff, h.left.marks.mark l hl j hj',
    h.right.marks.mark l hl j (by rwa [h.numL])]
  exact exists_congr fun i => and_congr_left fun _ => h.free_iff

theorem linked_iff (h : Twins b b' t t' s) (hl : l ≤ k) (w : Int) :
    Linked b' (SpareIf s N k) k l w ↔ Linked b (SpareIf s N k) k l w := by
  unfold Linked
  rw [h.numL]
  refine and_congr_right fun hw => and_congr_right fun hw' => ?_
  rw [h.word_eq hl hw hw']

/-- The lists start with the same words. -/
theorem freeCur_eq (h : Twins b b' t t' s) (hl : l ≤ k) : b'.freeCur l = b.freeCur l := by
  obtain ⟨ws, hws⟩ := h.left.listed l hl
  obtain ⟨ws', hws'⟩ := h.right.listed l hl
  obtain rfl := hws.unique hws' (h.linked_iff hl)
  exact hws'.chain.head_eq.trans hws.chain.head_eq.symm

theorem firstLevel_eq (h : Twins b b' t t' s) (l : Nat) :
    firstLevel b' (k + 1 - l) l = firstLevel b (k + 1 - l) l :=
  firstLevel_congr _ _ fun _ _ hm => h.freeCur_eq (by omega)

/-- The word where a search ends is the same. -/
theorem headWord_eq (h : Twins b b' t t' s) (hm : m ≤ k) (hcur : 0 ≤ b.freeCur m) :
    b'.bitmap m (b'.freeCur m) = b.bitmap m (b.freeCur m) := by
  rw [h.freeCur_eq hm]
  exact h.word_eq hm hcur (h.left.range.cur m hm).2

/-- A request that is not refused early is answered alike. -/
theorem buddyRMalloc (h : Twins b b' t t' s) (hl : l ≤ k) :
    (buddyRMalloc l b').1 = (buddyRMalloc l b).1 ∧
      ∃ (t₁ t₁' : Tiling N (k + 1)) (s₁ : Bool),
        Twins (buddyRMalloc l b).2 (ACoral.buddyRMalloc l b').2 t₁ t₁' s₁ := by
  have hlevel := h.firstLevel_eq l
  cases hm : firstLevel b (k + 1 - l) l with
  | none =>
      rw [hm] at hlevel
      obtain ⟨hptr, hsteady, hnum, hstart, hwords⟩ := h.left.nothing hm
      obtain ⟨hptr', hsteady', hnum', hstart', hwords'⟩ := h.right.nothing hlevel
      refine ⟨by rw [hptr, hptr', h.startAdr], t, t', s, hsteady, hsteady', h.used, ?_, ?_, ?_⟩
      · rw [hstart, hstart', h.startAdr]
      · rw [hnum, hnum', h.freeNum]
      · rw [hwords, hwords', h.numL]
  | some m =>
      rw [hm] at hlevel
      obtain ⟨-, hmk, hcur⟩ := firstLevel_eq_some hm
      have hword := h.headWord_eq (by omega) hcur
      by_cases hzero : b.bitmap m (b.freeCur m) = 0
      · obtain ⟨hptr, hsteady, hnum, hstart, hwords⟩ := h.left.spareFound hm hzero
        obtain ⟨hptr', hsteady', hnum', hstart', hwords'⟩ :=
          h.right.spareFound hlevel (hword.trans hzero)
        refine ⟨by rw [hptr, hptr', h.startAdr], t, t', false, hsteady, hsteady', h.used, ?_, ?_, ?_⟩
        · rw [hstart, hstart', h.startAdr]
        · rw [hnum, hnum', h.freeNum]
        · rw [hwords, hwords', h.numL]
      · obtain ⟨i, x, t₁, hx, hxj, hi, htaken, hsteady, hptr, hnum, hstart, hwords⟩ :=
          h.left.found hl hm hzero
        obtain ⟨i', x', t₁', hx', hxj', hi', htaken', hsteady', hptr', hnum', hstart', hwords'⟩ :=
          h.right.found hl hlevel (by rwa [hword])
        have hhead : headIndex b' m = headIndex b m := by
          unfold headIndex
          rw [hword, h.freeCur_eq (by omega)]
        -- the bit stands for the same free block
        obtain rfl : x' = x := h.left.marks.eq_of_bitIndex (h.free_iff.mp hx') hx
          (by rw [hxj', hxj, hhead])
        obtain rfl : i' = i := Nat.eq_of_mul_eq_mul_right (Nat.two_pow_pos l) (hi'.trans hi.symm)
        refine ⟨by rw [hptr, hptr', h.startAdr], t₁, t₁', s, hsteady, hsteady', fun y hy => ?_,
          ?_, ?_, ?_⟩
        · rw [htaken.used, htaken'.used, h.used y hy]
        · rw [hstart, hstart', h.startAdr]
        · rw [hnum, hnum', h.freeNum]
        · rw [hwords, hwords', h.numL]

/-- A request is answered alike, if at all. -/
theorem buddyMalloc (h : Twins b b' t t' s) (size : Nat) :
    ACoral.buddyMalloc size b = none ∧ ACoral.buddyMalloc size b' = none ∨
      ∃ ptr c c', ACoral.buddyMalloc size b = some (ptr, c) ∧
        ACoral.buddyMalloc size b' = some (ptr, c') ∧
        ∃ (t₁ t₁' : Tiling N (k + 1)) (s₁ : Bool), Twins c c' t₁ t₁' s₁ := by
  have hno : ¬ b.state = MEM_NO_ALLOC := by rw [h.left.state]; decide
  have hno' : ¬ b'.state = MEM_NO_ALLOC := by rw [h.right.state]; decide
  unfold ACoral.buddyMalloc
  rw [if_neg hno, if_neg hno', h.freeNum, h.left.marks.level, h.right.marks.level]
  rcases resizeLoop_cases size with ⟨l, -, -, -, hloop⟩ | ⟨-, hloop⟩
  · right
    rw [hloop, Option.bind_some, Option.bind_some]
    dsimp only
    by_cases hnum : 2 ^ l > b.freeNum
    · rw [if_pos hnum, if_pos hnum]
      exact ⟨0, b, b', rfl, rfl, t, t', s, h⟩
    · rw [if_neg hnum, if_neg hnum]
      by_cases hl : l ≥ k + 1
      · rw [if_pos hl, if_pos hl]
        exact ⟨0, b, b', rfl, rfl, t, t', s, h⟩
      · rw [if_neg hl, if_neg hl]
        obtain ⟨hptr, htwins⟩ := h.buddyRMalloc (by omega : l ≤ k)
        generalize ACoral.buddyRMalloc l b = r at hptr htwins ⊢
        generalize ACoral.buddyRMalloc l b' = r' at hptr htwins ⊢
        exact ⟨r.1, r.2, r'.2, rfl, congrArg some (Prod.ext hptr rfl), htwins⟩
  · rw [hloop]
    exact Or.inl ⟨rfl, rfl⟩

/-- Every sequence of requests is answered alike. -/
theorem buddyMallocs (h : Twins b b' t t' s) (sizes : List Nat) :
    ACoral.buddyMallocs sizes b' = ACoral.buddyMallocs sizes b := by
  induction sizes generalizing b b' t t' s with
  | nil => rfl
  | cons size sizes ih =>
      unfold ACoral.buddyMallocs
      rcases h.buddyMalloc size with ⟨hnone, hnone'⟩ | ⟨ptr, c, c', hc, hc', t₁, t₁', s₁, htwins⟩
      · rw [hnone, hnone']
      · rw [hc, hc', Option.bind_some, Option.bind_some]
        dsimp only
        rw [ih htwins]

end Twins

end ACoral
