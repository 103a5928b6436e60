import ACoral.Proofs.Buddy.Invariant

/-!
# `ACoral.Proofs.Buddy.Malloc`: allocation takes a free block

- `recusMallocFrom_spec`: a sound search takes a free block of the
  wanted level, cutting larger ones, and the bitmaps say so afterwards.
-/

set_option autoImplicit false

namespace ACoral

open Lib

variable {b : BlockCtr} {N k l : Nat} {t : Tiling N (k + 1)}

/-! ### Taking a bit -/

theorem takeBit_sameHeap (l : Nat) (b : BlockCtr) : SameHeap b (takeBit l b).2 := by
  show SameHeap b (if _ then _ else _)
  split <;> constructor <;> rfl

theorem takeBit_bitmap (l : Nat) (b : BlockCtr) :
    (takeBit l b).2.bitmap =
      Function.update b.bitmap l (acoralClearBit (headIndex b l) (b.bitmap l)) := by
  show BlockCtr.bitmap (if _ then _ else _) = _
  split <;> rfl

/-- The bit that is taken from a nonempty word is set, and its number is that of a bit of the
word, as an `acoral_u32`. -/
theorem headIndex_of_word {w : Nat} (hcur : b.freeCur l = (w : Int))
    (hword : b.bitmap l (b.freeCur l) ≠ 0) :
    ∃ i, (b.bitmap l).bit i = true ∧ i / 32 = w ∧ headIndex b l = u32 (i : Nat) := by
  rw [hcur] at hword
  obtain ⟨hlt, hset, -⟩ := acoralFfs_spec hword
  refine ⟨w * 32 + acoralFfs (b.bitmap l w), ?_, by omega, ?_⟩
  · unfold Bitmap.bit
    rwa [show (w * 32 + acoralFfs (b.bitmap l w)) / 32 = w by omega,
      show (w * 32 + acoralFfs (b.bitmap l w)) % 32 = acoralFfs (b.bitmap l w) by omega]
  · unfold headIndex
    rw [hcur]
    push_cast
    rfl

/-- In a heap with the right bitmaps the number does not wrap around. -/
theorem headIndex_spec (h : Marks b t) (hlist : ListRange b k) (hl : l ≤ k)
    (hcur : 0 ≤ b.freeCur l) (hword : b.bitmap l (b.freeCur l) ≠ 0) :
    (b.bitmap l).bit (headIndex b l) = true ∧ (headIndex b l / 32 : Nat) = b.freeCur l ∧
      headIndex b l < 32 * b.numL l := by
  have hrange := (hlist.cur l hl).2
  obtain ⟨w, hw⟩ := Int.eq_ofNat_of_zero_le hcur
  obtain ⟨j, hbit, hjw, hindex⟩ := headIndex_of_word hw hword
  rw [hw] at hrange ⊢
  have hj : j < 32 * b.numL l := by omega
  -- a set bit stands for a block
  obtain ⟨i, hi, hij⟩ := (h.mark l hl j hj).mp hbit
  have hN := h.small'
  have hpos : 0 < 2 ^ l := Nat.two_pow_pos l
  have hle : i ≤ i * 2 ^ l := Nat.le_mul_of_pos_right i hpos
  have hilt := hi.1.1
  have hlt32 : j < 2 ^ 32 := by
    unfold bitIndex at hij
    split at hij <;> omega
  rw [hindex, u32_natCast hlt32]
  exact ⟨hbit, by rw [hjw], hj⟩

/-- The number that a set bit is turned into is the first of a free
block. -/
theorem blockOfBit_spec {b' : BlockCtr} {j : Nat} (h : Marks b t) (hused : UsedEntries b t)
    (hl : l ≤ k) (hsame : SameHeap b b') (hj : j < 32 * b.numL l)
    (hbit : (b.bitmap l).bit j = true)
    (hhalf : l < k → b.blocks (j * 2 ^ l : Nat) ≥ 0 ∨
      ∀ m < l, (b.bitmap m).bit (j * 2 ^ (l - m)) = false) :
    ∃ i, t.Free l i ∧ bitIndex k l i = j ∧ blockOfBit l j b' = (i * 2 ^ l : Nat) := by
  have hN := h.small'
  obtain ⟨i, hi, hij⟩ := (h.mark l hl j hj).mp hbit
  have hilt := hi.1.1
  have hfits := hi.1.fits
  have hpos : 0 < 2 ^ l := Nat.two_pow_pos l
  have hpow : (j : Int) * 2 ^ (l + 1) = (2 * (j * 2 ^ l) : Nat) := by
    push_cast
    ring
  have hstart : 2 * j * 2 ^ l = 2 * (j * 2 ^ l) := Nat.mul_assoc 2 j (2 ^ l)
  have hnext : (2 * j + 1) * 2 ^ l = 2 * (j * 2 ^ l) + 2 ^ l := by ring
  unfold blockOfBit
  simp only [hsame.level, hsame.blockNum, hsame.blocks, h.level, h.blockNum, hpow]
  by_cases hk : l = k
  · -- the top level: the block has the number of the bit
    rw [bitIndex, if_pos hk] at hij
    subst hij
    have hi32 : i32 (2 * (i * 2 ^ l) : Nat) = (2 * (i * 2 ^ l) : Nat) := i32_natCast (by omega)
    have hhalf2 : ((2 * (i * 2 ^ l) : Nat) : Int) / 2 = (i * 2 ^ l : Nat) := by omega
    have hcap : u32 ((i * 2 ^ l : Nat) + 2 ^ l) = (i + 1) * 2 ^ l := by
      have hexp : (i + 1) * 2 ^ l = i * 2 ^ l + 2 ^ l := by ring
      rw [← u32_natCast (by omega : (i + 1) * 2 ^ l < 2 ^ 32), hexp]
      push_cast
      rfl
    refine ⟨i, hi, by rw [bitIndex, if_pos hk], ?_⟩
    rw [if_pos (by omega), hi32, hhalf2, hcap, if_neg (by omega)]
  · have hlk : l < k := by omega
    have hlt2 : 2 * (j * 2 ^ l) < N := by
      rcases h.free_half hlk hj hbit with hf | hf
      · have := hf.1.1
        omega
      · have := hf.1.1
        omega
    have hi32 : i32 (2 * (j * 2 ^ l) : Nat) = (2 * (j * 2 ^ l) : Nat) := i32_natCast (by omega)
    have hindex : blockIndex (2 * (j * 2 ^ l) : Nat) = (j * 2 ^ l : Nat) := by
      unfold blockIndex
      omega
    rw [if_neg (by omega), hi32, hindex]
    by_cases hentry : b.blocks (j * 2 ^ l : Nat) ≥ 0
    · -- the first half has a level, so it is the second that is free
      have hright : t.Free l (2 * j + 1) := (h.free_half hlk hj hbit).resolve_left fun hleft => by
        have := h.freeEntry l hlk j hleft
        omega
      refine ⟨2 * j + 1, hright, by rw [bitIndex, if_neg hk]; omega, ?_⟩
      rw [if_pos hentry, hnext]
      push_cast
      ring
    · have hleft := h.free_left hused hlk hj hbit (by omega) ((hhalf hlk).resolve_left hentry)
      refine ⟨2 * j, hleft, by rw [bitIndex, if_neg hk]; omega, ?_⟩
      rw [if_neg hentry, hstart]

/-! ### The search -/

theorem splitBlock_sameHeap (l : Nat) (num : Int) (b : BlockCtr) :
    SameHeap b (splitBlock l num b) := by
  constructor <;> rfl

/-- The bit of the pair that a block of the next level is cut into. -/
theorem u32_mul_two_pow_div {i : Nat} (hi : i < 2 ^ 32) :
    u32 (((i * 2 ^ (l + 1) : Nat) : Int) / 2 ^ (l + 1)) = i := by
  have hdiv : ((i * 2 ^ (l + 1) : Nat) : Int) / 2 ^ (l + 1) = (i : Nat) := by
    rw [show ((2 : Int) ^ (l + 1)) = ((2 ^ (l + 1) : Nat) : Int) by push_cast; rfl,
      ← Int.natCast_ediv, mul_two_pow_div]
  rw [hdiv, u32_natCast hi]

theorem splitBlock_bitmap {i : Nat} (hi : i < 2 ^ 32) (l : Nat) (b : BlockCtr) :
    (splitBlock l (i * 2 ^ (l + 1) : Nat) b).bitmap =
      Function.update b.bitmap l (acoralSetBit i (b.bitmap l)) := by
  show Function.update b.bitmap l (acoralSetBit (u32 _) _) = _
  rw [u32_mul_two_pow_div hi]

theorem takeBit_listRange (hlist : ListRange b k) (hl : l ≤ k) (hcur : 0 ≤ b.freeCur l) :
    ListRange (takeBit l b).2 k := by
  have hclear : ListRange
      (b.setBitmap l (acoralClearBit (headIndex b l) (b.bitmap l))) k := hlist.of_eq rfl rfl rfl
  show ListRange (if _ then _ else _) k
  split
  · exact hclear.setFreeCur (hlist.next l hl _ hcur (hlist.cur l hl).2)
  · exact hclear

theorem splitBlock_listRange {i : Nat} (hlist : ListRange b k) (hi : i < 2 ^ 32)
    (hword : i < 32 * b.numL l) : ListRange (splitBlock l (i * 2 ^ (l + 1) : Nat) b) k := by
  have hrange : (-1 : Int) ≤ (i / 32 : Nat) ∧ ((i / 32 : Nat) : Int) < b.numL l := by omega
  unfold splitBlock
  rw [u32_mul_two_pow_div hi]
  have hset : ListRange (b.setBitmap l (acoralSetBit i (b.bitmap l))) k := hlist.of_eq rfl rfl rfl
  refine (hset.setFreeList ⟨by omega, ?_⟩).setFreeCur hrange
  show (-1 : Int) < b.numL l
  omega

/-- Every search changes bitmaps and lists only. -/
theorem recusMallocFrom_sameHeap (rounds l : Nat) (b : BlockCtr) :
    SameHeap b (recusMallocFrom rounds l b).2 := by
  induction rounds generalizing l with
  | zero => exact SameHeap.refl b
  | succ rounds ih =>
      rw [recusMallocFrom]
      split
      · dsimp only
        split
        · exact ih (l + 1)
        · exact (ih (l + 1)).trans (splitBlock_sameHeap l _ _)
      · exact takeBit_sameHeap l b

/-- The pair that a block of the next level is cut into has its bit in a word
of the level. -/
theorem Marks.pair_lt {i : Nat} (h : Marks b t) (hl : l < k) (htile : t.IsTile (l + 1) i) :
    i < 32 * b.numL l ∧ i < 2 ^ 32 := by
  have hlt := htile.1
  have hle : i ≤ i * 2 ^ (l + 1) := Nat.le_mul_of_pos_right i (Nat.two_pow_pos _)
  have hN := h.small'
  rw [← two_mul_mul_two_pow] at hlt hle
  have hword := h.words l (by omega) _ hlt
  rw [bitIndex, if_neg (by omega)] at hword
  omega

/-- That bit is clear: no half of a tile is free. -/
theorem Marks.pair_clear {i : Nat} (h : Marks b t) (hl : l < k) (htile : t.IsTile (l + 1) i) :
    (b.bitmap l).bit i = false := by
  by_contra hset
  rw [Bool.not_eq_false] at hset
  have hnot : ∀ x, x / 2 = i → ¬ t.Free l x := fun x hx hf => by
    have hmem : x * 2 ^ l / 2 ^ (l + 1) = i := by rw [div_two_pow_succ, mul_two_pow_div, hx]
    have := (hf.1.unique htile (mul_two_pow_div x l) hmem).1
    omega
  rcases h.free_half hl (h.pair_lt hl htile).1 hset with hf | hf
  · exact hnot _ (by omega) hf
  · exact hnot _ (by omega) hf

/-- A block of the next level is cut: its first half goes out. -/
theorem Marks.splitBlock {b' : BlockCtr} {i : Nat} {t' : Tiling N (k + 1)} (h : Marks b' t')
    (hl : l < k) (htaken : t.Taken t' (l + 1) i) :
    Marks (splitBlock l (i * 2 ^ (l + 1) : Nat) b')
      ((t'.split htaken.tile).setUsed false (Tiling.isTile_split_right htaken.tile)) := by
  refine h.set (by omega) (splitBlock_sameHeap l _ _)
    (splitBlock_bitmap (h.pair_lt hl htaken.tile).2 l _) (i := 2 * i + 1) ?_
    (h.pair_clear hl htaken.tile) (fun c x => htaken.free_split) fun c _ hc => by omega
  rw [bitIndex, if_neg (by omega)]
  omega

/-- The search from level `l` up takes a free block of level `l` when it is
sound. The induction is on the levels left; on the way back each level
keeps the second half of the block it gets. -/
theorem recusMallocFrom_spec (h : Marks b t) (hlist : ListRange b k) (hused : UsedEntries b t)
    (rounds : Nat) (hl : l + rounds = k + 1) {m : Nat} (hm : firstLevel b rounds l = some m)
    (hword : b.bitmap m (b.freeCur m) ≠ 0)
    (hhalf : m < k → b.blocks (headIndex b m * 2 ^ m : Nat) ≥ 0 ∨
      ∀ c < m, (b.bitmap c).bit (headIndex b m * 2 ^ (m - c)) = false) :
    ∃ i t', (recusMallocFrom rounds l b).1 = (i * 2 ^ l : Nat) ∧
      Marks (recusMallocFrom rounds l b).2 t' ∧ ListRange (recusMallocFrom rounds l b).2 k ∧
      t.Taken t' l i ∧ t.CutAtStart t' l i := by
  induction rounds generalizing l with
  | zero => simp [firstLevel] at hm
  | succ rounds ih =>
      unfold firstLevel at hm
      unfold recusMallocFrom
      by_cases hcur : b.freeCur l < 0
      · rw [if_pos hcur] at hm ⊢
        obtain ⟨i, t', hnum, hmarks, hlist', htaken, hcut⟩ := ih (by omega) hm
        have hk : l < k := by
          have := htaken.tile.level_lt
          omega
        simp only [hnum, show ¬ (((i * 2 ^ (l + 1) : Nat) : Int) < 0) by omega, if_false]
        obtain ⟨hword, hi32⟩ := hmarks.pair_lt hk htaken.tile
        exact ⟨2 * i, _, by rw [two_mul_mul_two_pow], hmarks.splitBlock hk htaken,
          splitBlock_listRange hlist' hi32 hword, htaken.split, hcut.split htaken⟩
      · rw [if_neg hcur] at hm ⊢
        obtain rfl := Option.some.inj hm
        have hlk : l ≤ k := by omega
        obtain ⟨hbit, -, hj⟩ := headIndex_spec h hlist hlk (by omega) hword
        have hsame := takeBit_sameHeap l b
        obtain ⟨i, hi, hij, hnum⟩ := blockOfBit_spec h hused hlk hsame hj hbit hhalf
        refine ⟨i, t.setUsed true hi.1, hnum, ?_, takeBit_listRange hlist hlk (by omega),
          Tiling.taken_setUsed hi, Tiling.cutAtStart_setUsed hi⟩
        exact h.clear hsame (takeBit_bitmap l b) hi hij fun c x => Tiling.free_setUsed_true hi.1

/-- Where the search ends depends on the first words of the levels from `l`
on. -/
theorem firstLevel_congr {b' : BlockCtr} (rounds l : Nat)
    (h : ∀ m, l ≤ m → m < l + rounds → b'.freeCur m = b.freeCur m) :
    firstLevel b' rounds l = firstLevel b rounds l := by
  induction rounds generalizing l with
  | zero => rfl
  | succ rounds ih =>
      unfold firstLevel
      rw [h l (Nat.le_refl l) (by omega), ih (l + 1) fun m hm hm' => h m (by omega) (by omega)]

/-- The levels below the one where the search ends hand its block on. -/
theorem recusMallocFrom_num {rounds l m n : Nat} (hm : firstLevel b rounds l = some m)
    (hnum : blockOfBit m (headIndex b m) (takeBit m b).2 = n) :
    (recusMallocFrom rounds l b).1 = n := by
  induction rounds generalizing l with
  | zero => simp [firstLevel] at hm
  | succ rounds ih =>
      unfold firstLevel at hm
      unfold recusMallocFrom
      by_cases hcur : b.freeCur l < 0
      · rw [if_pos hcur] at hm ⊢
        simp only [ih hm, show ¬ ((n : Int) < 0) by omega, if_false]
      · rw [if_neg hcur] at hm ⊢
        obtain rfl := Option.some.inj hm
        exact hnum

/-- The counter does not matter for the search. -/
theorem searchSound_setFreeNum (b : BlockCtr) (num l : Nat) :
    searchSound (b.setFreeNum num) l = searchSound b l := by
  have hfirst : firstLevel (b.setFreeNum num) (b.level - l) l = firstLevel b (b.level - l) l :=
    firstLevel_congr _ _ fun _ _ _ => rfl
  unfold searchSound
  rw [show (b.setFreeNum num).level = b.level from rfl, hfirst]
  cases firstLevel b (b.level - l) l <;> rfl

/-- What `searchSound` says. -/
theorem searchSound_eq_true (hlevel : b.level = k + 1) (hs : searchSound b l = true) :
    ∃ m, firstLevel b (k + 1 - l) l = some m ∧ b.bitmap m (b.freeCur m) ≠ 0 ∧
      (m < k → b.blocks (headIndex b m * 2 ^ m : Nat) ≥ 0 ∨
        ∀ c < m, (b.bitmap c).bit (headIndex b m * 2 ^ (m - c)) = false) := by
  unfold searchSound at hs
  rw [hlevel] at hs
  cases hm : firstLevel b (k + 1 - l) l with
  | none => simp [hm] at hs
  | some m =>
      simp only [hm, Bool.and_eq_true, Bool.or_eq_true, decide_eq_true_iff] at hs
      refine ⟨m, rfl, hs.1, fun hmk => ?_⟩
      have hhalf := hs.2.resolve_left (by omega)
      simpa [halfSound, acoralGetBit_eq_bit] using hhalf

/-- `recus_malloc` takes a free block of the level when the search is
sound. -/
theorem recusMalloc_spec (h : Marks b t) (hlist : ListRange b k) (hused : UsedEntries b t)
    (hl : l ≤ k) (hs : searchSound b l = true) :
    ∃ i t', (recusMalloc l b).1 = (i * 2 ^ l : Nat) ∧ Marks (recusMalloc l b).2 t' ∧
      ListRange (recusMalloc l b).2 k ∧ t.Taken t' l i ∧ t.CutAtStart t' l i := by
  obtain ⟨m, hm, hword, hhalf⟩ := searchSound_eq_true h.level hs
  unfold recusMalloc
  rw [h.level]
  exact recusMallocFrom_spec h hlist hused (k + 1 - l) (by omega) hm hword hhalf

/-! ### The table of levels -/

/-- The block that was taken gets its level in the table, if its number is
even. -/
theorem Marks.setBlock {i : Nat} (h : Marks b t)
    (hused : t.used (i * 2 ^ l) = true) (heven : i * 2 ^ l % 2 = 0) (level0 : Int) :
    Marks (b.setBlock (i * 2 ^ l / 2 : Nat) level0) t where
  level := h.level
  blockNum := h.blockNum
  small := h.small
  coalesced := h.coalesced
  words := h.words
  mark := h.mark
  freeEntry := fun m hm c hc => by
    have hstart : 2 * c * 2 ^ m = 2 * (c * 2 ^ m) := Nat.mul_assoc 2 c (2 ^ m)
    have hne : c * 2 ^ m ≠ i * 2 ^ l / 2 := fun heq => by
      have hsame : i * 2 ^ l = 2 * c * 2 ^ m := by omega
      rw [hsame, hc.2] at hused
      exact absurd hused (by decide)
    show Function.update b.blocks _ level0 _ < 0
    rw [Function.update_of_ne (by omega)]
    exact h.freeEntry m hm c hc

/-- After a block is taken and has its level in the table, every used block
has. -/
theorem UsedEntries.taken {b' : BlockCtr} {i : Nat} {t' : Tiling N (k + 1)}
    (h : UsedEntries b t) (htaken : t.Taken t' l i) (hblocks : b'.blocks = b.blocks)
    (heven : i * 2 ^ l % 2 = 0) : UsedEntries (b'.setBlock (i * 2 ^ l / 2 : Nat) l) t' := by
  intro m j hm hu hj
  show Function.update b'.blocks _ _ _ = _
  rcases htaken.used_tile hm hu with ⟨rfl, rfl⟩ | ⟨hm', hu'⟩
  · exact Function.update_self _ _ _
  · have hne : j * 2 ^ m ≠ i * 2 ^ l := fun heq => by
      rw [heq, htaken.free _ (mul_two_pow_div i l)] at hu'
      exact absurd hu' (by decide)
    rw [Function.update_of_ne (by omega), hblocks]
    exact h m j hm' hu' hj

/-- A block with an odd number has no place of its own in the table. -/
theorem UsedEntries.taken_odd {b' : BlockCtr} {i : Nat} {t' : Tiling N (k + 1)}
    (h : UsedEntries b t) (htaken : t.Taken t' l i) (hblocks : b'.blocks = b.blocks)
    (hodd : i * 2 ^ l % 2 ≠ 0) : UsedEntries b' t' := by
  intro m j hm hu hj
  rw [hblocks]
  rcases htaken.used_tile hm hu with ⟨rfl, rfl⟩ | ⟨hm', hu'⟩
  · exact absurd hj hodd
  · exact h m j hm' hu' hj

/-! ### `buddy_r_malloc` -/

/-- A sound search reserves a free block of the level: the bitmaps and the
table say so, its size is off the counter, and nothing else of the heap
changes. -/
theorem buddyRMalloc_spec (h : Marks b t) (hlist : ListRange b k) (hused : UsedEntries b t)
    (hl : l ≤ k) (hs : searchSound b l = true) :
    ∃ i t', (buddyRMalloc l b).1 = b.startAdr + i * 2 ^ l * 2 ^ BLOCK_SHIFT ∧
      Marks (buddyRMalloc l b).2 t' ∧ ListRange (buddyRMalloc l b).2 k ∧
      UsedEntries (buddyRMalloc l b).2 t' ∧ t.Taken t' l i ∧ t.CutAtStart t' l i ∧
      (buddyRMalloc l b).2.freeNum = u32 (b.freeNum - 2 ^ l) ∧
      (buddyRMalloc l b).2.state = b.state ∧ (buddyRMalloc l b).2.startAdr = b.startAdr ∧
      (buddyRMalloc l b).2.endAdr = b.endAdr ∧ (buddyRMalloc l b).2.numL = b.numL := by
  have hm : Marks (b.setFreeNum (u32 (b.freeNum - 2 ^ l))) t :=
    ⟨h.level, h.blockNum, h.small, h.coalesced, h.words, h.mark, h.freeEntry⟩
  obtain ⟨i, t', hnum, hmarks, hlist', htaken, hcut⟩ :=
    recusMalloc_spec hm (hlist.of_eq rfl rfl rfl) hused hl
    (by rw [searchSound_setFreeNum]; exact hs)
  have hsame : SameHeap (b.setFreeNum (u32 (b.freeNum - 2 ^ l)))
      (recusMalloc l (b.setFreeNum (u32 (b.freeNum - 2 ^ l)))).2 := recusMallocFrom_sameHeap _ l _
  have hptr : u32 ((b.startAdr : Int) + ((i * 2 ^ l : Nat) : Int) * 2 ^ BLOCK_SHIFT) =
      b.startAdr + i * 2 ^ l * 2 ^ BLOCK_SHIFT := by
    have hlt := htaken.tile.1
    have hsmall := h.small
    have hmul : i * 2 ^ l * 2 ^ BLOCK_SHIFT < N * 2 ^ BLOCK_SHIFT :=
      Nat.mul_lt_mul_of_pos_right hlt (by decide)
    rw [← u32_natCast (by omega : b.startAdr + i * 2 ^ l * 2 ^ BLOCK_SHIFT < 2 ^ 32)]
    push_cast
    rfl
  have hu := htaken.used_self
  unfold buddyRMalloc
  simp only [hnum]
  refine ⟨i, t', ?_⟩
  by_cases heven : i * 2 ^ l % 2 = 0
  · have hindex : blockIndex (i * 2 ^ l : Nat) = (i * 2 ^ l / 2 : Nat) := by
      unfold blockIndex
      omega
    rw [if_pos (by omega), hindex]
    refine ⟨?_, hmarks.setBlock hu heven l, hlist'.of_eq rfl rfl rfl, hused.taken htaken hsame.blocks heven,
      htaken, hcut, hsame.freeNum, hsame.state, hsame.startAdr, hsame.endAdr, hsame.numL⟩
    show u32 (((recusMalloc l _).2.startAdr : Int) + _) = _
    rw [hsame.startAdr]
    exact hptr
  · rw [if_neg (by omega)]
    refine ⟨?_, hmarks, hlist', hused.taken_odd htaken hsame.blocks heven, htaken, hcut, hsame.freeNum,
      hsame.state, hsame.startAdr, hsame.endAdr, hsame.numL⟩
    rw [hsame.startAdr]
    exact hptr

/-! ### The size of a request -/

/-- When `resize_size` has become 0 the loop does not end. -/
theorem resizeLoop_zero {size : Nat} (h : 0 < size) (rounds num level0 : Nat) :
    resizeLoop size rounds 0 num level0 = none := by
  induction rounds generalizing num level0 with
  | zero => rfl
  | succ rounds ih =>
      rw [resizeLoop, if_pos h]
      exact ih _ _

/-- The loop of `buddy_malloc` ends at the smallest size that is large
enough, if there is one below `2 ^ 32`. -/
theorem resizeLoop_spec {size rounds level0 : Nat} (hl : level0 ≤ 24)
    (hrounds : level0 + rounds = 26) (hsize : size ≤ 2 ^ 31) :
    ∃ m, level0 ≤ m ∧ m ≤ 24 ∧ size ≤ BLOCK_SIZE * 2 ^ m ∧
      (∀ c, level0 ≤ c → c < m → BLOCK_SIZE * 2 ^ c < size) ∧
      resizeLoop size rounds (BLOCK_SIZE * 2 ^ level0) (2 ^ level0) level0 =
        some (BLOCK_SIZE * 2 ^ m, 2 ^ m, m) := by
  induction rounds generalizing level0 with
  | zero => omega
  | succ rounds ih =>
      rw [resizeLoop]
      by_cases hlt : BLOCK_SIZE * 2 ^ level0 < size
      · have hpow : BLOCK_SIZE * 2 ^ 24 = 2 ^ 31 := by decide
        have hne : level0 ≠ 24 := fun h => by
          rw [h, hpow] at hlt
          omega
        have hle : 2 ^ level0 ≤ 2 ^ 23 := Nat.pow_le_pow_right (by decide) (by omega)
        have hsize2 : u32 ((BLOCK_SIZE * 2 ^ level0 : Nat) * 2) = BLOCK_SIZE * 2 ^ (level0 + 1) := by
          rw [Nat.pow_succ]
          unfold u32 BLOCK_SIZE BLOCK_SHIFT
          omega
        have hnum2 : u32 ((2 ^ level0 : Nat) * 2) = 2 ^ (level0 + 1) := by
          rw [Nat.pow_succ]
          unfold u32
          omega
        obtain ⟨m, hm, hm24, hfit, hmin, hloop⟩ :=
          ih (show level0 + 1 ≤ 24 by omega) (by omega)
        refine ⟨m, by omega, hm24, hfit, fun c hc hcm => ?_, ?_⟩
        · rcases Nat.eq_or_lt_of_le hc with rfl | hc
          · exact hlt
          · exact hmin c hc hcm
        · rw [if_pos hlt, hsize2, hnum2, hloop]
      · exact ⟨level0, Nat.le_refl _, hl, Nat.le_of_not_lt hlt, fun c hc hcm => by omega,
          if_neg hlt⟩

/-- For a request of more than `2 ^ 31` bytes the loop does not end, however
many rounds it makes. -/
theorem resizeLoop_none {size rounds level0 : Nat} (hl : level0 ≤ 25) (hsize : 2 ^ 31 < size)
    (num : Nat) :
    resizeLoop size rounds (u32 (BLOCK_SIZE * 2 ^ level0 : Nat)) num level0 = none := by
  induction rounds generalizing level0 num with
  | zero => rfl
  | succ rounds ih =>
      rcases Nat.eq_or_lt_of_le hl with rfl | hl
      · have hzero : u32 (BLOCK_SIZE * 2 ^ 25 : Nat) = 0 := by decide
        rw [hzero]
        exact resizeLoop_zero (by omega) _ _ _
      · have hle : 2 ^ level0 ≤ 2 ^ 24 := Nat.pow_le_pow_right (by decide) (by omega)
        have hlt : u32 (BLOCK_SIZE * 2 ^ level0 : Nat) < size := by
          unfold u32 BLOCK_SIZE BLOCK_SHIFT
          omega
        have hdouble : u32 ((u32 (BLOCK_SIZE * 2 ^ level0 : Nat) : Nat) * 2) =
            u32 (BLOCK_SIZE * 2 ^ (level0 + 1) : Nat) := by
          rw [Nat.pow_succ]
          unfold u32 BLOCK_SIZE BLOCK_SHIFT
          omega
        rw [resizeLoop, if_pos hlt, hdouble]
        exact ih (by omega) _

/-- The same from the first round on. -/
theorem resizeLoop_never {size : Nat} (hsize : 2 ^ 31 < size) (rounds : Nat) :
    resizeLoop size rounds BLOCK_SIZE 1 0 = none := by
  have hnone := @resizeLoop_none size rounds 0 (Nat.zero_le 25) hsize 1
  rwa [show u32 (BLOCK_SIZE * 2 ^ 0 : Nat) = BLOCK_SIZE by decide] at hnone

/-- What the loop of `buddy_malloc` answers: the smallest level that is
large enough, or nothing. -/
theorem resizeLoop_cases (size : Nat) :
    (∃ m ≤ 24, size ≤ BLOCK_SIZE * 2 ^ m ∧ (∀ c < m, BLOCK_SIZE * 2 ^ c < size) ∧
      resizeLoop size 26 BLOCK_SIZE 1 0 = some (BLOCK_SIZE * 2 ^ m, 2 ^ m, m)) ∨
    2 ^ 31 < size ∧ resizeLoop size 26 BLOCK_SIZE 1 0 = none := by
  by_cases hsize : size ≤ 2 ^ 31
  · obtain ⟨m, -, hm, hfit, hmin, hloop⟩ :=
      resizeLoop_spec (Nat.zero_le 24) (Nat.zero_add 26) hsize
    rw [Nat.pow_zero, Nat.mul_one] at hloop
    exact Or.inl ⟨m, hm, hfit, fun c hc => hmin c (Nat.zero_le c) hc, hloop⟩
  · have hlt : 2 ^ 31 < size := Nat.lt_of_not_le hsize
    exact Or.inr ⟨hlt, resizeLoop_never hlt 26⟩

/-- `buddy_malloc_size` answers the same size, when it is the size of a
block. -/
theorem mallocSizeLoop_eq {size m level rounds level0 : Nat} (hm : m < level) (hm24 : m ≤ 24)
    (hl : level0 ≤ m) (hrounds : m ≤ level0 + rounds) (hfit : size ≤ BLOCK_SIZE * 2 ^ m)
    (hmin : ∀ c, level0 ≤ c → c < m → BLOCK_SIZE * 2 ^ c < size) :
    mallocSizeLoop size level rounds (BLOCK_SIZE * 2 ^ level0) level0 = BLOCK_SIZE * 2 ^ m := by
  induction rounds generalizing level0 with
  | zero => rw [show level0 = m by omega]; rfl
  | succ rounds ih =>
      rw [mallocSizeLoop]
      rcases Nat.eq_or_lt_of_le hl with rfl | hlt
      · rw [if_neg (by omega)]
      · have hle : 2 ^ level0 ≤ 2 ^ 23 := Nat.pow_le_pow_right (by decide) (by omega)
        have hdouble : u32 ((BLOCK_SIZE * 2 ^ level0 : Nat) * 2) = BLOCK_SIZE * 2 ^ (level0 + 1) := by
          rw [Nat.pow_succ]
          unfold u32 BLOCK_SIZE BLOCK_SHIFT
          omega
        rw [if_pos ⟨hmin level0 (Nat.le_refl _) hlt, by omega⟩, hdouble]
        exact ih (by omega) (by omega) fun c hc hcm => hmin c (by omega) hcm

end ACoral
