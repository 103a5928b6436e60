import ACoral.Proofs.Buddy.Invariant

/-!
# `ACoral.Proofs.Buddy.Free`: release makes a block free

- `freeLoop_spec`: the loop over the levels joins the released block with
  the free other half of its pair, as often as there is one.
- `buddyFree_spec`: releasing a used block makes its members free, and the
  bitmaps and the table say so afterwards.
-/

set_option autoImplicit false

namespace ACoral

open Lib

variable {b b' : BlockCtr} {N k l i fuel : Nat} {t : Tiling N (k + 1)}

/-! ### One level -/

/-- The branch for a pair with no free block sets its bit. -/
theorem insertBlock_spec {index : Nat} (h : insertBlock fuel l index b = some b') :
    SameHeap b b' ∧
      b'.bitmap = Function.update b.bitmap l (acoralSetBit index (b.bitmap l)) := by
  unfold insertBlock at h
  dsimp only at h
  split at h
  · obtain rfl := Option.some.inj h
    exact ⟨by constructor <;> rfl, rfl⟩
  · split at h
    · obtain ⟨tempCur, -, rfl⟩ := Option.map_eq_some_iff.mp h
      exact ⟨by constructor <;> rfl, rfl⟩
    · obtain rfl := Option.some.inj h
      exact ⟨by constructor <;> rfl, rfl⟩

/-- The branch for a pair with a free block clears its bit. -/
theorem removePair_spec {index : Nat} (h : removePair fuel l index b = some b') :
    SameHeap b b' ∧
      b'.bitmap = Function.update b.bitmap l (acoralClearBit index (b.bitmap l)) := by
  obtain ⟨tempCur, -, rfl⟩ := Option.map_eq_some_iff.mp h
  split
  · exact ⟨by constructor <;> rfl, rfl⟩
  · exact ⟨by constructor <;> rfl, rfl⟩

/-- A walk through the list of a level stays in the words of the level. -/
theorem insertWalk_range {freeList : Int → Int} {cur tempCur last : Int} {num : Nat}
    (hnext : ∀ w : Int, 0 ≤ w → w < num → -1 ≤ freeList w ∧ freeList w < num)
    (htemp : 0 ≤ tempCur ∧ tempCur < num)
    (hwalk : insertWalk freeList cur fuel tempCur = some last) : 0 ≤ last ∧ last < num := by
  induction fuel generalizing tempCur with
  | zero => simp [insertWalk] at hwalk
  | succ fuel ih =>
      unfold insertWalk at hwalk
      split at hwalk
      · rename_i hgo
        have := hnext tempCur htemp.1 htemp.2
        exact ih (by omega) hwalk
      · rwa [← Option.some.inj hwalk]

theorem insertBlock_listRange {index : Nat} (h : ListRange b k) (hl : l ≤ k)
    (hindex : index < 32 * b.numL l) (hinsert : insertBlock fuel l index b = some b') :
    ListRange b' k := by
  have hcur := h.cur l hl
  have hset : ListRange (b.setBitmap l (acoralSetBit index (b.bitmap l))) k :=
    h.of_eq rfl rfl rfl
  have hword : (-1 : Int) ≤ (index / 32 : Nat) ∧ ((index / 32 : Nat) : Int) < b.numL l := by omega
  unfold insertBlock at hinsert
  dsimp only at hinsert
  split at hinsert
  · obtain rfl := Option.some.inj hinsert
    exact (hset.setFreeList hcur).setFreeCur hword
  · rename_i hfront
    split at hinsert
    · obtain ⟨tempCur, hwalk, rfl⟩ := Option.map_eq_some_iff.mp hinsert
      have htemp := insertWalk_range (hset.next l hl)
        (by show 0 ≤ b.freeCur l ∧ b.freeCur l < b.numL l; push Not at hfront; exact ⟨hfront.1, hcur.2⟩)
        hwalk
      exact (hset.setFreeList (hset.next l hl tempCur htemp.1 htemp.2)).setFreeList hword
    · obtain rfl := Option.some.inj hinsert
      exact hset

theorem removePair_listRange {index : Nat} (h : ListRange b k) (hl : l ≤ k)
    (hindex : index < 32 * b.numL l) (hremove : removePair fuel l index b = some b') :
    ListRange b' k := by
  have hclear : ListRange (b.setBitmap l (acoralClearBit index (b.bitmap l))) k :=
    h.of_eq rfl rfl rfl
  obtain ⟨tempCur, -, rfl⟩ := Option.map_eq_some_iff.mp hremove
  split
  · exact hclear.setFreeCur (hclear.next l hl _ (by omega) (by show _ < (b.numL l : Int); omega))
  · exact hclear

/-- The bit of the released block does not stand for the block itself. -/
theorem Marks.not_free_of_used (hu : t.used (i * 2 ^ l) = true) : ¬ t.Free l i := fun hf => by
  rw [hf.2] at hu
  exact absurd hu (by decide)

/-- The other half of the pair of a used block, when the bit is set. -/
theorem Marks.free_buddy (h : Marks b t) (hl : l < k) (htile : t.IsTile l i)
    (hu : t.used (i * 2 ^ l) = true) (hbit : (b.bitmap l).bit (i / 2) = true) :
    ∃ c, c / 2 = i / 2 ∧ c ≠ i ∧ t.Free l c := by
  have hnot := Marks.not_free_of_used hu
  have hword := h.words l (by omega) i htile.1
  rw [bitIndex, if_neg (by omega)] at hword
  rcases h.free_half hl hword hbit with hf | hf
  · exact ⟨_, by omega, fun he => hnot (he ▸ hf), hf⟩
  · exact ⟨_, by omega, fun he => hnot (he ▸ hf), hf⟩

/-- The table has no level for the block that is being released. -/
def HandEntry (b : BlockCtr) (l i : Nat) : Prop :=
  i * 2 ^ l % 2 = 0 → b.blocks (i * 2 ^ l / 2 : Nat) < 0

/-- It has none for the block of the next level either, when the other half
is free. -/
theorem HandEntry.merge {c : Nat} (hentry : HandEntry b l i) (h : Marks b t) (hl : l < k)
    (hc : c / 2 = i / 2) (hci : c ≠ i) (hfree : t.Free l c) : HandEntry b (l + 1) (i / 2) := by
  have hstart : i / 2 * 2 ^ (l + 1) = 2 * (i / 2) * 2 ^ l := (two_mul_mul_two_pow _ _).symm
  intro heven
  rw [hstart] at heven ⊢
  rcases Nat.mod_two_eq_zero_or_one i with hi | hi
  · -- the released block is the first half
    rw [show 2 * (i / 2) = i by omega] at heven ⊢
    exact hentry heven
  · rw [show 2 * (i / 2) = 2 * (c / 2) by omega, Nat.mul_assoc,
      Nat.mul_div_cancel_left _ (by decide)]
    exact h.freeEntry l hl _ (by rwa [show 2 * (c / 2) = c by omega])

/-! ### The loop -/

/-- The tiling after the released block is joined with the free other half
of its pair. -/
theorem Marks.join {c : Nat} (h : Marks b t) (hl : l < k) (htile : t.IsTile l i)
    (hu : t.used (i * 2 ^ l) = true) (hc : c / 2 = i / 2) (hci : c ≠ i) (hfree : t.Free l c)
    (hsame : SameHeap b b')
    (hbitmap : b'.bitmap = Function.update b.bitmap l (acoralClearBit (i / 2) (b.bitmap l))) :
    ∃ t₁ : Tiling N (k + 1), Marks b' t₁ ∧ t₁.IsTile (l + 1) (i / 2) ∧
      t₁.used (i / 2 * 2 ^ (l + 1)) = true ∧
      (∀ x, x / 2 ^ l ≠ c → t₁.used x = t.used x) ∧
      ∀ x, x / 2 ^ (l + 1) ≠ i / 2 → t₁.lev x = t.lev x := by
  have hkept : (t.setUsed true hfree.1).used (i * 2 ^ l) = true := by
    show (if i * 2 ^ l / 2 ^ l = c then true else t.used (i * 2 ^ l)) = true
    split
    · rfl
    · exact hu
  have hjoined : (t.setUsed true hfree.1).used (c * 2 ^ l) = true := if_pos (mul_two_pow_div c l)
  -- the halves in order
  obtain ⟨h₀, h₁, hu₀, hu₁⟩ :
      (t.setUsed true hfree.1).IsTile l (2 * (i / 2)) ∧
      (t.setUsed true hfree.1).IsTile l (2 * (i / 2) + 1) ∧
      (t.setUsed true hfree.1).used (2 * (i / 2) * 2 ^ l) = true ∧
      (t.setUsed true hfree.1).used ((2 * (i / 2) + 1) * 2 ^ l) = true := by
    rcases Nat.mod_two_eq_zero_or_one i with hi | hi
    · rw [show 2 * (i / 2) = i by omega, show i + 1 = c by omega]
      exact ⟨htile, hfree.1, hkept, hjoined⟩
    · rw [show 2 * (i / 2) = c by omega, show c + 1 = i by omega]
      exact ⟨hfree.1, htile, hjoined, hkept⟩
  have hmarks : Marks b' (t.setUsed true hfree.1) :=
    h.clear hsame hbitmap hfree (by rw [bitIndex, if_neg (by omega), hc])
      fun m x => Tiling.free_setUsed_true hfree.1
  refine ⟨(t.setUsed true hfree.1).merge h₀ h₁ (hu₀.trans hu₁.symm) (by omega), ?_,
    Tiling.isTile_merge h₀ h₁ _ _, ?_, fun x hx => if_neg hx, fun x hx => if_neg hx⟩
  · exact hmarks.congr (SameHeap.refl b') rfl fun m x => Tiling.free_merge h₀ h₁ hu₀ hu₁ (by omega)
  · rw [← two_mul_mul_two_pow]
    exact hu₀

/-- The loop releases the block. The induction is on the levels left; each
round sets the bit of the pair and ends, or joins the block with the other
half and goes on with the block of the next level. -/
theorem freeLoop_spec (h : Marks b t) (hlist : ListRange b k) (rounds : Nat)
    (hl : l + rounds = k + 1) (htile : t.IsTile l i) (hu : t.used (i * 2 ^ l) = true) (hentry : HandEntry b l i)
    (hloop : freeLoop fuel rounds l (bitIndex k l i) b = some b') :
    ∃ t' : Tiling N (k + 1), Marks b' t' ∧ ListRange b' k ∧ t.Released t' l i ∧
      SameHeap b b' := by
  induction rounds generalizing l i b t with
  | zero =>
      have := htile.level_lt
      omega
  | succ rounds ih =>
      have hlk : l ≤ k := by omega
      have hword := h.words l hlk i htile.1
      unfold freeLoop at hloop
      rw [acoralGetBit_eq_bit] at hloop
      split at hloop
      · rename_i hclear
        obtain ⟨hsame, hbitmap⟩ := insertBlock_spec hloop
        refine ⟨t.setUsed false htile, ?_, insertBlock_listRange hlist hlk hword hloop,
          Tiling.released_setUsed htile, hsame⟩
        refine h.set hlk hsame hbitmap rfl hclear (fun m x => Tiling.free_setUsed_false htile)
          fun c _ hc => ?_
        have hstart : i * 2 ^ l = 2 * (c * 2 ^ l) := by rw [hc, Nat.mul_assoc]
        have := hentry (by omega)
        rwa [hstart, Nat.mul_div_cancel_left _ (by decide)] at this
      · rename_i hset
        rw [Bool.not_eq_false] at hset
        rcases Nat.eq_or_lt_of_le hlk with rfl | hlk
        · -- at the top the bit is that of the block itself
          obtain ⟨x, hx, hij⟩ := (h.mark l (Nat.le_refl l) _ hword).mp hset
          rw [bitIndex, bitIndex, if_pos rfl, if_pos rfl] at hij
          exact absurd (hij ▸ hx) (Marks.not_free_of_used hu)
        have hindex : bitIndex k l i = i / 2 := if_neg (by omega)
        rw [hindex] at hset hloop hword
        obtain ⟨b₁, hremove, hrest⟩ := Option.bind_eq_some_iff.mp hloop
        obtain ⟨hsame, hbitmap⟩ := removePair_spec hremove
        obtain ⟨c, hc, hci, hfree⟩ := h.free_buddy hlk htile hu hset
        obtain ⟨t₁, hmarks, htile₁, hu₁, hused, hlev⟩ :=
          h.join hlk htile hu hc hci hfree hsame hbitmap
        have hentry₁ : HandEntry b₁ (l + 1) (i / 2) := by
          have hmerge := hentry.merge h hlk hc hci hfree
          unfold HandEntry at hmerge ⊢
          rwa [hsame.blocks]
        have hnext : (if l + 1 < b₁.level - 1 then i / 2 / 2 else i / 2) =
            bitIndex k (l + 1) (i / 2) := by
          rw [hsame.level, h.level, bitIndex]
          by_cases hk : l + 1 = k
          · rw [if_pos hk, if_neg (by omega)]
          · rw [if_neg hk, if_pos (by omega)]
        dsimp only at hrest
        rw [hnext] at hrest
        obtain ⟨t', hmarks', hlist', hreleased, hsame'⟩ :=
          ih hmarks (removePair_listRange hlist (by omega) hword hremove) (by omega) htile₁ hu₁
            hentry₁ hrest
        refine ⟨t', hmarks', hlist', hreleased.of_merge hc hci (fun x hx => ?_) hused hlev,
          hsame.trans hsame'⟩
        exact (hfree.1.used_eq hx).trans hfree.2

/-- A block of the top level is released directly, any other one by the
loop. -/
theorem freeFrom_spec (h : Marks b t) (hlist : ListRange b k) (htile : t.IsTile l i)
    (hu : t.used (i * 2 ^ l) = true) (hentry : HandEntry b l i)
    (hfree : freeFrom fuel l (i * 2 ^ l) b = some b') :
    ∃ t' : Tiling N (k + 1), Marks b' t' ∧ ListRange b' k ∧ t.Released t' l i ∧
      SameHeap b b' := by
  have hlk := htile.level_lt
  unfold freeFrom at hfree
  rw [h.level, Nat.add_sub_cancel] at hfree
  split at hfree
  · rename_i hk
    subst hk
    rw [mul_two_pow_div] at hfree
    obtain rfl := Option.some.inj hfree
    have hsame : SameHeap b (b.setBitmap l (acoralSetBit i (b.bitmap l))) := by
      constructor <;> rfl
    refine ⟨t.setUsed false htile, ?_, hlist.of_eq rfl rfl rfl, Tiling.released_setUsed htile,
      hsame⟩
    refine h.set (Nat.le_refl l) hsame rfl (if_pos rfl) ?_
      (fun m x => Tiling.free_setUsed_false htile) fun c hc _ => by omega
    by_contra hset
    rw [Bool.not_eq_false] at hset
    have hword := h.words l (Nat.le_refl l) i htile.1
    rw [bitIndex, if_pos rfl] at hword
    obtain ⟨x, hx, hij⟩ := (h.mark l (Nat.le_refl l) _ hword).mp hset
    rw [bitIndex, if_pos rfl] at hij
    exact absurd (hij ▸ hx) (Marks.not_free_of_used hu)
  · rename_i hk
    rw [div_two_pow_succ, mul_two_pow_div, ← show bitIndex k l i = i / 2 from if_neg hk] at hfree
    exact freeLoop_spec h hlist (k + 1 - l) (by omega) htile hu hentry hfree

/-! ### `buddy_free` -/

/-- Once a released block has no level in the table, every used block still
has one. -/
theorem UsedEntries.released {t' : Tiling N (k + 1)} (h : UsedEntries b t)
    (hreleased : t.Released t' l i) (hblocks : ∀ x : Nat, x ≠ i * 2 ^ l / 2 →
      b'.blocks x = b.blocks x) (heven : i * 2 ^ l % 2 = 0) : UsedEntries b' t' := by
  intro m j hm hu hj
  obtain ⟨hm', hu', hne⟩ := hreleased.used_tile hm hu
  have hstart : j * 2 ^ m ≠ i * 2 ^ l := fun heq => hne (by rw [heq, mul_two_pow_div])
  rw [hblocks _ (by omega)]
  exact h m j hm' hu' hj

/-- The checks of `buddy_free` on an odd block pass when it is used. The
block before it is of level 0 too, and the table and the bit agree on
whether it is free. -/
theorem freeOdd_eq {num : Nat} (h : Marks b t) (hused : UsedEntries b t) (hk : 0 < k)
    (htile : t.IsTile 0 num) (hu : t.used num = true) (hodd : num % 2 = 1) :
    freeOdd fuel num b = freeFrom fuel 0 num b := by
  have hnot : ¬ t.Free 0 num := fun hf => by
    have := hf.2
    rw [Nat.pow_zero, Nat.mul_one, hu] at this
    exact absurd this (by decide)
  have hlt : num - 1 < N := by
    have := htile.1
    rw [Nat.pow_zero, Nat.mul_one] at this
    omega
  -- the tile before the odd block is of level 0
  have hlev : t.lev (num - 1) = 0 := by
    by_contra hne
    have hmem : num / 2 ^ 1 = (num - 1) / 2 ^ 1 := by omega
    have hlarge := (Tiling.isTile_of_lt (t := t) hlt).lev_eq
      (div_two_pow_congr (by omega : 1 ≤ t.lev (num - 1)) hmem)
    have := htile.2
    rw [Nat.pow_zero, Nat.mul_one] at this
    omega
  have hbuddy : t.IsTile 0 (num - 1) := by
    unfold Tiling.IsTile
    rw [Nat.pow_zero, Nat.mul_one]
    exact ⟨hlt, hlev⟩
  have hword := h.words 0 (by omega) num htile.1
  rw [bitIndex, if_neg (by omega)] at hword
  unfold freeOdd
  dsimp only
  rw [acoralGetBit_eq_bit]
  cases hub : t.used (num - 1) with
  | true =>
      have hentry := hused 0 (num - 1) hbuddy (by rwa [Nat.pow_zero, Nat.mul_one]) (by omega)
      rw [Nat.pow_zero, Nat.mul_one, show (num - 1) / 2 = num / 2 by omega] at hentry
      have hclear : (b.bitmap 0).bit (num / 2) = false := by
        by_contra hset
        rw [Bool.not_eq_false] at hset
        rcases h.free_half hk hword hset with hf | hf
        · rw [show 2 * (num / 2) = num - 1 by omega] at hf
          have := hf.2
          rw [Nat.pow_zero, Nat.mul_one, hub] at this
          exact absurd this (by decide)
        · rw [show 2 * (num / 2) + 1 = num by omega] at hf
          exact hnot hf
      rw [hentry, hclear]
      simp
  | false =>
      have hf : t.Free 0 (2 * (num / 2)) := by
        rw [show 2 * (num / 2) = num - 1 by omega]
        exact ⟨hbuddy, by rwa [Nat.pow_zero, Nat.mul_one]⟩
      have hentry := h.freeEntry 0 hk _ hf
      rw [Nat.pow_zero, Nat.mul_one] at hentry
      have hset : (b.bitmap 0).bit (num / 2) = true :=
        (h.mark 0 (by omega) _ hword).mpr ⟨_, hf, by rw [bitIndex, if_neg (by omega)]; omega⟩
      rw [hset, if_neg (by omega), if_neg (by omega), if_neg (by simp)]

/-- The checks of `buddy_free` on the pointer pass for a block of the heap,
unless the pointer is `NULL`. -/
theorem buddyFree_eq (h : Marks b t) (hstate : b.state = MEM_OK)
    (hend : b.endAdr = b.startAdr + N * 2 ^ BLOCK_SHIFT) (htile : t.IsTile l i)
    (hptr : b.startAdr + i * 2 ^ l * 2 ^ BLOCK_SHIFT ≠ 0) :
    buddyFree fuel (b.startAdr + i * 2 ^ l * 2 ^ BLOCK_SHIFT) b =
      if i * 2 ^ l % 2 = 1 then freeOdd fuel (i * 2 ^ l) b else freeEven fuel (i * 2 ^ l) b := by
  have hlt := htile.1
  have hsmall := h.small
  have hnum : (b.startAdr + i * 2 ^ l * 2 ^ BLOCK_SHIFT - b.startAdr) / 2 ^ BLOCK_SHIFT =
      i * 2 ^ l := by
    rw [Nat.add_sub_cancel_left, mul_two_pow_div]
  have hwrap : u32 ((b.startAdr : Int) + ((i * 2 ^ l : Nat) : Int) * 2 ^ BLOCK_SHIFT) =
      b.startAdr + i * 2 ^ l * 2 ^ BLOCK_SHIFT := by
    unfold u32 BLOCK_SHIFT at *
    omega
  have hinside : u32 ((b.startAdr + i * 2 ^ l * 2 ^ BLOCK_SHIFT : Nat) + BLOCK_SIZE) ≤
      b.endAdr := by
    rw [hend]
    unfold u32 BLOCK_SIZE BLOCK_SHIFT at *
    omega
  unfold buddyFree
  rw [if_neg (by rw [hstate]; decide), if_neg (by omega)]
  dsimp only
  rw [hnum, hwrap, if_neg (by simp)]

/-- A block with an even number is handed back: the counter goes up and the
table has no level for it any more. -/
def handBack (l i : Nat) (b : BlockCtr) : BlockCtr :=
  (b.setFreeNum (u32 (b.freeNum + 2 ^ l))).setBlock (i * 2 ^ l / 2 : Nat) (-1)

/-- The table knows the level of a used block with an even number. -/
theorem freeEven_eq (hused : UsedEntries b t) (htile : t.IsTile l i)
    (hu : t.used (i * 2 ^ l) = true) (heven : i * 2 ^ l % 2 = 0) :
    freeEven fuel (i * 2 ^ l) b = freeFrom fuel l (i * 2 ^ l) (handBack l i b) := by
  have hindex : blockIndex (i * 2 ^ l : Nat) = (i * 2 ^ l / 2 : Nat) := by
    unfold blockIndex
    omega
  unfold freeEven
  rw [hindex, hused l i htile hu heven]
  dsimp only
  rw [if_neg (by omega), Int.toNat_natCast]
  rfl

theorem Marks.handBack (h : Marks b t) (l i : Nat) : Marks (ACoral.handBack l i b) t where
  level := h.level
  blockNum := h.blockNum
  small := h.small
  coalesced := h.coalesced
  words := h.words
  mark := h.mark
  freeEntry := fun m hm c hc => by
    show Function.update b.blocks _ (-1) _ < 0
    by_cases heq : ((c * 2 ^ m : Nat) : Int) = (i * 2 ^ l / 2 : Nat)
    · rw [heq, Function.update_self]
      decide
    · rw [Function.update_of_ne heq]
      exact h.freeEntry m hm c hc

theorem handEntry_handBack (b : BlockCtr) (l i : Nat) : HandEntry (handBack l i b) l i :=
  fun _ => by
    show Function.update b.blocks _ (-1) _ < 0
    rw [Function.update_self]
    decide

/-- Releasing a used block, whose pointer is not `NULL`, makes its members
free and leaves the other used blocks alone. -/
theorem buddyFree_spec (h : Marks b t) (hlist : ListRange b k) (hused : UsedEntries b t)
    (hk : 0 < k) (hstate : b.state = MEM_OK) (hend : b.endAdr = b.startAdr + N * 2 ^ BLOCK_SHIFT)
    (htile : t.IsTile l i) (hu : t.used (i * 2 ^ l) = true)
    (hptr : b.startAdr + i * 2 ^ l * 2 ^ BLOCK_SHIFT ≠ 0)
    (hfree : buddyFree fuel (b.startAdr + i * 2 ^ l * 2 ^ BLOCK_SHIFT) b = some b') :
    ∃ t' : Tiling N (k + 1), Marks b' t' ∧ ListRange b' k ∧ UsedEntries b' t' ∧
      t.Released t' l i ∧ b'.freeNum = (if i * 2 ^ l % 2 = 1 then b.freeNum else u32 (b.freeNum + 2 ^ l)) ∧
      b'.state = b.state ∧ b'.startAdr = b.startAdr ∧ b'.endAdr = b.endAdr ∧
      b'.numL = b.numL := by
  rw [buddyFree_eq h hstate hend htile hptr] at hfree
  by_cases hodd : i * 2 ^ l % 2 = 1
  · -- an odd block is of level 0
    have hl0 : l = 0 := by
      by_contra hne
      obtain ⟨c, rfl⟩ := Nat.exists_eq_succ_of_ne_zero hne
      rw [Nat.pow_succ, ← Nat.mul_assoc] at hodd
      omega
    subst hl0
    rw [if_pos hodd] at hfree
    rw [Nat.pow_zero, Nat.mul_one] at hu hodd hfree
    rw [freeOdd_eq h hused hk htile hu hodd] at hfree
    have hentry : HandEntry b 0 i := fun heven => by
      rw [Nat.pow_zero, Nat.mul_one] at heven
      omega
    obtain ⟨t', hmarks, hlist', hreleased, hsame⟩ := freeFrom_spec h hlist htile
      (by rwa [Nat.pow_zero, Nat.mul_one]) hentry (by rwa [Nat.pow_zero, Nat.mul_one])
    refine ⟨t', hmarks, hlist', fun m j hm hj hjeven => ?_, hreleased, ?_, hsame.state,
      hsame.startAdr, hsame.endAdr, hsame.numL⟩
    · obtain ⟨hm', hj', -⟩ := hreleased.used_tile hm hj
      rw [hsame.blocks]
      exact hused m j hm' hj' hjeven
    · rw [Nat.pow_zero, Nat.mul_one, if_pos hodd]
      exact hsame.freeNum
  · have heven : i * 2 ^ l % 2 = 0 := by omega
    rw [if_neg hodd, freeEven_eq hused htile hu heven] at hfree
    obtain ⟨t', hmarks, hlist', hreleased, hsame⟩ := freeFrom_spec (h.handBack l i)
      (hlist.of_eq rfl rfl rfl) htile hu (handEntry_handBack b l i) hfree
    refine ⟨t', hmarks, hlist', hused.released hreleased (fun x hx => ?_) heven, hreleased, ?_,
      hsame.state, hsame.startAdr, hsame.endAdr, hsame.numL⟩
    · rw [hsame.blocks]
      show Function.update b.blocks _ (-1) _ = _
      rw [Function.update_of_ne (by omega)]
    · rw [if_neg hodd]
      exact hsame.freeNum

end ACoral
