import ACoral.Proofs.Buddy.Invariant

/-!
# `ACoral.Proofs.Buddy.Init`: the heap that `buddy_init` sets up

- `levelLoop_spec`: the number of levels is that of the region.
- `initLevels_spec`: the words of each level are enough for its blocks and
  start out empty.
- `fillBlocks_spec`: the basic blocks are handed out as the maximal
  tiling.
- `buddyInit_spec`: what a successful `buddy_init` leaves.
-/

set_option autoImplicit false

namespace ACoral

open Lib

/-! ### The number of levels -/

/-- The size and the number of blocks of the next round. -/
theorem u32_double_pow (n a : Nat) :
    u32 ((u32 (n * 2 ^ a : Nat) : Nat) * 2) = u32 (n * 2 ^ (a + 1) : Nat) := by
  rw [Nat.pow_succ, ← Nat.mul_assoc]
  unfold u32
  omega

/-- The loop ends at the first size that reaches the end. -/
theorem levelLoop_spec {startAdr endAdr rounds a : Nat} {res : Nat × Nat × Nat}
    (hloop : levelLoop startAdr endAdr rounds (u32 (BLOCK_SIZE * 2 ^ a : Nat))
      (u32 (2 ^ a : Nat)) (a + 1) = some res) :
    ∃ c, a ≤ c ∧ res = (u32 (BLOCK_SIZE * 2 ^ c : Nat), u32 (2 ^ c : Nat), c + 1) ∧
      endAdr ≤ u32 (startAdr + u32 (BLOCK_SIZE * 2 ^ c : Nat) : Nat) ∧
      ∀ d, a ≤ d → d < c → ¬ endAdr ≤ u32 (startAdr + u32 (BLOCK_SIZE * 2 ^ d : Nat) : Nat) := by
  induction rounds generalizing a with
  | zero => simp [levelLoop] at hloop
  | succ rounds ih =>
      unfold levelLoop at hloop
      split at hloop
      · rename_i hend
        exact ⟨a, Nat.le_refl a, (Option.some.inj hloop).symm, by push_cast; exact hend,
          fun d hd hda => by omega⟩
      · rename_i hend
        have hnum := u32_double_pow 1 a
        rw [Nat.one_mul, Nat.one_mul] at hnum
        rw [u32_double_pow, hnum] at hloop
        obtain ⟨c, hac, hres, hreach, hmin⟩ := ih hloop
        refine ⟨c, by omega, hres, hreach, fun d hd hdc => ?_⟩
        rcases Nat.eq_or_lt_of_le hd with rfl | hd
        · push_cast
          exact hend
        · exact hmin d hd hdc

/-- The loop ends if one of the sizes it comes to reaches the end. -/
theorem levelLoop_total {startAdr endAdr rounds a d : Nat} (had : a ≤ d) (hd : d < a + rounds)
    (hreach : endAdr ≤ u32 (startAdr + u32 (BLOCK_SIZE * 2 ^ d : Nat) : Nat)) :
    ∃ res, levelLoop startAdr endAdr rounds (u32 (BLOCK_SIZE * 2 ^ a : Nat))
      (u32 (2 ^ a : Nat)) (a + 1) = some res := by
  induction rounds generalizing a with
  | zero => omega
  | succ rounds ih =>
      unfold levelLoop
      split
      · exact ⟨_, rfl⟩
      · rename_i hend
        have hnum := u32_double_pow 1 a
        rw [Nat.one_mul, Nat.one_mul] at hnum
        rw [u32_double_pow, hnum]
        rcases Nat.eq_or_lt_of_le had with rfl | had
        · push_cast at hreach
          exact absurd hreach hend
        · exact ih had (by omega)

/-- A size that reaches the end does so without wrapping around. -/
theorem reach_iff {startAdr endAdr c : Nat} (hlt : startAdr < endAdr) (hend : endAdr < 2 ^ 32) :
    endAdr ≤ u32 (startAdr + u32 (BLOCK_SIZE * 2 ^ c : Nat) : Nat) ↔
      c ≤ 24 ∧ startAdr + BLOCK_SIZE * 2 ^ c < 2 ^ 32 ∧ endAdr ≤ startAdr + BLOCK_SIZE * 2 ^ c := by
  by_cases hc : c ≤ 24
  · have hle : 2 ^ c ≤ 2 ^ 24 := Nat.pow_le_pow_right (by decide) hc
    unfold u32 BLOCK_SIZE BLOCK_SHIFT
    omega
  · obtain ⟨d, rfl⟩ := Nat.exists_eq_add_of_le (Nat.lt_of_not_le hc)
    have hzero : u32 (BLOCK_SIZE * 2 ^ (24 + 1 + d) : Nat) = 0 := by
      have hmul : BLOCK_SIZE * 2 ^ (24 + 1 + d) = 2 ^ d * 2 ^ 32 := by
        rw [Nat.pow_add]
        unfold BLOCK_SIZE BLOCK_SHIFT
        omega
      rw [hmul]
      unfold u32
      omega
    rw [hzero]
    unfold u32
    omega

/-! ### The arrays -/

/-- The words of level `i` are there and empty. -/
structure EmptyLevel (b : BlockCtr) (i : Nat) : Prop where
  freeCur : b.freeCur i = -1
  bitmap : ∀ w : Int, 0 ≤ w → w < b.numL i → b.bitmap i w = 0
  freeList : ∀ w : Int, 0 ≤ w → w < b.numL i → b.freeList i w = -1

theorem initLevel_empty (i num saveAdr : Nat) (b : BlockCtr) :
    EmptyLevel (initLevel i num saveAdr b).2 i where
  freeCur := Function.update_self _ _ _
  bitmap := fun w hw hw' => by
    show Function.update b.bitmap i _ i w = 0
    rw [show (initLevel i num saveAdr b).2.numL i = num from Function.update_self _ _ _] at hw'
    rw [Function.update_self, if_pos ⟨hw, hw'⟩]
  freeList := fun w hw hw' => by
    show Function.update b.freeList i _ i w = -1
    rw [show (initLevel i num saveAdr b).2.numL i = num from Function.update_self _ _ _] at hw'
    rw [Function.update_self, if_pos ⟨hw, hw'⟩]

/-- The other levels stay as they are. -/
theorem EmptyLevel.initLevel {b : BlockCtr} {m i : Nat} (h : EmptyLevel b m) (hm : m ≠ i)
    (num saveAdr : Nat) : EmptyLevel (ACoral.initLevel i num saveAdr b).2 m := by
  have hnum : (ACoral.initLevel i num saveAdr b).2.numL m = b.numL m :=
    Function.update_of_ne hm _ _
  refine ⟨(Function.update_of_ne hm _ _).trans h.freeCur, fun w hw hw' => ?_, fun w hw hw' => ?_⟩
  · rw [hnum] at hw'
    exact (congrFun (Function.update_of_ne hm _ _) w).trans (h.bitmap w hw hw')
  · rw [hnum] at hw'
    exact (congrFun (Function.update_of_ne hm _ _) w).trans (h.freeList w hw hw')

/-- How far the arrays of one level reach down. -/
theorem initLevel_saveAdr {num saveAdr i : Nat} (b : BlockCtr) (h : 8 * num + 6 ≤ saveAdr)
    (hlt : saveAdr < 2 ^ 32) :
    saveAdr ≤ (initLevel i num saveAdr b).1 + (8 * num + 6) ∧
      (initLevel i num saveAdr b).1 ≤ saveAdr := by
  show saveAdr ≤ align4 (u32 ((align4 (u32 ((saveAdr : Int) - num * 4)) : Nat) - num * 4)) + _ ∧
    align4 (u32 ((align4 (u32 ((saveAdr : Int) - num * 4)) : Nat) - num * 4)) ≤ saveAdr
  unfold align4 u32
  omega

/-- The number of words of a level is a power of 2, enough for pairs of
level `i`, or 0 before the first level. -/
def WordCount (c i num : Nat) : Prop := (∃ e, num = 2 ^ e ∧ c ≤ 5 + i + e) ∨ num = 0 ∧ c ≤ 4

theorem wordCount_start (c : Nat) : WordCount c 0 (2 ^ c / 32) := by
  by_cases hc : c ≤ 4
  · have hle : 2 ^ c ≤ 2 ^ 4 := Nat.pow_le_pow_right (by decide) hc
    exact Or.inr ⟨Nat.div_eq_of_lt (Nat.lt_of_le_of_lt hle (by decide)), hc⟩
  · obtain ⟨e, rfl⟩ := Nat.exists_eq_add_of_le (Nat.lt_of_not_le hc)
    refine Or.inl ⟨e, ?_, by omega⟩
    rw [Nat.pow_add]
    omega

/-- An empty count is rounded up to one word. -/
theorem WordCount.atLeastOne {c i num : Nat} (h : WordCount c i num) :
    ∃ e, (if num = 0 then 1 else num) = 2 ^ e ∧ c ≤ 5 + i + e := by
  rcases h with ⟨e, rfl, he⟩ | ⟨rfl, hc⟩
  · exact ⟨e, if_neg (Nat.ne_of_gt (Nat.two_pow_pos e)), he⟩
  · exact ⟨0, rfl, by omega⟩

/-- Each level has half the words, and one at least. -/
theorem WordCount.half {c i num : Nat} (h : WordCount c i num) :
    ∃ e, (if num / 2 = 0 then 1 else num / 2) = 2 ^ e ∧ c ≤ 5 + (i + 1) + e := by
  rcases h with ⟨e, rfl, he⟩ | ⟨rfl, hc⟩
  · cases e with
    | zero => exact ⟨0, rfl, by omega⟩
    | succ e =>
        have hpos := Nat.two_pow_pos e
        have hhalf : 2 ^ (e + 1) / 2 = 2 ^ e := by
          rw [Nat.pow_succ]
          omega
        exact ⟨e, by rw [hhalf, if_neg (by omega)], by omega⟩
  · exact ⟨0, rfl, by omega⟩

/-- What the loop over the levels leaves alone. -/
structure SameConst (b b' : BlockCtr) : Prop where
  blocks : b'.blocks = b.blocks
  state : b'.state = b.state
  ctrlAdr : b'.ctrlAdr = b.ctrlAdr
  blocksAdr : b'.blocksAdr = b.blocksAdr

theorem SameConst.trans {b b' b'' : BlockCtr} (h : SameConst b b') (h' : SameConst b' b'') :
    SameConst b b'' :=
  ⟨h'.blocks.trans h.blocks, h'.state.trans h.state, h'.ctrlAdr.trans h.ctrlAdr,
    h'.blocksAdr.trans h.blocksAdr⟩

/-- The arrays of the levels below `n` lie between `low` and `high`: on each
level the free list below the bitmap, and each level below the one before. -/
structure ArraysPlaced (b : BlockCtr) (n low high : Nat) : Prop where
  low : ∀ m < n, low ≤ b.freeListAdr m
  freeList : ∀ m < n, b.freeListAdr m + 4 * b.numL m ≤ b.bitmapAdr m
  bitmap : ∀ m < n, b.bitmapAdr m + 4 * b.numL m ≤ high
  level : ∀ m < n, ∀ m' < m, b.bitmapAdr m + 4 * b.numL m ≤ b.freeListAdr m'

theorem arraysPlaced_zero (b : BlockCtr) (low high : Nat) : ArraysPlaced b 0 low high :=
  ⟨fun _ hm => absurd hm (Nat.not_lt_zero _), fun _ hm => absurd hm (Nat.not_lt_zero _),
    fun _ hm => absurd hm (Nat.not_lt_zero _), fun _ hm => absurd hm (Nat.not_lt_zero _)⟩

/-- The arrays of the next level go below those that are placed. -/
theorem ArraysPlaced.initLevel {b : BlockCtr} {i num saveAdr high : Nat}
    (h : ArraysPlaced b i saveAdr high) (hhigh : saveAdr ≤ high) (hroom : 8 * num + 6 ≤ saveAdr)
    (hlt : saveAdr < 2 ^ 32) :
    ArraysPlaced (ACoral.initLevel i num saveAdr b).2 (i + 1) (ACoral.initLevel i num saveAdr b).1
      high := by
  obtain ⟨-, hdown⟩ := initLevel_saveAdr (i := i) b hroom hlt
  -- the new level
  have hnumL : (ACoral.initLevel i num saveAdr b).2.numL i = num := Function.update_self _ _ _
  have hlist : (ACoral.initLevel i num saveAdr b).2.freeListAdr i =
      (ACoral.initLevel i num saveAdr b).1 := Function.update_self _ _ _
  have hmap : (ACoral.initLevel i num saveAdr b).2.bitmapAdr i =
      align4 (u32 ((saveAdr : Int) - num * 4)) := Function.update_self _ _ _
  have hself : (ACoral.initLevel i num saveAdr b).1 + 4 * num ≤
      align4 (u32 ((saveAdr : Int) - num * 4)) ∧
      align4 (u32 ((saveAdr : Int) - num * 4)) + 4 * num ≤ saveAdr := by
    show align4 (u32 ((align4 (u32 ((saveAdr : Int) - num * 4)) : Nat) - num * 4)) + _ ≤ _ ∧ _
    unfold align4 u32
    omega
  -- the levels that were there
  have hold : ∀ m < i, (ACoral.initLevel i num saveAdr b).2.numL m = b.numL m ∧
      (ACoral.initLevel i num saveAdr b).2.freeListAdr m = b.freeListAdr m ∧
      (ACoral.initLevel i num saveAdr b).2.bitmapAdr m = b.bitmapAdr m := fun m hm =>
    ⟨Function.update_of_ne (Nat.ne_of_lt hm) _ _, Function.update_of_ne (Nat.ne_of_lt hm) _ _,
      Function.update_of_ne (Nat.ne_of_lt hm) _ _⟩
  constructor
  case low =>
    intro m hm
    rcases Nat.eq_or_lt_of_le (Nat.lt_succ_iff.mp hm) with rfl | hm
    · exact Nat.le_of_eq hlist.symm
    · rw [(hold m hm).2.1]
      exact hdown.trans (h.low m hm)
  case freeList =>
    intro m hm
    rcases Nat.eq_or_lt_of_le (Nat.lt_succ_iff.mp hm) with rfl | hm
    · rw [hnumL, hlist, hmap]
      exact hself.1
    · obtain ⟨hn, hl, hb⟩ := hold m hm
      rw [hn, hl, hb]
      exact h.freeList m hm
  case bitmap =>
    intro m hm
    rcases Nat.eq_or_lt_of_le (Nat.lt_succ_iff.mp hm) with rfl | hm
    · rw [hnumL, hmap]
      exact hself.2.trans hhigh
    · obtain ⟨hn, -, hb⟩ := hold m hm
      rw [hn, hb]
      exact h.bitmap m hm
  case level =>
    intro m hm m' hm'
    rcases Nat.eq_or_lt_of_le (Nat.lt_succ_iff.mp hm) with rfl | hm
    · rw [hnumL, hmap, (hold m' hm').2.1]
      exact hself.2.trans (h.low m' hm')
    · obtain ⟨hn, -, hb⟩ := hold m hm
      rw [hn, hb, (hold m' (hm'.trans hm)).2.1]
      exact h.level m hm m' hm'

/-- Only the addresses and the numbers of words matter. -/
theorem ArraysPlaced.congr {b b' : BlockCtr} {n low high : Nat} (h : ArraysPlaced b n low high)
    (hbitmap : b'.bitmapAdr = b.bitmapAdr) (hlist : b'.freeListAdr = b.freeListAdr)
    (hnum : b'.numL = b.numL) : ArraysPlaced b' n low high := by
  constructor
  · rw [hlist]
    exact h.low
  · rw [hlist, hbitmap, hnum]
    exact h.freeList
  · rw [hbitmap, hnum]
    exact h.bitmap
  · rw [hlist, hbitmap, hnum]
    exact h.level

/-- The arrays lie above every lower bound, too. -/
theorem ArraysPlaced.of_le {b : BlockCtr} {n low low' high : Nat}
    (h : ArraysPlaced b n low high) (hle : low' ≤ low) : ArraysPlaced b n low' high :=
  ⟨fun m hm => hle.trans (h.low m hm), h.freeList, h.bitmap, h.level⟩

/-- The levels below `i` are set up, with their arrays between `saveAdr` and
`base`. -/
structure LevelsDone (c base i saveAdr : Nat) (b : BlockCtr) : Prop where
  empty : ∀ m < i, EmptyLevel b m
  words : ∀ m < i, ∃ e, b.numL m = 2 ^ e ∧ c ≤ 5 + (m + 1) + e
  arrays : ArraysPlaced b i saveAdr base
  base : saveAdr ≤ base

theorem levelsDone_zero (c base : Nat) (b : BlockCtr) : LevelsDone c base 0 base b :=
  ⟨fun m hm => absurd hm (Nat.not_lt_zero m), fun m hm => absurd hm (Nat.not_lt_zero m),
    arraysPlaced_zero b base base, Nat.le_refl base⟩

theorem LevelsDone.initLevel {c base i saveAdr num e : Nat} {b : BlockCtr}
    (h : LevelsDone c base i saveAdr b) (hroom : 8 * num + 6 ≤ saveAdr) (hlt : saveAdr < 2 ^ 32)
    (he : num = 2 ^ e) (hce : c ≤ 5 + (i + 1) + e) :
    LevelsDone c base (i + 1) (ACoral.initLevel i num saveAdr b).1
      (ACoral.initLevel i num saveAdr b).2 where
  empty := fun m hm => by
    rcases Nat.eq_or_lt_of_le (Nat.lt_succ_iff.mp hm) with rfl | hm
    · exact initLevel_empty _ _ _ _
    · exact (h.empty m hm).initLevel (Nat.ne_of_lt hm) _ _
  words := fun m hm => by
    rcases Nat.eq_or_lt_of_le (Nat.lt_succ_iff.mp hm) with rfl | hm
    · exact ⟨e, (Function.update_self _ _ _).trans he, hce⟩
    · obtain ⟨d, hd, hcd⟩ := h.words m hm
      exact ⟨d, (Function.update_of_ne (Nat.ne_of_lt hm) _ _).trans hd, hcd⟩
  arrays := h.arrays.initLevel h.base hroom hlt
  base := (initLevel_saveAdr b hroom hlt).2.trans h.base

/-- The loop over the levels below the top reserves their words. -/
theorem initLevels_spec {c M base : Nat} (rounds : Nat) {i num saveAdr : Nat} {b : BlockCtr}
    (hcount : WordCount c i num) (hM : 0 < M) (hnum : num / 2 ≤ M)
    (hroom : rounds * (8 * M + 6) ≤ saveAdr) (hlt : saveAdr < 2 ^ 32)
    (hdone : LevelsDone c base i saveAdr b) :
    ∃ num' saveAdr' b', initLevels rounds i num saveAdr b = (num', saveAdr', b') ∧
      WordCount c (i + rounds) num' ∧ num' ≤ max num M ∧
      saveAdr ≤ saveAdr' + rounds * (8 * M + 6) ∧
      LevelsDone c base (i + rounds) saveAdr' b' ∧ SameConst b b' := by
  induction rounds generalizing i num saveAdr b with
  | zero =>
      exact ⟨num, saveAdr, b, rfl, hcount, Nat.le_max_left _ _, by omega, hdone,
        ⟨rfl, rfl, rfl, rfl⟩⟩
  | succ rounds ih =>
      obtain ⟨e, he, hce⟩ := hcount.half
      rw [Nat.succ_mul] at hroom
      have hle : (if num / 2 = 0 then 1 else num / 2) ≤ M := by split <;> omega
      unfold initLevels
      dsimp only
      generalize (if num / 2 = 0 then 1 else num / 2) = num₁ at he hle ⊢
      obtain ⟨hdown, hup⟩ := initLevel_saveAdr (i := i) b (by omega : 8 * num₁ + 6 ≤ saveAdr) hlt
      have hstep := hdone.initLevel (by omega) hlt he hce
      have hconst : SameConst b (initLevel i num₁ saveAdr b).2 := ⟨rfl, rfl, rfl, rfl⟩
      generalize initLevel i num₁ saveAdr b = r at *
      obtain ⟨num', saveAdr', b', heq, hcount', hnum', hdown', hdone', hsame⟩ :=
        ih (Or.inl ⟨e, he, hce⟩) (by omega) (by omega) (by omega) hstep
      rw [Nat.add_right_comm] at hcount' hdone'
      refine ⟨num', saveAdr', b', heq, hcount', by omega, ?_, hdone', hconst.trans hsame⟩
      rw [Nat.succ_mul]
      omega

/-! ### The top level -/

/-- A word of which all bits are set. -/
theorem bit_update_allOnes (bitmap : Bitmap) (i j : Nat) :
    Bitmap.bit (Function.update bitmap i (BitVec.allOnes 32)) j =
      (decide (j / 32 = i) || bitmap.bit j) := by
  have hlt : j % 32 < 32 := Nat.mod_lt _ (by decide)
  unfold Bitmap.bit
  by_cases h : j / 32 = i
  · rw [h, Function.update_self, BitVec.getLsbD_allOnes]
    simp [hlt]
  · rw [Function.update_of_ne (by omega)]
    simp [h]

/-- The loop over whole words sets the bits of as many words as there are
blocks for, and links each to the next. -/
theorem fillWords_spec (top : Nat) {M : Nat} (hM : 0 < M) (rounds i num oNum : Nat)
    (b : BlockCtr) (hrounds : num / (M * 32) ≤ rounds) :
    ∃ b', fillWords top M rounds i num oNum b =
        (i + num / (M * 32), num % (M * 32), oNum + num / (M * 32) * (M * 32), b') ∧
      SameElse top b b' ∧ b'.freeCur = b.freeCur ∧
      (∀ j, (b'.bitmap top).bit j =
        (decide (32 * i ≤ j ∧ j < 32 * (i + num / (M * 32))) || (b.bitmap top).bit j)) ∧
      ∀ w : Int, b'.freeList top w =
        if (i : Int) ≤ w ∧ w < (i + num / (M * 32) : Nat) then w + 1 else b.freeList top w := by
  induction rounds generalizing i num oNum b with
  | zero =>
      have hq : num / (M * 32) = 0 := Nat.le_zero.mp hrounds
      have hnum : num % (M * 32) = num := by
        have := Nat.div_add_mod num (M * 32)
        rw [hq, Nat.mul_zero, Nat.zero_add] at this
        exact this
      refine ⟨b, by rw [hq, hnum]; simp [fillWords], SameElse.refl top b, rfl, fun j => ?_,
        fun w => ?_⟩
      · rw [hq, decide_eq_false (by omega), Bool.false_or]
      · rw [hq, if_neg (by omega)]
  | succ rounds ih =>
      unfold fillWords
      by_cases hge : num ≥ M * 32
      · rw [if_pos hge]
        have hpos : 0 < M * 32 := by omega
        have hq : num / (M * 32) = (num - M * 32) / (M * 32) + 1 := Nat.div_eq_sub_div hpos hge
        have hmod : (num - M * 32) % (M * 32) = num % (M * 32) := (Nat.mod_eq_sub_mod hge).symm
        obtain ⟨b', heq, hsame, hcur, hbit, hlist⟩ := ih (i + 1) (num - M * 32) (oNum + M * 32)
          ((b.setBitmap top (Function.update (b.bitmap top) i (BitVec.allOnes 32))).setFreeList
            top i (i + 1)) (by omega)
        refine ⟨b', ?_, ((SameElse.setBitmap b top _).trans (SameElse.setFreeList _ top _ _)).trans
          hsame, hcur, fun j => ?_, fun w => ?_⟩
        · rw [heq, hmod, hq]
          refine Prod.ext (by dsimp only; omega) (Prod.ext rfl (Prod.ext ?_ rfl))
          show oNum + M * 32 + _ = oNum + _
          rw [Nat.add_mul, Nat.one_mul]
          omega
        · rw [hbit]
          show (_ || Bitmap.bit (Function.update b.bitmap top _ top) j) = _
          rw [Function.update_self, bit_update_allOnes, ← Bool.or_assoc]
          congr 1
          rw [← Bool.decide_or, hq]
          generalize (num - M * 32) / (M * 32) = q
          exact decide_eq_decide.mpr (by omega)
        · rw [hlist]
          show (if _ then _ else Function.update b.freeList top _ top w) = _
          rw [Function.update_self, hq]
          generalize (num - M * 32) / (M * 32) = q
          by_cases hw : w = i
          · subst hw
            rw [if_neg (by omega), Function.update_self, if_pos (by omega)]
          · rw [Function.update_of_ne hw]
            refine if_congr (by omega) rfl rfl
      · rw [if_neg hge]
        have hq : num / (M * 32) = 0 := Nat.div_eq_of_lt (Nat.lt_of_not_le hge)
        have hnum : num % (M * 32) = num := Nat.mod_eq_of_lt (Nat.lt_of_not_le hge)
        refine ⟨b, by rw [hq, hnum]; simp, SameElse.refl top b, rfl, fun j => ?_, fun w => ?_⟩
        · rw [hq, decide_eq_false (by omega), Bool.false_or]
        · rw [hq, if_neg (by omega)]

/-- The loop over the bits of the last word sets one for each block that is
left. -/
theorem fillBits_spec (top rounds num i : Nat) (b : BlockCtr)
    (hrounds : num / 2 ^ top ≤ rounds) :
    ∃ b', fillBits top (2 ^ top) rounds num (i * 2 ^ top) b =
        (num % 2 ^ top, (i + num / 2 ^ top) * 2 ^ top, b') ∧
      SameElse top b b' ∧ b'.freeCur = b.freeCur ∧ b'.freeList = b.freeList ∧
      ∀ j, (b'.bitmap top).bit j =
        (decide (i ≤ j ∧ j < i + num / 2 ^ top) || (b.bitmap top).bit j) := by
  have hpos : 0 < 2 ^ top := Nat.two_pow_pos top
  induction rounds generalizing num i b with
  | zero =>
      have hq : num / 2 ^ top = 0 := Nat.le_zero.mp hrounds
      have hnum : num % 2 ^ top = num := by
        have := Nat.div_add_mod num (2 ^ top)
        rw [hq, Nat.mul_zero, Nat.zero_add] at this
        exact this
      refine ⟨b, by rw [hq, hnum]; simp [fillBits], SameElse.refl top b, rfl, rfl, fun j => ?_⟩
      rw [hq, decide_eq_false (by omega), Bool.false_or]
  | succ rounds ih =>
      unfold fillBits
      by_cases hge : num ≥ 2 ^ top
      · rw [if_pos hge]
        have hq : num / 2 ^ top = (num - 2 ^ top) / 2 ^ top + 1 := Nat.div_eq_sub_div hpos hge
        have hmod : (num - 2 ^ top) % 2 ^ top = num % 2 ^ top := (Nat.mod_eq_sub_mod hge).symm
        obtain ⟨b', heq, hsame, hcur, hlist, hbit⟩ := ih (num - 2 ^ top) (i + 1)
          (b.setBitmap top (acoralSetBit i (b.bitmap top))) (by omega)
        refine ⟨b', ?_, (SameElse.setBitmap b top _).trans hsame, hcur, hlist, fun j => ?_⟩
        · rw [hmod, Nat.add_mul i 1, Nat.one_mul] at heq
          dsimp only
          rw [mul_two_pow_div, heq, hq, show i + 1 + (num - 2 ^ top) / 2 ^ top =
            i + ((num - 2 ^ top) / 2 ^ top + 1) by omega]
        · rw [hbit]
          show (_ || Bitmap.bit (Function.update b.bitmap top _ top) j) = _
          rw [Function.update_self, bit_acoralSetBit, ← Bool.or_assoc]
          congr 1
          rw [← Bool.decide_or, hq]
          generalize (num - 2 ^ top) / 2 ^ top = q
          exact decide_eq_decide.mpr (by omega)
      · rw [if_neg hge]
        have hq : num / 2 ^ top = 0 := Nat.div_eq_of_lt (Nat.lt_of_not_le hge)
        have hnum : num % 2 ^ top = num := Nat.mod_eq_of_lt (Nat.lt_of_not_le hge)
        refine ⟨b, by rw [hq, hnum]; simp, SameElse.refl top b, rfl, rfl, fun j => ?_⟩
        rw [hq, decide_eq_false (by omega), Bool.false_or]

/-! ### The other levels -/

/-- The words of level `l` below the top: one block is free there if the
binary digit of `N` says so. -/
structure LowLevel (b : BlockCtr) (N l : Nat) : Prop where
  bit : ∀ j < 32 * b.numL l,
    (b.bitmap l).bit j = decide (N / 2 ^ l % 2 = 1 ∧ j = N / 2 ^ (l + 1))
  freeCur : b.freeCur l = if N / 2 ^ l % 2 = 1 then ((N / 2 ^ (l + 1) / 32 : Nat) : Int) else -1
  freeList : ∀ w : Int, 0 ≤ w → w < b.numL l → b.freeList l w = -1
  entry : N / 2 ^ l % 2 = 1 → b.blocks (N / 2 ^ (l + 1) * 2 ^ l : Nat) = -1

theorem EmptyLevel.bit_eq_false {b : BlockCtr} {l j : Nat} (h : EmptyLevel b l)
    (hj : j < 32 * b.numL l) : (b.bitmap l).bit j = false := by
  unfold Bitmap.bit
  rw [h.bitmap _ (by omega) (by omega)]
  simp

theorem EmptyLevel.lowLevel {b : BlockCtr} {N l : Nat} (h : EmptyLevel b l)
    (hdigit : N / 2 ^ l % 2 = 0) : LowLevel b N l where
  bit := fun j hj => by
    rw [h.bit_eq_false hj, decide_eq_false (by omega)]
  freeCur := by rw [h.freeCur, if_neg (by omega)]
  freeList := h.freeList
  entry := fun hone => by omega

/-- What the loop over the levels below `level1` changes: levels below it,
and entries of the table, which become -1. -/
structure SameAbove (level1 : Nat) (b b' : BlockCtr) : Prop where
  blocks : ∀ x, b'.blocks x = b.blocks x ∨ b'.blocks x = -1
  bitmap : ∀ m, level1 ≤ m → b'.bitmap m = b.bitmap m
  freeList : ∀ m, level1 ≤ m → b'.freeList m = b.freeList m
  freeCur : ∀ m, level1 ≤ m → b'.freeCur m = b.freeCur m
  const : b'.level = b.level ∧ b'.state = b.state ∧ b'.startAdr = b.startAdr ∧
    b'.endAdr = b.endAdr ∧ b'.blockNum = b.blockNum ∧ b'.freeNum = b.freeNum ∧ b'.numL = b.numL

theorem SameAbove.refl (level1 : Nat) (b : BlockCtr) : SameAbove level1 b b where
  blocks := fun _ => Or.inl rfl
  bitmap := fun _ _ => rfl
  freeList := fun _ _ => rfl
  freeCur := fun _ _ => rfl
  const := ⟨rfl, rfl, rfl, rfl, rfl, rfl, rfl⟩

theorem SameAbove.trans {level1 : Nat} {b b' b'' : BlockCtr} (h : SameAbove level1 b b')
    (h' : SameAbove level1 b' b'') : SameAbove level1 b b'' where
  blocks := fun x => (h'.blocks x).elim (fun he => he ▸ h.blocks x) Or.inr
  bitmap := fun m hm => (h'.bitmap m hm).trans (h.bitmap m hm)
  freeList := fun m hm => (h'.freeList m hm).trans (h.freeList m hm)
  freeCur := fun m hm => (h'.freeCur m hm).trans (h.freeCur m hm)
  const := by
    obtain ⟨h1, h2, h3, h4, h5, h6, h7⟩ := h.const
    obtain ⟨h1', h2', h3', h4', h5', h6', h7'⟩ := h'.const
    exact ⟨h1'.trans h1, h2'.trans h2, h3'.trans h3, h4'.trans h4, h5'.trans h5, h6'.trans h6,
      h7'.trans h7⟩

theorem SameAbove.succ {level1 : Nat} {b b' : BlockCtr} (h : SameAbove level1 b b') :
    SameAbove (level1 + 1) b b' where
  blocks := h.blocks
  bitmap := fun m hm => h.bitmap m (by omega)
  freeList := fun m hm => h.freeList m (by omega)
  freeCur := fun m hm => h.freeCur m (by omega)
  const := h.const

/-- A level keeps what it holds while smaller ones are filled. -/
theorem LowLevel.sameAbove {b b' : BlockCtr} {N l level1 : Nat} (h : LowLevel b N l)
    (hsame : SameAbove level1 b b') (hl : level1 ≤ l) : LowLevel b' N l := by
  have hnum : b'.numL = b.numL := hsame.const.2.2.2.2.2.2
  constructor
  · rw [hnum, hsame.bitmap l hl]
    exact h.bit
  · rw [hsame.freeCur l hl]
    exact h.freeCur
  · rw [hnum, hsame.freeList l hl]
    exact h.freeList
  · intro hone
    exact (hsame.blocks _).elim (fun he => he.trans (h.entry hone)) id

/-- The step of the loop for a binary digit 1: the level gets one block. -/
def fillLevel (level1 index : Nat) (oNum : Int) (b : BlockCtr) : BlockCtr :=
  (((b.setBlock (blockIndex oNum) (-1)).setBitmap level1
    (acoralSetBit index (b.bitmap level1))).setFreeList level1 (index / 32 : Nat) (-1)).setFreeCur
      level1 (index / 32 : Nat)

theorem fillLevel_sameAbove (level1 index : Nat) (oNum : Int) (b : BlockCtr) :
    SameAbove (level1 + 1) b (fillLevel level1 index oNum b) where
  blocks := fun x => by
    show Function.update b.blocks (blockIndex oNum) (-1) x = _ ∨ _
    by_cases hx : x = blockIndex oNum
    · exact Or.inr (by rw [hx]; exact Function.update_self _ _ _)
    · exact Or.inl (Function.update_of_ne hx _ _)
  bitmap := fun m hm => Function.update_of_ne (by omega) _ _
  freeList := fun m hm => Function.update_of_ne (by omega) _ _
  freeCur := fun m hm => Function.update_of_ne (by omega) _ _
  const := ⟨rfl, rfl, rfl, rfl, rfl, rfl, rfl⟩

/-- Smaller levels are still empty after the step. -/
theorem EmptyLevel.fillLevel {b : BlockCtr} {m level1 : Nat} (h : EmptyLevel b m)
    (hm : m < level1) (index : Nat) (oNum : Int) :
    EmptyLevel (ACoral.fillLevel level1 index oNum b) m where
  freeCur := (Function.update_of_ne (Nat.ne_of_lt hm) _ _).trans h.freeCur
  bitmap := fun w hw hw' =>
    (congrFun (Function.update_of_ne (Nat.ne_of_lt hm) _ _) w).trans (h.bitmap w hw hw')
  freeList := fun w hw hw' =>
    (congrFun (Function.update_of_ne (Nat.ne_of_lt hm) _ _) w).trans (h.freeList w hw hw')

theorem fillLevel_lowLevel {b : BlockCtr} {N l : Nat} (h : EmptyLevel b l)
    (hdigit : N / 2 ^ l % 2 = 1) :
    LowLevel (fillLevel l (N / 2 ^ (l + 1)) (N / 2 ^ (l + 1) * 2 ^ (l + 1) : Nat) b) N l where
  bit := fun j hj => by
    show Bitmap.bit (Function.update b.bitmap l _ l) j = _
    rw [Function.update_self, bit_acoralSetBit, h.bit_eq_false hj, Bool.or_false]
    exact decide_eq_decide.mpr (and_iff_right hdigit).symm
  freeCur := by
    rw [if_pos hdigit]
    exact Function.update_self _ _ _
  freeList := fun w hw hw' => by
    show Function.update b.freeList l _ l w = -1
    rw [Function.update_self]
    by_cases hwc : w = (N / 2 ^ (l + 1) / 32 : Nat)
    · rw [hwc]
      exact Function.update_self _ _ _
    · rw [Function.update_of_ne hwc]
      exact h.freeList w hw hw'
  entry := fun _ => by
    show Function.update b.blocks (blockIndex _) (-1) _ = -1
    have hindex : blockIndex (N / 2 ^ (l + 1) * 2 ^ (l + 1) : Nat) =
        (N / 2 ^ (l + 1) * 2 ^ l : Nat) := by
      unfold blockIndex
      rw [Nat.pow_succ, ← Nat.mul_assoc]
      omega
    rw [hindex, Function.update_self]

/-- The loop over the levels below the top fills the level of each binary
digit 1 of the rest, from the highest one down. -/
theorem fillLevels_spec {N : Nat} (level1 : Nat) {b : BlockCtr}
    (hempty : ∀ m < level1, EmptyLevel b m) :
    SameAbove level1 b (fillLevels level1 (N % 2 ^ level1) (N / 2 ^ level1 * 2 ^ level1) b) ∧
      ∀ m < level1, LowLevel
        (fillLevels level1 (N % 2 ^ level1) (N / 2 ^ level1 * 2 ^ level1) b) N m := by
  induction level1 generalizing b with
  | zero => exact ⟨SameAbove.refl 0 b, fun m hm => by omega⟩
  | succ l ih =>
      unfold fillLevels
      dsimp only
      rw [mul_two_pow_div]
      have hmod : N % 2 ^ (l + 1) = N % 2 ^ l + 2 ^ l * (N / 2 ^ l % 2) := Nat.mod_pow_succ
      have hdiv : N / 2 ^ (l + 1) = N / 2 ^ l / 2 := div_two_pow_succ N l
      have hlt : N % 2 ^ l < 2 ^ l := Nat.mod_lt _ (Nat.two_pow_pos l)
      by_cases hzero : N % 2 ^ (l + 1) = 0
      · rw [if_pos hzero]
        refine ⟨SameAbove.refl (l + 1) b, fun m hm => (hempty m hm).lowLevel ?_⟩
        -- no smaller digit is left
        obtain ⟨x, hx⟩ := Nat.dvd_of_mod_eq_zero hzero
        obtain ⟨d, rfl⟩ := Nat.exists_eq_add_of_le (Nat.lt_succ_iff.mp hm)
        rw [hx, show 2 ^ (m + d + 1) * x = 2 * (2 ^ d * x) * 2 ^ m by ring, mul_two_pow_div]
        omega
      · rw [if_neg hzero]
        by_cases hdigit : N / 2 ^ l % 2 = 1
        · rw [hdigit, Nat.mul_one] at hmod
          have hnum : N % 2 ^ (l + 1) - 2 ^ l = N % 2 ^ l := by omega
          have hoNum : N / 2 ^ (l + 1) * 2 ^ (l + 1) + 2 ^ l = N / 2 ^ l * 2 ^ l := by
            rw [hdiv, ← two_mul_mul_two_pow]
            have hexp : N / 2 ^ l = 2 * (N / 2 ^ l / 2) + 1 := by omega
            generalize N / 2 ^ l / 2 = q at hexp ⊢
            rw [hexp]
            ring
          rw [if_pos (by omega), hnum, hoNum]
          obtain ⟨hsame, hlow⟩ := ih (b := fillLevel l (N / 2 ^ (l + 1))
            (N / 2 ^ (l + 1) * 2 ^ (l + 1) : Nat) b)
            fun m hm => (hempty m (by omega)).fillLevel hm _ _
          refine ⟨(fillLevel_sameAbove l _ _ b).trans hsame.succ, fun m hm => ?_⟩
          rcases Nat.eq_or_lt_of_le (Nat.lt_succ_iff.mp hm) with rfl | hm
          · exact (fillLevel_lowLevel (hempty m (by omega)) hdigit).sameAbove hsame
              (Nat.le_refl m)
          · exact hlow m hm
        · have hdigit0 : N / 2 ^ l % 2 = 0 := by omega
          rw [hdigit0, Nat.mul_zero, Nat.add_zero] at hmod
          have hoNum : N / 2 ^ (l + 1) * 2 ^ (l + 1) = N / 2 ^ l * 2 ^ l := by
            rw [hdiv, ← two_mul_mul_two_pow]
            rw [show 2 * (N / 2 ^ l / 2) = N / 2 ^ l by omega]
          rw [if_neg (by omega), hmod, hoNum]
          obtain ⟨hsame, hlow⟩ := ih (b := b) fun m hm => hempty m (by omega)
          refine ⟨hsame.succ, fun m hm => ?_⟩
          rcases Nat.eq_or_lt_of_le (Nat.lt_succ_iff.mp hm) with rfl | hm
          · exact ((hempty m (by omega)).lowLevel hdigit0).sameAbove hsame (Nat.le_refl m)
          · exact hlow m hm

/-! ### All levels -/

/-- The last word of the top level that is linked. -/
def lastWord (N k : Nat) : Nat := (N - 1) / (2 ^ k * 32)

/-- The basic blocks are handed out: the top level has as many blocks as
there is room for, its words are linked up to the last one, and the rest is
on the other levels. -/
structure HandedOut (b : BlockCtr) (N k : Nat) : Prop where
  topBit : ∀ j < 32 * b.numL k, (b.bitmap k).bit j = decide (j < N / 2 ^ k)
  topCur : b.freeCur k = if N > 0 then 0 else -1
  topNext : ∀ w < b.numL k, b.freeList k (w : Nat) = if w < lastWord N k then (w : Int) + 1 else -1
  low : ∀ l < k, LowLevel b N l

/-- Which words of the top level are linked to the next one. -/
theorem lt_lastWord_iff {N k w : Nat} :
    w < lastWord N k ↔
      w < N / (2 ^ k * 32) ∧ ¬ (N % (2 ^ k * 32) = 0 ∧ w + 1 = N / (2 ^ k * 32)) := by
  have hpos : 0 < 2 ^ k * 32 := Nat.mul_pos (Nat.two_pow_pos k) (by decide)
  have hN := Nat.div_add_mod N (2 ^ k * 32)
  have hr := Nat.mod_lt N hpos
  unfold lastWord
  generalize 2 ^ k * 32 = W at *
  generalize hq : N / W = q at *
  generalize N % W = r at *
  cases r with
  | zero =>
      cases q with
      | zero =>
          rw [show N - 1 = 0 by rw [← hN]; simp, Nat.zero_div]
          omega
      | succ q =>
          -- the last block of the last full word
          have hlast : (N - 1) / W = q := by
            rw [Nat.div_eq_iff hpos, ← hN, Nat.mul_succ, Nat.mul_comm q W]
            omega
          rw [hlast]
          omega
  | succ r =>
      have hlast : (N - 1) / W = q := by
        rw [← hN, Nat.add_succ_sub_one, Nat.mul_add_div hpos, Nat.div_eq_of_lt (by omega)]
        rfl
      rw [hlast]
      omega

theorem fillBlocks_spec {N k : Nat} {b : BlockCtr} (hempty : ∀ m ≤ k, EmptyLevel b m) :
    HandedOut (fillBlocks (k + 1) N b) N k ∧ SameAbove (k + 1) b (fillBlocks (k + 1) N b) := by
  have hpos : 0 < 2 ^ k := Nat.two_pow_pos k
  have hN := Nat.div_add_mod N (2 ^ k * 32)
  have hq : N / 2 ^ k = 32 * (N / (2 ^ k * 32)) + N % (2 ^ k * 32) / 2 ^ k := by
    conv_lhs => rw [← hN, Nat.mul_assoc, Nat.mul_add_div hpos]
  have hr : N % 2 ^ k = N % (2 ^ k * 32) % 2 ^ k := by
    conv_lhs => rw [← hN, Nat.mul_assoc, Nat.mul_add_mod]
  unfold fillBlocks
  rw [Nat.add_sub_cancel]
  dsimp only
  -- the whole words
  obtain ⟨b₂, heq₂, hsame₂, hcur₂, hbit₂, hlist₂⟩ := fillWords_spec k hpos N 0 N 0
    (b.setFreeCur k (if N > 0 then 0 else -1)) (Nat.div_le_self _ _)
  rw [heq₂, Nat.zero_add, Nat.zero_add]
  dsimp only
  -- the end of the list, if no block is left
  obtain ⟨b₃, hb₃, hsame₃, hcur₃, hbitmap₃, hlist₃⟩ : ∃ b₃,
      (if N % (2 ^ k * 32) = 0 then
        b₂.setFreeList k (((N / (2 ^ k * 32) : Nat) : Int) - 1) (-1) else b₂) = b₃ ∧
      SameElse k b₂ b₃ ∧ b₃.freeCur = b₂.freeCur ∧ b₃.bitmap = b₂.bitmap ∧
      ∀ w : Int, b₃.freeList k w =
        if N % (2 ^ k * 32) = 0 ∧ w = ((N / (2 ^ k * 32) : Nat) : Int) - 1 then -1
        else b₂.freeList k w := by
    refine ⟨_, rfl, ?_⟩
    split
    · rename_i hzero
      refine ⟨SameElse.setFreeList b₂ k _ _, rfl, rfl, fun w => ?_⟩
      show Function.update b₂.freeList k _ k w = _
      rw [Function.update_self]
      by_cases hw : w = ((N / (2 ^ k * 32) : Nat) : Int) - 1
      · rw [if_pos ⟨hzero, hw⟩, hw, Function.update_self]
      · rw [if_neg fun h => hw h.2, Function.update_of_ne hw]
    · rename_i hzero
      exact ⟨SameElse.refl k b₂, rfl, rfl, fun w => (if_neg fun h => hzero h.1).symm⟩
  rw [hb₃]
  -- the bits of the last word
  obtain ⟨b₄, heq₄, hsame₄, hcur₄, hlist₄, hbit₄⟩ := fillBits_spec k (N % (2 ^ k * 32))
    (N % (2 ^ k * 32)) (32 * (N / (2 ^ k * 32))) b₃ (Nat.div_le_self _ _)
  rw [show N / (2 ^ k * 32) * (2 ^ k * 32) = 32 * (N / (2 ^ k * 32)) * 2 ^ k by ring, heq₄, ← hq,
    ← hr]
  dsimp only
  -- the other levels
  have hsame : SameElse k b (b₄.setFreeList k (N / (2 ^ k * 32) : Nat) (-1)) :=
    ((((SameElse.setFreeCur b k _).trans hsame₂).trans hsame₃).trans hsame₄).trans
      (SameElse.setFreeList b₄ k _ _)
  obtain ⟨habove, hlow⟩ := fillLevels_spec (N := N) k
    (b := b₄.setFreeList k (N / (2 ^ k * 32) : Nat) (-1)) fun m hm => by
      have hm' := hempty m (by omega)
      refine ⟨(hsame.freeCur m (by omega)).trans hm'.freeCur, ?_, ?_⟩
      · rw [hsame.bitmap m (by omega), hsame.heap.numL]
        exact hm'.bitmap
      · rw [hsame.freeList m (by omega), hsame.heap.numL]
        exact hm'.freeList
  generalize fillLevels k (N % 2 ^ k) (N / 2 ^ k * 2 ^ k)
    (b₄.setFreeList k (N / (2 ^ k * 32) : Nat) (-1)) = b' at habove hlow ⊢
  have hnum : b'.numL = b.numL := habove.const.2.2.2.2.2.2.trans hsame.heap.numL
  constructor
  · constructor
    case topBit =>
      intro j hj
      rw [hnum] at hj
      rw [habove.bitmap k (Nat.le_refl k)]
      show (b₄.bitmap k).bit j = _
      rw [hbit₄, hbitmap₃, hbit₂]
      show (_ || (_ || (b.bitmap k).bit j)) = _
      rw [(hempty k (Nat.le_refl k)).bit_eq_false hj, Bool.or_false, ← Bool.decide_or, hq]
      generalize N / (2 ^ k * 32) = q
      generalize N % (2 ^ k * 32) / 2 ^ k = r
      exact decide_eq_decide.mpr (by omega)
    case topCur =>
      rw [habove.freeCur k (Nat.le_refl k)]
      show b₄.freeCur k = _
      rw [hcur₄, hcur₃, hcur₂]
      exact Function.update_self _ _ _
    case topNext =>
      intro w hw
      rw [hnum] at hw
      rw [habove.freeList k (Nat.le_refl k)]
      show Function.update b₄.freeList k _ k (w : Int) = _
      rw [Function.update_self, hlist₄, if_congr lt_lastWord_iff rfl rfl]
      have hold : b₂.freeList k (w : Int) =
          if w < N / (2 ^ k * 32) then (w : Int) + 1 else -1 := by
        rw [hlist₂]
        refine if_congr (by omega) rfl ?_
        exact (hempty k (Nat.le_refl k)).freeList w (by omega) (by omega)
      generalize N / (2 ^ k * 32) = q at hlist₃ hold ⊢
      by_cases hwq : (w : Int) = q
      · rw [hwq, Function.update_self, if_neg (by omega)]
      · rw [Function.update_of_ne hwq, hlist₃, hold]
        by_cases hend : N % (2 ^ k * 32) = 0 ∧ w + 1 = q
        · rw [if_pos (by omega), if_neg fun h => h.2 hend]
        · rw [if_neg (by omega)]
          exact if_congr (by omega) rfl rfl
    case low => exact hlow
  · refine SameAbove.trans ?_ habove.succ
    exact ⟨fun x => Or.inl (congrFun hsame.heap.blocks x), fun m hm => hsame.bitmap m (by omega),
      fun m hm => hsame.freeList m (by omega), fun m hm => hsame.freeCur m (by omega),
      hsame.heap.level, hsame.heap.state, hsame.heap.startAdr, hsame.heap.endAdr,
      hsame.heap.blockNum, hsame.heap.freeNum, hsame.heap.numL⟩

/-! ### The addresses -/

/-- The pointers to the arrays, the table and the control block. -/
def BlockCtr.adrs (b : BlockCtr) : (Nat → Nat) × (Nat → Nat) × Nat × Nat :=
  (b.bitmapAdr, b.freeListAdr, b.blocksAdr, b.ctrlAdr)

theorem fillWords_adrs (top maxNum rounds i num oNum : Nat) (b : BlockCtr) :
    (fillWords top maxNum rounds i num oNum b).2.2.2.adrs = b.adrs := by
  induction rounds generalizing i num oNum b with
  | zero => rfl
  | succ rounds ih =>
      unfold fillWords
      split
      · exact ih _ _ _ _
      · rfl

theorem fillBits_adrs (top maxNum rounds num oNum : Nat) (b : BlockCtr) :
    (fillBits top maxNum rounds num oNum b).2.2.adrs = b.adrs := by
  induction rounds generalizing num oNum b with
  | zero => rfl
  | succ rounds ih =>
      unfold fillBits
      split
      · exact ih _ _ _
      · rfl

theorem fillLevels_adrs (level1 num oNum : Nat) (b : BlockCtr) :
    (fillLevels level1 num oNum b).adrs = b.adrs := by
  induction level1 generalizing num oNum b with
  | zero => rfl
  | succ level1 ih =>
      unfold fillLevels
      dsimp only
      split
      · rfl
      · split
        · exact ih _ _ _
        · exact ih _ _ _

/-- Handing out the blocks moves nothing. -/
theorem fillBlocks_adrs (level1 num : Nat) (b : BlockCtr) :
    (fillBlocks level1 num b).adrs = b.adrs := by
  unfold fillBlocks
  dsimp only
  rw [fillLevels_adrs]
  refine (fillBits_adrs _ _ _ _ _ _).trans ?_
  have hwords := fillWords_adrs (level1 - 1) (2 ^ (level1 - 1)) num 0 num 0
    (b.setFreeCur (level1 - 1) (if num > 0 then 0 else -1))
  generalize fillWords (level1 - 1) _ num 0 num 0 _ = r at hwords ⊢
  split <;> exact hwords

/-- Where the parts of the region between `S` and the control block at `E`
are put. -/
structure HeapPlaced (b : BlockCtr) (S E : Nat) : Prop where
  startAdr : b.startAdr = S
  ctrlAdr : b.ctrlAdr = E
  /-- the table has an entry for every pair of basic blocks, and more -/
  table : b.blocksAdr + b.blockNum ≤ b.ctrlAdr
  arrays : ArraysPlaced b b.level b.endAdr b.blocksAdr

/-! ### `buddy_init` -/

/-- The words of the levels below the top have a bit for every pair of the first `2 ^ c` basic
blocks, and the heap is a part of these. -/
structure WordsReach (b : BlockCtr) (N k c : Nat) : Prop where
  small : c ≤ 24
  top : k ≤ c
  blocks : N ≤ 2 ^ c
  words : ∀ l < k, 2 ^ c ≤ 32 * b.numL l * 2 ^ (l + 1)

/-- What `buddy_init` leaves of a heap with `N` basic blocks and the top
level `k`. -/
structure Started (b : BlockCtr) (N k : Nat) : Prop where
  handed : HandedOut b N k
  level : b.level = k + 1
  levels : k < LEVEL
  pos : 0 < N → 0 < k
  state : b.state = MEM_OK
  blockNum : b.blockNum = N
  freeNum : b.freeNum = N
  endAdr : b.endAdr = b.startAdr + N * 2 ^ BLOCK_SHIFT
  small : b.startAdr + N * 2 ^ BLOCK_SHIFT < 2 ^ 32
  words : ∀ l ≤ k, ∀ i, i * 2 ^ l < N → bitIndex k l i < 32 * b.numL l
  reach : ∃ c, WordsReach b N k c

/-- The arrays and the table take less room than the blocks of the highest
level but one. -/
theorem room_for_arrays {c k : Nat} (hkc : k ≤ c) (hk : k ≤ 13) {room : Nat}
    (hroom : BLOCK_SIZE ≤ room) (hhalf : 0 < c → BLOCK_SIZE * 2 ^ (c - 1) < room) :
    k * (8 * (2 ^ c / 32 / 2 + 1) + 6) + (8 * (2 ^ c / 32 + 1) + 6) + 2 ^ c ≤ room := by
  have hmul : k * (8 * (2 ^ c / 32 / 2 + 1) + 6) ≤ 13 * (8 * (2 ^ c / 32 / 2 + 1) + 6) :=
    Nat.mul_le_mul_right _ hk
  unfold BLOCK_SIZE BLOCK_SHIFT at *
  rcases c with _ | _ | c
  · obtain rfl := Nat.le_zero.mp hkc
    omega
  · rcases k with _ | _ | k <;> omega
  · have hlt := hhalf (by omega)
    have hpos := Nat.two_pow_pos c
    rw [Nat.pow_succ, Nat.pow_succ] at *
    rw [Nat.add_sub_cancel, Nat.pow_succ] at hlt
    omega

/-- A level has words enough for the blocks of the heap. -/
theorem words_enough {N c l e i : Nat} (hN : N < 2 ^ c) (hi : i * 2 ^ l < N) :
    (c ≤ 5 + l + e → i < 32 * 2 ^ e) ∧ (c ≤ 5 + (l + 1) + e → i / 2 < 32 * 2 ^ e) := by
  have hpos := Nat.two_pow_pos l
  have hexp : 2 ^ (5 + l + e) = 32 * 2 ^ e * 2 ^ l := by
    rw [Nat.pow_add, Nat.pow_add]
    ring
  have hexp' : 2 ^ (5 + (l + 1) + e) = 64 * 2 ^ e * 2 ^ l := by
    rw [Nat.pow_add, Nat.pow_add, Nat.pow_succ]
    ring
  constructor
  · intro hc
    have hle := Nat.pow_le_pow_right (by decide : 0 < 2) hc
    exact Nat.lt_of_mul_lt_mul_right (by omega : i * 2 ^ l < 32 * 2 ^ e * 2 ^ l)
  · intro hc
    have hle := Nat.pow_le_pow_right (by decide : 0 < 2) hc
    have := Nat.lt_of_mul_lt_mul_right (by omega : i * 2 ^ l < 64 * 2 ^ e * 2 ^ l)
    omega

/-- The heap that is built on a region of `2 ^ c` times the basic size at
most, and more than half of that. -/
theorem buildHeap_spec {S E c : Nat} (b : BlockCtr) (hc24 : c ≤ 24) (hE : E < 2 ^ 32) (hSE : S ≤ E)
    (hroom : BLOCK_SIZE ≤ E - S) (hend : E ≤ S + BLOCK_SIZE * 2 ^ c)
    (hhalf : 0 < c → BLOCK_SIZE * 2 ^ (c - 1) < E - S) (hctrl : b.ctrlAdr = E) :
    ∃ N k, Started (buildHeap S E (2 ^ c) (c + 1) b) N k ∧
      HeapPlaced (buildHeap S E (2 ^ c) (c + 1) b) S E := by
  -- the levels
  obtain ⟨k, hkc, hk13, hkpos, hlevel⟩ : ∃ k, k ≤ c ∧ k ≤ 13 ∧ (0 < c → 0 < k) ∧
      (if c + 1 > LEVEL then LEVEL else c + 1) = k + 1 := by
    unfold LEVEL
    by_cases hc : c ≤ 13
    · exact ⟨c, Nat.le_refl c, hc, id, by rw [if_neg (by omega)]⟩
    · exact ⟨13, by omega, Nat.le_refl 13, fun _ => by decide, by rw [if_pos (by omega)]⟩
  have hcpos := Nat.two_pow_pos c
  have harrays := room_for_arrays hkc hk13 hroom hhalf
  have hblocks : u32 ((E : Int) - (2 ^ c : Nat)) = E - 2 ^ c := by
    unfold u32
    omega
  obtain ⟨num, saveAdr, b₁, heq₁, hcount, hnumle, hdown, hdone, hsame⟩ :=
    initLevels_spec k (M := 2 ^ c / 32 / 2 + 1)
      (wordCount_start c) (by omega) (by omega) (by omega : _ ≤ E - 2 ^ c) (by omega)
      (levelsDone_zero c (E - 2 ^ c) { b with
        state := MEM_OK
        blocksAdr := E - 2 ^ c })
  have hup := hdone.base
  rw [Nat.zero_add] at hcount hdone
  unfold buildHeap
  simp only [hlevel, Nat.add_sub_cancel, hblocks, heq₁]
  obtain ⟨e, he, hce⟩ := hcount.atLeastOne
  have hnum1 : (if num = 0 then 1 else num) ≤ 2 ^ c / 32 + 1 := by split <;> omega
  obtain ⟨hdown₂, hup₂⟩ : saveAdr ≤ (initLevel k (if num = 0 then 1 else num) saveAdr b₁).1 +
      (8 * (if num = 0 then 1 else num) + 6) ∧
      (initLevel k (if num = 0 then 1 else num) saveAdr b₁).1 ≤ saveAdr :=
    initLevel_saveAdr b₁ (by omega) (by omega)
  have hempty₂ : ∀ m ≤ k, EmptyLevel (initLevel k (if num = 0 then 1 else num) saveAdr b₁).2 m :=
    fun m hm => by
      rcases Nat.eq_or_lt_of_le hm with rfl | hm
      · exact initLevel_empty _ _ _ _
      · exact (hdone.empty m hm).initLevel (Nat.ne_of_lt hm) _ _
  have hwords₂ : ∀ m ≤ k, ∃ d,
      (initLevel k (if num = 0 then 1 else num) saveAdr b₁).2.numL m = 2 ^ d ∧
        (if m = k then c ≤ 5 + m + d else c ≤ 5 + (m + 1) + d) := fun m hm => by
    rcases Nat.eq_or_lt_of_le hm with rfl | hm
    · exact ⟨e, (Function.update_self _ _ _).trans he, by rwa [if_pos rfl]⟩
    · obtain ⟨d, hd, hcd⟩ := hdone.words m hm
      refine ⟨d, (Function.update_of_ne (Nat.ne_of_lt hm) _ _).trans hd, ?_⟩
      rwa [if_neg (Nat.ne_of_lt hm)]
  have harrays₂ := hdone.arrays.initLevel hup
    (by omega : 8 * (if num = 0 then 1 else num) + 6 ≤ saveAdr) (by omega)
  have hconst₂ : SameConst b₁ (initLevel k (if num = 0 then 1 else num) saveAdr b₁).2 :=
    ⟨rfl, rfl, rfl, rfl⟩
  replace hconst₂ := hsame.trans hconst₂
  generalize initLevel k (if num = 0 then 1 else num) saveAdr b₁ = r at *
  -- the basic blocks
  have hu : u32 ((r.1 : Int) - S) = r.1 - S := by
    unfold u32
    omega
  have hsize : BLOCK_SIZE = 128 := rfl
  have hshift : 2 ^ BLOCK_SHIFT = 128 := rfl
  rw [hu]
  obtain ⟨N, hN⟩ : ∃ N, (r.1 - S) / 2 ^ BLOCK_SHIFT = N := ⟨_, rfl⟩
  have hNmul : N * 2 ^ BLOCK_SHIFT ≤ r.1 - S := hN ▸ Nat.div_mul_le_self _ _
  have hNle : S + N * 2 ^ BLOCK_SHIFT < 2 ^ 32 := by omega
  have hNc : N < 2 ^ c := by
    rw [hshift] at hNmul
    rw [hsize] at hend
    omega
  rw [hN]
  obtain ⟨hhanded, habove⟩ := fillBlocks_spec (N := N) (k := k)
    (b := { r.2 with
      level := k + 1
      startAdr := S
      endAdr := u32 (S + N * 2 ^ BLOCK_SHIFT)
      blockNum := N
      freeNum := N }) fun m hm =>
        ⟨(hempty₂ m hm).freeCur, (hempty₂ m hm).bitmap, (hempty₂ m hm).freeList⟩
  have hadrs := fillBlocks_adrs (k + 1) N { r.2 with
      level := k + 1
      startAdr := S
      endAdr := u32 (S + N * 2 ^ BLOCK_SHIFT)
      blockNum := N
      freeNum := N }
  obtain ⟨hcl, hcs, hcstart, hcend, hcb, hcf, hcn⟩ := habove.const
  generalize fillBlocks (k + 1) N _ = b₃ at *
  have hendAdr : u32 ((S : Int) + N * 2 ^ BLOCK_SHIFT) = S + N * 2 ^ BLOCK_SHIFT := by
    rw [← u32_natCast hNle]
    push_cast
    rfl
  refine ⟨N, k, ?_, ?_⟩
  · refine ⟨hhanded, hcl, by unfold LEVEL; omega, fun hNpos => hkpos ?_, hcs.trans hconst₂.state,
      hcb, hcf, ?_, by rw [hcstart]; exact hNle, fun l hl i hi => ?_,
      c, hc24, hkc, Nat.le_of_lt hNc, fun l hl => ?_⟩
    · by_contra hc
      rw [show c = 0 by omega] at hNc
      omega
    · rw [hcend, hcstart]
      exact hendAdr
    · rw [hcn]
      obtain ⟨d, hd, hcd⟩ := hwords₂ l hl
      show _ < 32 * r.2.numL l
      rw [hd]
      unfold bitIndex
      by_cases hlk : l = k
      · rw [if_pos hlk] at hcd ⊢
        exact (words_enough hNc hi).1 hcd
      · rw [if_neg hlk] at hcd ⊢
        exact (words_enough hNc hi).2 hcd
    · rw [hcn]
      obtain ⟨d, hd, hcd⟩ := hwords₂ l (Nat.le_of_lt hl)
      show _ ≤ 32 * r.2.numL l * 2 ^ (l + 1)
      rw [if_neg (Nat.ne_of_lt hl)] at hcd
      calc 2 ^ c ≤ 2 ^ (5 + (l + 1) + d) := Nat.pow_le_pow_right (by decide) hcd
        _ = 32 * 2 ^ d * 2 ^ (l + 1) := by
            rw [Nat.pow_add, Nat.pow_add]
            ring
        _ = 32 * r.2.numL l * 2 ^ (l + 1) := by rw [hd]
  · obtain ⟨hbitmap, hadrs⟩ := Prod.mk.inj hadrs
    obtain ⟨hlist, hadrs⟩ := Prod.mk.inj hadrs
    obtain ⟨htable, hctrl'⟩ := Prod.mk.inj hadrs
    have hE' : b₃.ctrlAdr = E := (hctrl'.trans hconst₂.ctrlAdr).trans hctrl
    have htable' : b₃.blocksAdr = E - 2 ^ c := htable.trans hconst₂.blocksAdr
    refine ⟨hcstart, hE', ?_, ?_⟩
    · rw [hE', htable', hcb]
      show _ + N ≤ _
      omega
    · rw [hcl, hcend, htable']
      show ArraysPlaced b₃ (k + 1) (u32 ((S : Int) + N * 2 ^ BLOCK_SHIFT)) _
      rw [hendAdr]
      exact (harrays₂.of_le (by omega)).congr hbitmap hlist hcn

/-- A successful `buddy_init` leaves a started heap, with its parts in
place. -/
theorem buddyInit_placed {startAdr endAdr : Nat} {b b' : BlockCtr}
    (h : buddyInit startAdr endAdr b = some (.KR_OK, b')) :
    ∃ N k, Started b' N k ∧ HeapPlaced b' (align4 (u32 ((startAdr : Int) + 3)))
      (align4 (u32 ((align4 endAdr : Nat) - sizeofBlockCtr))) := by
  unfold buddyInit at h
  have hE : align4 (u32 ((align4 endAdr : Nat) - sizeofBlockCtr)) < 2 ^ 32 := by
    unfold align4 u32
    omega
  dsimp only at h
  generalize align4 (u32 ((startAdr : Int) + 3)) = S at h ⊢
  generalize align4 (u32 ((align4 endAdr : Nat) - sizeofBlockCtr)) = E at h hE ⊢
  split at h
  · simp at h
  rename_i hroom
  have hsize : BLOCK_SIZE = 128 := rfl
  obtain ⟨res, hloop, heq⟩ := Option.map_eq_some_iff.mp h
  obtain ⟨c, -, rfl, hreach, hmin⟩ := levelLoop_spec (a := 0) (by
    rw [show u32 (BLOCK_SIZE * 2 ^ 0 : Nat) = BLOCK_SIZE by decide,
      show u32 (2 ^ 0 : Nat) = 1 by decide]
    exact hloop)
  rw [reach_iff (by omega) hE] at hreach
  obtain ⟨hc24, hsum, hend⟩ := hreach
  have hcpow : 2 ^ c ≤ 2 ^ 24 := Nat.pow_le_pow_right (by decide) hc24
  have hhalf : 0 < c → BLOCK_SIZE * 2 ^ (c - 1) < E - S := fun hc => by
    have hnot := hmin (c - 1) (by omega) (by omega)
    rw [reach_iff (by omega) hE] at hnot
    rw [hsize] at hnot hend hsum ⊢
    have hdouble : 2 ^ c = 2 ^ (c - 1) * 2 := by
      rw [← Nat.pow_succ]
      congr 1
      omega
    omega
  obtain ⟨-, rfl⟩ := Prod.mk.inj heq
  rw [u32_natCast (by omega : 2 ^ c < 2 ^ 32)]
  exact buildHeap_spec _ hc24 hE (by omega) (by omega) hend hhalf rfl

/-- A successful `buddy_init` leaves a started heap. -/
theorem buddyInit_spec {startAdr endAdr : Nat} {b b' : BlockCtr}
    (h : buddyInit startAdr endAdr b = some (.KR_OK, b')) : ∃ N k, Started b' N k := by
  obtain ⟨N, k, hstarted, -⟩ := buddyInit_placed h
  exact ⟨N, k, hstarted⟩

/-! ### The first tiling -/

/-- The bitmaps of a started heap are those of the maximal tiling. -/
theorem Started.marks {b : BlockCtr} {N k : Nat} (h : Started b N k) :
    Marks b (Tiling.maximal N (k + 1) (Nat.succ_pos k)) where
  level := h.level
  blockNum := h.blockNum
  small := h.small
  coalesced := Tiling.coalesced_maximal _
  words := h.words
  mark := fun l hl j hj => by
    rcases Nat.eq_or_lt_of_le hl with rfl | hlk
    · rw [h.handed.topBit j hj, decide_eq_true_iff]
      simp only [Tiling.free_maximal_top, bitIndex, if_true, exists_eq_right]
    · rw [(h.handed.low l hlk).bit j hj, decide_eq_true_iff, div_two_pow_succ]
      simp only [Tiling.free_maximal _ hlk, bitIndex, if_neg (Nat.ne_of_lt hlk)]
      constructor
      · rintro ⟨hone, rfl⟩
        generalize N / 2 ^ l = q at hone ⊢
        exact ⟨q - 1, by omega, by omega⟩
      · rintro ⟨i, ⟨hi, heven⟩, rfl⟩
        omega
  freeEntry := fun l hl j hj => by
    obtain ⟨hi, -⟩ := (Tiling.free_maximal _ hl).mp hj
    have hentry := (h.handed.low l hl).entry (by omega)
    rw [div_two_pow_succ, show N / 2 ^ l / 2 = j by omega] at hentry
    rw [hentry]
    decide

/-- The last word that is linked on the top level is one of the level. -/
theorem Started.lastWord_lt {b : BlockCtr} {N k : Nat} (h : Started b N k) (hN : 0 < N) :
    lastWord N k < b.numL k := by
  have hpos := Nat.two_pow_pos k
  have hcover : N - 1 < 32 * b.numL k * 2 ^ k := by
    -- the last basic block has its bit on the level
    have hmem := Nat.div_mul_le_self (N - 1) (2 ^ k)
    have hword := h.words k (Nat.le_refl k) ((N - 1) / 2 ^ k) (by omega)
    rw [bitIndex, if_pos rfl] at hword
    exact (Nat.div_lt_iff_lt_mul hpos).mp hword
  unfold lastWord
  rw [Nat.div_lt_iff_lt_mul (by omega)]
  calc N - 1 < 32 * b.numL k * 2 ^ k := hcover
    _ = b.numL k * (2 ^ k * 32) := by ring

/-- The bit of a binary digit 1 is one of its level. -/
theorem Started.digit_lt {b : BlockCtr} {N k l : Nat} (h : Started b N k) (hl : l < k)
    (hone : N / 2 ^ l % 2 = 1) : N / 2 ^ (l + 1) < 32 * b.numL l := by
  have hfree : (Tiling.maximal N (k + 1) (Nat.succ_pos k)).Free l (N / 2 ^ l - 1) := by
    rw [Tiling.free_maximal _ hl]
    generalize N / 2 ^ l = q at hone ⊢
    omega
  have hword := h.words l (Nat.le_of_lt hl) _ hfree.1.1
  rw [bitIndex, if_neg (Nat.ne_of_lt hl)] at hword
  rw [div_two_pow_succ]
  generalize N / 2 ^ l = q at hone hword ⊢
  omega

/-- Its lists lead to words of their levels. -/
theorem Started.listRange {b : BlockCtr} {N k : Nat} (h : Started b N k) : ListRange b k where
  cur := fun l hl => by
    rcases Nat.eq_or_lt_of_le hl with rfl | hlk
    · rw [h.handed.topCur]
      split
      · rename_i hN
        have hword := h.words l hl 0 (by omega)
        omega
      · omega
    · rw [(h.handed.low l hlk).freeCur]
      split
      · rename_i hone
        have hword := h.digit_lt hlk hone
        generalize N / 2 ^ (l + 1) = q at hword ⊢
        omega
      · omega
  next := fun l hl w hw hw' => by
    rcases Nat.eq_or_lt_of_le hl with rfl | hlk
    · obtain ⟨w, rfl⟩ := Int.eq_ofNat_of_zero_le hw
      rw [h.handed.topNext w (by omega)]
      split
      · rename_i hlast
        have hN : 0 < N := by
          by_contra hN
          rw [show N = 0 by omega] at hlast
          simp [lastWord] at hlast
        have hlt := h.lastWord_lt hN
        omega
      · omega
    · rw [(h.handed.low l hlk).freeList w hw hw']
      omega

/-- No block of it is used. -/
theorem usedEntries_maximal (b : BlockCtr) (N n : Nat) (hn : 0 < n) :
    UsedEntries b (Tiling.maximal N n hn) := fun _ _ _ hu => absurd hu (by simp [Tiling.maximal])

end ACoral
