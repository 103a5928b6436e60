import ACoral.Proofs.Buddy.Relink

/-!
# `ACoral.Proofs.Buddy.FreeWords`: the lists below the top level

Below the top level the list of a level is to have the words with a set bit, in order, and
no others (`WordLists`). This does not depend on what the bits stand for. `FreeWords` is the
invariant: besides the lists it says that every set bit is that of a pair among the first
`2 ^ c` basic blocks, so that no index leaves the words of its level.

- `recusMallocFrom_freeWords`: every search keeps it.
- `freeLoop_freeWords`: the loop of a release keeps it when `mergeSound` says so of the
  levels below the top.
- `buddy_wordLists`: it holds in every run whose calls meet `wordGuard`.
- `buddy_wordLists_fails`: a release that empties the second word of a list loses the first.
-/

set_option autoImplicit false

namespace ACoral

open Lib

variable {b b' : BlockCtr} {s k c l m : Nat}

/-! ### The invariant -/

/-- The lists of the levels below the top have the words with a set bit, in ascending order,
and end. -/
def WordLists (b : BlockCtr) : Prop :=
  ∀ l, l + 1 < b.level → ∃ ws : List Int,
    Chain (b.freeList l) (-1) (b.freeCur l) ws ∧ ws.Pairwise (· < ·) ∧
      ∀ w, w ∈ ws ↔ 0 ≤ w ∧ w < b.numL l ∧ b.bitmap l w ≠ 0

/-- No word is spare. -/
def noSpare (_ : Int) : Prop := False

/-- The heap starts at `s`, the lists of the levels below `k` are right, and the set bits are
those of pairs among the first `2 ^ c` basic blocks. -/
structure FreeWords (b : BlockCtr) (s k c : Nat) : Prop where
  startAdr : b.startAdr = s
  level : b.level = k + 1
  reach : WordsReach b b.blockNum k c
  lists : ∀ l < k, ∃ ws, LevelList b noSpare k l ws
  bits : ∀ l < k, ∀ j < 32 * b.numL l, (b.bitmap l).bit j = true → j * 2 ^ (l + 1) < 2 ^ c

namespace FreeWords

theorem wordLists (h : FreeWords b s k c) : WordLists b := by
  intro l hl
  rw [h.level] at hl
  obtain ⟨ws, hws⟩ := h.lists l (by omega)
  refine ⟨ws, hws.chain, hws.sorted, fun w => (hws.mem w).trans ?_⟩
  unfold Linked noSpare
  rw [and_false, or_false]

theorem start {N : Nat} (h : Started b N k) : ∃ c, FreeWords b b.startAdr k c := by
  obtain ⟨c, hreach⟩ := h.reach
  refine ⟨c, rfl, h.level, by rw [h.blockNum]; exact hreach, fun l hl => ?_, fun l hl j hj hbit => ?_⟩
  · obtain ⟨ws, hws⟩ := h.levelList_low hl
    refine ⟨ws, hws.keep rfl rfl fun v => ?_⟩
    unfold Linked noSpare
    rw [and_false, or_false, or_iff_left fun hk => absurd hk.1 (Nat.ne_of_lt hl)]
  · rw [(h.handed.low l hl).bit j hj, decide_eq_true_iff] at hbit
    obtain ⟨hone, rfl⟩ := hbit
    have hsplit : N / 2 ^ (l + 1) * 2 ^ (l + 1) ≤ N := Nat.div_mul_le_self _ _
    have hle := hreach.blocks
    -- the digit 1 of the level is a block behind the pairs of the levels above
    have hlow : 2 ^ l ≤ N % 2 ^ (l + 1) := by
      rw [Nat.pow_succ, Nat.mod_mul, hone, Nat.mul_one]
      omega
    have hdiv := Nat.div_add_mod' N (2 ^ (l + 1))
    have hpos := Nat.two_pow_pos l
    omega

/-- The table and the counter do not matter. -/
theorem of_eq (h : FreeWords b s k c) (hstart : b'.startAdr = b.startAdr)
    (hlevel : b'.level = b.level) (hblock : b'.blockNum = b.blockNum)
    (hnum : b'.numL = b.numL) (hbitmap : b'.bitmap = b.bitmap)
    (hlist : b'.freeList = b.freeList) (hcur : b'.freeCur = b.freeCur) : FreeWords b' s k c where
  startAdr := hstart.trans h.startAdr
  level := hlevel.trans h.level
  reach := by
    rw [hblock]
    exact ⟨h.reach.small, h.reach.top, h.reach.blocks, by rw [hnum]; exact h.reach.words⟩
  lists := fun l hl => by
    obtain ⟨ws, hws⟩ := h.lists l hl
    refine ⟨ws, hws.keep (by rw [hlist]) (by rw [hcur]) fun v => ?_⟩
    unfold Linked
    rw [hbitmap, hnum]
  bits := by
    rw [hnum, hbitmap]
    exact h.bits

/-- A change on one level. On the top level nothing is to be shown. -/
theorem of_sameElse (h : FreeWords b s k c) (hsame : SameElse l b b')
    (hlist : l < k → ∃ ws, LevelList b' noSpare k l ws)
    (hbits : l < k → ∀ j < 32 * b.numL l, (b'.bitmap l).bit j = true → j * 2 ^ (l + 1) < 2 ^ c) :
    FreeWords b' s k c where
  startAdr := hsame.heap.startAdr.trans h.startAdr
  level := hsame.heap.level.trans h.level
  reach := by
    rw [hsame.heap.blockNum]
    exact ⟨h.reach.small, h.reach.top, h.reach.blocks,
      by rw [hsame.heap.numL]; exact h.reach.words⟩
  lists := fun m hm => by
    by_cases hml : m = l
    · subst hml
      exact hlist hm
    · obtain ⟨ws, hws⟩ := h.lists m hm
      refine ⟨ws, hws.keep (hsame.freeList m hml) (hsame.freeCur m hml) fun v => ?_⟩
      unfold Linked
      rw [hsame.heap.numL, hsame.bitmap m hml]
  bits := fun m hm j hj => by
    rw [hsame.heap.numL] at hj
    by_cases hml : m = l
    · subst hml
      exact hbits hm j hj
    · rw [hsame.bitmap m hml]
      exact h.bits m hm j hj

/-- The bit of a pair among the first `2 ^ c` blocks is in a word of its level. -/
theorem index_lt (h : FreeWords b s k c) (hl : l < k) {i : Nat} (hi : i * 2 ^ (l + 1) < 2 ^ c) :
    i < 32 * b.numL l :=
  Nat.lt_of_mul_lt_mul_right (Nat.lt_of_lt_of_le hi (h.reach.words l hl))

theorem lt_small (h : FreeWords b s k c) {x : Nat} (hx : x < 2 ^ c) : x < 2 ^ 24 :=
  Nat.lt_of_lt_of_le hx (Nat.pow_le_pow_right (by decide) h.reach.small)

/-- Half of a pair among the first `2 ^ c` blocks is among them. -/
theorem half_lt (h : FreeWords b s k c) (hl : l < k) {j : Nat} (hj : j * 2 ^ (l + 1) < 2 ^ c) :
    (2 * j + 1) * 2 ^ l < 2 ^ c := by
  have htop := h.reach.top
  obtain ⟨d, hd⟩ := Nat.exists_eq_add_of_le (by omega : l + 1 ≤ c)
  have hpow : 2 ^ c = 2 ^ d * 2 ^ (l + 1) := by rw [hd, Nat.pow_add, Nat.mul_comm]
  rw [hpow] at hj ⊢
  have hlt : j < 2 ^ d := Nat.lt_of_mul_lt_mul_right hj
  calc (2 * j + 1) * 2 ^ l < 2 * (j + 1) * 2 ^ l :=
        Nat.mul_lt_mul_of_pos_right (by omega) (Nat.two_pow_pos l)
    _ = (j + 1) * 2 ^ (l + 1) := by ring
    _ ≤ 2 ^ d * 2 ^ (l + 1) := Nat.mul_le_mul_right _ hlt

/-- The first word of a list is not empty: `recus_malloc` finds a bit in it. -/
theorem head_ne_zero (h : FreeWords b s k c) (hl : l < k) (hcur : 0 ≤ b.freeCur l) :
    b.freeCur l < b.numL l ∧ b.bitmap l (b.freeCur l) ≠ 0 := by
  obtain ⟨ws, hws⟩ := h.lists l hl
  obtain ⟨vs, rfl, -⟩ := hws.exists_cons hcur
  obtain ⟨-, hlt, hne⟩ := (hws.mem _).mp List.mem_cons_self
  exact ⟨hlt, hne.resolve_right fun hs => hs.2⟩

/-- The bit that is taken below the top level. -/
theorem headIndex_spec (h : FreeWords b s k c) (hl : l < k) (hcur : 0 ≤ b.freeCur l) :
    (headIndex b l / 32 : Nat) = b.freeCur l ∧ headIndex b l * 2 ^ (l + 1) < 2 ^ c := by
  obtain ⟨hrange, hword⟩ := h.head_ne_zero hl hcur
  obtain ⟨w, hw⟩ := Int.eq_ofNat_of_zero_le hcur
  obtain ⟨j, hbit, hjw, hindex⟩ := headIndex_of_word hw hword
  rw [hw] at hrange ⊢
  have hj : j * 2 ^ (l + 1) < 2 ^ c := h.bits l hl j (by omega) hbit
  have hle : j ≤ j * 2 ^ (l + 1) := Nat.le_mul_of_pos_right j (Nat.two_pow_pos _)
  have hsmall := h.lt_small hj
  rw [hindex, u32_natCast (by omega), hjw]
  exact ⟨rfl, hj⟩

/-! ### The search -/

/-- The number for a bit below the top level is that of a half of its pair. -/
theorem blockOfBit_low (h : FreeWords b s k c) (hl : l < k) (hlevel : b'.level = b.level) {j : Nat}
    (hj : j * 2 ^ (l + 1) < 2 ^ c) :
    ∃ i, blockOfBit l j b' = (i * 2 ^ l : Nat) ∧ i * 2 ^ l < 2 ^ c := by
  have hsmall := h.lt_small hj
  have hnum : i32 ((j : Int) * 2 ^ (l + 1)) = (j * 2 ^ (l + 1) : Nat) := by
    rw [← i32_natCast (by omega : j * 2 ^ (l + 1) < 2 ^ 31)]
    push_cast
    rfl
  have htwo : j * 2 ^ (l + 1) = 2 * j * 2 ^ l := by ring
  have hsecond : (2 * j + 1) * 2 ^ l = j * 2 ^ (l + 1) + 2 ^ l := by ring
  unfold blockOfBit
  dsimp only
  rw [hlevel, h.level, if_neg (by omega), hnum]
  split
  · refine ⟨2 * j + 1, ?_, h.half_lt hl hj⟩
    rw [hsecond]
    push_cast
    rfl
  · exact ⟨2 * j, by rw [htwo], by rwa [← htwo]⟩

/-- On the top level a block that lies in the heap comes out, or an error. -/
theorem blockOfBit_top (h : FreeWords b s k c) (hlevel : b'.level = b.level)
    (hblock : b'.blockNum = b.blockNum) {j : Nat} (hpos : 0 ≤ blockOfBit k j b') :
    ∃ i, blockOfBit k j b' = (i * 2 ^ k : Nat) ∧ i * 2 ^ k < 2 ^ c := by
  have hk : k ≤ 24 := h.reach.top.trans h.reach.small
  have hpow : (0 : Int) < 2 ^ k := Int.pow_pos (by decide)
  -- 32 bits of a multiple are a multiple
  obtain ⟨y, hy⟩ : ∃ y : Int, i32 ((j : Int) * 2 ^ (k + 1)) = 2 ^ (k + 1) * y := by
    have hsplit : ((2 ^ 32 : Nat) : Int) = 2 ^ (k + 1) * 2 ^ (31 - k) := by
      rw [← pow_add]
      have hexp : k + 1 + (31 - k) = 32 := by omega
      rw [hexp]
      norm_num
    refine ⟨j - 2 ^ (31 - k) * Int.bdiv ((j : Int) * 2 ^ (k + 1)) (2 ^ 32), ?_⟩
    unfold i32
    rw [Int.bmod_eq_self_sub_mul_bdiv, hsplit]
    ring
  have hlt : i32 ((j : Int) * 2 ^ (k + 1)) < 2 ^ 31 := Int.bmod_lt (by decide)
  have hhalf : (2 : Int) ^ (k + 1) * y / 2 = 2 ^ k * y := by
    rw [pow_succ, Int.mul_right_comm, Int.mul_ediv_cancel _ (by decide)]
  unfold blockOfBit at hpos ⊢
  dsimp only at hpos ⊢
  rw [hlevel, h.level, if_pos rfl, hy, hhalf, hblock] at hpos ⊢
  split at hpos
  · rw [code_KR_MEM_ERR_UNDEF] at hpos
    omega
  · rename_i hcap
    rw [if_neg hcap]
    have hy0 : 0 ≤ y := by
      by_contra hneg
      have hlt0 := Int.mul_neg_of_pos_of_neg hpow (Int.not_le.mp hneg)
      omega
    obtain ⟨i, rfl⟩ := Int.eq_ofNat_of_zero_le hy0
    have hnat : (2 : Int) ^ k * (i : Int) = (i * 2 ^ k : Nat) := by
      push_cast
      ring
    have hsize : 2 ^ k ≤ 2 ^ 24 := Nat.pow_le_pow_right (by decide) hk
    have hkpos := Nat.two_pow_pos k
    have hroom : i * 2 ^ k < 2 ^ 31 := by
      rw [hy, pow_succ] at hlt
      have hdouble : (2 : Int) ^ k * 2 * i = 2 * (2 ^ k * i) := by ring
      rw [hdouble, hnat] at hlt
      omega
    have hle : i * 2 ^ k + 2 ^ k ≤ b.blockNum := by
      rw [hnat] at hcap
      have hcast : ((i * 2 ^ k : Nat) : Int) + 2 ^ k = (i * 2 ^ k + 2 ^ k : Nat) := by
        push_cast
        rfl
      rw [hcast, u32_natCast (by omega)] at hcap
      omega
    have hblocks := h.reach.blocks
    exact ⟨i, hnat, by omega⟩

/-- Taking a bit. -/
theorem takeBit (h : FreeWords b s k c) (hcur : 0 ≤ b.freeCur l) :
    FreeWords (ACoral.takeBit l b).2 s k c := by
  refine h.of_sameElse (takeBit_sameElse l b) (fun hlk => ?_) fun hlk j hj hbit => ?_
  · obtain ⟨ws, hws⟩ := h.lists l hlk
    exact takeBit_levelList hws hcur (h.head_ne_zero hlk hcur).2 (h.headIndex_spec hlk hcur).1
      fun hk => hk.2
  · rw [takeBit_bitmap, Function.update_self, bit_acoralClearBit, Bool.and_eq_true] at hbit
    exact h.bits l hlk j hj hbit.2

/-- Cutting a block of the next level. -/
theorem splitBlock {i : Nat} (h : FreeWords b s k c) (hcur : b.freeCur l < 0)
    (hi : i * 2 ^ (l + 1) < 2 ^ c) :
    FreeWords (ACoral.splitBlock l (i * 2 ^ (l + 1) : Nat) b) s k c := by
  have hle : i ≤ i * 2 ^ (l + 1) := Nat.le_mul_of_pos_right i (Nat.two_pow_pos _)
  have hsmall := h.lt_small hi
  refine h.of_sameElse (splitBlock_sameElse l _ b) (fun hlk => ?_) fun hlk j hj hbit => ?_
  · obtain ⟨ws, hws⟩ := h.lists l hlk
    exact ⟨_, splitBlock_levelList hws hcur (by omega) (h.index_lt hlk hi)⟩
  · rw [splitBlock_bitmap (by omega), Function.update_self, bit_acoralSetBit, Bool.or_eq_true,
      decide_eq_true_iff] at hbit
    rcases hbit with rfl | hbit
    · exact hi
    · exact h.bits l hlk j hj hbit

end FreeWords

/-- A search keeps the lists, and a block that it finds is among the first `2 ^ c`. The
induction is on the levels left. -/
theorem recusMallocFrom_freeWords (h : FreeWords b s k c) (rounds : Nat) (hl : l + rounds = k + 1) :
    FreeWords (recusMallocFrom rounds l b).2 s k c ∧
      (0 ≤ (recusMallocFrom rounds l b).1 →
        ∃ i, (recusMallocFrom rounds l b).1 = (i * 2 ^ l : Nat) ∧ i * 2 ^ l < 2 ^ c) := by
  induction rounds generalizing l with
  | zero =>
      refine ⟨h, fun hpos => ?_⟩
      have hpos' : (0 : Int) ≤ KernelError.KR_MEM_ERR_UNDEF.code := hpos
      rw [code_KR_MEM_ERR_UNDEF] at hpos'
      omega
  | succ rounds ih =>
      rw [recusMallocFrom]
      by_cases hcur : b.freeCur l < 0
      · obtain ⟨habove, hnum⟩ := ih (l := l + 1) (by omega)
        have hkeep := recusMallocFrom_freeCur rounds (l + 1) b (Nat.lt_succ_self l)
        rw [if_pos hcur]
        dsimp only
        split
        · refine ⟨habove, fun hpos => ?_⟩
          rw [code_KR_MEM_ERR_UNDEF] at hpos
          omega
        · rename_i hfound
          obtain ⟨i, hi, hlt⟩ := hnum (Int.not_lt.mp hfound)
          rw [hi]
          refine ⟨habove.splitBlock (by rwa [hkeep]) hlt, fun _ => ⟨2 * i, ?_, ?_⟩⟩
          · rw [two_mul_mul_two_pow]
          · rwa [two_mul_mul_two_pow]
      · rw [if_neg hcur]
        have hlk : l ≤ k := by omega
        have hsame := takeBit_sameHeap l b
        refine ⟨h.takeBit (by omega), fun hpos => ?_⟩
        have hpos' : 0 ≤ blockOfBit l (headIndex b l) (takeBit l b).2 := hpos
        rcases Nat.eq_or_lt_of_le hlk with rfl | hlk
        · exact h.blockOfBit_top hsame.level hsame.blockNum hpos'
        · exact h.blockOfBit_low hlk hsame.level (h.headIndex_spec hlk (by omega)).2

/-- A search that ends with a block has its number. -/
theorem recusMallocFrom_nonneg (h : FreeWords b s k c) (rounds : Nat) (hl : l + rounds = k + 1)
    (hfirst : firstLevel b rounds l = some m)
    (htop : m = k → (headIndex b k + 1) * 2 ^ k ≤ b.blockNum) :
    0 ≤ (recusMallocFrom rounds l b).1 := by
  induction rounds generalizing l with
  | zero => simp [firstLevel] at hfirst
  | succ rounds ih =>
      unfold firstLevel at hfirst
      rw [recusMallocFrom]
      by_cases hcur : b.freeCur l < 0
      · rw [if_pos hcur] at hfirst ⊢
        have hnum := ih (by omega) hfirst
        dsimp only
        rw [if_neg (Int.not_lt.mpr hnum)]
        exact hnum
      · rw [if_neg hcur] at hfirst ⊢
        obtain rfl := Option.some.inj hfirst
        have hsame := takeBit_sameHeap l b
        show 0 ≤ blockOfBit l (headIndex b l) (takeBit l b).2
        rcases Nat.eq_or_lt_of_le (by omega : l ≤ k) with rfl | hlk
        · have hcap := htop rfl
          have hblocks := h.reach.blocks
          have hsmall : 2 ^ c ≤ 2 ^ 24 := Nat.pow_le_pow_right (by decide) h.reach.small
          have hpos := Nat.two_pow_pos l
          rw [Nat.succ_mul] at hcap
          have hnum : i32 ((headIndex b l : Int) * 2 ^ (l + 1)) =
              (2 * (headIndex b l * 2 ^ l) : Nat) := by
            rw [← i32_natCast (by omega : 2 * (headIndex b l * 2 ^ l) < 2 ^ 31)]
            congr 1
            push_cast
            ring
          have hhalf : ((2 * (headIndex b l * 2 ^ l) : Nat) : Int) / 2 =
              (headIndex b l * 2 ^ l : Nat) := by omega
          have hcast : ((headIndex b l * 2 ^ l : Nat) : Int) + 2 ^ l =
              (headIndex b l * 2 ^ l + 2 ^ l : Nat) := by
            push_cast
            rfl
          unfold blockOfBit
          dsimp only
          rw [hsame.level, h.level, if_pos rfl, hnum, hhalf, hcast, hsame.blockNum,
            u32_natCast (by omega), if_neg (by omega)]
          exact Int.natCast_nonneg _
        · obtain ⟨i, hi, -⟩ := h.blockOfBit_low hlk hsame.level (h.headIndex_spec hlk (by omega)).2
          rw [hi]
          exact Int.natCast_nonneg _

/-- `buddy_r_malloc` with a search that ends with a block: the lists are right, and the block is
among the first `2 ^ c`. -/
theorem buddyRMalloc_freeWords (h : FreeWords b s k c) (hl : l ≤ k)
    (hfinds : searchFinds b l = true) :
    FreeWords (buddyRMalloc l b).2 s k c ∧
      ∃ n : Nat, n < 2 ^ c ∧ (buddyRMalloc l b).1 = u32 (s + (n : Int) * 2 ^ BLOCK_SHIFT) := by
  have hlow : FreeWords (b.setFreeNum (u32 (b.freeNum - 2 ^ l))) s k c :=
    h.of_eq rfl rfl rfl rfl rfl rfl rfl
  -- the guard looks at the state before the counter is lowered
  obtain ⟨m, hfirst, htop⟩ : ∃ m,
      firstLevel (b.setFreeNum (u32 (b.freeNum - 2 ^ l))) (k + 1 - l) l = some m ∧
        (m = k → (headIndex b k + 1) * 2 ^ k ≤ b.blockNum) := by
    unfold searchFinds at hfinds
    rw [h.level] at hfinds
    cases hsome : firstLevel b (k + 1 - l) l with
    | none =>
        rw [hsome] at hfinds
        cases hfinds
    | some m =>
        rw [hsome] at hfinds
        refine ⟨m, ?_, ?_⟩
        · rw [← hsome]
          exact firstLevel_congr _ _ fun _ _ _ => rfl
        · rintro rfl
          simpa using hfinds
  obtain ⟨hsearched, hnum⟩ := recusMallocFrom_freeWords (l := l) hlow (k + 1 - l) (by omega)
  obtain ⟨i, hi, hlt⟩ := hnum (recusMallocFrom_nonneg hlow (k + 1 - l) (by omega) hfirst htop)
  unfold buddyRMalloc recusMalloc
  dsimp only
  rw [show (b.setFreeNum (u32 (b.freeNum - 2 ^ l))).level = k + 1 from h.level, hi]
  generalize (recusMallocFrom (k + 1 - l) l (b.setFreeNum (u32 (b.freeNum - 2 ^ l)))).2 = b₁ at *
  have hstart := hsearched.startAdr
  split
  · refine ⟨hsearched.of_eq rfl rfl rfl rfl rfl rfl rfl, i * 2 ^ l, hlt, ?_⟩
    show u32 (b₁.startAdr + _) = _
    rw [hstart]
  · refine ⟨hsearched, i * 2 ^ l, hlt, ?_⟩
    rw [hstart]

/-! ### The release -/

/-- The loop keeps the lists when `mergeSound` says so of the levels below the top. The
induction is on the levels left; the round of the top level does not touch the others. -/
theorem freeLoop_freeWords {fuel index : Nat} (h : FreeWords b s k c) (rounds : Nat)
    (hl : l + rounds = k + 1) (hindex : l < k → index * 2 ^ (l + 1) < 2 ^ c)
    (hsound : mergeSound b (k - l) l index = true)
    (hloop : freeLoop fuel rounds l index b = some b') : FreeWords b' s k c := by
  induction rounds generalizing l index b with
  | zero =>
      obtain rfl := Option.some.inj hloop
      exact h
  | succ rounds ih =>
      unfold freeLoop at hloop
      rw [acoralGetBit_eq_bit] at hloop
      -- what `mergeSound` says of this level
      have hsound' : l < k → (if (b.bitmap l).bit index = false then
            b.bitmap l (index / 32 : Nat) = 0 ∨ (index / 32 : Nat) = b.freeCur l
          else (acoralClearBit index (b.bitmap l) (index / 32 : Nat) ≠ 0 ∨
            (index / 32 : Nat) = b.freeCur l) ∧
            mergeSound b (k - (l + 1)) (l + 1) (if l + 1 < k then index / 2 else index) = true) := by
        intro hlk
        obtain ⟨d, hd⟩ := Nat.exists_eq_succ_of_ne_zero (by omega : k - l ≠ 0)
        have hd' : k - (l + 1) = d := by omega
        rw [hd, mergeSound, acoralGetBit_eq_bit, h.level, Nat.add_sub_cancel] at hsound
        rw [hd']
        split
        · rename_i hclear
          rw [if_pos hclear, Bool.or_eq_true, decide_eq_true_iff, decide_eq_true_iff] at hsound
          exact hsound
        · rename_i hset
          rw [if_neg hset, Bool.and_eq_true, Bool.or_eq_true, decide_eq_true_iff,
            decide_eq_true_iff] at hsound
          exact hsound
      split at hloop
      · rename_i hclear
        refine h.of_sameElse (insertBlock_sameElse hloop) (fun hlk => ?_) fun hlk j hj hbit => ?_
        · obtain ⟨ws, hws⟩ := h.lists l hlk
          have hhere := hsound' hlk
          rw [if_pos hclear] at hhere
          exact insertBlock_levelList hws (h.index_lt hlk (hindex hlk)) (fun hk => hk.2) hhere hloop
        · rw [(insertBlock_spec hloop).2, Function.update_self, bit_acoralSetBit, Bool.or_eq_true,
            decide_eq_true_iff] at hbit
          rcases hbit with rfl | hbit
          · exact hindex hlk
          · exact h.bits l hlk j hj hbit
      · rename_i hset
        obtain ⟨b₁, hremove, hrest⟩ := Option.bind_eq_some_iff.mp hloop
        obtain ⟨hheap, hbitmap⟩ := removePair_spec hremove
        have hsame := removePair_sameElse hremove
        have hremoved : FreeWords b₁ s k c := by
          refine h.of_sameElse hsame (fun hlk => ?_) fun hlk j hj hbit => ?_
          · obtain ⟨ws, hws⟩ := h.lists l hlk
            have hhere := hsound' hlk
            rw [if_neg hset] at hhere
            rw [Bool.not_eq_false] at hset
            exact removePair_levelList hws hlk (h.index_lt hlk (hindex hlk)) hset hhere.1 hremove
          · rw [hbitmap, Function.update_self, bit_acoralClearBit, Bool.and_eq_true] at hbit
            exact h.bits l hlk j hj hbit.2
        dsimp only at hrest
        rw [hremoved.level, Nat.add_sub_cancel] at hrest
        refine ih hremoved (by omega) (fun hlk => ?_) ?_ hrest
        · rw [if_pos hlk]
          have hhalf : index / 2 * 2 ^ (l + 1 + 1) = index / 2 * 2 * 2 ^ (l + 1) := by ring
          have hle : index / 2 * 2 * 2 ^ (l + 1) ≤ index * 2 ^ (l + 1) :=
            Nat.mul_le_mul_right _ (Nat.div_mul_le_self index 2)
          have := hindex (by omega)
          omega
        · rcases Nat.lt_or_ge l k with hlk | hlk
          · have hhere := hsound' hlk
            rw [if_neg hset] at hhere
            rw [mergeSound_congr _ (l + 1) _ hheap.level
              (fun m hm => hsame.bitmap m (by omega)) fun m hm => hsame.freeCur m (by omega)]
            exact hhere.2
          · have hzero : k - (l + 1) = 0 := by omega
            rw [hzero, mergeSound]

/-- The release of a block among the first `2 ^ c` from any level on. -/
theorem freeFrom_freeWords {fuel n : Nat} (h : FreeWords b s k c) (hn : n < 2 ^ c)
    (hsound : mergeSound b (k - l) l (n / 2 ^ (l + 1)) = true)
    (hfree : freeFrom fuel l n b = some b') : FreeWords b' s k c := by
  unfold freeFrom at hfree
  rw [h.level, Nat.add_sub_cancel] at hfree
  split at hfree
  · rename_i hk
    obtain rfl := Option.some.inj hfree
    exact h.of_sameElse (SameElse.setBitmap b l _) (fun hlk => absurd hk (Nat.ne_of_lt hlk))
      fun hlk => absurd hk (Nat.ne_of_lt hlk)
  · rename_i hk
    rcases Nat.lt_or_ge l k with hlk | hlk
    · refine freeLoop_freeWords h (k + 1 - l) (by omega) (fun _ => ?_) hsound hfree
      exact Nat.lt_of_le_of_lt (Nat.div_mul_le_self n _) hn
    · have hzero : k + 1 - l = 0 := by omega
      rw [hzero] at hfree
      obtain rfl := Option.some.inj hfree
      exact h

/-- What `buddy_free` does with a pointer to block `n`: nothing, or it hands the block back to
its level. -/
theorem buddyFree_cases {fuel ptr n : Nat} (hn : n < 2 ^ 24)
    (hptr : ptr = u32 (b.startAdr + (n : Int) * 2 ^ BLOCK_SHIFT))
    (hfree : buddyFree fuel ptr b = some b') :
    b' = b ∨ ¬ u32 (ptr + BLOCK_SIZE) > b.endAdr ∧ (ptr - b.startAdr) / 2 ^ BLOCK_SHIFT = n ∧
      ∃ l b₁, freeLevel n b = some l ∧ freeFrom fuel l n b₁ = some b' ∧
        b₁.level = b.level ∧ b₁.startAdr = b.startAdr ∧ b₁.blockNum = b.blockNum ∧
        b₁.numL = b.numL ∧ b₁.bitmap = b.bitmap ∧ b₁.freeList = b.freeList ∧
        b₁.freeCur = b.freeCur := by
  unfold buddyFree at hfree
  split at hfree
  · exact Or.inl (Option.some.inj hfree).symm
  split at hfree
  · exact Or.inl (Option.some.inj hfree).symm
  rename_i hrange
  push Not at hrange
  have hnum : (ptr - b.startAdr) / 2 ^ BLOCK_SHIFT = n := by
    obtain ⟨-, hge, -⟩ := hrange
    have hshift : (2 : Int) ^ BLOCK_SHIFT = 128 := rfl
    have hshift' : 2 ^ BLOCK_SHIFT = 128 := rfl
    rw [hshift] at hptr
    rw [hshift']
    unfold u32 at hptr
    omega
  dsimp only at hfree
  rw [hnum] at hfree
  split at hfree
  · exact Or.inl (Option.some.inj hfree).symm
  refine or_iff_not_imp_left.mpr fun hne => ⟨Nat.not_lt.mpr hrange.2.2, hnum, ?_⟩
  unfold freeLevel
  split at hfree
  · rename_i hodd
    rw [if_pos hodd]
    unfold freeOdd at hfree
    dsimp only at hfree ⊢
    split at hfree
    · exact absurd (Option.some.inj hfree).symm hne
    rename_i hpos
    split at hfree
    · exact absurd (Option.some.inj hfree).symm hne
    rename_i hzero
    split at hfree
    · exact absurd (Option.some.inj hfree).symm hne
    rename_i hneg
    refine ⟨0, b, if_neg ?_, hfree, rfl, rfl, rfl, rfl, rfl, rfl, rfl⟩
    rintro (hcase | hcase | hcase)
    · exact hpos hcase
    · exact hzero hcase
    · exact hneg hcase
  · rename_i heven
    rw [if_neg heven]
    unfold freeEven at hfree
    dsimp only at hfree
    split at hfree
    · exact absurd (Option.some.inj hfree).symm hne
    rename_i hneg
    rw [if_neg hneg]
    exact ⟨_, _, rfl, hfree, rfl, rfl, rfl, rfl, rfl, rfl, rfl⟩

/-! ### Runs -/

/-- The invariant of a run: the live pointers are those of blocks among the first `2 ^ c`. -/
structure WordRun (r : BuddyRun) (s k c : Nat) : Prop where
  words : FreeWords r.ctrl s k c
  live : ∀ p ∈ r.live, ∃ n : Nat, n < 2 ^ c ∧ p.1 = u32 (s + (n : Int) * 2 ^ BLOCK_SHIFT)

/-- `buddy_malloc` that refuses the request, or whose search ends with a block. -/
theorem buddyMalloc_freeWords {size ptr : Nat} (h : FreeWords b s k c)
    (hfinds : mallocFinds size b = true) (hmalloc : buddyMalloc size b = some (ptr, b')) :
    FreeWords b' s k c ∧
      (ptr = 0 ∨ ∃ n : Nat, n < 2 ^ c ∧ ptr = u32 (s + (n : Int) * 2 ^ BLOCK_SHIFT)) := by
  have hrefused : ∀ {res : Nat × BlockCtr}, res = (ptr, b') → res = (0, b) →
      FreeWords b' s k c ∧
        (ptr = 0 ∨ ∃ n : Nat, n < 2 ^ c ∧ ptr = u32 (s + (n : Int) * 2 ^ BLOCK_SHIFT)) := by
    rintro _ rfl heq
    obtain ⟨rfl, rfl⟩ := Prod.mk.inj heq
    exact ⟨h, Or.inl rfl⟩
  unfold buddyMalloc at hmalloc
  unfold mallocFinds refusedEarly at hfinds
  split at hmalloc
  · exact hrefused (Option.some.inj hmalloc).symm.symm rfl
  rename_i hstate
  obtain ⟨⟨size', num, level0⟩, hloop, hmalloc⟩ := Option.bind_eq_some_iff.mp hmalloc
  rw [hloop] at hfinds
  dsimp only at hmalloc hfinds
  split at hmalloc
  · exact hrefused (Option.some.inj hmalloc) rfl
  rename_i hnum
  split at hmalloc
  · exact hrefused (Option.some.inj hmalloc) rfl
  rename_i hlevel
  have hsearch : searchFinds b level0 = true := by simpa [hstate, hnum, hlevel] using hfinds
  rw [h.level] at hlevel
  obtain ⟨hwords, hptr⟩ := buddyRMalloc_freeWords h (by omega : level0 ≤ k) hsearch
  rw [Option.some.inj hmalloc] at hwords hptr
  exact ⟨hwords, Or.inr hptr⟩

/-- A call that meets the guard keeps the invariant. -/
theorem WordRun.step {fuel : Nat} {r r' : BuddyRun} {op : BuddyOp} (h : WordRun r s k c)
    (hg : wordGuard r op = true) (hstep : buddyStep fuel r op = some r') : WordRun r' s k c := by
  cases op with
  | buddyMalloc size =>
      obtain ⟨⟨ptr, b'⟩, hmalloc, rfl⟩ := Option.map_eq_some_iff.mp hstep
      obtain ⟨hwords, hptr⟩ := buddyMalloc_freeWords h.words hg hmalloc
      refine ⟨hwords, fun p hp => ?_⟩
      dsimp only at hp
      split at hp
      · exact h.live p hp
      · rename_i hne
        rcases List.mem_cons.mp hp with rfl | hp
        · exact hptr.resolve_left hne
        · exact h.live p hp
  | buddyFree ptr =>
      rw [buddyStep] at hstep
      split at hstep
      · rename_i hmem
        obtain ⟨b', hfree, rfl⟩ := Option.map_eq_some_iff.mp hstep
        obtain ⟨p, hp, rfl⟩ := List.mem_map.mp hmem
        obtain ⟨n, hn, hptr⟩ := h.live p hp
        refine ⟨?_, fun q hq => h.live q (List.mem_of_mem_filter hq)⟩
        have hwords := h.words
        have hptr' := hptr
        rw [← hwords.startAdr] at hptr'
        rcases buddyFree_cases (hwords.lt_small hn) hptr' hfree with rfl |
          ⟨hend, hnum, l, b₁, hlevel, hfrom, hlev, hstart, hblock, hwordsNum, hbitmap, hlist, hcur⟩
        · exact hwords
        · have hwords₁ := hwords.of_eq hstart hlev hblock hwordsNum hbitmap hlist hcur
          refine freeFrom_freeWords hwords₁ hn ?_ hfrom
          rw [mergeSound_congr _ _ _ hlev (fun m _ => by rw [hbitmap]) fun m _ => by rw [hcur]]
          have hsound : wordsSound p.1 r.ctrl = true := hg
          unfold wordsSound at hsound
          dsimp only at hsound
          rw [hnum, hlevel, decide_eq_false hend, Bool.false_or, hwords.level,
            Nat.add_sub_cancel] at hsound
          exact hsound
      · cases hstep

/-- In every run on a heap that `buddy_init` has set up, whose searches all end with a block and
whose releases are all ones that keep the lists of the levels below the top, these lists have
the words with a set bit, in ascending order. A search there never looks for a bit in an empty
word. -/
theorem buddy_wordLists {fuel startAdr endAdr : Nat} {mem : BlockCtr} {ops : List BuddyOp}
    {r : BuddyRun}
    (hrun : heapRun (guarded wordGuard (buddyStep fuel)) startAdr endAdr mem ops = some r) :
    WordLists r.ctrl ∧ ∀ l, l + 1 < r.ctrl.level → 0 ≤ r.ctrl.freeCur l →
      r.ctrl.bitmap l (r.ctrl.freeCur l) ≠ 0 := by
  obtain ⟨b, hinit, hrun⟩ := heapRun_eq_some hrun
  obtain ⟨N, k, hstarted⟩ := buddyInit_spec hinit
  obtain ⟨c, hwords⟩ := FreeWords.start hstarted
  have hend := guarded_induct (P := fun r => WordRun r b.startAdr k c)
    (fun r op r' hr hg hstep => hr.step hg hstep) ⟨hwords, fun p hp => by simp at hp⟩ hrun
  refine ⟨hend.words.wordLists, fun l hl hcur => ?_⟩
  rw [hend.words.level] at hl
  exact (hend.words.head_ne_zero (by omega) hcur).2

/-- On a heap of 130 blocks, two requests for one block share a pair, the third one cuts the
first 128 blocks up, and the first block goes back to the others of its pair. -/
theorem buddy_wordLists_pair :
    ∃ r, heapRun (guarded wordGuard (buddyStep 8)) 4 17350 emptyMemory
        [.buddyMalloc 128, .buddyMalloc 128, .buddyMalloc 128, .buddyFree 16388] = some r ∧
      (WordLists r.ctrl ∧ ∀ l, l + 1 < r.ctrl.level → 0 ≤ r.ctrl.freeCur l →
        r.ctrl.bitmap l (r.ctrl.freeCur l) ≠ 0) := by
  have hrun : (heapRun (guarded wordGuard (buddyStep 8)) 4 17350 emptyMemory
      [.buddyMalloc 128, .buddyMalloc 128, .buddyMalloc 128, .buddyFree 16388]).isSome := by
    decide +kernel
  obtain ⟨r, hr⟩ := Option.isSome_iff_exists.mp hrun
  exact ⟨r, hr, buddy_wordLists hr⟩

/-- The release of the other block of that pair takes the last bit of the list's second word.
The list is empty from then on, although its first word still has a set bit. -/
theorem buddy_wordLists_fails :
    ∃ r, heapRun (buddyStep 8) 4 17350 emptyMemory
        [.buddyMalloc 128, .buddyMalloc 128, .buddyMalloc 128, .buddyFree 16388,
          .buddyFree 16516] = some r ∧
      r.ctrl.freeCur 0 = -1 ∧ r.ctrl.bitmap 0 0 = 1 ∧ ¬ WordLists r.ctrl := by
  have hrun : (heapRun (buddyStep 8) 4 17350 emptyMemory
      [.buddyMalloc 128, .buddyMalloc 128, .buddyMalloc 128, .buddyFree 16388,
        .buddyFree 16516]).map (fun r => (r.ctrl.level, r.ctrl.numL 0, r.ctrl.freeCur 0,
          r.ctrl.bitmap 0 0)) = some (9, 4, -1, 1) := by decide +kernel
  obtain ⟨r, hr, heq⟩ := Option.map_eq_some_iff.mp hrun
  simp only [Prod.mk.injEq] at heq
  obtain ⟨hlevel, hnum, hcur, hbit⟩ := heq
  refine ⟨r, hr, hcur, hbit, fun hlists => ?_⟩
  obtain ⟨ws, hchain, -, hmem⟩ := hlists 0 (by omega)
  -- the chain from -1 on is empty, so word 0 is not linked
  rw [hcur] at hchain
  obtain rfl : ws = [] := hchain.unique (Chain.nil_iff.mpr rfl)
  have hin : (0 : Int) ∈ [] := (hmem 0).mpr ⟨le_rfl, by omega, by rw [hbit]; decide⟩
  simp at hin

end ACoral
