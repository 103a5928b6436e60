import ACoral.Kernel.BuddySystem
import ACoral.Lib.Dyadic
import ACoral.Proofs.Bitops

/-!
# `ACoral.Proofs.Buddy.Invariant`: what the bitmaps say

A state of the buddy system stands for a tiling of the basic blocks by
used and free blocks. `Marks` says what the bitmaps and the table of
levels hold for it: the bit of a free block is set, no two free blocks
are a pair, and the table has no level for the first half of a pair that
is free. `UsedEntries` says that it has the level of every used block.

- `Marks.set`, `Marks.clear`: what setting and clearing one bit means.
- `Marks.free_left`: when `recus_malloc` may take the first half of a
  pair.
-/

set_option autoImplicit false

namespace ACoral

open Lib

/-! ### Machine integers -/

theorem u32_natCast {n : Nat} (h : n < 2 ^ 32) : u32 (n : Int) = n := by
  unfold u32
  omega

theorem i32_natCast {n : Nat} (h : n < 2 ^ 31) : i32 (n : Int) = n := by
  unfold i32
  rw [Int.bmod_eq_of_le] <;> omega

/-- What `recus_malloc` answers when it finds nothing. -/
theorem code_KR_MEM_ERR_UNDEF : KernelError.KR_MEM_ERR_UNDEF.code = -254 := by decide

/-! ### The frame of a search -/

/-- The same heap, with other bitmaps and lists. -/
structure SameHeap (b b' : BlockCtr) : Prop where
  blocks : b'.blocks = b.blocks
  level : b'.level = b.level
  state : b'.state = b.state
  startAdr : b'.startAdr = b.startAdr
  endAdr : b'.endAdr = b.endAdr
  blockNum : b'.blockNum = b.blockNum
  freeNum : b'.freeNum = b.freeNum
  numL : b'.numL = b.numL

theorem SameHeap.refl (b : BlockCtr) : SameHeap b b := by constructor <;> rfl

theorem SameHeap.trans {b b' b'' : BlockCtr} (h : SameHeap b b') (h' : SameHeap b' b'') :
    SameHeap b b'' where
  blocks := h'.blocks.trans h.blocks
  level := h'.level.trans h.level
  state := h'.state.trans h.state
  startAdr := h'.startAdr.trans h.startAdr
  endAdr := h'.endAdr.trans h.endAdr
  blockNum := h'.blockNum.trans h.blockNum
  freeNum := h'.freeNum.trans h.freeNum
  numL := h'.numL.trans h.numL

/-- The same heap, with another bitmap and another list on level `l`. -/
structure SameElse (l : Nat) (b b' : BlockCtr) : Prop where
  heap : SameHeap b b'
  bitmap : ∀ m, m ≠ l → b'.bitmap m = b.bitmap m
  freeList : ∀ m, m ≠ l → b'.freeList m = b.freeList m
  freeCur : ∀ m, m ≠ l → b'.freeCur m = b.freeCur m

namespace SameElse

variable {l : Nat} {b b' b'' : BlockCtr}

theorem refl (l : Nat) (b : BlockCtr) : SameElse l b b :=
  ⟨SameHeap.refl b, fun _ _ => rfl, fun _ _ => rfl, fun _ _ => rfl⟩

theorem trans (h : SameElse l b b') (h' : SameElse l b' b'') : SameElse l b b'' where
  heap := h.heap.trans h'.heap
  bitmap := fun m hm => (h'.bitmap m hm).trans (h.bitmap m hm)
  freeList := fun m hm => (h'.freeList m hm).trans (h.freeList m hm)
  freeCur := fun m hm => (h'.freeCur m hm).trans (h.freeCur m hm)

theorem setBitmap (b : BlockCtr) (l : Nat) (bitmap : Bitmap) :
    SameElse l b (b.setBitmap l bitmap) where
  heap := by constructor <;> rfl
  bitmap := fun _ hm => Function.update_of_ne hm _ _
  freeList := fun _ _ => rfl
  freeCur := fun _ _ => rfl

theorem setFreeList (b : BlockCtr) (l : Nat) (cur next : Int) :
    SameElse l b (b.setFreeList l cur next) where
  heap := by constructor <;> rfl
  bitmap := fun _ _ => rfl
  freeList := fun _ hm => Function.update_of_ne hm _ _
  freeCur := fun _ _ => rfl

theorem setFreeCur (b : BlockCtr) (l : Nat) (cur : Int) : SameElse l b (b.setFreeCur l cur) where
  heap := by constructor <;> rfl
  bitmap := fun _ _ => rfl
  freeList := fun _ _ => rfl
  freeCur := fun _ hm => Function.update_of_ne hm _ _

end SameElse

/-! ### The invariant -/

/-- The number of the bit for block `i` of level `l`, with top level `k`:
below the top two blocks share one. -/
def bitIndex (k l i : Nat) : Nat := if l = k then i else i / 2

/-- The bitmaps and the table of levels hold what the tiling `t` of the
`N` basic blocks says. The top level is `k`. -/
structure Marks (b : BlockCtr) {N k : Nat} (t : Tiling N (k + 1)) : Prop where
  level : b.level = k + 1
  blockNum : b.blockNum = N
  small : b.startAdr + N * 2 ^ BLOCK_SHIFT < 2 ^ 32
  coalesced : t.Coalesced
  words : ∀ l ≤ k, ∀ i, i * 2 ^ l < N → bitIndex k l i < 32 * b.numL l
  mark : ∀ l ≤ k, ∀ j < 32 * b.numL l,
    ((b.bitmap l).bit j = true ↔ ∃ i, t.Free l i ∧ bitIndex k l i = j)
  freeEntry : ∀ l < k, ∀ j, t.Free l (2 * j) → b.blocks (j * 2 ^ l : Nat) < 0

/-- The table of levels has the level of every used block with an even
number. -/
def UsedEntries (b : BlockCtr) {N n : Nat} (t : Tiling N n) : Prop :=
  ∀ l i, t.IsTile l i → t.used (i * 2 ^ l) = true → i * 2 ^ l % 2 = 0 →
    b.blocks (i * 2 ^ l / 2 : Nat) = l

namespace Marks

variable {b b' : BlockCtr} {N k l i j : Nat} {t t' : Tiling N (k + 1)}

theorem small' (h : Marks b t) : N < 2 ^ 25 := by
  have hsmall := h.small
  unfold BLOCK_SHIFT at hsmall
  omega

/-- A tiling with the same free blocks has the same marks. -/
theorem congr (h : Marks b t) (hsame : SameHeap b b') (hbitmap : b'.bitmap = b.bitmap)
    (hfree : ∀ m i, t'.Free m i ↔ t.Free m i) : Marks b' t' where
  level := hsame.level.trans h.level
  blockNum := hsame.blockNum.trans h.blockNum
  small := by rw [hsame.startAdr]; exact h.small
  coalesced := fun m i hm => by rw [hfree, hfree]; exact h.coalesced m i hm
  words := by rw [hsame.numL]; exact h.words
  mark := fun m hm j hj => by
    rw [hsame.numL] at hj
    simp only [hbitmap, hfree]
    exact h.mark m hm j hj
  freeEntry := fun m hm j hj => by
    rw [hsame.blocks]
    exact h.freeEntry m hm j ((hfree m _).mp hj)

/-- One block of a pair at most is free. -/
theorem eq_of_bitIndex (h : Marks b t) (hi : t.Free l i) (hj : t.Free l j)
    (hbit : bitIndex k l i = bitIndex k l j) : i = j := by
  have hl : l < k + 1 := hi.1.level_lt
  unfold bitIndex at hbit
  by_cases hk : l = k
  · rwa [if_pos hk, if_pos hk] at hbit
  · rw [if_neg hk, if_neg hk] at hbit
    by_contra hne
    have hpair := h.coalesced l (i / 2) (by omega)
    rcases Nat.mod_two_eq_zero_or_one i with he | he
    · rw [show 2 * (i / 2) = i by omega, show i + 1 = j by omega] at hpair
      exact hpair ⟨hi, hj⟩
    · rw [show 2 * (i / 2) = j by omega, show j + 1 = i by omega] at hpair
      exact hpair ⟨hj, hi⟩

/-- Setting the bit of a pair with no free block: one of the two is free
from now on. -/
theorem set (h : Marks b t) (hl : l ≤ k) (hsame : SameHeap b b')
    (hbitmap : b'.bitmap = Function.update b.bitmap l (acoralSetBit j (b.bitmap l)))
    (hj : bitIndex k l i = j) (hclear : (b.bitmap l).bit j = false)
    (hfree : ∀ m x, t'.Free m x ↔ t.Free m x ∨ m = l ∧ x = i)
    (hentry : ∀ c, l < k → i = 2 * c → b.blocks (c * 2 ^ l : Nat) < 0) : Marks b' t' where
  level := hsame.level.trans h.level
  blockNum := hsame.blockNum.trans h.blockNum
  small := by rw [hsame.startAdr]; exact h.small
  coalesced := by
    rintro m c hm ⟨h₀, h₁⟩
    have hnone : ∀ x, t.Free l x → bitIndex k l x ≠ j := fun x hx hbit => by
      rw [(h.mark l hl j (hbit ▸ h.words l hl x hx.1.1)).mpr ⟨x, hx, hbit⟩] at hclear
      exact absurd hclear (by decide)
    unfold bitIndex at hnone hj
    rcases (hfree m _).mp h₀ with h₀ | ⟨rfl, h₀⟩ <;> rcases (hfree _ _).mp h₁ with h₁ | ⟨hml, h₁⟩
    · exact h.coalesced m c hm ⟨h₀, h₁⟩
    · subst hml
      rw [if_neg (by omega)] at hj
      have := hnone _ h₀
      rw [if_neg (by omega)] at this
      omega
    · rw [if_neg (by omega)] at hj
      have := hnone _ h₁
      rw [if_neg (by omega)] at this
      omega
    · omega
  words := by rw [hsame.numL]; exact h.words
  mark := fun m hm x hx => by
    rw [hsame.numL] at hx
    rw [hbitmap]
    by_cases hml : m = l
    · subst hml
      rw [Function.update_self, bit_acoralSetBit, Bool.or_eq_true, decide_eq_true_iff,
        h.mark m hm x hx]
      constructor
      · rintro (rfl | ⟨c, hc, hbit⟩)
        · exact ⟨i, (hfree m i).mpr (Or.inr ⟨rfl, rfl⟩), hj⟩
        · exact ⟨c, (hfree m c).mpr (Or.inl hc), hbit⟩
      · rintro ⟨c, hc, hbit⟩
        rcases (hfree m c).mp hc with hc | ⟨-, rfl⟩
        · exact Or.inr ⟨c, hc, hbit⟩
        · exact Or.inl (hbit.symm.trans hj)
    · rw [Function.update_of_ne hml, h.mark m hm x hx]
      refine exists_congr fun c => and_congr_left fun _ => ?_
      rw [hfree, or_iff_left fun hc => hml hc.1]
  freeEntry := fun m hm c hc => by
    rw [hsame.blocks]
    rcases (hfree m _).mp hc with hc | ⟨rfl, hc⟩
    · exact h.freeEntry m hm c hc
    · exact hentry c hm hc.symm

/-- Clearing the bit of a free block: it is not free any more. -/
theorem clear (h : Marks b t) (hsame : SameHeap b b')
    (hbitmap : b'.bitmap = Function.update b.bitmap l (acoralClearBit j (b.bitmap l)))
    (hi : t.Free l i) (hj : bitIndex k l i = j)
    (hfree : ∀ m x, t'.Free m x ↔ t.Free m x ∧ ¬ (m = l ∧ x = i)) : Marks b' t' where
  level := hsame.level.trans h.level
  blockNum := hsame.blockNum.trans h.blockNum
  small := by rw [hsame.startAdr]; exact h.small
  coalesced := fun m c hm hc =>
    h.coalesced m c hm ⟨((hfree m _).mp hc.1).1, ((hfree m _).mp hc.2).1⟩
  words := by rw [hsame.numL]; exact h.words
  mark := fun m hm x hx => by
    rw [hsame.numL] at hx
    rw [hbitmap]
    by_cases hml : m = l
    · subst hml
      rw [Function.update_self, bit_acoralClearBit, Bool.and_eq_true, decide_eq_true_iff,
        h.mark m hm x hx]
      constructor
      · rintro ⟨hx, c, hc, rfl⟩
        exact ⟨c, (hfree m c).mpr ⟨hc, fun he => hx (by rw [he.2, hj])⟩, rfl⟩
      · rintro ⟨c, hc, rfl⟩
        obtain ⟨hc, hne⟩ := (hfree m c).mp hc
        refine ⟨fun hx => hne ⟨rfl, ?_⟩, c, hc, rfl⟩
        exact h.eq_of_bitIndex hc hi (hx.trans hj.symm)
    · rw [Function.update_of_ne hml, h.mark m hm x hx]
      refine exists_congr fun c => and_congr_left fun _ => ?_
      rw [hfree, and_iff_left fun hc => hml hc.1]
  freeEntry := fun m hm c hc => by
    rw [hsame.blocks]
    exact h.freeEntry m hm c ((hfree m _).mp hc).1

/-- The pair of a set bit: one of its halves is free. -/
theorem free_half (h : Marks b t) (hl : l < k) (hj : j < 32 * b.numL l)
    (hbit : (b.bitmap l).bit j = true) : t.Free l (2 * j) ∨ t.Free l (2 * j + 1) := by
  obtain ⟨i, hi, hij⟩ := (h.mark l (by omega) j hj).mp hbit
  rw [bitIndex, if_neg (by omega)] at hij
  rcases Nat.mod_two_eq_zero_or_one i with he | he
  · rw [show 2 * j = i by omega]
    exact Or.inl hi
  · rw [show 2 * j + 1 = i by omega]
    exact Or.inr hi

/-- The free half of a pair is the first one, if the table has no level
for the pair and no smaller block at its start is free. Otherwise the
first half were used, or cut into smaller blocks, the first of which is
free or used. -/
theorem free_left (h : Marks b t) (hused : UsedEntries b t) (hl : l < k)
    (hj : j < 32 * b.numL l) (hbit : (b.bitmap l).bit j = true) (hentry : b.blocks (j * 2 ^ l : Nat) < 0)
    (hsmaller : ∀ m < l, (b.bitmap m).bit (j * 2 ^ (l - m)) = false) : t.Free l (2 * j) := by
  rcases h.free_half hl hj hbit with hleft | hright
  · exact hleft
  have hlt : (2 * j + 1) * 2 ^ l < N := hright.1.1
  have hstart : 2 * j * 2 ^ l < N := Nat.lt_of_le_of_lt (Nat.mul_le_mul_right _ (by omega)) hlt
  have htile := Tiling.isTile_of_lt (t := t) hstart
  -- the tile at the start of the pair lies in its first half
  have hm : t.lev (2 * j * 2 ^ l) ≤ l := by
    by_contra hm
    have hmem : (2 * j + 1) * 2 ^ l / 2 ^ (l + 1) = 2 * j * 2 ^ l / 2 ^ (l + 1) := by
      rw [div_two_pow_succ, div_two_pow_succ, mul_two_pow_div, mul_two_pow_div]
      omega
    have hlev := htile.lev_eq (div_two_pow_congr (Nat.lt_of_not_le hm) hmem)
    have := hright.1.2
    omega
  obtain ⟨d, hd⟩ := Nat.exists_eq_add_of_le hm
  generalize t.lev (2 * j * 2 ^ l) = m at htile hm hd
  subst hd
  have hindex : 2 * j * 2 ^ (m + d) / 2 ^ m = 2 * (j * 2 ^ d) := by
    rw [Nat.pow_add, show 2 * j * (2 ^ m * 2 ^ d) = 2 * (j * 2 ^ d) * 2 ^ m by ring,
      mul_two_pow_div]
  have hsame : 2 * (j * 2 ^ d) * 2 ^ m = 2 * (j * 2 ^ (m + d)) := by
    rw [Nat.pow_add]
    ring
  rw [hindex] at htile
  cases hu : t.used (2 * (j * 2 ^ d) * 2 ^ m) with
  | true =>
      have hlevel := hused m _ htile hu (by omega)
      rw [hsame, Nat.mul_div_cancel_left _ (by decide)] at hlevel
      omega
  | false =>
      have hfree : t.Free m (2 * (j * 2 ^ d)) := ⟨htile, hu⟩
      rcases Nat.eq_zero_or_pos d with rfl | hd
      · simpa using hfree
      · have hclear := hsmaller m (by omega)
        rw [Nat.add_sub_cancel_left] at hclear
        have hindex : bitIndex k m (2 * (j * 2 ^ d)) = j * 2 ^ d := by
          rw [bitIndex, if_neg (by omega)]
          omega
        have hset := (h.mark m (by omega) (j * 2 ^ d)
          (hindex ▸ h.words m (by omega) _ htile.1)).mpr ⟨_, hfree, hindex⟩
        rw [hset] at hclear
        exact absurd hclear (by decide)

end Marks

/-! ### The words that are linked -/

/-- The lists lead to words of their level only. -/
structure ListRange (b : BlockCtr) (k : Nat) : Prop where
  cur : ∀ l ≤ k, -1 ≤ b.freeCur l ∧ b.freeCur l < b.numL l
  next : ∀ l ≤ k, ∀ w : Int, 0 ≤ w → w < b.numL l →
    -1 ≤ b.freeList l w ∧ b.freeList l w < b.numL l

namespace ListRange

variable {b b' : BlockCtr} {k l : Nat}

theorem of_eq (h : ListRange b k) (hcur : b'.freeCur = b.freeCur)
    (hlist : b'.freeList = b.freeList) (hnum : b'.numL = b.numL) : ListRange b' k :=
  ⟨by rw [hcur, hnum]; exact h.cur, by rw [hlist, hnum]; exact h.next⟩

/-- The list of a level starts with a word of it, or is empty. -/
theorem setFreeCur (h : ListRange b k) {cur : Int} (hcur : -1 ≤ cur ∧ cur < b.numL l) :
    ListRange (b.setFreeCur l cur) k := by
  refine ⟨fun m hm => ?_, h.next⟩
  show -1 ≤ Function.update b.freeCur l cur m ∧ Function.update b.freeCur l cur m < b.numL m
  by_cases hml : m = l
  · rwa [hml, Function.update_self]
  · rw [Function.update_of_ne hml]
    exact h.cur m hm

/-- A link leads to a word of the level, or ends the list. -/
theorem setFreeList (h : ListRange b k) {cur next : Int} (hnext : -1 ≤ next ∧ next < b.numL l) :
    ListRange (b.setFreeList l cur next) k := by
  refine ⟨h.cur, fun m hm w hw hw' => ?_⟩
  show -1 ≤ Function.update b.freeList l (Function.update (b.freeList l) cur next) m w ∧
    Function.update b.freeList l (Function.update (b.freeList l) cur next) m w < b.numL m
  by_cases hml : m = l
  · subst hml
    rw [Function.update_self]
    by_cases hwc : w = cur
    · rwa [hwc, Function.update_self]
    · rw [Function.update_of_ne hwc]
      exact h.next m hm w hw hw'
  · rw [Function.update_of_ne hml]
    exact h.next m hm w hw hw'

end ListRange

end ACoral
