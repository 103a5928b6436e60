import ACoral.Proofs.Buddy.Malloc
import ACoral.Proofs.Buddy.Init

/-!
# `ACoral.Proofs.Buddy.Layout`: where `buddy_init` puts things

The control block, the table of levels, and the bitmap and the free list of
each level share one region with the blocks that are handed out. Nothing in
the code checks that they fit: the sizes are computed from the number of
blocks the whole region could be cut into.

- `HeapPlaced.apart`: no two parts of the region overlap.
- `Started.tiled`: each basic block is in exactly one block that a set bit
  of a bitmap stands for.
- `buddyInit_layout`: `buddy_init` returns for every region with room for
  the control block and a basic block, and leaves such a layout.
-/

set_option autoImplicit false

namespace ACoral

open Lib

/-! ### The parts of a region -/

/-- What a region is divided into. -/
inductive HeapPart
  /-- the basic blocks -/
  | managed
  /-- `bitmap[level]` -/
  | bitmap (level : Nat)
  /-- `free_list[level]` -/
  | freeList (level : Nat)
  /-- `acoral_mem_blocks` -/
  | table
  /-- `*acoral_mem_ctrl` -/
  | control
deriving DecidableEq

namespace HeapPart

/-- Where a part starts. -/
def start (b : BlockCtr) : HeapPart → Nat
  | .managed    => b.startAdr
  | .bitmap l   => b.bitmapAdr l
  | .freeList l => b.freeListAdr l
  | .table      => b.blocksAdr
  | .control    => b.ctrlAdr

/-- The address behind a part: a word has four bytes, and an entry of the
table one. -/
def stop (b : BlockCtr) : HeapPart → Nat
  | .managed    => b.startAdr + b.blockNum * BLOCK_SIZE
  | .bitmap l   => b.bitmapAdr l + 4 * b.numL l
  | .freeList l => b.freeListAdr l + 4 * b.numL l
  | .table      => b.ctrlAdr
  | .control    => b.ctrlAdr + sizeofBlockCtr

/-- Only the levels of the heap have arrays. -/
def Used (b : BlockCtr) : HeapPart → Prop
  | .bitmap l   => l < b.level
  | .freeList l => l < b.level
  | _           => True

/-- How many parts lie below a part, in a heap with `n` levels. -/
def rank (n : Nat) : HeapPart → Nat
  | .managed    => 0
  | .freeList l => 2 * (n - l) - 1
  | .bitmap l   => 2 * (n - l)
  | .table      => 2 * n + 1
  | .control    => 2 * n + 2

/-- Different parts have different ranks. -/
theorem rank_injective {b : BlockCtr} {p q : HeapPart} (hp : p.Used b) (hq : q.Used b)
    (h : p.rank b.level = q.rank b.level) : p = q := by
  cases p <;> cases q <;> simp only [Used, rank, reduceCtorEq, bitmap.injEq, freeList.injEq] at * <;>
    omega

end HeapPart

/-! ### No overlap -/

section Placed

variable {b : BlockCtr} {S E : Nat} {p q : HeapPart}

/-- The parts lie one behind the other in the order of their ranks. -/
theorem HeapPlaced.below (h : HeapPlaced b S E) (hlevel : 0 < b.level)
    (hend : b.endAdr = b.startAdr + b.blockNum * BLOCK_SIZE) (hp : p.Used b) (hq : q.Used b)
    (hlt : p.rank b.level < q.rank b.level) : p.stop b ≤ q.start b := by
  have htable := h.table
  have hlow := h.arrays.low
  have hlist := h.arrays.freeList
  have hmap := h.arrays.bitmap
  cases p with
  | managed =>
      show b.startAdr + b.blockNum * BLOCK_SIZE ≤ _
      rw [← hend]
      cases q with
      | managed => exact absurd hlt (Nat.lt_irrefl _)
      | freeList m => exact hlow m hq
      | bitmap m => exact ((hlow m hq).trans (Nat.le_add_right _ _)).trans (hlist m hq)
      | table =>
          have hlow0 := hlow 0 hlevel
          have hlist0 := hlist 0 hlevel
          have hmap0 := hmap 0 hlevel
          show _ ≤ b.blocksAdr
          omega
      | control =>
          have hlow0 := hlow 0 hlevel
          have hlist0 := hlist 0 hlevel
          have hmap0 := hmap 0 hlevel
          show _ ≤ b.ctrlAdr
          omega
  | freeList l =>
      have hlistl : b.freeListAdr l + 4 * b.numL l ≤ b.bitmapAdr l := hlist l hp
      have hmapl : b.bitmapAdr l + 4 * b.numL l ≤ b.blocksAdr := hmap l hp
      show b.freeListAdr l + 4 * b.numL l ≤ _
      cases q with
      | managed => exact absurd hlt (Nat.not_lt_zero _)
      | freeList m =>
          have hlevels := h.arrays.level l hp m (by simp only [HeapPart.rank] at hlt; omega)
          show _ ≤ b.freeListAdr m
          omega
      | bitmap m =>
          -- the bitmap of the same level, or one above it
          rcases Nat.eq_or_lt_of_le (by simp only [HeapPart.rank] at hlt; omega : m ≤ l) with
            rfl | hml
          · exact hlistl
          · have hlevels := h.arrays.level l hp m hml
            have hlistm := hlist m hq
            show _ ≤ b.bitmapAdr m
            omega
      | table =>
          show _ ≤ b.blocksAdr
          omega
      | control =>
          show _ ≤ b.ctrlAdr
          omega
  | bitmap l =>
      have hmapl : b.bitmapAdr l + 4 * b.numL l ≤ b.blocksAdr := hmap l hp
      show b.bitmapAdr l + 4 * b.numL l ≤ _
      cases q with
      | managed => exact absurd hlt (Nat.not_lt_zero _)
      | freeList m => exact h.arrays.level l hp m (by simp only [HeapPart.rank] at hlt; omega)
      | bitmap m =>
          have hlevels := h.arrays.level l hp m (by simp only [HeapPart.rank] at hlt; omega)
          have hlistm := hlist m hq
          show _ ≤ b.bitmapAdr m
          omega
      | table => exact hmapl
      | control =>
          show _ ≤ b.ctrlAdr
          omega
  | table =>
      cases q with
      | control => exact Nat.le_refl _
      | _ => simp only [HeapPart.rank] at hlt; omega
  | control => cases q <;> simp only [HeapPart.rank] at hlt <;> omega

/-- No two parts overlap. -/
theorem HeapPlaced.apart (h : HeapPlaced b S E) (hlevel : 0 < b.level)
    (hend : b.endAdr = b.startAdr + b.blockNum * BLOCK_SIZE) (hp : p.Used b) (hq : q.Used b)
    (hne : p ≠ q) : p.stop b ≤ q.start b ∨ q.stop b ≤ p.start b := by
  rcases Nat.lt_trichotomy (p.rank b.level) (q.rank b.level) with hlt | heq | hlt
  · exact Or.inl (h.below hlevel hend hp hq hlt)
  · exact absurd (HeapPart.rank_injective hp hq heq) hne
  · exact Or.inr (h.below hlevel hend hq hp hlt)

/-- Every part lies between the start of the region and the end of the
control block. -/
theorem HeapPlaced.inside (h : HeapPlaced b S E) (hlevel : 0 < b.level)
    (hend : b.endAdr = b.startAdr + b.blockNum * BLOCK_SIZE) (hp : p.Used b) :
    S ≤ p.start b ∧ p.start b ≤ p.stop b ∧ p.stop b ≤ E + sizeofBlockCtr := by
  have hmanaged := fun hlt => h.below (p := .managed) (q := p) hlevel hend trivial hp hlt
  have hcontrol := fun hlt => h.below (p := p) (q := .control) hlevel hend hp trivial hlt
  have htable := h.table
  have hstart := h.startAdr
  have hctrl := h.ctrlAdr
  cases p <;> simp only [HeapPart.start, HeapPart.stop, HeapPart.rank, HeapPart.Used] at * <;> omega

end Placed

/-! ### The recorded blocks -/

/-- The bit `j` of level `l` is set. -/
def Recorded (b : BlockCtr) (l j : Nat) : Prop :=
  l < b.level ∧ j < 32 * b.numL l ∧ (b.bitmap l).bit j = true

/-- The basic block `x` is in the block that the bit `j` of level `l` stands
for. -/
def CoveredBy (b : BlockCtr) (x l j : Nat) : Prop :=
  Recorded b l j ∧ blockOfBit l j b ≤ x ∧ (x : Int) < blockOfBit l j b + 2 ^ l

section Recorded

variable {b : BlockCtr} {N k l i j : Nat}

/-- No bit of a lower level stands for the start of the block that a bit of
a started heap stands for. -/
theorem Started.bit_below (h : Started b N k) (hl : l < k) (hbit : (b.bitmap l).bit j = true)
    (hj : j < 32 * b.numL l) {m : Nat} (hm : m < l) :
    (b.bitmap m).bit (j * 2 ^ (l - m)) = false := by
  obtain ⟨d, rfl⟩ := Nat.exists_eq_add_of_lt hm
  rw [(h.handed.low _ hl).bit j hj, decide_eq_true_iff] at hbit
  obtain ⟨hone, rfl⟩ := hbit
  obtain ⟨q, hq⟩ : ∃ q, N / 2 ^ (m + d + 1) = 2 * q + 1 :=
    ⟨N / 2 ^ (m + d + 1) / 2, by omega⟩
  rw [div_two_pow_succ, hq, show (2 * q + 1) / 2 = q by omega,
    show m + d + 1 - m = d + 1 by omega]
  -- the block starts more than its length before the end of the heap
  have hcut : N / 2 ^ (m + 1) / 2 ^ d = 2 * q + 1 := by
    rw [Nat.div_div_eq_div_mul, ← Nat.pow_add, ← hq, Nat.add_right_comm]
  have hpos : 0 < 2 ^ d := Nat.two_pow_pos d
  have hstart : q * 2 ^ (d + 1) + 2 ^ d ≤ N / 2 ^ (m + 1) := by
    have hmul := Nat.div_mul_le_self (N / 2 ^ (m + 1)) (2 ^ d)
    rw [hcut] at hmul
    calc q * 2 ^ (d + 1) + 2 ^ d = (2 * q + 1) * 2 ^ d := by ring
      _ ≤ N / 2 ^ (m + 1) := hmul
  have hlt : 2 * (q * 2 ^ (d + 1)) * 2 ^ m < N := by
    have hmul := Nat.div_mul_le_self N (2 ^ (m + 1))
    have hle : q * 2 ^ (d + 1) + 1 ≤ N / 2 ^ (m + 1) := by omega
    have hscale := Nat.mul_le_mul_right (2 ^ (m + 1)) hle
    have hlen := Nat.two_pow_pos (m + 1)
    rw [two_mul_mul_two_pow]
    rw [Nat.add_mul, Nat.one_mul] at hscale
    omega
  have hword := h.words m (by omega) _ hlt
  rw [bitIndex, if_neg (by omega), Nat.mul_div_cancel_left _ (by decide)] at hword
  rw [(h.handed.low m (by omega)).bit _ hword, decide_eq_false_iff_not]
  omega

/-- What a set bit of a started heap stands for. -/
theorem Started.recorded (h : Started b N k) (hrec : Recorded b l j) :
    ∃ i, (Tiling.maximal N (k + 1) (Nat.succ_pos k)).Free l i ∧ bitIndex k l i = j ∧
      blockOfBit l j b = (i * 2 ^ l : Nat) := by
  obtain ⟨hl, hj, hbit⟩ := hrec
  rw [h.level] at hl
  exact blockOfBit_spec h.marks (usedEntries_maximal b N (k + 1) (Nat.succ_pos k))
    (Nat.lt_succ_iff.mp hl) (SameHeap.refl b) hj hbit fun hlk =>
      Or.inr fun m hm => h.bit_below hlk hbit hj hm

/-- Every free block of the first tiling has its bit. -/
theorem Started.record (h : Started b N k)
    (hfree : (Tiling.maximal N (k + 1) (Nat.succ_pos k)).Free l i) :
    Recorded b l (bitIndex k l i) := by
  have hl := hfree.1.level_lt
  have hj := h.words l (Nat.lt_succ_iff.mp hl) i hfree.1.1
  exact ⟨h.level ▸ hl, hj, (h.marks.mark l (Nat.lt_succ_iff.mp hl) _ hj).mpr ⟨i, hfree, rfl⟩⟩

/-- Free blocks of the first tiling have different bits. -/
theorem bitIndex_injective (hi : (Tiling.maximal N (k + 1) (Nat.succ_pos k)).Free l i)
    {i' : Nat} (hi' : (Tiling.maximal N (k + 1) (Nat.succ_pos k)).Free l i')
    (h : bitIndex k l i = bitIndex k l i') : i = i' := by
  unfold bitIndex at h
  split at h
  · exact h
  · rename_i hlk
    have hl := hi.1.level_lt
    rw [Tiling.free_maximal _ (by omega)] at hi hi'
    omega

/-- A recorded block lies within the heap. -/
theorem Started.recorded_fits (h : Started b N k) (hrec : Recorded b l j) :
    0 ≤ blockOfBit l j b ∧ blockOfBit l j b + 2 ^ l ≤ N := by
  obtain ⟨i, hfree, -, hblock⟩ := h.recorded hrec
  have hfits := hfree.1.fits
  rw [hblock]
  refine ⟨Int.natCast_nonneg _, ?_⟩
  rw [Nat.add_mul, Nat.one_mul] at hfits
  exact_mod_cast hfits

/-- Each basic block is in exactly one recorded block. -/
theorem Started.tiled (h : Started b N k) {x : Nat} (hx : x < N) :
    ∃! r : Nat × Nat, CoveredBy b x r.1 r.2 := by
  let t := Tiling.maximal N (k + 1) (Nat.succ_pos k)
  have hmem : ∀ l j i, blockOfBit l j b = (i * 2 ^ l : Nat) →
      (blockOfBit l j b ≤ x ∧ (x : Int) < blockOfBit l j b + 2 ^ l ↔ x / 2 ^ l = i) :=
    fun l j i hblock => by
      rw [hblock, div_two_pow_eq_iff, Nat.add_mul, Nat.one_mul]
      norm_cast
  have hfree : t.Free (t.lev x) (x / 2 ^ t.lev x) := ⟨Tiling.isTile_of_lt hx, rfl⟩
  have hrec := h.record hfree
  refine ⟨(t.lev x, bitIndex k (t.lev x) (x / 2 ^ t.lev x)), ?_, ?_⟩
  · obtain ⟨i, hi, hindex, hblock⟩ := h.recorded hrec
    rw [bitIndex_injective hi hfree hindex] at hblock
    exact ⟨hrec, (hmem _ _ _ hblock).mpr rfl⟩
  · rintro ⟨l, j⟩ ⟨hrec', hx'⟩
    obtain ⟨i, hi, hindex, hblock⟩ := h.recorded hrec'
    have hxi : x / 2 ^ l = i := (hmem l j i hblock).mp hx'
    obtain ⟨rfl, rfl⟩ := hi.1.unique hfree.1 hxi rfl
    exact Prod.ext rfl hindex.symm

end Recorded

/-! ### The layout -/

/-- What `buddy_init` leaves of the region from `startAdr` to `endAdr`. -/
structure LaidOut (b : BlockCtr) (startAdr endAdr : Nat) : Prop where
  /-- the parts lie in the region -/
  inside : ∀ p : HeapPart, p.Used b →
    startAdr ≤ p.start b ∧ p.start b ≤ p.stop b ∧ p.stop b ≤ endAdr
  /-- no two parts overlap -/
  apart : ∀ p q : HeapPart, p.Used b → q.Used b → p ≠ q →
    p.stop b ≤ q.start b ∨ q.stop b ≤ p.start b
  /-- the table has an entry for each pair of basic blocks -/
  entries : ∀ x < b.blockNum, b.blocksAdr + blockIndex x < b.ctrlAdr
  /-- the bit of each block of each level lies in the words of the level -/
  bits : ∀ l < b.level, ∀ i, i * 2 ^ l < b.blockNum →
    bitIndex (b.level - 1) l i < 32 * b.numL l
  /-- the recorded blocks lie in the heap -/
  fits : ∀ l j, Recorded b l j → 0 ≤ blockOfBit l j b ∧ blockOfBit l j b + 2 ^ l ≤ b.blockNum
  /-- each basic block is in exactly one of them -/
  tiled : ∀ x < b.blockNum, ∃! r : Nat × Nat, CoveredBy b x r.1 r.2

/-- A heap that is started and placed is laid out. -/
theorem Started.laidOut {b : BlockCtr} {N k S E endAdr : Nat} (h : Started b N k)
    (hplaced : HeapPlaced b S E) (hend : E + sizeofBlockCtr ≤ endAdr) : LaidOut b S endAdr := by
  have hlevel : 0 < b.level := by rw [h.level]; exact Nat.succ_pos k
  have hblocks : b.endAdr = b.startAdr + b.blockNum * BLOCK_SIZE := by
    rw [h.endAdr, h.blockNum]
    rfl
  have htable := hplaced.table
  constructor
  case inside =>
    intro p hp
    obtain ⟨hstart, hstop, hlast⟩ := hplaced.inside hlevel hblocks hp
    exact ⟨hstart, hstop, hlast.trans hend⟩
  case apart => exact fun p q hp hq hne => hplaced.apart hlevel hblocks hp hq hne
  case entries =>
    intro x hx
    unfold blockIndex
    omega
  case bits =>
    rw [h.blockNum, h.level, Nat.add_sub_cancel]
    exact fun l hl => h.words l (Nat.lt_succ_iff.mp hl)
  case fits =>
    rw [h.blockNum]
    exact fun l j hrec => h.recorded_fits hrec
  case tiled =>
    rw [h.blockNum]
    exact fun x hx => h.tiled hx

/-- The size of the last round of the level loop. -/
theorem largest_size : BLOCK_SIZE * 2 ^ 24 = 2 ^ 31 := by decide

/-- `buddy_init` succeeds on every aligned region below `2 ^ 31` with room
for the control block and a basic block, and lays it out: the parts do not
overlap, each basic block is in exactly one recorded block, and the bits of
each level lie in its words. -/
theorem buddyInit_layout {startAdr endAdr : Nat} (b : BlockCtr) (haligned : startAdr % 4 = 0)
    (hend : endAdr < 2 ^ 31) (hroom : startAdr + BLOCK_SIZE + sizeofBlockCtr ≤ endAdr) :
    ∃ b', buddyInit startAdr endAdr b = some (.KR_OK, b') ∧ LaidOut b' startAdr endAdr := by
  have hsize : BLOCK_SIZE = 128 := rfl
  have hctrl : sizeofBlockCtr = 252 := rfl
  have hS : align4 (u32 ((startAdr : Int) + 3)) = startAdr := by
    unfold align4 u32
    omega
  obtain ⟨E, hE⟩ : ∃ E, align4 (u32 ((align4 endAdr : Nat) - sizeofBlockCtr)) = E := ⟨_, rfl⟩
  have hEval : E + sizeofBlockCtr ≤ endAdr ∧ startAdr + BLOCK_SIZE ≤ E := by
    rw [← hE, hctrl, hsize]
    unfold align4 u32
    omega
  -- the level loop ends
  have hreach : E ≤ u32 (startAdr + u32 (BLOCK_SIZE * 2 ^ 24 : Nat) : Nat) :=
    (reach_iff (by omega) (by omega)).mpr
      ⟨Nat.le_refl _, by rw [largest_size]; omega, by rw [largest_size]; omega⟩
  obtain ⟨⟨size, num, adjustLevel1⟩, hloop⟩ := levelLoop_total (a := 0) (Nat.zero_le _)
    (by decide : 24 < 0 + 26) hreach
  rw [show u32 (BLOCK_SIZE * 2 ^ 0 : Nat) = BLOCK_SIZE by decide,
    show u32 (2 ^ 0 : Nat) = 1 by decide] at hloop
  have hinit : buddyInit startAdr endAdr b = some (.KR_OK,
      buildHeap startAdr E num adjustLevel1 { b with ctrlAdr := E }) := by
    unfold buddyInit
    dsimp only
    rw [hS, hE, if_neg (by omega), hloop]
    rfl
  refine ⟨_, hinit, ?_⟩
  obtain ⟨N, k, hstarted, hplaced⟩ := buddyInit_placed hinit
  rw [hS, hE] at hplaced
  exact hstarted.laidOut hplaced hEval.1

/-- A region of 4096 bytes has such a layout. -/
theorem buddyInit_layout_page :
    ∃ b', buddyInit 0 4096 emptyMemory = some (.KR_OK, b') ∧ LaidOut b' 0 4096 :=
  buddyInit_layout emptyMemory (by decide) (by decide) (by decide)

end ACoral
