import ACoral.Kernel.Buddy

/-!
# `ACoral.Kernel.BuddyInit`: `buddy_init`

The control block is put at the end of the region, the table of levels
below it, and below that the bitmap and the free list of each level. The
rest is cut into as many blocks of the top level as there is room for,
and what remains into one block for each smaller level that the binary
digits of the rest name.
-/

set_option autoImplicit false

namespace ACoral

/-- `sizeof(acoral_block_ctr_t)`. -/
def sizeofBlockCtr : Nat := 252

/-- `adr & ~(4-1)`. -/
def align4 (adr : Nat) : Nat := adr / 4 * 4

/-- The loop that counts the levels; it answers `resize_size`, `num` and
`adjust_level_1`. An end that is not reached after 25 rounds never is:
`resize_size` is 0 from then on. -/
def levelLoop (startAdr endAdr : Nat) :
    (rounds : Nat) → (resizeSize num adjustLevel1 : Nat) → Option (Nat × Nat × Nat)
  | 0,          _,          _,   _            => none
  | rounds + 1, resizeSize, num, adjustLevel1 =>
      if endAdr ≤ u32 (startAdr + resizeSize) then some (resizeSize, num, adjustLevel1)
      else
        levelLoop startAdr endAdr rounds (u32 (resizeSize * 2)) (u32 (num * 2)) (adjustLevel1 + 1)

/-- Level `i` gets `num` words for its bitmap and `num` words for its
free list, below `saveAdr`, and no block. -/
def initLevel (i num saveAdr : Nat) (b : BlockCtr) : Nat × BlockCtr :=
  let bitmapAdr := align4 (u32 (saveAdr - num * 4))
  let freeListAdr := align4 (u32 (bitmapAdr - num * 4))
  (freeListAdr,
    { b with
      bitmapAdr := Function.update b.bitmapAdr i bitmapAdr
      numL := Function.update b.numL i num
      freeListAdr := Function.update b.freeListAdr i freeListAdr
      bitmap := Function.update b.bitmap i
        (fun k => if 0 ≤ k ∧ k < num then 0 else b.bitmap i k)
      freeList := Function.update b.freeList i
        (fun k => if 0 ≤ k ∧ k < num then -1 else b.freeList i k)
      freeCur := Function.update b.freeCur i (-1) })

/-- The loop over the levels below the top, with `rounds` of them left;
it answers `num` and `save_adr`. -/
def initLevels : (rounds i num saveAdr : Nat) → BlockCtr → Nat × Nat × BlockCtr
  | 0,          _, num, saveAdr, b => (num, saveAdr, b)
  | rounds + 1, i, num, saveAdr, b =>
      let num := num / 2
      let num := if num = 0 then 1 else num
      let (saveAdr, b) := initLevel i num saveAdr b
      initLevels rounds (i + 1) num saveAdr b

/-- The loop that fills whole words of the top level; it answers `i`,
`num` and `o_num`. Each round takes at least one block. -/
def fillWords (top maxNum : Nat) :
    (rounds i num oNum : Nat) → BlockCtr → Nat × Nat × Nat × BlockCtr
  | 0,          i, num, oNum, b => (i, num, oNum, b)
  | rounds + 1, i, num, oNum, b =>
      if num ≥ maxNum * 32 then
        let b := b.setBitmap top (Function.update (b.bitmap top) i (BitVec.allOnes 32))
        let b := b.setFreeList top i (i + 1)
        fillWords top maxNum rounds (i + 1) (num - maxNum * 32) (oNum + maxNum * 32) b
      else (i, num, oNum, b)

/-- The loop that fills the last word of the top level; it answers `num`
and `o_num`. -/
def fillBits (top maxNum : Nat) :
    (rounds num oNum : Nat) → BlockCtr → Nat × Nat × BlockCtr
  | 0,          num, oNum, b => (num, oNum, b)
  | rounds + 1, num, oNum, b =>
      if num ≥ maxNum then
        let b := b.setBitmap top (acoralSetBit (oNum / 2 ^ top) (b.bitmap top))
        fillBits top maxNum rounds (num - maxNum) (oNum + maxNum) b
      else (num, oNum, b)

/-- The loop over the levels below the top, from level `level1 - 1`
down. -/
def fillLevels : (level1 num oNum : Nat) → BlockCtr → BlockCtr
  | 0,          _,   _,    b => b
  | level1 + 1, num, oNum, b =>
      let index := oNum / 2 ^ (level1 + 1)
      if num = 0 then b
      else
        let cur : Int := (index / 32 : Nat)
        let maxNum := 2 ^ level1
        if num ≥ maxNum then
          let b := b.setBlock (blockIndex oNum) (-1)
          let b := b.setBitmap level1 (acoralSetBit index (b.bitmap level1))
          let b := b.setFreeList level1 cur (-1)
          let b := b.setFreeCur level1 cur
          fillLevels level1 (num - maxNum) (oNum + maxNum) b
        else fillLevels level1 num oNum b

/-- The part of `buddy_init` that hands the `num` basic blocks out to the
levels. -/
def fillBlocks (level1 num : Nat) (b : BlockCtr) : BlockCtr :=
  let top := level1 - 1
  let maxNum := 2 ^ top
  let b := b.setFreeCur top (if num > 0 then 0 else -1)
  let (i, num, oNum, b) := fillWords top maxNum num 0 num 0 b
  let b := if num = 0 then b.setFreeList top ((i : Int) - 1) (-1) else b
  let (num, oNum, b) := fillBits top maxNum num num oNum b
  let b := b.setFreeList top i (-1)
  fillLevels top num oNum b

/-- `buddy_init` once the levels are counted: the arrays are put below
`endAdr`, and the blocks between `startAdr` and them are handed out. -/
def buildHeap (startAdr endAdr num adjustLevel1 : Nat) (b : BlockCtr) : BlockCtr :=
  let blocksAdr := u32 (endAdr - num)
  -- the source lowers adjust_level_1 when the rest is too small, but not level_1
  let level1 := if adjustLevel1 > LEVEL then LEVEL else adjustLevel1
  let b := { b with state := MEM_OK, blocksAdr := blocksAdr }
  let (num, saveAdr, b) := initLevels (level1 - 1) 0 (num / 32) blocksAdr b
  let num := if num = 0 then 1 else num
  let (saveAdr, b) := initLevel (level1 - 1) num saveAdr b
  let num := u32 (saveAdr - startAdr) / 2 ^ BLOCK_SHIFT
  fillBlocks level1 num
    { b with
      level := level1
      startAdr := startAdr
      endAdr := u32 (startAdr + num * 2 ^ BLOCK_SHIFT)
      blockNum := num
      freeNum := num }

/-- `buddy_init`, on a memory that holds what `b` says; `none` when it
does not return. -/
def buddyInit (startAdr endAdr : Nat) (b : BlockCtr) : Option (KernelError × BlockCtr) :=
  let startAdr := align4 (u32 (startAdr + 3))
  let endAdr := align4 (u32 (align4 endAdr - sizeofBlockCtr))
  let b := { b with ctrlAdr := endAdr }
  if startAdr > endAdr ∨ endAdr - startAdr < BLOCK_SIZE then
    some (.KR_MEM_ERR_LESS, { b with state := MEM_NO_ALLOC })
  else
    (levelLoop startAdr endAdr 26 BLOCK_SIZE 1 1).map fun (_, num, adjustLevel1) =>
      (.KR_OK, buildHeap startAdr endAdr num adjustLevel1 b)

end ACoral
