import ACoral.Kernel.Bitops
import ACoral.Kernel.Types

/-!
# `ACoral.Kernel.Buddy`: the buddy system of `kernel/src/mem.c`

The heap is cut into basic blocks of 128 bytes. On level `l` the blocks
are of `2 ^ l` basic blocks. The top level has one bit for each block,
set when the block is free; every other level has one bit for each pair
of neighbours, set when one of the two is free. The words of a level's
bitmap that may hold a set bit are linked through `free_list`, from
`free_cur` on. `acoral_mem_blocks` tells, for each pair of basic blocks,
from which level the block that starts there was allocated.

The arrays are maps from indices to contents: an index outside of the
words that `buddy_init` reserved is a cell that holds whatever the
memory holds. Every call of `buddy_malloc` and `buddy_free` changes the
control block under its spinlock only, so it is one function from the
control block before to the control block after. Addresses are numbers,
and `NULL` is 0.
-/

set_option autoImplicit false

namespace ACoral

/-- `LEVEL`. -/
def LEVEL : Nat := 14

/-- `BLOCK_SHIFT`. -/
def BLOCK_SHIFT : Nat := 7

/-- `BLOCK_SIZE`. -/
def BLOCK_SIZE : Nat := 2 ^ BLOCK_SHIFT

/-- `BLOCK_INDEX`. -/
def blockIndex (index : Int) : Int := index / 2

/-- `MEM_NO_ALLOC`. -/
def MEM_NO_ALLOC : Nat := 0

/-- `MEM_OK`. -/
def MEM_OK : Nat := 1

/-- An `acoral_u32` result: it wraps around. -/
def u32 (x : Int) : Nat := (x % 2 ^ 32).toNat

/-- An `acoral_32` that holds the low 32 bits of `x`. -/
def i32 (x : Int) : Int := x.bmod (2 ^ 32)

/-- `acoral_block_ctr_t`, with the arrays its pointers lead to and the
table `acoral_mem_blocks`. -/
structure BlockCtr where
  /-- the words `free_list[level][k]` -/
  freeList : Nat → Int → Int
  /-- the words `bitmap[level][k]` -/
  bitmap : Nat → Bitmap
  /-- the pointers `free_list[level]` -/
  freeListAdr : Nat → Nat
  /-- the pointers `bitmap[level]` -/
  bitmapAdr : Nat → Nat
  /-- `free_cur` -/
  freeCur : Nat → Int
  /-- `num_l` -/
  numL : Nat → Nat
  level : Nat
  state : Nat
  /-- `start_adr` -/
  startAdr : Nat
  /-- `end_adr` -/
  endAdr : Nat
  /-- `block_num` -/
  blockNum : Nat
  /-- `free_num` -/
  freeNum : Nat
  /-- `acoral_mem_ctrl`, the address of the control block -/
  ctrlAdr : Nat
  /-- `acoral_mem_blocks`, the address of the table -/
  blocksAdr : Nat
  /-- `acoral_mem_blocks[index].level_0` -/
  blocks : Int → Int

namespace BlockCtr

/-- `acoral_mem_ctrl->bitmap[level_0]` gets a new content. -/
def setBitmap (b : BlockCtr) (level0 : Nat) (bitmap : Bitmap) : BlockCtr :=
  { b with bitmap := Function.update b.bitmap level0 bitmap }

/-- `acoral_mem_ctrl->free_list[level_0][cur]=next`. -/
def setFreeList (b : BlockCtr) (level0 : Nat) (cur next : Int) : BlockCtr :=
  { b with
    freeList := Function.update b.freeList level0
      (Function.update (b.freeList level0) cur next) }

/-- `acoral_mem_ctrl->free_cur[level_0]=cur`. -/
def setFreeCur (b : BlockCtr) (level0 : Nat) (cur : Int) : BlockCtr :=
  { b with freeCur := Function.update b.freeCur level0 cur }

/-- `acoral_mem_blocks[index].level_0=level_0`. -/
def setBlock (b : BlockCtr) (index level0 : Int) : BlockCtr :=
  { b with blocks := Function.update b.blocks index level0 }

/-- `acoral_mem_ctrl->free_num=num`. -/
def setFreeNum (b : BlockCtr) (num : Nat) : BlockCtr := { b with freeNum := num }

end BlockCtr

/-! ### Allocation -/

/-- `recus_malloc` takes the lowest set bit of the level's first word; a
word that has no other bit leaves the list. -/
def takeBit (level0 : Nat) (b : BlockCtr) : Nat × BlockCtr :=
  let cur := b.freeCur level0
  let index := u32 (cur * 32 + acoralFfs (b.bitmap level0 cur))
  let b := b.setBitmap level0 (acoralClearBit index (b.bitmap level0))
  (index,
    if b.bitmap level0 cur = 0 then b.setFreeCur level0 (b.freeList level0 cur) else b)

/-- The number of the free block that a bit stands for. Below the top
level it is the second of its pair if the first is allocated. -/
def blockOfBit (level0 index : Nat) (b : BlockCtr) : Int :=
  let num := i32 (index * 2 ^ (level0 + 1))
  if level0 + 1 = b.level then
    if u32 (num / 2 + 2 ^ level0) > b.blockNum then KernelError.KR_MEM_ERR_UNDEF.code
    else num / 2
  else if b.blocks (blockIndex num) ≥ 0 then num + 2 ^ level0
  else num

/-- The branch of `recus_malloc` that has got the block `num` from the
level above: its first half goes out, and its second half stays here. -/
def splitBlock (level0 : Nat) (num : Int) (b : BlockCtr) : BlockCtr :=
  let index := u32 (num / 2 ^ (level0 + 1))
  let cur : Int := (index / 32 : Nat)
  let b := b.setBitmap level0 (acoralSetBit index (b.bitmap level0))
  let b := b.setFreeList level0 cur (-1)
  b.setFreeCur level0 cur

/-- `recus_malloc` with `rounds` levels left above and including
`level0`. -/
def recusMallocFrom : (rounds level0 : Nat) → BlockCtr → Int × BlockCtr
  | 0,          _,      b => (KernelError.KR_MEM_ERR_UNDEF.code, b)
  | rounds + 1, level0, b =>
      if b.freeCur level0 < 0 then
        let (num, b) := recusMallocFrom rounds (level0 + 1) b
        if num < 0 then (KernelError.KR_MEM_ERR_UNDEF.code, b)
        else (num, splitBlock level0 num b)
      else
        let (index, b) := takeBit level0 b
        (blockOfBit level0 index b, b)

/-- `recus_malloc`: the number of a free block of the level, or of the
first half of a larger one. -/
def recusMalloc (level0 : Nat) (b : BlockCtr) : Int × BlockCtr :=
  recusMallocFrom (b.level - level0) level0 b

/-- `buddy_r_malloc`. -/
def buddyRMalloc (level0 : Nat) (b : BlockCtr) : Nat × BlockCtr :=
  let b := b.setFreeNum (u32 (b.freeNum - 2 ^ level0))
  let (num, b) := recusMalloc level0 b
  let b := if num % 2 = 0 then b.setBlock (blockIndex num) level0 else b
  (u32 (b.startAdr + num * 2 ^ BLOCK_SHIFT), b)

/-- The loop of `buddy_malloc` that doubles the size until it is large
enough; it answers `resize_size`, `num` and `level_0`. A size that is
not reached after 25 rounds never is: `resize_size` is 0 from then on. -/
def resizeLoop (size : Nat) :
    (rounds : Nat) → (resizeSize num level0 : Nat) → Option (Nat × Nat × Nat)
  | 0,          _,          _,   _      => none
  | rounds + 1, resizeSize, num, level0 =>
      if resizeSize < size then
        resizeLoop size rounds (u32 (resizeSize * 2)) (u32 (num * 2)) (level0 + 1)
      else some (resizeSize, num, level0)

/-- `buddy_malloc`: the pointer it returns, and `none` when it does not
return. -/
def buddyMalloc (size : Nat) (b : BlockCtr) : Option (Nat × BlockCtr) :=
  if b.state = MEM_NO_ALLOC then some (0, b)
  else
    (resizeLoop size 26 BLOCK_SIZE 1 0).bind fun (_, num, level0) =>
      if num > b.freeNum then some (0, b)
      else if level0 ≥ b.level then some (0, b)
      else some (buddyRMalloc level0 b)

/-- The loop of `buddy_malloc_size`, which stops at the number of levels
too. -/
def mallocSizeLoop (size level : Nat) : (rounds : Nat) → (resizeSize level0 : Nat) → Nat
  | 0,          resizeSize, _      => resizeSize
  | rounds + 1, resizeSize, level0 =>
      if resizeSize < size ∧ level0 < level then
        mallocSizeLoop size level rounds (u32 (resizeSize * 2)) (level0 + 1)
      else resizeSize

/-- `buddy_malloc_size`. Every round raises `level_0`. -/
def buddyMallocSize (size : Nat) (b : BlockCtr) : Nat :=
  if b.state = MEM_NO_ALLOC then 0 else mallocSizeLoop size b.level b.level BLOCK_SIZE 0

/-! ### Release -/

/-- The walk of `buddy_free` to the last linked word before `cur`. -/
def insertWalk (freeList : Int → Int) (cur : Int) : (fuel : Nat) → (tempCur : Int) → Option Int
  | 0,        _       => none
  | fuel + 1, tempCur =>
      if freeList tempCur ≠ -1 ∧ freeList tempCur < cur then
        insertWalk freeList cur fuel (freeList tempCur)
      else some tempCur

/-- The walk of `buddy_free` to the word before `cur`. -/
def unlinkWalk (freeList : Int → Int) (cur : Int) : (fuel : Nat) → (tempCur : Int) → Option Int
  | 0,        _       => none
  | fuel + 1, tempCur =>
      if cur = tempCur then some tempCur
      else if freeList (freeList tempCur) ≠ cur then
        unlinkWalk freeList cur fuel (freeList tempCur)
      else some (freeList tempCur)

/-- The branch of `buddy_free` for a pair with no free block: one of the
two is free from now on, and the word is linked. -/
def insertBlock (fuel level0 index : Nat) (b : BlockCtr) : Option BlockCtr :=
  let cur : Int := (index / 32 : Nat)
  let b := b.setBitmap level0 (acoralSetBit index (b.bitmap level0))
  if b.freeCur level0 < 0 ∨ cur < b.freeCur level0 then
    some ((b.setFreeList level0 cur (b.freeCur level0)).setFreeCur level0 cur)
  else if cur > b.freeCur level0 then
    (insertWalk (b.freeList level0) cur fuel (b.freeCur level0)).map fun tempCur =>
      (b.setFreeList level0 cur (b.freeList level0 tempCur)).setFreeList level0 tempCur cur
  else some b

/-- The branch of `buddy_free` for a pair whose other block is free: none
of the two is free on this level any more. -/
def removePair (fuel level0 index : Nat) (b : BlockCtr) : Option BlockCtr :=
  let cur : Int := (index / 32 : Nat)
  let b := b.setBitmap level0 (acoralClearBit index (b.bitmap level0))
  (unlinkWalk (b.freeList level0) cur fuel (b.freeCur level0)).map fun tempCur =>
    if b.bitmap level0 tempCur = 0 then b.setFreeCur level0 (b.freeList level0 cur) else b

/-- The loop of `buddy_free` over the levels, with `rounds` of them left.
`fuel` bounds the walks through the lists. -/
def freeLoop (fuel : Nat) : (rounds level0 index : Nat) → BlockCtr → Option BlockCtr
  | 0,          _,      _,     b => some b
  | rounds + 1, level0, index, b =>
      if acoralGetBit index (b.bitmap level0) = false then insertBlock fuel level0 index b
      else
        (removePair fuel level0 index b).bind fun b =>
          let index := if level0 + 1 < b.level - 1 then index / 2 else index
          freeLoop fuel rounds (level0 + 1) index b

/-- `buddy_free` from the level the block was allocated from. -/
def freeFrom (fuel level0 num : Nat) (b : BlockCtr) : Option BlockCtr :=
  if level0 = b.level - 1 then
    some (b.setBitmap level0 (acoralSetBit (num / 2 ^ level0) (b.bitmap level0)))
  else freeLoop fuel (b.level - level0) level0 (num / 2 ^ (level0 + 1)) b

/-- `buddy_free` on a block with an odd number: it is of level 0, and the
block before it tells whether it has been freed. -/
def freeOdd (fuel num : Nat) (b : BlockCtr) : Option BlockCtr :=
  let index := num / 2
  let buddyLevel0 := b.blocks index
  if buddyLevel0 > 0 then some b
  else if buddyLevel0 = 0 ∧ acoralGetBit index (b.bitmap 0) = true then some b
  else if buddyLevel0 < 0 ∧ acoralGetBit index (b.bitmap 0) = false then some b
  else freeFrom fuel 0 num b

/-- `buddy_free` on a block with an even number. -/
def freeEven (fuel num : Nat) (b : BlockCtr) : Option BlockCtr :=
  let level0 := b.blocks (blockIndex num)
  if level0 < 0 then some b
  else
    let b := b.setFreeNum (u32 (b.freeNum + 2 ^ level0.toNat))
    freeFrom fuel level0.toNat num (b.setBlock (blockIndex num) (-1))

/-- `buddy_free`; `none` when it does not return. -/
def buddyFree (fuel ptr : Nat) (b : BlockCtr) : Option BlockCtr :=
  if b.state = MEM_NO_ALLOC then some b
  else if ptr = 0 ∨ ptr < b.startAdr ∨ u32 (ptr + BLOCK_SIZE) > b.endAdr then some b
  else
    let num := (ptr - b.startAdr) / 2 ^ BLOCK_SHIFT
    if ptr ≠ u32 (b.startAdr + num * 2 ^ BLOCK_SHIFT) then some b
    else if num % 2 = 1 then freeOdd fuel num b
    else freeEven fuel num b

end ACoral
