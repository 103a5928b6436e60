import ACoral.Kernel.BuddyInit
import ACoral.Lib.GuardedRun

/-!
# `ACoral.Kernel.BuddySystem`: runs of the buddy system

The state of a run is the control block and the list of the live
allocations, each with the pointer that `buddy_malloc` returned and the
rounded size of the request. Only live pointers are freed.

`searchSound` says that a search goes right, `refusedEarly` that there is
none, and `noFreeBlock` that none can succeed: they look at the state
before the call. `freeSound` says that the walks of `buddy_free` keep the
lists right.
-/

set_option autoImplicit false

namespace ACoral

/-- A call of the allocator. -/
inductive BuddyOp where
  | buddyMalloc (size : Nat)
  | buddyFree (ptr : Nat)
  deriving DecidableEq, Repr

/-- The control block and the live allocations. -/
structure BuddyRun where
  ctrl : BlockCtr
  live : List (Nat × Nat)

/-- One call. A pointer other than `NULL` that `buddy_malloc` returns is
live from then on; a pointer that is not live is not freed. -/
def buddyStep (fuel : Nat) (r : BuddyRun) : BuddyOp → Option BuddyRun
  | .buddyMalloc size =>
      (buddyMalloc size r.ctrl).map fun (ptr, ctrl) =>
        { ctrl := ctrl
          live := if ptr = 0 then r.live else (ptr, buddyMallocSize size ctrl) :: r.live }
  | .buddyFree ptr    =>
      if ptr ∈ r.live.map Prod.fst then
        (buddyFree fuel ptr r.ctrl).map fun ctrl =>
          { ctrl := ctrl, live := r.live.filter fun p => p.1 ≠ ptr }
      else none

/-- A run on the heap that `buddy_init` sets up on a memory that holds what
`mem` says, with `step` for each call. -/
def heapRun (step : BuddyRun → BuddyOp → Option BuddyRun) (startAdr endAdr : Nat)
    (mem : BlockCtr) (ops : List BuddyOp) : Option BuddyRun :=
  match buddyInit startAdr endAdr mem with
  | some (.KR_OK, b) => Lib.run step ⟨b, []⟩ ops
  | _                => none

theorem heapRun_eq_some {step : BuddyRun → BuddyOp → Option BuddyRun} {startAdr endAdr : Nat}
    {mem : BlockCtr} {ops : List BuddyOp} {r : BuddyRun}
    (h : heapRun step startAdr endAdr mem ops = some r) :
    ∃ b, buddyInit startAdr endAdr mem = some (.KR_OK, b) ∧ Lib.run step ⟨b, []⟩ ops = some r := by
  unfold heapRun at h
  split at h
  · exact ⟨_, by assumption, h⟩
  · simp at h

/-- A memory that holds zeros. -/
def emptyMemory : BlockCtr where
  freeList := fun _ _ => 0
  bitmap := fun _ _ => 0
  freeListAdr := fun _ => 0
  bitmapAdr := fun _ => 0
  freeCur := fun _ => 0
  numL := fun _ => 0
  level := 0
  state := 0
  startAdr := 0
  endAdr := 0
  blockNum := 0
  freeNum := 0
  ctrlAdr := 0
  blocksAdr := 0
  blocks := fun _ => 0

/-! ### When a search goes right -/

/-- The first level with a linked word, among `rounds` levels from
`level0` on. -/
def firstLevel (b : BlockCtr) : (rounds level0 : Nat) → Option Nat
  | 0,          _      => none
  | rounds + 1, level0 =>
      if b.freeCur level0 < 0 then firstLevel b rounds (level0 + 1) else some level0

/-- The bit that `recus_malloc` takes on the level. -/
def headIndex (b : BlockCtr) (level0 : Nat) : Nat :=
  u32 (b.freeCur level0 * 32 + acoralFfs (b.bitmap level0 (b.freeCur level0)))

/-- `recus_malloc` takes the free half of the pair: the table has a level
for the pair, or no smaller block at its start is free. -/
def halfSound (b : BlockCtr) (level0 : Nat) : Bool :=
  let index := headIndex b level0
  decide (b.blocks (index * 2 ^ level0 : Nat) ≥ 0) ||
    (List.range level0).all fun m => !acoralGetBit (index * 2 ^ (level0 - m)) (b.bitmap m)

/-- `recus_malloc` finds a free block: some level from `level0` on has a
linked word, the first of them is not empty, and below the top level the
free half of the pair is told right. -/
def searchSound (b : BlockCtr) (level0 : Nat) : Bool :=
  match firstLevel b (b.level - level0) level0 with
  | none   => false
  | some m =>
      decide (b.bitmap m (b.freeCur m) ≠ 0) && (decide (m + 1 = b.level) || halfSound b m)

/-- `buddy_malloc` refuses the request before it searches, or its search
finds a free block. -/
def mallocSound (size : Nat) (b : BlockCtr) : Bool :=
  decide (b.state = MEM_NO_ALLOC) ||
    match resizeLoop size 26 BLOCK_SIZE 1 0 with
    | none                  => true
    | some (_, num, level0) =>
        decide (num > b.freeNum) || decide (level0 ≥ b.level) || searchSound b level0

/-- `buddy_malloc` refuses the request before it searches: the heap is too
small to work, `free_num` is too low, or there is no such level. -/
def refusedEarly (size : Nat) (b : BlockCtr) : Bool :=
  decide (b.state = MEM_NO_ALLOC) ||
    match resizeLoop size 26 BLOCK_SIZE 1 0 with
    | none                  => false
    | some (_, num, level0) => decide (num > b.freeNum) || decide (level0 ≥ b.level)

/-- No block is free that could serve the request: the bitmaps of the level
it needs and of those above it have no set bit. -/
def noFreeBlock (size : Nat) (b : BlockCtr) : Bool :=
  match resizeLoop size 26 BLOCK_SIZE 1 0 with
  | none                => true
  | some (_, _, level0) =>
      (List.range b.level).all fun l => decide (l < level0) ||
        (List.range (32 * b.numL l)).all fun index => !acoralGetBit index (b.bitmap l)

/-- Every search of the run finds a free block. -/
def searchGuard (r : BuddyRun) : BuddyOp → Bool
  | .buddyMalloc size => mallocSound size r.ctrl
  | .buddyFree _      => true

/-- The number of the basic block at a pointer. -/
def blockNumber (r : BuddyRun) (ptr : Nat) : Nat := (ptr - r.ctrl.startAdr) / 2 ^ BLOCK_SHIFT

/-- Every search finds a free block, whose pointer is not `NULL`, and every
block that is released has an even number. -/
def accountGuard (r : BuddyRun) : BuddyOp → Bool
  | .buddyMalloc size => mallocSound size r.ctrl && decide (r.ctrl.startAdr ≠ 0)
  | .buddyFree ptr    => decide (blockNumber r ptr % 2 = 0)

/-! ### When a release keeps the lists right -/

/-- The loop of `buddy_free` keeps the lists of the levels it passes right.
A word that gets its first set bit is linked, and so is the first word of the
list; a word that loses its last set bit leaves the list if it is the first
one. -/
def mergeSound (b : BlockCtr) : (rounds level0 index : Nat) → Bool
  | 0,          _,      _     => true
  | rounds + 1, level0, index =>
      let cur : Int := (index / 32 : Nat)
      if acoralGetBit index (b.bitmap level0) = false then
        decide (b.bitmap level0 cur = 0) || decide (cur = b.freeCur level0)
      else
        (decide (acoralClearBit index (b.bitmap level0) cur ≠ 0) ||
          decide (cur = b.freeCur level0)) &&
          mergeSound b rounds (level0 + 1) (if level0 + 1 < b.level - 1 then index / 2 else index)

/-- `buddy_free` keeps the lists right on a block with an even number. On the
top level it does not link the word, so one of its bits is set already. -/
def freeSound (ptr : Nat) (b : BlockCtr) : Bool :=
  let num := (ptr - b.startAdr) / 2 ^ BLOCK_SHIFT
  let level0 := (b.blocks (blockIndex num)).toNat
  if level0 = b.level - 1 then decide (b.bitmap level0 (num / 2 ^ level0 / 32 : Nat) ≠ 0)
  else mergeSound b (b.level - level0) level0 (num / 2 ^ (level0 + 1))

/-- The search ends at a level with a linked word. On the top level the block of the bit that
is taken lies in the heap. -/
def searchFinds (b : BlockCtr) (level0 : Nat) : Bool :=
  match firstLevel b (b.level - level0) level0 with
  | none   => false
  | some m => decide (m + 1 < b.level) || decide ((headIndex b m + 1) * 2 ^ m ≤ b.blockNum)

/-- `buddy_malloc` refuses the request before it searches, or its search ends with a block.
Otherwise it stores a level in front of the table, where the bitmaps are. -/
def mallocFinds (size : Nat) (b : BlockCtr) : Bool :=
  refusedEarly size b ||
    match resizeLoop size 26 BLOCK_SIZE 1 0 with
    | none                => true
    | some (_, _, level0) => searchFinds b level0

/-- The level that `buddy_free` hands block `num` back to, and `none` when it takes the block
for one that has been freed. -/
def freeLevel (num : Nat) (b : BlockCtr) : Option Nat :=
  if num % 2 = 1 then
    let buddyLevel0 := b.blocks (num / 2 : Nat)
    if buddyLevel0 > 0 ∨ (buddyLevel0 = 0 ∧ acoralGetBit (num / 2) (b.bitmap 0) = true) ∨
        (buddyLevel0 < 0 ∧ acoralGetBit (num / 2) (b.bitmap 0) = false) then none
    else some 0
  else if b.blocks (blockIndex num) < 0 then none
  else some (b.blocks (blockIndex num)).toNat

/-- `buddy_free` keeps the lists of the levels below the top right: it refuses the pointer, or
`mergeSound` says so of these levels. -/
def wordsSound (ptr : Nat) (b : BlockCtr) : Bool :=
  let num := (ptr - b.startAdr) / 2 ^ BLOCK_SHIFT
  decide (u32 (ptr + BLOCK_SIZE) > b.endAdr) ||
    match freeLevel num b with
    | none        => true
    | some level0 => mergeSound b (b.level - 1 - level0) level0 (num / 2 ^ (level0 + 1))

/-- Every search ends with a block, and every release keeps the lists of the levels below the
top right. -/
def wordGuard (r : BuddyRun) : BuddyOp → Bool
  | .buddyMalloc size => mallocFinds size r.ctrl
  | .buddyFree ptr    => wordsSound ptr r.ctrl

/-- The counter stays right, and so do the lists. -/
def recoverGuard (r : BuddyRun) (op : BuddyOp) : Bool :=
  accountGuard r op &&
    match op with
    | .buddyMalloc _ => true
    | .buddyFree ptr => freeSound ptr r.ctrl

/-- The answers to a sequence of requests, and `none` when one of them is not
answered. -/
def buddyMallocs : List Nat → BlockCtr → Option (List Nat)
  | [],            _ => some []
  | size :: sizes, b =>
      (buddyMalloc size b).bind fun (ptr, b) => (buddyMallocs sizes b).map (ptr :: ·)

end ACoral
