import Mathlib.Data.BitVec
import Mathlib.Logic.Function.Basic
import Mathlib.Tactic.Common
import ACoral.Kernel.Ipc

/-!
# `ACoral.Kernel.VolMem`: the first-fit allocator of `kernel/src/mem.c`

The memory is a map from the address of a word to the word. Every block
starts with a header word: its size in the upper 24 bits, a magic number
and the bit that says whether it is used. Pointers are addresses, and
`NULL` is `none`.

The allocator works under its mutex. `mutex` counts the pends that have
not been posted yet; `volLocked` is a call with the mutex itself.
-/

set_option autoImplicit false

namespace ACoral

/-- `MAGIC`. -/
def MAGIC : BitVec 32 := 0xcc

/-- `MAGIC_MASK`. -/
def MAGIC_MASK : BitVec 32 := 0xfe

/-- `SIZE_MASK`. -/
def SIZE_MASK : BitVec 32 := 0xffffff00

/-- `USETAG_MASK`. -/
def USETAG_MASK : BitVec 32 := 0x1

/-- `SIZE_SHIFT`. -/
def SIZE_SHIFT : Nat := 8

/-- `BLOCK_GET_SIZE`. -/
def blockGetSize (value : BitVec 32) : BitVec 32 := (value &&& SIZE_MASK) >>> SIZE_SHIFT

/-- `BLOCK_IS_USED`. -/
def blockIsUsed (value : BitVec 32) : Bool := decide (value &&& USETAG_MASK = 1)

/-- `BLOCK_IS_FREE`. -/
def blockIsFree (value : BitVec 32) : Bool := decide (value &&& USETAG_MASK = 0)

/-- `BLOCK_CHECK`. -/
def blockCheck (value : BitVec 32) : Bool := decide (value &&& MAGIC_MASK = MAGIC)

/-- The word that `BLOCK_SET_USED` writes. -/
def blockUsedWord (size : BitVec 32) : BitVec 32 := (size <<< SIZE_SHIFT) ||| 0x1 ||| MAGIC

/-- The word that `BLOCK_SET_FREE` writes. -/
def blockFreeWord (size : BitVec 32) : BitVec 32 := (size <<< SIZE_SHIFT) ||| MAGIC

/-- `struct vol_mem_ctrl_t`, with the memory it manages. -/
structure VolMem where
  mem : Nat → BitVec 32
  /-- `top_p` -/
  topP : Nat
  /-- `down_p` -/
  downP : Nat
  /-- `freep_p` -/
  freepP : Nat
  /-- `mem_state` -/
  memState : Nat
  /-- the pends of the mutex less its posts -/
  mutex : Int

/-- `acoral_mutex_pend(&vol_mem_ctrl.mutex)`. -/
def VolMem.pend (v : VolMem) : VolMem := { v with mutex := v.mutex + 1 }

/-- `acoral_mutex_post(&vol_mem_ctrl.mutex)`. -/
def VolMem.post (v : VolMem) : VolMem := { v with mutex := v.mutex - 1 }

/-- `*tp = word`. -/
def VolMem.write (v : VolMem) (tp : Nat) (word : BitVec 32) : VolMem :=
  { v with mem := Function.update v.mem tp word }

/-- `vol_mem_init`, for the `size` bytes at `p` that `acoral_malloc`
returned. -/
def volMemInit (v : VolMem) (p : Option Nat) (size : BitVec 32) : VolMem :=
  match p with
  | none   => { v with memState := 0 }
  | some p =>
      let v := { v with downP := p, memState := 1, mutex := 0, topP := p + size.toNat, freepP := p }
      v.write v.freepP (blockFreeWord size)

/-- How a search loop ends. -/
inductive VolScan where
  /-- it reached its limit -/
  | done
  /-- it met a block of size 0 -/
  | zero
  /-- it found a block for the request at `tp` -/
  | found (tp : Nat)
  deriving DecidableEq

/-- A search loop of `vol_r_malloc`, up to the address `limit`. Each
round moves on by at least a byte, so `limit - ctp` rounds are enough. -/
def volScan (mem : Nat → BitVec 32) (size : BitVec 32) (limit : Nat) :
    (rounds : Nat) → (ctp : Nat) → VolScan
  | 0,          _   => .done
  | rounds + 1, ctp =>
      if ctp < limit then
        let bSize := blockGetSize (mem ctp)
        if bSize = 0 then .zero
        else if blockIsUsed (mem ctp) || decide (bSize < size) then
          volScan mem size limit rounds (ctp + bSize.toNat)
        else .found ctp
      else .done

/-- The block at `tp` is taken for the request: its first `size` bytes
are used and the rest, if any, is free. The rover moves behind them. -/
def volTake (v : VolMem) (size : BitVec 32) (tp : Nat) : Option Nat × VolMem :=
  let bSize := blockGetSize (v.mem tp)
  let v := v.write tp (blockUsedWord size)
  let ctp := tp + size.toNat
  let v := if bSize - size > 0 then v.write ctp (blockFreeWord (bSize - size)) else v
  let v := { v with freepP := ctp }
  (some (ctp - size.toNat + 4), v.post)

/-- `vol_r_malloc`: search from the rover to the top, then from the
bottom to the rover. -/
def volRMalloc (size : BitVec 32) (v : VolMem) : Option Nat × VolMem :=
  let size := size + 4
  let v := v.pend
  match volScan v.mem size v.topP (v.topP - v.freepP) v.freepP with
  | .zero     => (none, v.post)
  | .found tp => volTake v size tp
  | .done     =>
      match volScan v.mem size v.freepP (v.freepP - v.downP) v.downP with
      | .zero     => (none, v.post)
      | .found tp => volTake v size tp
      | .done     => (none, v.post)

/-- `vol_malloc`. -/
def volMalloc (size : BitVec 32) (v : VolMem) : Option Nat × VolMem :=
  if v.memState = 0 then (none, v)
  else volRMalloc ((size + 3) &&& ~~~ 3#32) v

/-- How the walk of `vol_free` to the block before `p` ends. -/
inductive VolWalk where
  /-- it met a block of size 0 -/
  | zero
  /-- the block before `p` is at `prevTp` -/
  | before (prevTp : Nat) (size : BitVec 32)
  deriving DecidableEq

/-- The walk of `vol_free` from `ctp` up to `p`. `prevTp` and `size` are
those of the round before. Each round moves on by at least a byte, so
`p - ctp` rounds are enough. -/
def volWalk (mem : Nat → BitVec 32) (p : Nat) :
    (rounds : Nat) → (ctp prevTp : Nat) → (size : BitVec 32) → VolWalk
  | 0,          _,   prevTp, size => .before prevTp size
  | rounds + 1, ctp, prevTp, size =>
      if ctp < p then
        let size := blockGetSize (mem ctp)
        if size = 0 then .zero
        else volWalk mem p rounds (ctp + size.toNat) ctp size
      else .before prevTp size

/-- The end of `vol_free`: the free block of `bSize` bytes at `p` is joined
with the block before it, if that is free. -/
def volMergePrev (v : VolMem) (p : Nat) (bSize size : BitVec 32) : VolMem :=
  if p = v.downP then v.post
  else
    match volWalk v.mem p (p - v.downP) v.downP p size with
    | .zero               => v.post
    | .before prevTp size =>
        if blockIsFree (v.mem prevTp) then
          let v := (v.write p 0).write prevTp (blockFreeWord (bSize + size))
          { v with freepP := prevTp }.post
        else v.post

/-- `vol_free`. The two exits for an address that is no used block leave
the mutex pended. -/
def volFree (p : Nat) (v : VolMem) : VolMem :=
  if v.memState = 0 then v
  else
    let p := p - 4
    let v := v.pend
    if p = 0 || decide (p < v.downP) || decide (v.topP ≤ p) || !blockCheck (v.mem p) then v
    else if blockIsFree (v.mem p) then v
    else
      let bSize := blockGetSize (v.mem p)
      let tp := p + bSize.toNat
      -- the word behind the block is read also when the block ends at the top
      let size := blockGetSize (v.mem tp)
      if blockIsFree (v.mem tp) then
        if size = 0 then v.post
        else
          let v := (v.write tp 0).write p (blockFreeWord (bSize + size))
          volMergePrev { v with freepP := p } p (bSize + size) size
      else
        let v := v.write p (blockFreeWord bSize)
        volMergePrev { v with freepP := p } p bSize size

/-! ### The mutex itself -/

/-- `vol_free` rejects the address, behind its pend: it lies outside of the
arena, no header stands there, or its block is free. -/
def volFreeRejects (p : Nat) (v : VolMem) : Bool :=
  let p := p - 4
  p = 0 || decide (p < v.downP) || decide (v.topP ≤ p) || !blockCheck (v.mem p) ||
    blockIsFree (v.mem p)

variable {I T : Type} [DecidableEq I] [DecidableEq T]

/-- `acoral_mutex_post`, with the thread readied that it wakes. -/
def mutexPostRdy (cur : T) (ipc : Option I) (s : IpcState I T) : Option (IpcState I T) :=
  (acoralMutexPost cur ipc s).map fun
    | (_, none, s)   => s
    | (_, some t, s) => s.rdyThread t

/-- A call of the thread `cur` that nobody interrupts, where the mutex is the
object `i`: it pends, does its work, and posts if its work ends with a post.
`none` says that it is blocked. -/
def volLocked (fuel : Nat) (cur : T) (i : I) (work : VolMem → VolMem)
    (x : IpcState I T × VolMem) : Option (IpcState I T × VolMem) :=
  if x.2.memState = 0 then some (x.1, work x.2)
  else
    match acoralMutexPend fuel cur 0 (some i) x.1 with
    | some (.ret _, s) =>
        let v := work x.2
        if v.mutex = x.2.mutex then (mutexPostRdy cur (some i) s).map fun s => (s, v)
        else some (s, v)
    | _ => none

end ACoral
