import ACoral.Kernel.ResPool
import ACoral.Lib.GuardedRun

/-!
# `ACoral.Kernel.ResPoolSystem`: runs of the resource pools

A run starts after `acoral_pools_init`. Its steps are the calls of
`res_pool.c` and what the holders of resources do to them meanwhile: the
scheduler rewrites the CPU field of an id, and the owners write the rest
of their memory.

`held` keeps the resources that `acoral_get_res` returned and that have
not been released since, and `inited` the control blocks that
`acoral_pool_ctrl_init` has been called for.
-/

set_option autoImplicit false

namespace ACoral

open Lib (Links)

variable {C : Type} [DecidableEq C]

/-- The descriptors before `acoral_pools_init`: static memory. -/
def poolsStart : AcoralPool C :=
  { baseAdr := .null, resFree := 0, id := 0, size := 0, num := 0, freeNum := 0, ctrl := none }

/-- A run in progress. -/
structure PoolSystem (C : Type) where
  kernel : ResPools C
  inited : List C
  held : List Nat

/-- The steps of a run. A call of `acoral_malloc` or `acoral_malloc_size`
in it is answered by `malloc` and `mallocSize`. -/
inductive PoolOp (C : Type) where
  /-- `acoral_pool_ctrl_init`, after the owner has written the fields -/
  | ctrlInit (c : C) (type : ResType) (size numPerPool maxPools : Nat) (mallocSize : Nat)
      (malloc : Option Nat)
  /-- `acoral_create_pool` -/
  | createPool (c : C) (malloc : Option Nat)
  /-- `acoral_release_pool` -/
  | releasePool (c : C)
  /-- `acoral_get_res` -/
  | getRes (c : C) (malloc : Option Nat)
  /-- `acoral_release_res` -/
  | releaseRes (res : Nat)
  /-- `acoral_sched_rdyqueue_add` of the thread at `res`, on the CPU `cpu` -/
  | rdyqueueAdd (res cpu : Nat)
  /-- the owners of resources write their memory -/
  | write (word : Nat → BitVec 32)

/-- Where the resources of a pool are. -/
def AcoralPool.block (p : AcoralPool C) : Option (Nat × Nat) :=
  p.baseAdr.adr.map fun base => (base, p.size * p.num)

/-- What `acoral_malloc` promises: the block it returns lies in memory,
and no pool uses any of it. -/
def ResPools.mallocOk (s : ResPools C) (size : Nat) : Option Nat → Bool
  | none     => true
  | some adr =>
      decide (0 < adr) && decide (adr + size ≤ 2 ^ 32) && decide (∀ i, ∀ b ∈ (s.pools i).block,
        adr + size ≤ b.1 ∨ b.1 + b.2 ≤ adr)

/-- The memory that the owners of the resources write leaves the first
word of each resource alone. -/
def ResPools.writeOk (s : ResPools C) (word : Nat → BitVec 32) : Bool :=
  decide (∀ i, ∀ base ∈ (s.pools i).baseAdr.adr, ∀ k < (s.pools i).num,
    word (base + k * (s.pools i).size) = s.word (base + k * (s.pools i).size))

namespace PoolSystem

/-- The state after `acoral_pools_init`. The control blocks, the list
nodes and the memory may hold anything. -/
def start (ctrl : C → AcoralPoolCtrl) (links : Links (PoolNode C)) (word : Nat → BitVec 32) :
    PoolSystem C :=
  { kernel := acoralPoolsInit
      { pools := fun _ => poolsStart, freeResPool := .null, ctrl := ctrl, links := links
        word := word }
    inited := []
    held := [] }

/-- When a step can be taken. The number of resources of a pool fits the
index field, control blocks are initialised once and before they are
used, and only held resources are released. -/
def guard (s : PoolSystem C) : PoolOp C → Bool
  | .ctrlInit c _ size _ _ mallocSize malloc =>
      decide (c ∉ s.inited) && decide (4 ≤ size) && decide (1 ≤ mallocSize / size)
        && decide (mallocSize / size ≤ 1024) && s.kernel.mallocOk (size * (mallocSize / size)) malloc
  | .createPool c malloc | .getRes c malloc =>
      decide (c ∈ s.inited)
        && s.kernel.mallocOk ((s.kernel.ctrl c).size * (s.kernel.ctrl c).numPerPool) malloc
  | .releasePool c => decide (c ∈ s.inited)
  | .releaseRes res => decide (res ∈ s.held)
  | .rdyqueueAdd res _ => decide (res ∈ s.held)
  | .write word => s.kernel.writeOk word

/-- One step. `fuel` bounds the loop of `acoral_release_pool`. -/
def step (fuel : Nat) (s : PoolSystem C) : PoolOp C → Option (PoolSystem C)
  | .ctrlInit c type size numPerPool maxPools mallocSize malloc =>
      let b : AcoralPoolCtrl :=
        { type := type, size := size, numPerPool := numPerPool, num := 0, maxPools := maxPools
          locked := false }
      (acoralPoolCtrlInit (s.kernel.setCtrl c b) c mallocSize malloc).map fun k =>
        { s with kernel := k, inited := c :: s.inited }
  | .createPool c malloc =>
      (acoralCreatePool s.kernel c malloc).map fun (k, _) => { s with kernel := k }
  | .releasePool c =>
      (acoralReleasePool fuel s.kernel c).map fun k => { s with kernel := k }
  | .getRes c malloc =>
      (acoralGetRes s.kernel c malloc).map fun (k, res) =>
        { s with kernel := k, held := res.toList ++ s.held }
  | .releaseRes res =>
      (acoralReleaseRes s.kernel res).map fun k =>
        { s with kernel := k, held := s.held.erase res }
  | .rdyqueueAdd res cpu =>
      some { s with kernel := s.kernel.setWord res (rdyqueueAddId (s.kernel.word res) cpu) }
  | .write word => some { s with kernel := { s.kernel with word := word } }

/-- Execute the steps in order. -/
def run (fuel : Nat) (s : PoolSystem C) (ops : List (PoolOp C)) : Option (PoolSystem C) :=
  Lib.run (Lib.guarded guard (step fuel)) s ops

end PoolSystem

end ACoral
