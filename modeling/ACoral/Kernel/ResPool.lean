import ACoral.Kernel.List
import ACoral.Kernel.Thread

/-!
# `ACoral.Kernel.ResPool`: the resource pools of `kernel/src/res_pool.c`

A pool is a block of memory that is cut into resources of one size. The
first word of a resource is an `acoral_res_t`. While the resource is held
it is the resource's id, and while it is free its low half is the index of
the next free resource. `word` gives that word at each address.

The descriptors of the pools are the table `acoral_pools`. They and the
control blocks, which are the elements of a type `C`, are linked into the
two lists of a control block by the nodes `PoolNode`.

The answers of `acoral_malloc` and `acoral_malloc_size` are arguments of
the functions that call them. `none` says that a call does not return: it
takes a lock that is held, or it follows a pointer that is not what the
code takes it for.
-/

set_option autoImplicit false

namespace ACoral

open Lib (Links)

/-! ### Resource ids -/

/-- `ACORAL_MAX_POOLS`. -/
def ACORAL_MAX_POOLS : Nat := 40

/-- A resource type, which is a field of four bits of an id. -/
abbrev ResType := Fin 16

/-- `ACORAL_RES_THREAD`. -/
def ACORAL_RES_THREAD : ResType := 1

/-- `ACORAL_RES_IPC`. -/
def ACORAL_RES_IPC : ResType := 2

/-- `ACORAL_POOL_INDEX_MASK`. -/
def ACORAL_POOL_INDEX_MASK : BitVec 32 := 0x000003FF

/-- `ACORAL_POOL_INDEX_BIT`. -/
def ACORAL_POOL_INDEX_BIT : Nat := 0

/-- `ACORAL_RES_TYPE_BIT`. -/
def ACORAL_RES_TYPE_BIT : Nat := 10

/-- `ACORAL_RES_INDEX_MASK`. -/
def ACORAL_RES_INDEX_MASK : BitVec 32 := 0x00FFC000

/-- `ACORAL_RES_INDEX_BIT`. -/
def ACORAL_RES_INDEX_BIT : Nat := 14

/-- `ACORAL_RES_INDEX_INIT_BIT`. -/
def ACORAL_RES_INDEX_INIT_BIT : Nat := 16

/-- The member `next_id` of the union `acoral_res_t`: its low half. -/
def nextId (res : BitVec 32) : BitVec 16 := res.setWidth 16

/-- Write `next_id`. The high half of the word stays. -/
def setNextId (res : BitVec 32) (next : BitVec 16) : BitVec 32 :=
  (res &&& 0xFFFF0000) ||| next.setWidth 32

/-! ### Pools and control blocks -/

/-- What `base_adr` holds. A free descriptor keeps the next free one
there, and a pool keeps the address of its resources. -/
inductive PoolPtr where
  | null
  /-- a descriptor of `acoral_pools` -/
  | pool (i : Fin ACORAL_MAX_POOLS)
  /-- an address that `acoral_malloc` returned -/
  | mem (adr : Nat)
  deriving DecidableEq, Repr

/-- `acoral_pool_t`, beside its list nodes. -/
structure AcoralPool (C : Type) where
  baseAdr : PoolPtr
  resFree : Nat
  id : BitVec 32
  size : Nat
  num : Nat
  freeNum : Nat
  ctrl : Option C

/-- `acoral_pool_ctrl_t`, beside the heads of its lists. -/
structure AcoralPoolCtrl where
  type : ResType
  size : Nat
  numPerPool : Nat
  num : Nat
  maxPools : Nat
  /-- `lock` is taken -/
  locked : Bool

/-- The list nodes of pools and control blocks. -/
inductive PoolNode (C : Type) where
  /-- `total_pools.head` of a control block -/
  | totalHead (c : C)
  /-- `free_pools.head` of a control block -/
  | freeHead (c : C)
  /-- `total_list` of a pool -/
  | total (i : Fin ACORAL_MAX_POOLS)
  /-- `free_list` of a pool -/
  | free (i : Fin ACORAL_MAX_POOLS)
  deriving DecidableEq

/-- The data that `res_pool.c` reads and writes. -/
structure ResPools (C : Type) where
  /-- `acoral_pools` -/
  pools : Fin ACORAL_MAX_POOLS → AcoralPool C
  /-- `acoral_free_res_pool` -/
  freeResPool : PoolPtr
  ctrl : C → AcoralPoolCtrl
  links : Links (PoolNode C)
  /-- the first word of the resource at an address -/
  word : Nat → BitVec 32

variable {C : Type} [DecidableEq C]

namespace ResPools

/-- Write a descriptor. -/
def setPool (s : ResPools C) (i : Fin ACORAL_MAX_POOLS) (p : AcoralPool C) : ResPools C :=
  { s with pools := Function.update s.pools i p }

/-- Write a control block. -/
def setCtrl (s : ResPools C) (c : C) (b : AcoralPoolCtrl) : ResPools C :=
  { s with ctrl := Function.update s.ctrl c b }

/-- Write the first word of a resource. -/
def setWord (s : ResPools C) (adr : Nat) (w : BitVec 32) : ResPools C :=
  { s with word := Function.update s.word adr w }

/-- `acoral_spin_lock` of a control block. -/
def lockCtrl (s : ResPools C) (c : C) : Option (ResPools C) :=
  if (s.ctrl c).locked then none else some (s.setCtrl c { s.ctrl c with locked := true })

/-- `acoral_spin_unlock` of a control block. -/
def unlockCtrl (s : ResPools C) (c : C) : ResPools C :=
  s.setCtrl c { s.ctrl c with locked := false }

end ResPools

/-- The sum of a pointer and an offset. -/
def ptrAdd (adr offset : Nat) : Nat := (adr + offset) % 2 ^ 32

/-- The address of the resource memory of a pool. -/
def PoolPtr.adr : PoolPtr → Option Nat
  | .mem adr => some adr
  | _        => none

/-- `list_entry(list, acoral_pool_t, free_list)`. On a node that is no
`free_list` the result points at no descriptor. -/
def freeListEntry : PoolNode C → Option (Fin ACORAL_MAX_POOLS)
  | .free i => some i
  | _       => none

/-- `acoral_fifo_queue_add`: link the node before the head. -/
def poolFifoAdd (s : ResPools C) (queue node : PoolNode C) : Option (ResPools C) :=
  (acoralListAddTail s.links node queue).map fun links => { s with links := links }

/-! ### The table of pools -/

/-- `acoral_pools_init`, on the table that the program starts with. The
loop leaves out the last descriptor's `id`. -/
def acoralPoolsInit (s : ResPools C) : ResPools C :=
  { s with
    pools := fun i =>
      if h : i.val + 1 < ACORAL_MAX_POOLS then
        { s.pools i with baseAdr := .pool ⟨i.val + 1, h⟩, id := BitVec.ofNat 32 i.val }
      else { s.pools i with baseAdr := .null }
    freeResPool := .pool ⟨0, by decide⟩ }

/-- `*(void **)ptr`: the first word of a descriptor is its `base_adr`. -/
def ResPools.deref (s : ResPools C) : PoolPtr → Option PoolPtr
  | .pool i => some (s.pools i).baseAdr
  | _       => none

/-- `acoral_get_free_pool`. What it takes for the next free descriptor is
the word that `base_adr` points at. -/
def acoralGetFreePool (s : ResPools C) : Option (ResPools C × Option (Fin ACORAL_MAX_POOLS)) :=
  match s.freeResPool with
  | .null     => some (s, none)
  | .mem _    => none
  | .pool tmp =>
      (s.deref (s.pools tmp).baseAdr).map fun next => ({ s with freeResPool := next }, some tmp)

/-- `acoral_get_pool_by_id`. -/
def acoralGetPoolById (resId : BitVec 32) : Option (Fin ACORAL_MAX_POOLS) :=
  let index := ((resId &&& ACORAL_POOL_INDEX_MASK) >>> ACORAL_POOL_INDEX_BIT).toNat
  if h : index < ACORAL_MAX_POOLS then some ⟨index, h⟩ else none

/-- `acoral_get_res_by_id`. A pool without resource memory has no
resource. -/
def acoralGetResById (s : ResPools C) (id : BitVec 32) : Option Nat :=
  (acoralGetPoolById id).bind fun i =>
    let pool := s.pools i
    let index := ((id &&& ACORAL_RES_INDEX_MASK) >>> ACORAL_RES_INDEX_BIT).toNat
    pool.baseAdr.adr.map fun base => ptrAdd base (index * pool.size)

/-! ### Creating a pool -/

/-- The loop of `acoral_pool_res_init`, at the resource `i`, with `left`
resources to come before the last one. -/
def poolResInitLoop (size : Nat) :
    (left : Nat) → (i : Nat) → (res : Nat) → (Nat → BitVec 32) → Nat → BitVec 32
  | 0,        i, res, word =>
      Function.update word res (setNextId (BitVec.ofNat 32 i <<< ACORAL_RES_INDEX_INIT_BIT) 0)
  | left + 1, i, res, word =>
      poolResInitLoop size left (i + 1) (ptrAdd res size) <|
        Function.update word res
          (setNextId (BitVec.ofNat 32 i <<< ACORAL_RES_INDEX_INIT_BIT) (BitVec.ofNat 16 (i + 1)))

/-- `acoral_pool_res_init`: the resources of a pool, with `blks - 1`
computed in 32 bits. -/
def acoralPoolResInit (base size blks : Nat) (word : Nat → BitVec 32) : Nat → BitVec 32 :=
  poolResInitLoop size ((blks + 2 ^ 32 - 1) % 2 ^ 32) 0 base word

/-- `acoral_create_pool`. Once it has taken a descriptor, it writes it,
also if there is no memory for the resources. -/
def acoralCreatePool (s : ResPools C) (c : C) (malloc : Option Nat) :
    Option (ResPools C × KernelError) :=
  let b := s.ctrl c
  if b.num ≥ b.maxPools then some (s, .KR_RES_ERR_MAX_POOL)
  else
    (acoralGetFreePool s).bind fun
      | (s, none)   => some (s, .KR_RES_ERR_NO_POOL)
      | (s, some i) =>
          let id := BitVec.ofNat 32 b.type <<< ACORAL_RES_TYPE_BIT ||| (s.pools i).id
          let pool := { s.pools i with id := id, size := b.size, num := b.numPerPool }
          match malloc with
          | none      => some (s.setPool i { pool with baseAdr := .null }, .KR_RES_ERR_NO_MEM)
          | some base =>
              let s := s.setPool i
                { pool with
                  baseAdr := .mem base, resFree := base, freeNum := b.numPerPool, ctrl := some c }
              let s := { s with word := acoralPoolResInit base b.size b.numPerPool s.word }
              (poolFifoAdd s (.totalHead c) (.total i)).bind fun s =>
                (poolFifoAdd s (.freeHead c) (.free i)).map fun s =>
                  (s.setCtrl c { b with num := b.num + 1 }, .KR_OK)

/-- `acoral_pool_ctrl_init`, of a control block whose owner has written
its fields. `mallocSize` is the answer of `acoral_malloc_size`. -/
def acoralPoolCtrlInit (s : ResPools C) (c : C) (mallocSize : Nat) (malloc : Option Nat) :
    Option (ResPools C) :=
  let b := { s.ctrl c with num := 0, locked := false }
  let s := { s with links := acoralListInit (acoralListInit s.links (.totalHead c)) (.freeHead c) }
  if mallocSize < b.size then some (s.setCtrl c { b with numPerPool := 0 })
  else
    (acoralCreatePool (s.setCtrl c { b with numPerPool := mallocSize / b.size }) c malloc).map
      Prod.fst

/-! ### Resources -/

/-- The part of `acoral_get_res` after it has found a pool with a free
resource. -/
def getResFrom (s : ResPools C) (i : Fin ACORAL_MAX_POOLS) : Option (ResPools C × Nat) :=
  let pool := s.pools i
  let res := pool.resFree
  pool.baseAdr.adr.bind fun base =>
    let resFree := ptrAdd base ((nextId (s.word res)).toNat * pool.size)
    let id := ((s.word res).sshiftRight (ACORAL_RES_INDEX_INIT_BIT - ACORAL_RES_INDEX_BIT)
      &&& ACORAL_RES_INDEX_MASK) ||| pool.id
    let freeNum := (pool.freeNum + 2 ^ 32 - 1) % 2 ^ 32
    let s := (s.setPool i { pool with resFree := resFree, freeNum := freeNum }).setWord res id
    if freeNum = 0 then
      (acoralListDel s.links (.free i)).map fun links => ({ s with links := links }, res)
    else some (s, res)

/-- `acoral_get_res`. The first test is `acoral_list_empty(first)`: only
the head of an empty list is its own successor. -/
def acoralGetRes (s : ResPools C) (c : C) (malloc : Option Nat) :
    Option (ResPools C × Option Nat) :=
  (s.lockCtrl c).bind fun s =>
    let first := s.links.next (.freeHead c)
    let created := if s.links.next first = first then acoralCreatePool s c malloc
      else some (s, .KR_OK)
    created.bind fun
      | (s, .KR_OK) =>
          (freeListEntry (s.links.next (.freeHead c))).bind fun i =>
            (getResFrom s i).map fun (s, res) => (s.unlockCtrl c, some res)
      | (s, _)      => some (s.unlockCtrl c, none)

/-- `acoral_release_res`. The two error returns after the lock has been
taken do not give it back. -/
def acoralReleaseRes (s : ResPools C) (res : Nat) : Option (ResPools C) :=
  match acoralGetPoolById (s.word res) with
  | none   => some s
  | some i =>
      let pool := s.pools i
      pool.ctrl.bind fun c =>
        (s.lockCtrl c).bind fun s =>
          pool.baseAdr.adr.bind fun base =>
            if res < base then some s
            else
              let index := (res - base) / pool.size
              if index ≥ pool.num then some s
              else
                let tmp := pool.resFree
                let freeNum := (pool.freeNum + 1) % 2 ^ 32
                let s := s.setPool i { pool with resFree := res, freeNum := freeNum }
                let s := s.setWord res (BitVec.ofNat 32 index <<< ACORAL_RES_INDEX_INIT_BIT)
                let next := ((s.word tmp).sshiftRight ACORAL_RES_INDEX_INIT_BIT).setWidth 16
                let s := s.setWord res (setNextId (s.word res) next)
                let added := if s.links.next (.free i) = .free i
                  then poolFifoAdd s (.freeHead c) (.free i) else some s
                added.map fun s => s.unlockCtrl c

/-! ### Releasing the pools of a control block -/

/-- The body of the loops of `acoral_release_pool` and
`acoral_collect_pool`: unlink a pool and give its descriptor back. -/
def unlinkPool (s : ResPools C) (i : Fin ACORAL_MAX_POOLS) : Option (ResPools C) :=
  (acoralListDel s.links (.total i)).bind fun links =>
    (acoralListDel links (.free i)).map fun links =>
      let pool := s.pools i
      let s := { s with links := links }
      let s := s.setPool i
        { pool with baseAdr := s.freeResPool, id := pool.id &&& ACORAL_POOL_INDEX_MASK }
      { s with freeResPool := .pool i }

/-- The loop of `acoral_release_pool`, at the node `list`. The list is
the one of the `total_list` nodes, but `list_entry` is told that it is
the other. -/
def releasePoolLoop (head : PoolNode C) : (fuel : Nat) → PoolNode C → ResPools C →
    Option (ResPools C)
  | 0,        _,    _ => none
  | fuel + 1, list, s =>
      if list = head then some s
      else
        (freeListEntry list).bind fun i =>
          (unlinkPool s i).bind fun s => releasePoolLoop head fuel (s.links.next list) s

/-- `acoral_release_pool`. -/
def acoralReleasePool (fuel : Nat) (s : ResPools C) (c : C) : Option (ResPools C) :=
  releasePoolLoop (.totalHead c) fuel (s.links.next (.totalHead c)) s

/-- The loops of `acoral_release_pool` and `acoral_collect_pool`, at the node
`list`: each pool that is to go is unlinked. `freed` are the addresses that
`acoral_free` was called with. -/
def poolSweep (goes : AcoralPool C → Bool) (head : PoolNode C) : (fuel : Nat) → PoolNode C →
    ResPools C → (freed : List PoolPtr) → Option (ResPools C × List PoolPtr)
  | 0,        _,    _, _     => none
  | fuel + 1, list, s, freed =>
      if list = head then some (s, freed)
      else
        (freeListEntry list).bind fun i =>
          if goes (s.pools i) then
            (unlinkPool s i).bind fun s' =>
              poolSweep goes head fuel (s'.links.next list) s' (freed ++ [(s.pools i).baseAdr])
          else poolSweep goes head fuel (s.links.next list) s freed

/-- `acoral_collect_pool`, with what it frees. -/
def acoralCollectPool (fuel : Nat) (s : ResPools C) (c : C) :
    Option (ResPools C × List PoolPtr) :=
  poolSweep (fun pool => pool.freeNum = pool.num) (.freeHead c) fuel
    (s.links.next (.freeHead c)) s []

/-- `acoral_release_pool`, with what it frees. -/
def acoralReleasePoolFreed (fuel : Nat) (s : ResPools C) (c : C) :
    Option (ResPools C × List PoolPtr) :=
  poolSweep (fun _ => true) (.totalHead c) fuel (s.links.next (.totalHead c)) s []

theorem releasePoolLoop_eq (head : PoolNode C) (fuel : Nat) (list : PoolNode C) (s : ResPools C)
    (freed : List PoolPtr) : releasePoolLoop head fuel list s =
      (poolSweep (fun _ => true) head fuel list s freed).map Prod.fst := by
  induction fuel generalizing list s freed with
  | zero => rfl
  | succ fuel ih =>
      unfold releasePoolLoop poolSweep
      split
      · rfl
      · cases freeListEntry list with
        | none => rfl
        | some i =>
            cases hunlink : unlinkPool s i with
            | none => simp [hunlink]
            | some s' =>
                simp only [Option.bind_some, if_true, hunlink]
                exact ih _ _ _

/-- `acoral_release_pool` is its sweep. -/
theorem acoralReleasePool_eq (fuel : Nat) (s : ResPools C) (c : C) :
    acoralReleasePool fuel s c = (acoralReleasePoolFreed fuel s c).map Prod.fst :=
  releasePoolLoop_eq _ _ _ _ _

/-! ### The CPU field -/

/-- What `acoral_sched_rdyqueue_add` writes into the id of a thread on
the CPU `cpu`. -/
def rdyqueueAddId (id : BitVec 32) (cpu : Nat) : BitVec 32 :=
  if cpu = 0 then id &&& ~~~(1#32 <<< ACORAL_RES_CPU_BIT)
  else if cpu = 1 then id ||| 1#32 <<< ACORAL_RES_CPU_BIT
  else id

omit [DecidableEq C] in
theorem acoralSchedRdyqueueAdd_resId {T : Type} [DecidableEq T] (cur : Nat) (k : Sched T) (t : T) :
    ((acoralSchedRdyqueueAdd cur k t).thread t).resId =
      rdyqueueAddId (k.thread t).resId (k.thread t).cpu := by
  simp [acoralSchedRdyqueueAdd, rdyqueueAddId]

end ACoral
