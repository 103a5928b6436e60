import ACoral.Kernel.Ceiling
import ACoral.Kernel.ResPoolSystem

/-!
# `ACoral.Kernel.IpcObjects`: creating and deleting IPC objects

Mutexes and semaphores are resources of the pools of
`acoral_ipc_pool_ctrl`, and are named by their addresses. An MPCP or DPCP
resource is a block of `acoral_malloc` that points to a semaphore.

The answers of `acoral_malloc` are arguments: `malloc` for a new pool, and
`block` for a ceiling resource. The code does not test the latter, so the
call does not return if there is no memory.

`acoral_dpcp_del` also takes the resource off the stack of its CPU and
frees its data block. Neither is an IPC object.
-/

set_option autoImplicit false

namespace ACoral

/-- The control blocks of the kernel. -/
inductive KernelPool where
  | acoral_thread_pool_ctrl
  | acoral_ipc_pool_ctrl
  deriving DecidableEq, Repr

/-- `acoral_mpcp_t` and `acoral_dpcp_t`. -/
structure CeilingBlock where
  sem : Option Nat
  res : CeilingRes

/-- The data that creating and deleting IPC objects reads and writes. -/
structure IpcObjects (T : Type) where
  pools : ResPools KernelPool
  ipc : IpcState Nat T
  /-- the ceiling resource at an address -/
  ceiling : Nat → CeilingBlock

variable {T : Type} [DecidableEq T]

namespace IpcObjects

/-- Write the ceiling resource at an address. -/
def setCeiling (s : IpcObjects T) (adr : Nat) (b : CeilingBlock) : IpcObjects T :=
  { s with ceiling := Function.update s.ceiling adr b }

end IpcObjects

/-- `acoral_ipc_alloc`. -/
def acoralIpcAlloc (malloc : Option Nat) (s : IpcObjects T) :
    Option (IpcObjects T × Option Nat) :=
  (acoralGetRes s.pools .acoral_ipc_pool_ctrl malloc).map fun (pools, ipc) =>
    ({ s with pools := pools }, ipc)

/-! ### Mutexes and semaphores -/

/-- `acoral_mutex_create`. -/
def acoralMutexCreate (malloc : Option Nat) (s : IpcObjects T) :
    Option (IpcObjects T × Option Nat) :=
  (acoralIpcAlloc malloc s).map fun
    | (s, none)     => (s, none)
    | (s, some ipc) => ({ s with ipc := (acoralMutexInit (some ipc) s.ipc).2 }, some ipc)

/-- `acoral_sem_create`. -/
def acoralSemCreate (semNum : BitVec 32) (malloc : Option Nat) (s : IpcObjects T) :
    Option (IpcObjects T × Option Nat) :=
  (acoralIpcAlloc malloc s).map fun
    | (s, none)     => (s, none)
    | (s, some ipc) => ({ s with ipc := (acoralSemInit (some ipc) semNum s.ipc).2 }, some ipc)

/-- `acoral_ipc_wait_queue_empty`. -/
def acoralIpcWaitQueueEmpty (s : IpcState Nat T) (ipc : Nat) : Bool :=
  decide (s.links.next (.head ipc) = .head ipc)

/-- The deletion of an object: the checks, and what it returns if no
thread waits. It changes nothing, and does not release the object. -/
def ipcDel (type : IpcType) (done : KernelError) (intrNesting : Nat) (ipc : Option Nat)
    (s : IpcObjects T) : KernelError × IpcObjects T :=
  match ipcPendCheck type intrNesting s.ipc ipc with
  | .error e => (e, s)
  | .ok i    =>
      if acoralIpcWaitQueueEmpty s.ipc i then (done, s) else (.KR_IPC_ERR_TASK_EXIST, s)

/-- `acoral_mutex_del`. -/
def acoralMutexDel (intrNesting : Nat) (ipc : Option Nat) (s : IpcObjects T) :
    KernelError × IpcObjects T :=
  ipcDel .ACORAL_IPC_MUTEX .KR_OK intrNesting ipc s

/-- `acoral_sem_del`. It reports an error also if no thread waits. -/
def acoralSemDel (intrNesting : Nat) (ipc : Option Nat) (s : IpcObjects T) :
    KernelError × IpcObjects T :=
  ipcDel .ACORAL_IPC_SEM .KR_IPC_ERR_UNDEF intrNesting ipc s

/-! ### Ceiling resources -/

/-- `mpcp->cpu` of a global resource, and `UNBIND_CPU` of DPCP. -/
def UNBIND_CPU : Nat := 0xff

/-- `acoral_mpcp_create`, on the CPU `cur`. A resource of neither type is
not returned, and its block stays allocated. -/
def acoralMpcpCreate (cur : Nat) (type : BitVec 8) (prioCeiling : BitVec 8) (block : Option Nat)
    (malloc : Option Nat) (s : IpcObjects T) : Option (IpcObjects T × Option Nat) :=
  block.bind fun mpcp =>
    let create (type : CeilingType) (cpu : Nat) : Option (IpcObjects T × Option Nat) :=
      let res : CeilingRes :=
        { type := type, cpu := cpu, prioCeiling := prioCeiling.toNat, prioSwitch := 0
          stackingValue := prioCeiling.toNat }
      (acoralSemCreate 1 malloc s).map fun (s, sem) =>
        (s.setCeiling mpcp { sem := sem, res := res }, some mpcp)
    if type = 1 then create .GLOBAL UNBIND_CPU
    else if type = 0 then create .LOCAL cur
    else some (s, none)

/-- `acoral_mpcp_del`. -/
def acoralMpcpDel (intrNesting : Nat) (mpcp : Nat) (s : IpcObjects T) :
    KernelError × IpcObjects T :=
  acoralSemDel intrNesting (s.ceiling mpcp).sem s

/-- `acoral_dpcp_create`. -/
def acoralDpcpCreate (block : Option Nat) (malloc : Option Nat) (s : IpcObjects T) :
    Option (IpcObjects T × Option Nat) :=
  block.bind fun dpcp =>
    let res : CeilingRes :=
      { type := .LOCAL, cpu := UNBIND_CPU, prioCeiling := ACORAL_MAX_PRIO_NUM, prioSwitch := 0
        stackingValue := ACORAL_MAX_PRIO_NUM }
    (acoralSemCreate 1 malloc s).map fun (s, sem) =>
      (s.setCeiling dpcp { sem := sem, res := res }, some dpcp)

/-- `acoral_dpcp_del`, as far as it is about the semaphore. -/
def acoralDpcpDel (intrNesting : Nat) (dpcp : Nat) (s : IpcObjects T) :
    KernelError × IpcObjects T :=
  acoralSemDel intrNesting (s.ceiling dpcp).sem s

/-! ### Runs -/

/-- The kinds of IPC objects. -/
inductive IpcKind where
  | mutex
  | sem
  | mpcp
  | dpcp
  deriving DecidableEq, Repr

/-- A call that creates an object. `malloc` and `block` are the answers of
`acoral_malloc`. -/
inductive IpcCreate where
  | mutex
  | sem (semNum : BitVec 32)
  | mpcp (cur : Nat) (type prioCeiling : BitVec 8) (block : Option Nat)
  | dpcp (block : Option Nat)

/-- The kind of object that a call creates. -/
def IpcCreate.kind : IpcCreate → IpcKind
  | .mutex        => .mutex
  | .sem _        => .sem
  | .mpcp _ _ _ _ => .mpcp
  | .dpcp _       => .dpcp

/-- One creation. -/
def IpcCreate.call (call : IpcCreate) (malloc : Option Nat) (s : IpcObjects T) :
    Option (IpcObjects T × Option Nat) :=
  match call with
  | .mutex                       => acoralMutexCreate malloc s
  | .sem semNum                  => acoralSemCreate semNum malloc s
  | .mpcp cur type ceiling block => acoralMpcpCreate cur type ceiling block malloc s
  | .dpcp block                  => acoralDpcpCreate block malloc s

/-- One deletion, outside of interrupts. -/
def IpcKind.del (kind : IpcKind) (obj : Nat) (s : IpcObjects T) : KernelError × IpcObjects T :=
  match kind with
  | .mutex => acoralMutexDel 0 (some obj) s
  | .sem   => acoralSemDel 0 (some obj) s
  | .mpcp  => acoralMpcpDel 0 obj s
  | .dpcp  => acoralDpcpDel 0 obj s

/-- The IPC object of an object: itself, or its semaphore. -/
def IpcObjects.ipcOf (s : IpcObjects T) : IpcKind → Nat → Option Nat
  | .mutex, obj | .sem, obj => some obj
  | .mpcp, obj | .dpcp, obj => (s.ceiling obj).sem

/-- The steps of a run. -/
inductive IpcObjOp where
  | create (call : IpcCreate) (malloc : Option Nat)
  | del (kind : IpcKind) (obj : Nat)

/-- A run in progress: the objects that have been created and not yet
deleted, and the number of the deletions. -/
structure IpcObjRun (T : Type) where
  objs : IpcObjects T
  live : List (IpcKind × Nat)
  deleted : Nat

namespace IpcObjRun

/-- Memory for a new pool is apart from the other pools. Only objects that
exist are deleted, while no thread waits for them. -/
def guard (s : IpcObjRun T) : IpcObjOp → Bool
  | .create _ malloc =>
      let b := s.objs.pools.ctrl .acoral_ipc_pool_ctrl
      s.objs.pools.mallocOk (b.size * b.numPerPool) malloc
  | .del kind obj =>
      decide ((kind, obj) ∈ s.live) &&
        (s.objs.ipcOf kind obj).all fun ipc => acoralIpcWaitQueueEmpty s.objs.ipc ipc

/-- One step. A creation counts if there is an IPC object afterwards. -/
def step (s : IpcObjRun T) : IpcObjOp → Option (IpcObjRun T)
  | .create call malloc =>
      (call.call malloc s.objs).map fun (objs, obj) =>
        match obj with
        | none     => { s with objs := objs }
        | some obj =>
            if (objs.ipcOf call.kind obj).isSome then
              { s with objs := objs, live := (call.kind, obj) :: s.live }
            else { s with objs := objs }
  | .del kind obj =>
      some
        { objs := (kind.del obj s.objs).2
          live := s.live.erase (kind, obj)
          deleted := s.deleted + 1 }

/-- Execute the steps in order. -/
def run (s : IpcObjRun T) (ops : List IpcObjOp) : Option (IpcObjRun T) :=
  Lib.run (Lib.guarded guard step) s ops

/-- No object has been created yet. -/
def start (s : IpcObjects T) : IpcObjRun T := { objs := s, live := [], deleted := 0 }

end IpcObjRun

end ACoral
