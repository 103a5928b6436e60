import ACoral.Kernel.PendSystem
import ACoral.Lib.LockProgram

/-!
# `ACoral.Kernel.CriticalCalls`: `ipc.c` with its critical sections

The operations of `ipc.c` once more, instruction by instruction: each entry
to and exit from a critical section, each spin lock of an object, and the
data that is read and written in between, as a `Prog` over the data of the
kernel. Any other activity may come between two instructions, so a field that
the source reads again is read again here. Two fields are not: `mpcp->type`
is written once, by `acoral_mpcp_create`, and a local variable keeps its value.

The locks are `ipc->lock`, `mpcp->lock`, and that of the resource pool. The
locks of list nodes and queues never outlive the function that takes them,
and `move_lock` of a thread is given back by the scheduler.

`curCpu` is `acoral_current_cpu` at the start of the call, `n` is
`acoral_intr_nesting`. A call that follows a pointer to nothing hangs.
-/

set_option autoImplicit false

namespace ACoral.Critical

open Lib (Prog)

/-- The spin locks. -/
inductive SpinLock (R : Type) where
  /-- `ipc->lock` -/
  | ipc (i : CeilingObj R PendQueue)
  /-- `mpcp->lock` -/
  | mpcp (r : R)
  /-- `acoral_ipc_pool_ctrl.lock` -/
  | poolCtrl
  deriving DecidableEq

/-- The code of a function that returns `A`. -/
abbrev Code (R T A : Type) := Prog (CeilingState R PendQueue T) (SpinLock R) A

variable {R T : Type} [DecidableEq R] [DecidableEq T]

/-- `acoral_enter_critical`. -/
abbrev acoralEnterCritical : Code R T Unit := Prog.enterSection

/-- `acoral_exit_critical`. -/
abbrev acoralExitCritical : Code R T Unit := Prog.exitSection

/-- `acoral_spin_lock`. -/
abbrev acoralSpinLock (l : SpinLock R) : Code R T Unit := Prog.acquire l

/-- `acoral_spin_unlock`. -/
abbrev acoralSpinUnlock (l : SpinLock R) : Code R T Unit := Prog.release l

/-! ### Data -/

/-- The data of the kernel with another ready array. -/
def setSched (s : CeilingState R PendQueue T) (sched : Sched T) : CeilingState R PendQueue T :=
  { s with ipc := { s.ipc with sched := sched } }

/-- Change the objects, if they can be. -/
def ipcUpdate (f : IpcState (CeilingObj R PendQueue) T → Option (IpcState (CeilingObj R PendQueue) T)) :
    Code R T Unit :=
  Prog.update fun s => (f s.ipc).map fun ipc => { s with ipc := ipc }

/-- Change the objects. -/
def ipcModify (f : IpcState (CeilingObj R PendQueue) T → IpcState (CeilingObj R PendQueue) T) :
    Code R T Unit :=
  Prog.modify fun s => { s with ipc := f s.ipc }

/-! ### Threads (`thread.c`) -/

/-- `acoral_rdy_thread`. -/
def acoralRdyThread (thread : T) : Code R T Unit := do
  let s ← Prog.get
  if hasFlag (s.ipc.sched.thread thread).state ACORAL_THREAD_STATE_SUSPEND = false then pure ()
  else do
    let s ← Prog.get
    let current ← Prog.cpu
    if s.cpu thread ≠ current then
      Prog.modify fun a =>
        setSched a (acoralIpiCmdSend a.ipc.sched (s.cpu thread) .ACORAL_IPI_THREAD_READY thread 0)
    else do
      acoralEnterCritical
      Prog.modifyOn fun cpu a => setSched a (acoralSchedRdyqueueAdd cpu a.ipc.sched thread)
      acoralExitCritical

/-- `acoral_suspend_thread`. -/
def acoralSuspendThread (thread : T) : Code R T Unit := do
  let s ← Prog.get
  if hasFlag (s.ipc.sched.thread thread).state ACORAL_THREAD_STATE_READY = false then pure ()
  else do
    let s ← Prog.get
    let current ← Prog.cpu
    if s.cpu thread ≠ current then
      Prog.modify fun a =>
        setSched a (acoralIpiCmdSend a.ipc.sched (s.cpu thread) .ACORAL_IPI_THREAD_SUSPEND thread 0)
    else do
      acoralEnterCritical
      Prog.modifyOn fun cpu a => setSched a (acoralSchedRdyqueueDel cpu a.ipc.sched thread)
      acoralExitCritical

/-- `acoral_thread_change_prio`. -/
def acoralThreadChangePrio (thread : T) (prio : Nat) : Code R T Unit := do
  let s ← Prog.get
  let current ← Prog.cpu
  if s.cpu thread ≠ current then
    Prog.modify fun a =>
      setSched a (acoralIpiCmdSend a.ipc.sched (s.cpu thread)
        IpiCmd.ACORAL_IPI_THREAD_CHG_PRIO thread prio)
  else do
    acoralEnterCritical
    Prog.modifyOn fun cpu a =>
      setSched a <|
        if hasFlag (a.ipc.sched.thread thread).state ACORAL_THREAD_STATE_READY then
          acoralSchedRdyqueueAdd cpu ((acoralSchedRdyqueueDel cpu a.ipc.sched thread).setPrio thread
            prio) thread
        else a.ipc.sched.setPrio thread prio
    acoralExitCritical

/-- `acoral_jump_cpu`. The commands go to the mailbox of another CPU, which no
operation here reads. -/
def acoralJumpCpu (cur : T) (cpu : Nat) : Code R T Unit := do
  let s ← Prog.get
  if cpu ≥ CFG_MAX_CPU ∨ s.cpu cur = cpu then pure ()
  else do
    acoralEnterCritical
    let s ← Prog.get
    let current ← Prog.cpu
    if s.cpu cur ≠ current then acoralExitCritical
    else do
      acoralSuspendThread cur
      Prog.modify fun a =>
        let old := a.ipc.sched.thread cur
        let moved := { old with state := old.state ||| ACORAL_THREAD_STATE_MOVE }
        setSched a { a.ipc.sched with thread := Function.update a.ipc.sched.thread cur moved }
      acoralExitCritical

/-! ### Objects -/

/-- The checks of the arguments, and the rest of the operation. -/
def ipcChecked {A : Type}
    (check : IpcState (CeilingObj R PendQueue) T → Except KernelError (CeilingObj R PendQueue))
    (error : KernelError → A) (body : CeilingObj R PendQueue → Code R T A) : Code R T A := do
  let s ← Prog.get
  match check s.ipc with
  | .error e => pure (error e)
  | .ok i    => body i

/-- The start of the critical section of an object. -/
def ipcEnter (i : CeilingObj R PendQueue) : Code R T Unit := do
  acoralEnterCritical
  acoralSpinLock (.ipc i)

/-- Its end. -/
def ipcExit (i : CeilingObj R PendQueue) : Code R T Unit := do
  acoralSpinUnlock (.ipc i)
  acoralExitCritical

/-- Its end, where the call returns. -/
def ipcReturn {A : Type} (i : CeilingObj R PendQueue) (a : A) : Code R T A := do
  ipcExit i
  pure a

/-- `acoral_ipc_high_thread`. -/
def acoralIpcHighThread (i : CeilingObj R PendQueue) : Code R T (Option T) := do
  let s ← Prog.get
  match ACoral.acoralIpcHighThread s.ipc i with
  | some thread => pure thread
  | none        => do
      Prog.hang
      pure none

/-- The outcomes of `acoral_create_pool`, and no need of it. -/
inductive PoolAlloc where
  /-- a pool has a free object -/
  | available
  /-- there is no pool descriptor left -/
  | noPool
  /-- there is no memory for its objects -/
  | noMem
  | created
  deriving DecidableEq, Repr

/-- `acoral_get_res` of the object pools. The data of the pools is
`ACoral.Kernel.ResPool`'s; here is what it does to the critical sections:
`acoral_get_free_pool` and `acoral_malloc` have one of their own. -/
def acoralGetRes (pool : PoolAlloc) : Code R T Unit := do
  acoralEnterCritical
  acoralSpinLock .poolCtrl
  acoralCreatePool
  acoralSpinUnlock .poolCtrl
  acoralExitCritical
where
  acoralCreatePool : Code R T Unit :=
    match pool with
    | .available => pure ()
    | .noPool    => ownSection
    | .noMem     => ownSection
    | .created   => do
        ownSection
        ownSection
  ownSection : Code R T Unit := do
    acoralEnterCritical
    acoralExitCritical

/-- `acoral_free`, and `acoral_malloc` where it gets memory. -/
def memCall : Code R T Unit := do
  acoralEnterCritical
  acoralExitCritical

/-- The deletion of an object. -/
def ipcDel (type : IpcType) (done : KernelError) (n : Nat)
    (ipc : Option (CeilingObj R PendQueue)) : Code R T KernelError :=
  ipcChecked (ipcPendCheck type n · ipc) id fun i => do
    ipcEnter i
    let s ← Prog.get
    if s.ipc.links.next (.head i) = .head i then ipcReturn i done
    else ipcReturn i .KR_IPC_ERR_TASK_EXIST

/-- `acoral_mutex_del`. -/
def acoralMutexDel (n : Nat) (ipc : Option (CeilingObj R PendQueue)) : Code R T KernelError :=
  ipcDel .ACORAL_IPC_MUTEX .KR_OK n ipc

/-- `acoral_sem_del`. -/
def acoralSemDel (n : Nat) (ipc : Option (CeilingObj R PendQueue)) : Code R T KernelError :=
  ipcDel .ACORAL_IPC_SEM .KR_IPC_ERR_UNDEF n ipc

/-! ### Mutexes -/

/-- `acoral_mutex_trypend`. -/
def acoralMutexTrypend (cur : T) (n : Nat) (ipc : Option (CeilingObj R PendQueue)) :
    Code R T KernelError :=
  ipcChecked (ipcPendCheck .ACORAL_IPC_MUTEX n · ipc) id fun i => do
    ipcEnter i
    let s ← Prog.get
    if (s.ipc.ipc i).count = MUTEX_AVAI then do
      ipcModify (takeMutex · i cur)
      ipcReturn i .KR_OK
    else ipcReturn i .KR_IPC_ERR_TIMEOUT

/-- `acoral_mutex_pend`. -/
def acoralMutexPend (fuel : Nat) (cur : T) (n : Nat) (ipc : Option (CeilingObj R PendQueue)) :
    Code R T KernelError :=
  ipcChecked (ipcPendCheck .ACORAL_IPC_MUTEX n · ipc) id fun i => do
    ipcEnter i
    let s ← Prog.get
    if (s.ipc.ipc i).count = MUTEX_AVAI then do
      ipcModify (takeMutex · i cur)
      ipcReturn i .KR_OK
    else do
      acoralSuspendThread cur
      ipcUpdate (acoralIpcWaitQueueAdd fuel · i cur)
      ipcExit i
      -- the schedule point
      ipcEnter i
      let s ← Prog.get
      if (s.ipc.ipc i).data = none then do
        ipcUpdate (acoralIpcWaitQueueDel · cur)
        ipcModify (takeMutex · i cur)
        ipcReturn i .KR_OK
      else ipcReturn i .KR_IPC_ERR_UNDEF

/-- `acoral_mutex_post`. -/
def acoralMutexPost (cur : T) (ipc : Option (CeilingObj R PendQueue)) : Code R T KernelError :=
  ipcChecked (ipcCheck .ACORAL_IPC_MUTEX · ipc) id fun i => do
    let s ← Prog.get
    if (s.ipc.ipc i).data ≠ some cur then pure .KR_IPC_ERR_THREAD
    else do
      ipcModify fun s => { s with threadIpc := Function.update s.threadIpc cur none }
      ipcEnter i
      ipcModify fun s => s.setIpc i { s.ipc i with count := MUTEX_AVAI, data := none }
      let thread ← acoralIpcHighThread i
      match thread with
      | none        => ipcReturn i .KR_OK
      | some thread => do
          ipcExit i
          acoralRdyThread thread
          pure .KR_OK

/-! ### Semaphores -/

/-- `acoral_sem_trypend`. -/
def acoralSemTrypend (n : Nat) (ipc : Option (CeilingObj R PendQueue)) : Code R T KernelError :=
  ipcChecked (ipcPendCheck .ACORAL_IPC_SEM n · ipc) id fun i => do
    ipcEnter i
    let s ← Prog.get
    if semAvailable (s.ipc.ipc i).count then do
      ipcModify (incCount · i)
      ipcReturn i .KR_OK
    else ipcReturn i .KR_IPC_ERR_TIMEOUT

/-- The part that `acoral_sem_pend` and `acoral_sem_pends` share: wait for a
post. -/
def semWait (fuel : Nat) (cur : T) (i : CeilingObj R PendQueue) : Code R T KernelError := do
  acoralSuspendThread cur
  ipcUpdate (acoralIpcWaitQueueAdd fuel · i cur)
  ipcExit i
  -- the schedule point
  ipcEnter i
  ipcUpdate (acoralIpcWaitQueueDel · cur)
  ipcReturn i .KR_OK

/-- `acoral_sem_pends`. -/
def acoralSemPends (fuel : Nat) (cur : T) (n : Nat) (ipc : Option (CeilingObj R PendQueue)) :
    Code R T KernelError :=
  ipcChecked (ipcPendCheck .ACORAL_IPC_SEM n · ipc) id fun i => do
    ipcEnter i
    let s ← Prog.get
    if semAvailable (s.ipc.ipc i).count then ipcReturn i .KR_OK
    else semWait fuel cur i

/-- `acoral_sem_pend`. -/
def acoralSemPend (fuel : Nat) (cur : T) (n : Nat) (ipc : Option (CeilingObj R PendQueue)) :
    Code R T KernelError :=
  ipcChecked (ipcPendCheck .ACORAL_IPC_SEM n · ipc) id fun i => do
    ipcEnter i
    let s ← Prog.get
    if semAvailable (s.ipc.ipc i).count then do
      ipcModify (incCount · i)
      ipcReturn i .KR_OK
    else do
      ipcModify (incCount · i)
      semWait fuel cur i

/-- The loop of `acoral_sem_posts`. -/
def semRdyAll (i : CeilingObj R PendQueue) :
    (fuel : Nat) → (tmp : IpcNode (CeilingObj R PendQueue) T) → Code R T Unit
  | 0,        _          => Prog.hang
  | _ + 1,    .head j    => if j = i then pure () else Prog.hang
  | fuel + 1, .pending t => do
      acoralRdyThread t
      let s ← Prog.get
      semRdyAll i fuel (s.ipc.links.next (.pending t))

/-- `acoral_sem_posts`. The test of the count has no other branch. -/
def acoralSemPosts (fuel : Nat) (ipc : Option (CeilingObj R PendQueue)) : Code R T KernelError :=
  ipcChecked (ipcCheck .ACORAL_IPC_SEM · ipc) id fun i => do
    ipcEnter i
    let s ← Prog.get
    if (s.ipc.ipc i).count.toInt ≥ -32768 then do
      ipcModify fun s => if (s.ipc i).count.toInt ≤ 1 then decCount s i else s
      let s ← Prog.get
      semRdyAll i fuel (s.ipc.links.next (.head i))
      ipcReturn i .KR_OK
    else pure .KR_OK

/-- `acoral_sem_post`. The branch of a count below its range gives the lock
back, and stays in the critical section. -/
def acoralSemPost (ipc : Option (CeilingObj R PendQueue)) : Code R T KernelError :=
  ipcChecked (ipcCheck .ACORAL_IPC_SEM · ipc) id fun i => do
    ipcEnter i
    let s ← Prog.get
    if (s.ipc.ipc i).count.toInt ≥ -32768 then do
      let s ← Prog.get
      if (s.ipc.ipc i).count.toInt ≤ 1 then do
        ipcModify (decCount · i)
        ipcReturn i .KR_OK
      else do
        ipcModify (decCount · i)
        let thread ← acoralIpcHighThread i
        match thread with
        | none        => ipcReturn i .KR_IPC_ERR_UNDEF
        | some thread => do
            acoralRdyThread thread
            ipcReturn i .KR_OK
    else do
      acoralSpinUnlock (.ipc i)
      pure .KR_IPC_ERR_UNDEF

/-- `acoral_sem_getnum`. -/
def acoralSemGetnum : Option (CeilingObj R PendQueue) → Code R T Int
  | none   => pure KernelError.KR_IPC_ERR_NULL.code
  | some i => do
      ipcEnter i
      let s ← Prog.get
      ipcReturn i (1 - (s.ipc.ipc i).count.toInt)

/-! ### Both ceiling protocols -/

/-- The thread that uses the resource at the top of the stack gets the
priority of `cur`. -/
def inheritPrio (k : PendQueue) (cur : T) : Code R T Unit := do
  let s ← Prog.get
  match (s.stackTop k).bind s.owner with
  | some t => acoralThreadChangePrio t (s.prio cur)
  | none   => Prog.hang

/-- The end of a pend: `if (sem->data == NULL) sem->data = cur;`, and the
semaphore. -/
def ceilingTake (fuel : Nat) (cur : T) (n : Nat) (r : R) : Code R T KernelError := do
  let s ← Prog.get
  if s.owner r = none then do
    Prog.modify fun s => s.setOwner r (some cur)
    acoralSemPend fuel cur n (some (.sem r))
  else acoralSemPend fuel cur n (some (.sem r))

/-- The head of the wait queue of a system. -/
def waitHead (k : PendQueue) : Code R T (Option T) := acoralIpcHighThread (.wait k)

/-! ### MPCP -/

/-- `acoral_mpcp_create`. Behind the allocation of its own block it makes a
semaphore, unless its type is neither of the two. -/
def acoralMpcpCreate : Option PoolAlloc → Code R T Unit
  | none      => memCall
  | some pool => do
      memCall
      acoralGetRes pool

/-- `acoral_mpcp_pend` of a local resource: what comes before the semaphore. -/
def mpcpLocal (fuel : Nat) (curCpu : Nat) (cur : T) (r : R) : Code R T Unit := do
  let s ← Prog.get
  if s.prio cur ≥ s.sysPrio (.mpcp curCpu) then do
    inheritPrio (.mpcp curCpu) cur
    Prog.update (CeilingState.waitAdd fuel · (.mpcp curCpu) cur)
    acoralSuspendThread cur
    mpcpPush
  else mpcpPush
where
  mpcpPush : Code R T Unit := do
    let s ← Prog.get
    if s.prio cur < s.sysPrio (.mpcp curCpu) then do
      Prog.update (CeilingState.push · (.mpcp curCpu) r)
      Prog.modify fun s => s.setPrioSwitch r (BitVec.ofNat 8 (s.prio cur))
    else pure ()

/-- `acoral_mpcp_pend` of a global resource: what comes before the semaphore,
behind the lock. -/
def mpcpGlobal (cur : T) (r : R) : Code R T Unit := do
  Prog.modify fun s => s.switchPreempt cur .ACORAL_PREEMPT_LOCAL .ACORAL_PREEMPT_GLOBAL
  let s ← Prog.get
  if s.owner r = none then do
    Prog.modify fun s => s.setPrioSwitch r (BitVec.ofNat 8 (s.prio cur))
    let s ← Prog.get
    acoralThreadChangePrio cur (s.res r).prioCeiling
  else pure ()

/-- `acoral_mpcp_pend`. -/
def acoralMpcpPend (fuel : Nat) (curCpu : Nat) (cur : T) (n : Nat) (r : R) :
    Code R T KernelError := do
  let s ← Prog.get
  match (s.res r).type with
  | .LOCAL =>
      if (s.res r).cpu ≠ curCpu then pure .KR_IPC_ERR_CPU
      else do
        mpcpLocal fuel curCpu cur r
        ceilingTake fuel cur n r
  | .GLOBAL => do
      acoralSpinLock (.mpcp r)
      mpcpGlobal cur r
      let err ← ceilingTake fuel cur n r
      acoralSpinUnlock (.mpcp r)
      pure err

/-- The part of `acoral_mpcp_post` that restores the priority. -/
def mpcpRestore (cur : T) (r : R) : Code R T Unit := do
  let s ← Prog.get
  if s.prio cur ≠ (s.res r).prioSwitch.toNat then do
    acoralThreadChangePrio cur (s.res r).prioSwitch.toNat
    clear
  else clear
where
  clear : Code R T Unit := Prog.modify fun s => (s.setPrioSwitch r 0).setOwner r none

/-- `acoral_mpcp_post`. -/
def acoralMpcpPost (curCpu : Nat) (cur : T) (r : R) : Code R T KernelError := do
  let s ← Prog.get
  if s.owner r ≠ some cur then pure .KR_IPC_ERR_THREAD
  else
    match (s.res r).type with
    | .LOCAL => do
        Prog.update (CeilingState.pop · (.mpcp curCpu) r)
        let head ← waitHead (.mpcp curCpu)
        match head with
        | some thread => do
            acoralRdyThread thread
            mpcpRestore cur r
            acoralSemPost (some (.sem r))
        | none => do
            mpcpRestore cur r
            acoralSemPost (some (.sem r))
    | .GLOBAL => do
        acoralSpinLock (.mpcp r)
        Prog.modify fun s => s.switchPreempt cur .ACORAL_PREEMPT_GLOBAL .ACORAL_PREEMPT_LOCAL
        mpcpRestore cur r
        let err ← acoralSemPost (some (.sem r))
        acoralSpinUnlock (.mpcp r)
        pure err

/-- `acoral_mpcp_del`. -/
def acoralMpcpDel (n : Nat) (r : R) : Code R T KernelError := do
  let err ← acoralSemDel n (some (.sem r))
  memCall
  pure err

/-! ### DPCP -/

/-- `acoral_dpcp_create`. -/
def acoralDpcpCreate (pool : PoolAlloc) : Code R T Unit := do
  memCall
  acoralGetRes pool

/-- The loop of `acoral_dpcp_pend` for a local resource. -/
def dpcpLocalLoop (fuel : Nat) (curCpu : Nat) (cur : T) (r : R) : (rounds : Nat) → Code R T Unit
  | 0          => Prog.hang
  | rounds + 1 => do
      let s ← Prog.get
      if s.prio cur ≥ s.sysPrio (.dpcp .LOCAL curCpu) then do
        inheritPrio (.dpcp .LOCAL curCpu) cur
        Prog.update (CeilingState.waitAdd fuel · (.dpcp .LOCAL curCpu) cur)
        acoralExitCritical
        acoralSuspendThread cur
        acoralEnterCritical
        dpcpLocalLoop fuel curCpu cur r rounds
      else do
        Prog.update (CeilingState.push · (.dpcp .LOCAL curCpu) r)
        -- the flag does not fit into the `acoral_u8`
        Prog.modify fun s =>
          let value := (1#32 <<< PRIO_SWITCH_FLAG_SHIFT) ||| BitVec.ofNat 32 (s.prio cur)
          s.setPrioSwitch r (value.setWidth 8)

/-- The second test of a round for a global resource. -/
def dpcpTest (cur : T) (r : R) (again : Code R T Unit) : Code R T Unit := do
  let s ← Prog.get
  if s.prio cur < s.sysPrio (.dpcp .GLOBAL (s.res r).cpu) then
    Prog.update fun s => s.push (.dpcp .GLOBAL (s.res r).cpu) r
  else again

/-- The loop of `acoral_dpcp_pend` for a global resource. -/
def dpcpGlobalLoop (fuel : Nat) (cur : T) (r : R) : (rounds : Nat) → Code R T Unit
  | 0          => Prog.hang
  | rounds + 1 => do
      let s ← Prog.get
      if s.prio cur ≥ s.sysPrio (.dpcp .GLOBAL (s.res r).cpu) then do
        Prog.update fun s => s.waitAdd fuel (.dpcp .GLOBAL (s.res r).cpu) cur
        acoralExitCritical
        acoralSuspendThread cur
        acoralEnterCritical
        dpcpTest cur r (dpcpGlobalLoop fuel cur r rounds)
      else dpcpTest cur r (dpcpGlobalLoop fuel cur r rounds)

/-- `acoral_dpcp_pend` migrates to the CPU of a global resource. -/
def dpcpMigrate (cur : T) (r : R) : Code R T Unit := do
  let s ← Prog.get
  if s.cpu cur ≠ (s.res r).cpu then do
    Prog.modify fun a => { a with data := Function.update a.data cur (some (.origin (s.cpu cur))) }
    acoralExitCritical
    let s ← Prog.get
    acoralJumpCpu cur (s.res r).cpu
    acoralEnterCritical
  else pure ()

/-- The end of `acoral_dpcp_pend`. -/
def dpcpTake (fuel : Nat) (cur : T) (n : Nat) (r : R) : Code R T KernelError := do
  let err ← ceilingTake fuel cur n r
  acoralExitCritical
  pure err

/-- `acoral_dpcp_pend`. The error exit stays in the critical section. -/
def acoralDpcpPend (fuel : Nat) (curCpu : Nat) (cur : T) (n : Nat) (r : R) :
    Code R T KernelError := do
  acoralEnterCritical
  let s ← Prog.get
  match (s.res r).type with
  | .LOCAL =>
      if (s.res r).cpu ≠ curCpu then pure .KR_IPC_ERR_CPU
      else do
        dpcpLocalLoop fuel curCpu cur r fuel
        dpcpTake fuel cur n r
  | .GLOBAL => do
      dpcpMigrate cur r
      Prog.modify fun s => s.switchPreempt cur .ACORAL_PREEMPT_LOCAL .ACORAL_PREEMPT_GLOBAL
      dpcpGlobalLoop fuel cur r fuel
      dpcpTake fuel cur n r

/-- The resource leaves the stack, and the head of the wait queue is readied. -/
def dpcpWake (k : PendQueue) (r : R) : Code R T Unit := do
  Prog.update (CeilingState.pop · k r)
  let head ← waitHead k
  match head with
  | some thread => do
      Prog.update (CeilingState.waitDel · thread)
      acoralRdyThread thread
  | none => pure ()

/-- The part of `acoral_dpcp_post` that restores the priority. -/
def dpcpRestore (cur : T) (r : R) : Code R T Unit := do
  let s ← Prog.get
  let prioSwitch := (s.res r).prioSwitch.setWidth 32
  if prioSwitch &&& PRIO_SWITCH_FLAG_MASK ≠ 0 then do
    changeBack s prioSwitch
    Prog.modify fun s => s.setPrioSwitch r 0
    Prog.modify fun s => s.setOwner r none
  else Prog.modify fun s => s.setOwner r none
where
  changeBack (s : CeilingState R PendQueue T) (prioSwitch : BitVec 32) : Code R T Unit :=
    if s.prio cur ≠ (prioSwitch &&& PRIO_SWITCH_MASK).toNat then
      acoralThreadChangePrio cur prioSwitch.toNat
    else pure ()

/-- `acoral_dpcp_post` migrates back. -/
def dpcpReturn (curCpu : Nat) (cur : T) (r : R) (originCpuP : Option ThreadData) :
    Code R T Unit := do
  let s ← Prog.get
  match (s.res r).type, originCpuP with
  | .GLOBAL, some p =>
      if p.word ≠ curCpu then do
        Prog.modify fun a => { a with data := Function.update a.data cur none }
        acoralExitCritical
        acoralJumpCpu cur p.word
        acoralEnterCritical
      else pure ()
  | _, _ => pure ()

/-- The end of `acoral_dpcp_post`. -/
def dpcpRelease (curCpu : Nat) (cur : T) (r : R) (originCpuP : Option ThreadData) :
    Code R T KernelError := do
  dpcpRestore cur r
  let err ← acoralSemPost (some (.sem r))
  dpcpReturn curCpu cur r originCpuP
  acoralExitCritical
  pure err

/-- `acoral_dpcp_post`. Both error exits stay in the critical section. -/
def acoralDpcpPost (curCpu : Nat) (cur : T) (r : R) : Code R T KernelError := do
  let start ← Prog.get
  acoralEnterCritical
  if start.owner r ≠ some cur then pure .KR_IPC_ERR_THREAD
  else do
    let s ← Prog.get
    match (s.res r).type with
    | .LOCAL =>
        if (s.res r).cpu ≠ curCpu then pure .KR_IPC_ERR_CPU
        else do
          dpcpWake (.dpcp .LOCAL curCpu) r
          dpcpRelease curCpu cur r (start.data cur)
    | .GLOBAL => do
        Prog.modify fun s => s.switchPreempt cur .ACORAL_PREEMPT_GLOBAL .ACORAL_PREEMPT_LOCAL
        let s ← Prog.get
        dpcpWake (.dpcp .GLOBAL (s.res r).cpu) r
        dpcpRelease curCpu cur r (start.data cur)

/-- `acoral_dpcp_del`. -/
def acoralDpcpDel (n : Nat) (r : R) : Code R T KernelError := do
  let err ← acoralSemDel n (some (.sem r))
  Prog.update fun s =>
    if s.stack.next (.stacking r) ≠ .stacking r then s.lifoQueueDel r else some s
  memCall
  pure err

/-! ### The calls -/

/-- The operations. `cur` is the calling thread, `n` the interrupt nesting. -/
inductive CriticalCall (R T : Type) where
  | acoral_ipc_alloc (pool : PoolAlloc)
  | acoral_mutex_del (n : Nat) (ipc : Option (CeilingObj R PendQueue))
  | acoral_mutex_trypend (cur : T) (n : Nat) (ipc : Option (CeilingObj R PendQueue))
  | acoral_mutex_pend (cur : T) (n : Nat) (ipc : Option (CeilingObj R PendQueue))
  | acoral_mutex_post (cur : T) (ipc : Option (CeilingObj R PendQueue))
  | acoral_sem_del (n : Nat) (ipc : Option (CeilingObj R PendQueue))
  | acoral_sem_trypend (n : Nat) (ipc : Option (CeilingObj R PendQueue))
  | acoral_sem_pends (cur : T) (n : Nat) (ipc : Option (CeilingObj R PendQueue))
  | acoral_sem_pend (cur : T) (n : Nat) (ipc : Option (CeilingObj R PendQueue))
  | acoral_sem_posts (ipc : Option (CeilingObj R PendQueue))
  | acoral_sem_post (ipc : Option (CeilingObj R PendQueue))
  | acoral_sem_getnum (ipc : Option (CeilingObj R PendQueue))
  | acoral_mpcp_create (pool : Option PoolAlloc)
  | acoral_mpcp_pend (cur : T) (n : Nat) (r : R)
  | acoral_mpcp_post (cur : T) (r : R)
  | acoral_mpcp_del (n : Nat) (r : R)
  | acoral_dpcp_create (pool : PoolAlloc)
  | acoral_dpcp_pend (cur : T) (n : Nat) (r : R)
  | acoral_dpcp_post (cur : T) (r : R)
  | acoral_dpcp_del (n : Nat) (r : R)

/-- The code of a call on the CPU `curCpu`. -/
def CriticalCall.code (fuel : Nat) (c : CriticalCall R T) (curCpu : Nat) : Code R T Unit :=
  match c with
  | .acoral_ipc_alloc pool            => acoralGetRes pool
  | .acoral_mutex_del n ipc           => discard (acoralMutexDel n ipc)
  | .acoral_mutex_trypend cur n ipc   => discard (acoralMutexTrypend cur n ipc)
  | .acoral_mutex_pend cur n ipc      => discard (acoralMutexPend fuel cur n ipc)
  | .acoral_mutex_post cur ipc        => discard (acoralMutexPost cur ipc)
  | .acoral_sem_del n ipc             => discard (acoralSemDel n ipc)
  | .acoral_sem_trypend n ipc         => discard (acoralSemTrypend n ipc)
  | .acoral_sem_pends cur n ipc       => discard (acoralSemPends fuel cur n ipc)
  | .acoral_sem_pend cur n ipc        => discard (acoralSemPend fuel cur n ipc)
  | .acoral_sem_posts ipc             => discard (acoralSemPosts fuel ipc)
  | .acoral_sem_post ipc              => discard (acoralSemPost ipc)
  | .acoral_sem_getnum ipc            => discard (acoralSemGetnum ipc)
  | .acoral_mpcp_create pool          => acoralMpcpCreate pool
  | .acoral_mpcp_pend cur n r         => discard (acoralMpcpPend fuel curCpu cur n r)
  | .acoral_mpcp_post cur r           => discard (acoralMpcpPost curCpu cur r)
  | .acoral_mpcp_del n r              => discard (acoralMpcpDel n r)
  | .acoral_dpcp_create pool          => acoralDpcpCreate pool
  | .acoral_dpcp_pend cur n r         => discard (acoralDpcpPend fuel curCpu cur n r)
  | .acoral_dpcp_post cur r           => discard (acoralDpcpPost curCpu cur r)
  | .acoral_dpcp_del n r              => discard (acoralDpcpDel n r)
where
  /-- the return value does not matter here -/
  discard {A : Type} (p : Code R T A) : Code R T Unit := p >>= fun _ => pure ()

end ACoral.Critical
