import ACoral.Kernel.Queue
import ACoral.Kernel.Thread

/-!
# `ACoral.Kernel.Ipc`: mutexes and semaphores (`kernel/src/ipc.c`)

The objects are elements of a type `I` and the threads elements of
`T`. All wait queues live in one heap of list nodes: the head of each
object's queue and the `pending` node of each thread. The queues are in
the priority mode that the configuration selects.

A blocking call has two critical sections. The first one either returns
or leaves the thread suspended in the wait queue (`CallResult.blocked`);
`…Resume` is the second one, which the thread executes once it runs
again. The calls of `acoral_mutex_post` return the thread that the
caller readies after its critical section.

`none` says that a call does not return (a list operation that takes a
lock twice, or a loop that does not end), or that it follows a pointer
which is no thread.

A thread is made ready on its own CPU. For a thread of another CPU that
is what the command sent by `acoral_rdy_thread` does there.
-/

set_option autoImplicit false

namespace ACoral

open Lib (Links)

/-- The `type` of an object. -/
inductive IpcType where
  | ACORAL_IPC_MUTEX
  | ACORAL_IPC_SEM
  | ACORAL_IPC_MBOX
  deriving DecidableEq, Repr

/-- The fields of `acoral_ipc_t` beside its wait queue. -/
structure Ipc (T : Type) where
  /-- `type` -/
  type : IpcType
  /-- `count`, an `acoral_16` -/
  count : BitVec 16
  /-- `number`, an `acoral_u16` -/
  number : BitVec 16
  /-- `data`: the owner of a mutex, or `NULL` -/
  data : Option T

/-- The list nodes of the wait queues. -/
inductive IpcNode (I T : Type) where
  /-- `wait_queue.head` of an object -/
  | head (i : I)
  /-- `pending` of a thread -/
  | pending (t : T)
  deriving DecidableEq

/-- The data that the operations of `ipc.c` read and write. -/
structure IpcState (I T : Type) where
  sched : Sched T
  ipc : I → Ipc T
  links : Links (IpcNode I T)
  /-- `pending.value` of each thread -/
  pendingValue : T → Int
  /-- `thread->ipc` -/
  threadIpc : T → Option I

/-- How the first critical section of a call ends. -/
inductive CallResult (I : Type) where
  | ret (err : KernelError)
  /-- the thread is suspended in the wait queue of the object -/
  | blocked (i : I)

variable {I T : Type} [DecidableEq I] [DecidableEq T]

/-! ### Helpers -/

/-- Write the fields of an object. -/
def IpcState.setIpc (s : IpcState I T) (i : I) (o : Ipc T) : IpcState I T :=
  { s with ipc := Function.update s.ipc i o }

/-- `acoral_rdy_thread`, on the CPU of the thread. -/
def IpcState.rdyThread (s : IpcState I T) (t : T) : IpcState I T :=
  { s with sched := (acoralRdyThread (s.sched.thread t).cpu s.sched t).2 }

/-- `acoral_suspend_self`. -/
def IpcState.suspendSelf (s : IpcState I T) (cur : T) : IpcState I T :=
  { s with sched := (acoralSuspendThread (s.sched.thread cur).cpu s.sched cur).2 }

/-- `acoral_thread_change_prio`, on the CPU of the thread. -/
def IpcState.changePrio (s : IpcState I T) (t : T) (prio : Nat) : IpcState I T :=
  { s with sched := acoralThreadChangePrio (s.sched.thread t).cpu s.sched t prio }

/-- The value that the priority queue compares. -/
def IpcState.nodeValue (s : IpcState I T) : IpcNode I T → Int
  | .head _    => 0
  | .pending t => s.pendingValue t

/-- `acoral_ipc_init`. -/
def acoralIpcInit (s : IpcState I T) (i : I) : IpcState I T :=
  { s with links := acoralListInit s.links (.head i) }

/-- `acoral_ipc_high_thread`: the thread whose node comes after the head
of the queue. -/
def acoralIpcHighThread (s : IpcState I T) (i : I) : Option (Option T) :=
  match s.links.next (.head i) with
  | .pending t => some (some t)
  | .head j    => if j = i then some none else none

/-- `acoral_ipc_wait_queue_add`. -/
def acoralIpcWaitQueueAdd (fuel : Nat) (s : IpcState I T) (i : I) (new : T) :
    Option (IpcState I T) :=
  (acoralPrioQueueAdd fuel s.links s.nodeValue (.head i) (.pending new)).map fun links =>
    { s with threadIpc := Function.update s.threadIpc new (some i), links := links }

/-- `acoral_ipc_wait_queue_del`. -/
def acoralIpcWaitQueueDel (s : IpcState I T) (old : T) : Option (IpcState I T) :=
  (acoralPrioQueueDel s.links (.pending old)).map fun links =>
    { s with links := links, threadIpc := Function.update s.threadIpc old none }

/-- The checks of the arguments that every operation makes. -/
def ipcCheck (type : IpcType) (s : IpcState I T) : Option I → Except KernelError I
  | none   => .error .KR_IPC_ERR_NULL
  | some i => if (s.ipc i).type ≠ type then .error .KR_IPC_ERR_TYPE else .ok i

/-- The checks of the pend operations, which first refuse to run in an
interrupt. -/
def ipcPendCheck (type : IpcType) (intrNesting : Nat) (s : IpcState I T) (ipc : Option I) :
    Except KernelError I :=
  if intrNesting > 0 then .error .KR_IPC_ERR_INTR else ipcCheck type s ipc

/-- The blocking part of a pend: suspend, then enter the wait queue. -/
def ipcBlock (fuel : Nat) (s : IpcState I T) (i : I) (cur : T) :
    Option (CallResult I × IpcState I T) :=
  (acoralIpcWaitQueueAdd fuel (s.suspendSelf cur) i cur).map fun s => (.blocked i, s)

/-! ### Mutexes -/

/-- `MUTEX_AVAI`. -/
def MUTEX_AVAI : BitVec 16 := 0x00FF

/-- `MUTEX_NOAVAI`. -/
def MUTEX_NOAVAI : BitVec 16 := 0xFF00

/-- `acoral_mutex_init`. -/
def acoralMutexInit (ipc : Option I) (s : IpcState I T) : KernelError × IpcState I T :=
  match ipc with
  | none   => (.KR_IPC_ERR_NULL, s)
  | some i =>
      let o := s.ipc i
      let s := s.setIpc i { o with count := MUTEX_AVAI, type := .ACORAL_IPC_MUTEX, data := none }
      (.KR_OK, acoralIpcInit s i)

/-- `ipc->count = MUTEX_NOAVAI; ipc->data = cur;` -/
def takeMutex (s : IpcState I T) (i : I) (cur : T) : IpcState I T :=
  s.setIpc i { s.ipc i with count := MUTEX_NOAVAI, data := some cur }

/-- `acoral_mutex_trypend`. -/
def acoralMutexTrypend (cur : T) (intrNesting : Nat) (ipc : Option I) (s : IpcState I T) :
    KernelError × IpcState I T :=
  match ipcPendCheck .ACORAL_IPC_MUTEX intrNesting s ipc with
  | .error e => (e, s)
  | .ok i    =>
      if (s.ipc i).count = MUTEX_AVAI then (.KR_OK, takeMutex s i cur)
      else (.KR_IPC_ERR_TIMEOUT, s)

/-- `acoral_mutex_pend`, up to the schedule point. -/
def acoralMutexPend (fuel : Nat) (cur : T) (intrNesting : Nat) (ipc : Option I)
    (s : IpcState I T) : Option (CallResult I × IpcState I T) :=
  match ipcPendCheck .ACORAL_IPC_MUTEX intrNesting s ipc with
  | .error e => some (.ret e, s)
  | .ok i    =>
      if (s.ipc i).count = MUTEX_AVAI then some (.ret .KR_OK, takeMutex s i cur)
      else ipcBlock fuel s i cur

/-- `acoral_mutex_pend`, after the schedule point. A thread that finds
the mutex taken again returns an error and stays in the wait queue. -/
def acoralMutexPendResume (cur : T) (i : I) (s : IpcState I T) :
    Option (KernelError × IpcState I T) :=
  if (s.ipc i).data = none then
    (acoralIpcWaitQueueDel s cur).map fun s => (.KR_OK, takeMutex s i cur)
  else some (.KR_IPC_ERR_UNDEF, s)

/-- `acoral_mutex_post`. The second component is the waiting thread that
it readies after the critical section. -/
def acoralMutexPost (cur : T) (ipc : Option I) (s : IpcState I T) :
    Option (KernelError × Option T × IpcState I T) :=
  match ipcCheck .ACORAL_IPC_MUTEX s ipc with
  | .error e => some (e, none, s)
  | .ok i    =>
      if (s.ipc i).data ≠ some cur then some (.KR_IPC_ERR_THREAD, none, s)
      else
        let s := { s with threadIpc := Function.update s.threadIpc cur none }
        let s := s.setIpc i { s.ipc i with count := MUTEX_AVAI, data := none }
        (acoralIpcHighThread s i).map fun thread => (.KR_OK, thread, s)

/-! ### Semaphores -/

/-- `ipc->count++`. -/
def incCount (s : IpcState I T) (i : I) : IpcState I T :=
  s.setIpc i { s.ipc i with count := (s.ipc i).count + 1 }

/-- `ipc->count--`. -/
def decCount (s : IpcState I T) (i : I) : IpcState I T :=
  s.setIpc i { s.ipc i with count := (s.ipc i).count - 1 }

/-- `(acoral_8)ipc->count <= SEM_AVAI`: the test reads the low byte of
the count. -/
def semAvailable (count : BitVec 16) : Bool := decide ((count.setWidth 8).toInt ≤ 0)

/-- `acoral_sem_init`. -/
def acoralSemInit (ipc : Option I) (semNum : BitVec 32) (s : IpcState I T) :
    KernelError × IpcState I T :=
  match ipc with
  | none   => (.KR_OK, s)
  | some i =>
      let o : Ipc T :=
        { type := .ACORAL_IPC_SEM
          count := (1#32 - semNum).setWidth 16
          number := semNum.setWidth 16
          data := none }
      (.KR_OK, acoralIpcInit (s.setIpc i o) i)

/-- `acoral_sem_trypend`. -/
def acoralSemTrypend (intrNesting : Nat) (ipc : Option I) (s : IpcState I T) :
    KernelError × IpcState I T :=
  match ipcPendCheck .ACORAL_IPC_SEM intrNesting s ipc with
  | .error e => (e, s)
  | .ok i    =>
      if semAvailable (s.ipc i).count then (.KR_OK, incCount s i) else (.KR_IPC_ERR_TIMEOUT, s)

/-- `acoral_sem_pend`, up to the schedule point. -/
def acoralSemPend (fuel : Nat) (cur : T) (intrNesting : Nat) (ipc : Option I)
    (s : IpcState I T) : Option (CallResult I × IpcState I T) :=
  match ipcPendCheck .ACORAL_IPC_SEM intrNesting s ipc with
  | .error e => some (.ret e, s)
  | .ok i    =>
      if semAvailable (s.ipc i).count then some (.ret .KR_OK, incCount s i)
      else ipcBlock fuel (incCount s i) i cur

/-- `acoral_sem_pends`, up to the schedule point. It takes no unit. -/
def acoralSemPends (fuel : Nat) (cur : T) (intrNesting : Nat) (ipc : Option I)
    (s : IpcState I T) : Option (CallResult I × IpcState I T) :=
  match ipcPendCheck .ACORAL_IPC_SEM intrNesting s ipc with
  | .error e => some (.ret e, s)
  | .ok i    =>
      if semAvailable (s.ipc i).count then some (.ret .KR_OK, s) else ipcBlock fuel s i cur

/-- `acoral_sem_pend` and `acoral_sem_pends`, after the schedule point. -/
def acoralSemPendResume (cur : T) (s : IpcState I T) : Option (KernelError × IpcState I T) :=
  (acoralIpcWaitQueueDel s cur).map fun s => (.KR_OK, s)

/-- `acoral_sem_post`. -/
def acoralSemPost (ipc : Option I) (s : IpcState I T) : Option (KernelError × IpcState I T) :=
  match ipcCheck .ACORAL_IPC_SEM s ipc with
  | .error e => some (e, s)
  | .ok i    =>
      let count := (s.ipc i).count.toInt
      if count ≥ -32768 then
        if count ≤ 1 then some (.KR_OK, decCount s i)
        else
          let s := decCount s i
          (acoralIpcHighThread s i).map fun
            | none        => (.KR_IPC_ERR_UNDEF, s)
            | some thread => (.KR_OK, s.rdyThread thread)
      else some (.KR_IPC_ERR_UNDEF, s)

/-- The loop of `acoral_sem_posts`: ready every thread of the queue. -/
def semRdyAll (i : I) : (fuel : Nat) → (tmp : IpcNode I T) → IpcState I T → Option (IpcState I T)
  | 0,        _,          _ => none
  | _ + 1,    .head j,    s => if j = i then some s else none
  | fuel + 1, .pending t, s =>
      let s := s.rdyThread t
      semRdyAll i fuel (s.links.next (.pending t)) s

/-- `acoral_sem_posts`. -/
def acoralSemPosts (fuel : Nat) (ipc : Option I) (s : IpcState I T) :
    Option (KernelError × IpcState I T) :=
  match ipcCheck .ACORAL_IPC_SEM s ipc with
  | .error e => some (e, s)
  | .ok i    =>
      let count := (s.ipc i).count.toInt
      if count ≥ -32768 then
        let s := if count ≤ 1 then decCount s i else s
        (semRdyAll i fuel (s.links.next (.head i)) s).map fun s => (.KR_OK, s)
      else some (.KR_OK, s)

/-- `acoral_sem_getnum`. -/
def acoralSemGetnum (ipc : Option I) (s : IpcState I T) : Int :=
  match ipc with
  | none   => KernelError.KR_IPC_ERR_NULL.code
  | some i => 1 - (s.ipc i).count.toInt

end ACoral
