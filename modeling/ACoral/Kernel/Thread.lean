import ACoral.Kernel.Bitops
import ACoral.Kernel.Types

/-!
# `ACoral.Kernel.Thread`: thread states and the ready arrays

The part of `kernel/src/thread.c` and `kernel/src/sched.c` that moves
threads in and out of the ready arrays.

A thread is named by an element of a type `T`; `Sched.thread` holds its
control block. A FIFO queue is the list of the threads linked in it,
head first. `acoral_list_del` unlinks a node from whatever list it is
linked in, so `PrioArray.unlink` takes a thread out of every queue of
the array.

The ready queue of a CPU is `readyQueues cpu`. Each operation runs on
the CPU `cur`; for a thread of another CPU it only sends the command
that the source sends (`ipiCmds`, oldest first).
-/

set_option autoImplicit false

namespace ACoral

/-- `ACORAL_MAX_PRIO_NUM`: the number of priorities, and of the queues
of a ready array. -/
def ACORAL_MAX_PRIO_NUM : Nat := (CFG_MAX_THREAD + 1) % 256

/-- `ACORAL_THREAD_PRIO_BITMAP_SIZE`: the words of the ready bitmap. -/
def ACORAL_THREAD_PRIO_BITMAP_SIZE : Nat := (((ACORAL_MAX_PRIO_NUM + 1 + 7) / 8) + 4 - 1) / 4

/-- `ACORAL_THREAD_STATE_READY`. -/
def ACORAL_THREAD_STATE_READY : BitVec 8 := 0x01

/-- `ACORAL_THREAD_STATE_SUSPEND`. -/
def ACORAL_THREAD_STATE_SUSPEND : BitVec 8 := 0x02

/-- `ACORAL_THREAD_STATE_RUNNING`. -/
def ACORAL_THREAD_STATE_RUNNING : BitVec 8 := 0x04

/-- `ACORAL_RES_CPU_BIT`: the bit of a resource id that carries the CPU. -/
def ACORAL_RES_CPU_BIT : Nat := 24

/-- `thread->state & flag`, as a truth value. -/
def hasFlag (state flag : BitVec 8) : Bool := decide (state &&& flag ≠ 0)

/-- The fields of `acoral_thread_t` the scheduler reads and writes. -/
structure Tcb where
  /-- `res.id` -/
  resId : BitVec 32
  /-- `state` -/
  state : BitVec 8
  /-- `prio`, an `acoral_u8` -/
  prio : Nat
  /-- `cpu` -/
  cpu : Nat

/-- `acoral_thread_prio_array_t`. -/
structure PrioArray (T : Type) where
  /-- `num` -/
  num : Nat
  /-- `bitmap` -/
  bitmap : Bitmap
  /-- `queue`: the threads linked at each priority, head first -/
  queue : Nat → List T

/-- The commands of `ipi.h` that the thread operations send. -/
inductive IpiCmd where
  | ACORAL_IPI_THREAD_READY
  | ACORAL_IPI_THREAD_SUSPEND
  | ACORAL_IPI_THREAD_CHG_PRIO
  deriving DecidableEq, Repr

/-- The scheduler's data: the control blocks and the per-CPU arrays. -/
structure Sched (T : Type) where
  /-- the thread control blocks -/
  thread : T → Tcb
  /-- `acoral_ready_queues` -/
  readyQueues : Nat → PrioArray T
  /-- `ready_thread` -/
  readyThread : Nat → Option T
  /-- `need_sched` -/
  needSched : Nat → Bool
  /-- the commands sent by `acoral_ipi_cmd_send`: target CPU, command, thread, data -/
  ipiCmds : List (Nat × IpiCmd × T × Nat)

variable {T : Type} [DecidableEq T]

/-! ### The priority array (`thread.c`) -/

/-- `acoral_thread_prio_queue_init`. -/
def acoralThreadPrioQueueInit : PrioArray T :=
  { num := 0, bitmap := fun _ => 0, queue := fun _ => [] }

/-- `acoral_list_del` on the `ready` node of a thread. -/
def PrioArray.unlink (queue : Nat → List T) (t : T) : Nat → List T :=
  fun p => (queue p).erase t

/-- `acoral_thread_prio_queue_add`. -/
def acoralThreadPrioQueueAdd (array : PrioArray T) (prio : Nat) (t : T) : PrioArray T :=
  { num := array.num + 1
    queue := Function.update array.queue prio (array.queue prio ++ [t])
    bitmap := acoralSetBit prio array.bitmap }

/-- `acoral_thread_prio_queue_del`. -/
def acoralThreadPrioQueueDel (array : PrioArray T) (prio : Nat) (t : T) : PrioArray T :=
  let queue := PrioArray.unlink array.queue t
  { num := array.num - 1
    queue := queue
    bitmap := if queue prio = [] then acoralClearBit prio array.bitmap else array.bitmap }

/-- `acoral_thread_get_high_prio`. -/
def acoralThreadGetHighPrio (array : PrioArray T) : Nat :=
  acoralFindFirstBit array.bitmap ACORAL_THREAD_PRIO_BITMAP_SIZE

/-! ### The ready queues (`sched.c`) -/

/-- `acoral_sched_rdyqueue_add`, on the CPU `cur`. -/
def acoralSchedRdyqueueAdd (cur : Nat) (k : Sched T) (t : T) : Sched T :=
  let new := k.thread t
  let state := (new.state &&& ~~~ ACORAL_THREAD_STATE_SUSPEND) ||| ACORAL_THREAD_STATE_READY
  -- the id carries the CPU the thread is queued on
  let resId :=
    if new.cpu = 0 then new.resId &&& ~~~ (1#32 <<< ACORAL_RES_CPU_BIT)
    else if new.cpu = 1 then new.resId ||| (1#32 <<< ACORAL_RES_CPU_BIT)
    else new.resId
  { k with
    readyQueues := Function.update k.readyQueues new.cpu
      (acoralThreadPrioQueueAdd (k.readyQueues new.cpu) new.prio t)
    thread := Function.update k.thread t { new with state := state, resId := resId }
    needSched := Function.update k.needSched cur true }

/-- `acoral_sched_rdyqueue_del`, on the CPU `cur`. -/
def acoralSchedRdyqueueDel (cur : Nat) (k : Sched T) (t : T) : Sched T :=
  let old := k.thread t
  let state := ((old.state &&& ~~~ ACORAL_THREAD_STATE_READY)
    &&& ~~~ ACORAL_THREAD_STATE_RUNNING) ||| ACORAL_THREAD_STATE_SUSPEND
  { k with
    readyQueues := Function.update k.readyQueues old.cpu
      (acoralThreadPrioQueueDel (k.readyQueues old.cpu) old.prio t)
    thread := Function.update k.thread t { old with state := state }
    needSched := Function.update k.needSched cur true }

/-- `acoral_select_thread`: the head of the queue of the highest
priority. On an empty queue the source takes the address of the queue
head for a thread; the model has no thread there. -/
def acoralSelectThread (cur : Nat) (k : Sched T) : Sched T :=
  let array := k.readyQueues cur
  let index := acoralThreadGetHighPrio array
  { k with readyThread := Function.update k.readyThread cur (array.queue index).head? }

/-! ### The thread operations (`thread.c`) -/

/-- `acoral_ipi_cmd_send`. -/
def acoralIpiCmdSend (k : Sched T) (cpu : Nat) (cmd : IpiCmd) (t : T) (data : Nat) : Sched T :=
  { k with ipiCmds := k.ipiCmds ++ [(cpu, cmd, t, data)] }

/-- `acoral_rdy_thread`, on the CPU `cur`. -/
def acoralRdyThread (cur : Nat) (k : Sched T) (t : T) : KernelError × Sched T :=
  if hasFlag (k.thread t).state ACORAL_THREAD_STATE_SUSPEND = false then
    (.KR_THREAD_ERR_STATE, k)
  else if (k.thread t).cpu ≠ cur then
    (.KR_OK, acoralIpiCmdSend k (k.thread t).cpu .ACORAL_IPI_THREAD_READY t 0)
  else
    (.KR_OK, acoralSchedRdyqueueAdd cur k t)

/-- `acoral_suspend_thread`, on the CPU `cur`. -/
def acoralSuspendThread (cur : Nat) (k : Sched T) (t : T) : KernelError × Sched T :=
  if hasFlag (k.thread t).state ACORAL_THREAD_STATE_READY = false then
    (.KR_THREAD_ERR_STATE, k)
  else if (k.thread t).cpu ≠ cur then
    (.KR_OK, acoralIpiCmdSend k (k.thread t).cpu .ACORAL_IPI_THREAD_SUSPEND t 0)
  else
    (.KR_OK, acoralSchedRdyqueueDel cur k t)

/-- `thread->prio = prio`: the argument is an `acoral_u32`, the field an
`acoral_u8`. -/
def Sched.setPrio (k : Sched T) (t : T) (prio : Nat) : Sched T :=
  { k with thread := Function.update k.thread t { k.thread t with prio := prio % 256 } }

/-- `acoral_thread_change_prio`, on the CPU `cur`. A ready thread
leaves the queue of its old priority before the field changes and
enters the queue of the new one after it. -/
def acoralThreadChangePrio (cur : Nat) (k : Sched T) (t : T) (prio : Nat) : Sched T :=
  if (k.thread t).cpu ≠ cur then
    acoralIpiCmdSend k (k.thread t).cpu IpiCmd.ACORAL_IPI_THREAD_CHG_PRIO t prio
  else if hasFlag (k.thread t).state ACORAL_THREAD_STATE_READY then
    acoralSchedRdyqueueAdd cur ((acoralSchedRdyqueueDel cur k t).setPrio t prio) t
  else
    k.setPrio t prio

/-- The ready queues after `acoral_sched_rdyqueue_init`. -/
def acoralSchedRdyqueueInit (thread : T → Tcb) : Sched T :=
  { thread := thread
    readyQueues := fun _ => acoralThreadPrioQueueInit
    readyThread := fun _ => none
    needSched := fun _ => false
    ipiCmds := [] }

end ACoral
