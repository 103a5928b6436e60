import ACoral.Kernel.Ipc

/-!
# `ACoral.Kernel.Ceiling`: the data of the ceiling protocols

The resources of MPCP and DPCP are elements of a type `R`. Each has a
binary semaphore. The resources of one system share a stack and a wait
queue; the systems are elements of a type `K` (a CPU for MPCP, a type of
resource and a CPU for DPCP).

The semaphores and the wait queues are objects of one `IpcState`, so that
the operations of `ACoral.Kernel.Ipc` work on them. The stacks are rings of
the `stacking` nodes, in a heap of their own.

A CPU is named by a number. `acoral_current_cpu` is the CPU of the thread
that makes the call.
-/

set_option autoImplicit false

namespace ACoral

open Lib (Links)

/-- `ACORAL_MPCP_LOCAL`, `ACORAL_DPCP_LOCAL` and their global siblings. -/
inductive CeilingType where
  | LOCAL
  | GLOBAL
  deriving DecidableEq, Repr

/-- The `preempt_type` of a thread. -/
inductive PreemptType where
  | ACORAL_PREEMPT_LOCAL
  | ACORAL_PREEMPT_GLOBAL
  | ACORAL_PREEMPT_TIMED
  deriving DecidableEq, Repr

/-- What `thread->data` points to. -/
inductive ThreadData where
  /-- data of the user, of which the first word is read -/
  | user (word : BitVec 32)
  /-- the word that `acoral_dpcp_pend` allocates for the CPU it left -/
  | origin (cpu : Nat)
  deriving DecidableEq

/-- `*(acoral_u32 *)thread->data`. -/
def ThreadData.word : ThreadData → Nat
  | .user word  => word.toNat
  | .origin cpu => cpu

/-- The objects with a wait queue. -/
inductive CeilingObj (R K : Type) where
  /-- `sem` of a resource -/
  | sem (r : R)
  /-- `wait` of a system -/
  | wait (k : K)
  deriving DecidableEq

/-- The list nodes of the stacks. -/
inductive StackNode (R K : Type) where
  /-- `stack.head` of a system -/
  | head (k : K)
  /-- `stacking` of a resource -/
  | stacking (r : R)
  deriving DecidableEq

/-- The fields of `acoral_mpcp_t` and `acoral_dpcp_t` beside the semaphore. -/
structure CeilingRes where
  /-- `type` -/
  type : CeilingType
  /-- `cpu` -/
  cpu : Nat
  /-- `prio_ceiling`, an `acoral_u8` -/
  prioCeiling : Nat
  /-- `prio_switch`, an `acoral_u8` -/
  prioSwitch : BitVec 8
  /-- `stacking.value` -/
  stackingValue : Int

/-- The data that the operations of a ceiling protocol read and write. -/
structure CeilingState (R K T : Type) where
  ipc : IpcState (CeilingObj R K) T
  stack : Links (StackNode R K)
  /-- `prio` of each system, an `acoral_u8` -/
  sysPrio : K → Nat
  res : R → CeilingRes
  /-- `preempt_type` of each thread -/
  preemptType : T → PreemptType
  /-- `data` of each thread -/
  data : T → Option ThreadData

/-- How a stretch of a call ends. -/
inductive CeilingResult where
  | ret (err : KernelError)
  /-- the caller is in the wait queue of the system -/
  | queued
  /-- the caller is suspended in the wait queue of the semaphore -/
  | blocked
  deriving DecidableEq

/-- The operations of a protocol: `acoral_mpcp_pend` and `acoral_mpcp_post`, or
`acoral_dpcp_pend` and `acoral_dpcp_post`. -/
inductive CeilingCall where
  | pend
  | post
  deriving DecidableEq, Repr

/-- A call that returned `err`. -/
structure CeilingEvent (R T : Type) where
  call : CeilingCall
  thread : T
  res : R
  err : KernelError

/-- One step of a thread. -/
inductive CeilingOp (R T : Type) where
  /-- `cur` calls the operation -/
  | call (c : CeilingCall) (cur : T) (r : R)
  /-- `cur` goes on with the call it is in -/
  | resume (cur : T)

variable {R K T : Type} [DecidableEq R] [DecidableEq K] [DecidableEq T]

/-- By the history, newest first, the thread holds the resource: the last of
its calls on it that succeeded is a pend. -/
def holds : List (CeilingEvent R T) → T → R → Bool
  | [], _, _       => false
  | e :: log, t, r =>
      if e.thread = t ∧ e.res = r ∧ e.err = .KR_OK then e.call = .pend else holds log t r

namespace CeilingState

/-! ### Fields -/

/-- `thread->prio`. -/
def prio (s : CeilingState R K T) (t : T) : Nat := (s.ipc.sched.thread t).prio

/-- `thread->cpu`. -/
def cpu (s : CeilingState R K T) (t : T) : Nat := (s.ipc.sched.thread t).cpu

/-- The thread is READY. -/
def isReady (s : CeilingState R K T) (t : T) : Bool :=
  hasFlag (s.ipc.sched.thread t).state ACORAL_THREAD_STATE_READY

/-- `sem->data` of a resource. -/
def owner (s : CeilingState R K T) (r : R) : Option T := (s.ipc.ipc (.sem r)).data

/-- Write `sem->data` of a resource. -/
def setOwner (s : CeilingState R K T) (r : R) (t : Option T) : CeilingState R K T :=
  { s with ipc := s.ipc.setIpc (.sem r) { s.ipc.ipc (.sem r) with data := t } }

/-- Write `prio_switch` of a resource. -/
def setPrioSwitch (s : CeilingState R K T) (r : R) (value : BitVec 8) : CeilingState R K T :=
  { s with res := Function.update s.res r { s.res r with prioSwitch := value } }

/-- Write `prio` of a system. -/
def setSysPrio (s : CeilingState R K T) (k : K) (value : Nat) : CeilingState R K T :=
  { s with sysPrio := Function.update s.sysPrio k value }

/-- Write `preempt_type` of a thread, if it has the value `old`. -/
def switchPreempt (s : CeilingState R K T) (t : T) (old new : PreemptType) : CeilingState R K T :=
  if s.preemptType t = old then
    { s with preemptType := Function.update s.preemptType t new }
  else s

/-- Write `cpu` of a thread. -/
def setCpu (s : CeilingState R K T) (t : T) (cpu : Nat) : CeilingState R K T :=
  let thread := Function.update s.ipc.sched.thread t { s.ipc.sched.thread t with cpu := cpu }
  { s with ipc := { s.ipc with sched := { s.ipc.sched with thread := thread } } }

/-- `acoral_thread_change_prio`. -/
def changePrio (s : CeilingState R K T) (t : T) (prio : Nat) : CeilingState R K T :=
  { s with ipc := s.ipc.changePrio t prio }

/-- `acoral_rdy_thread`. -/
def rdyThread (s : CeilingState R K T) (t : T) : CeilingState R K T :=
  { s with ipc := s.ipc.rdyThread t }

/-- `acoral_suspend_self`. -/
def suspendSelf (s : CeilingState R K T) (t : T) : CeilingState R K T :=
  { s with ipc := s.ipc.suspendSelf t }

/-! ### The stack -/

/-- The resource whose node is `stack.head.next`. -/
def stackTop (s : CeilingState R K T) (k : K) : Option R :=
  match s.stack.next (.head k) with
  | .stacking r => some r
  | .head _     => none

/-- `stack.head.next->value`: the head carries `ACORAL_MAX_PRIO_NUM`. -/
def stackTopValue (s : CeilingState R K T) (k : K) : Int :=
  match s.stack.next (.head k) with
  | .stacking r => (s.res r).stackingValue
  | .head _     => ACORAL_MAX_PRIO_NUM

/-- `acoral_lifo_queue_add(&stack, &stacking)`. -/
def lifoQueueAdd (s : CeilingState R K T) (k : K) (r : R) : Option (CeilingState R K T) :=
  (acoralListAdd s.stack (.stacking r) (.head k)).map fun stack => { s with stack := stack }

/-- `acoral_lifo_queue_del(&stack, &stacking)`. -/
def lifoQueueDel (s : CeilingState R K T) (r : R) : Option (CeilingState R K T) :=
  (acoralListDel s.stack (.stacking r)).map fun stack => { s with stack := stack }

/-- The system gets the ceiling of the resource, which enters the stack. -/
def push (s : CeilingState R K T) (k : K) (r : R) : Option (CeilingState R K T) :=
  (s.setSysPrio k (s.res r).prioCeiling).lifoQueueAdd k r

/-- The resource leaves the stack, and the system gets the value of the top,
cut to an `acoral_u8`. -/
def pop (s : CeilingState R K T) (k : K) (r : R) : Option (CeilingState R K T) :=
  (s.lifoQueueDel r).map fun s => s.setSysPrio k (s.stackTopValue k % 256).toNat

/-- The thread that uses the resource at the top gets the priority of `cur`.
`none` if there is no such thread: the source follows a pointer that is
none. -/
def inheritPrio (s : CeilingState R K T) (k : K) (cur : T) : Option (CeilingState R K T) :=
  (s.stackTop k).bind fun last => (s.owner last).map fun t => s.changePrio t (s.prio cur)

/-! ### The wait queue of a system -/

/-- `acoral_prio_queue_add(&wait, &cur->pending)`. -/
def waitAdd (fuel : Nat) (s : CeilingState R K T) (k : K) (cur : T) :
    Option (CeilingState R K T) :=
  (acoralPrioQueueAdd fuel s.ipc.links s.ipc.nodeValue (.head (.wait k)) (.pending cur)).map
    fun links => { s with ipc := { s.ipc with links := links } }

/-- `acoral_prio_queue_del(&wait, &thread->pending)`. -/
def waitDel (s : CeilingState R K T) (t : T) : Option (CeilingState R K T) :=
  (acoralPrioQueueDel s.ipc.links (.pending t)).map
    fun links => { s with ipc := { s.ipc with links := links } }

/-- The thread of the node `wait.head.next`. -/
def waitHead (s : CeilingState R K T) (k : K) : Option (Option T) :=
  acoralIpcHighThread s.ipc (.wait k)

/-! ### The semaphore -/

/-- `if (sem->data == NULL) sem->data = cur;` -/
def own (s : CeilingState R K T) (r : R) (cur : T) : CeilingState R K T :=
  if s.owner r = none then s.setOwner r (some cur) else s

/-- `acoral_sem_pend(sem)`, up to its schedule point. -/
def semPend (fuel : Nat) (s : CeilingState R K T) (r : R) (cur : T) :
    Option (CeilingResult × CeilingState R K T) :=
  (acoralSemPend fuel cur 0 (some (.sem r)) s.ipc).map fun
    | (.ret e, ipc)     => (.ret e, { s with ipc := ipc })
    | (.blocked _, ipc) => (.blocked, { s with ipc := ipc })

/-- `acoral_sem_post(sem)`. -/
def semPost (s : CeilingState R K T) (r : R) : Option (KernelError × CeilingState R K T) :=
  (acoralSemPost (some (.sem r)) s.ipc).map fun res => (res.1, { s with ipc := res.2 })

/-! ### The start -/

/-- The state after `acoral_mpcp_system_init` or `acoral_dpcp_system_init`
and the creation of every resource, with the given type, CPU and ceiling.
`acoral_sem_create(1)` leaves the count 0. -/
def start (sched : Sched T) (pendingValue : T → Int) (preemptType : T → PreemptType)
    (data : T → Option ThreadData) (create : R → CeilingType × Nat × Nat) :
    CeilingState R K T where
  ipc :=
    { sched := sched
      ipc := fun _ => { type := .ACORAL_IPC_SEM, count := 0, number := 1, data := none }
      links := ⟨id, id⟩
      pendingValue := pendingValue
      threadIpc := fun _ => none }
  stack := ⟨id, id⟩
  sysPrio := fun _ => ACORAL_MAX_PRIO_NUM
  res := fun r =>
    let (type, cpu, prioCeiling) := create r
    { type := type
      cpu := cpu
      prioCeiling := prioCeiling
      prioSwitch := 0
      stackingValue := prioCeiling }
  preemptType := preemptType
  data := data

end CeilingState

end ACoral
