import ACoral.Kernel.CeilingCalls
import ACoral.Kernel.IpcSystem
import ACoral.Kernel.Switch
import ACoral.Kernel.Timer

/-!
# `ACoral.Kernel.PendSystem`: all that uses the `pending` node of a thread

A thread has one list node, `pending`, for the wait queues of the mutexes
and semaphores, for those of the ceiling protocols, and for the release
queue that a killed thread enters. This module puts the operations on one
heap: the calls of `ipc.c` with the threads that make them, the delays and
the releases of periodic threads, and `acoral_kill_thread`. The threads are
there from the start, and `timed_time_deal` is no step: the queues of the
timed threads are what they are.

The mutexes and semaphores are elements of `R`, and so are the resources of
the protocols: `sem r` is the object of `r`.

One step is the stretch of a call up to the point where the thread may lose
the CPU. A thread that is SUSPEND still runs until its CPU switches, which
it does not in a critical section, so a thread may take a step in every
state but one: a killed thread takes none. The spin locks of the objects
cover one stretch, and that of a global MPCP resource keeps callers out; as
every order of the stretches is a run here, they are left out.
-/

set_option autoImplicit false

namespace ACoral

open Lib (Links)

/-- The queues of `pending` nodes beside those of the semaphores. -/
inductive PendQueue where
  /-- `acoral_mpcp_system[cpu].wait` -/
  | mpcp (cpu : Nat)
  /-- `acoral_dpcp_system[type][cpu].wait` -/
  | dpcp (type : CeilingType) (cpu : Nat)
  /-- `acoral_release_queue` -/
  | release
  deriving DecidableEq

/-- Where a thread is between its steps. -/
inductive PendPc (R T : Type) where
  /-- in no call -/
  | idle
  /-- at the schedule point of `acoral_mutex_pend` -/
  | mutexPend (r : R)
  /-- at the schedule point of `acoral_sem_pend` -/
  | semPend (r : R)
  /-- at the schedule point of `acoral_sem_pends` -/
  | semPends (r : R)
  /-- in `acoral_mutex_post`, with a thread still to ready -/
  | mutexPost (thread : T)
  /-- behind `acoral_suspend_self` in `acoral_mpcp_pend` -/
  | mpcpWait (r : R)
  /-- at the schedule point of the semaphore, in `acoral_mpcp_pend` -/
  | mpcpSem (r : R)
  /-- in `acoral_dpcp_pend`, about to migrate to the CPU of the resource -/
  | dpcpJump (r : R)
  /-- in `acoral_dpcp_pend`, on the CPU of the resource -/
  | dpcpEnter (r : R)
  /-- in the wait queue of the DPCP system, about to suspend itself -/
  | dpcpSuspend (r : R)
  /-- behind `acoral_suspend_self` in `acoral_dpcp_pend` -/
  | dpcpWait (r : R)
  /-- in `acoral_dpcp_post`, about to migrate back -/
  | dpcpBack (cpu : Nat)
  deriving DecidableEq

/-- The data of the kernel, and where each thread is. -/
structure PendState (R T : Type) where
  st : CeilingState R PendQueue T
  pc : T → PendPc R T
  /-- `time_delay_queue`, of the `delaying` nodes -/
  timeDelayQueue : List (T × Int)
  /-- `period_time_queue`, of the `timing` nodes -/
  periodTimeQueue : List (T × Int)
  /-- `timed_time_queue` of each CPU, of the `timing` nodes -/
  timedTimeQueue : Nat → List (T × Int)
  /-- `private_data->time` of each periodic thread -/
  time : T → BitVec 32
  /-- the thread `daemon_id` -/
  daemon : T

/-- One step. -/
inductive PendOp (R T : Type) where
  /-- `cur` calls an operation on mutexes and semaphores -/
  | ipc (c : IpcCall) (cur : T) (ipc : Option R)
  /-- an interrupt handler calls one, while `cur` is the running thread -/
  | intr (c : IpcCall) (cur : T) (ipc : Option R)
  /-- `cur` calls `acoral_mpcp_pend` or `acoral_mpcp_post` -/
  | mpcp (c : CeilingCall) (cur : T) (r : R)
  /-- `cur` calls `acoral_dpcp_pend` or `acoral_dpcp_post` -/
  | dpcp (c : CeilingCall) (cur : T) (r : R)
  /-- `cur` goes on with the call it is in -/
  | resume (cur : T)
  /-- `acoral_rdy_thread` -/
  | rdy (t : T)
  /-- `acoral_suspend_thread` -/
  | suspend (t : T)
  /-- `acoral_thread_change_prio` -/
  | changePrio (t : T) (prio : Nat)
  /-- `acoral_delay_thread` -/
  | delay (t : T) (time : BitVec 32)
  /-- `time_delay_deal` -/
  | delayTick
  /-- `period_time_deal` -/
  | periodTick
  /-- `acoral_kill_thread` -/
  | kill (t : T)

variable {R T : Type} [DecidableEq R] [DecidableEq T]

namespace PendState

/-! ### Fields -/

/-- `thread->state`. -/
def state (x : PendState R T) (t : T) : BitVec 8 := (x.st.ipc.sched.thread t).state

/-- The thread is SUSPEND. -/
def isSuspended (x : PendState R T) (t : T) : Bool :=
  hasFlag (x.state t) ACORAL_THREAD_STATE_SUSPEND

/-- The thread has been killed. -/
def isKilled (x : PendState R T) (t : T) : Bool := hasFlag (x.state t) ACORAL_THREAD_STATE_EXIT

/-- `acoral_list_empty(&thread->pending)`: the node is linked nowhere. -/
def unlinked (x : PendState R T) (t : T) : Bool :=
  decide (x.st.ipc.links.next (.pending t) = .pending t)

/-- Write `thread->state`. -/
def setState (x : PendState R T) (t : T) (state : BitVec 8) : PendState R T :=
  let thread := Function.update x.st.ipc.sched.thread t
    { x.st.ipc.sched.thread t with state := state }
  { x with st := { x.st with ipc := { x.st.ipc with
      sched := { x.st.ipc.sched with thread := thread } } } }

/-- `cur` goes on at `pc`. -/
def goto (x : PendState R T) (cur : T) (pc : PendPc R T) (st : CeilingState R PendQueue T) :
    PendState R T :=
  { x with st := st, pc := Function.update x.pc cur pc }

/-- The data of the kernel after an operation of `ipc.c`. -/
def setIpc (x : PendState R T) (ipc : IpcState (CeilingObj R PendQueue) T) :
    CeilingState R PendQueue T :=
  { x.st with ipc := ipc }

/-- `acoral_rdy_thread`, on the CPU of the thread. -/
def rdyThread (x : PendState R T) (t : T) : PendState R T := { x with st := x.st.rdyThread t }

/-- The data of the tick queues. -/
def timer (x : PendState R T) : TimerState T where
  sched := x.st.ipc.sched
  timeDelayQueue := x.timeDelayQueue
  periodTimeQueue := x.periodTimeQueue
  timedTimeQueue := x.timedTimeQueue

/-- The data of the kernel after an operation on the tick queues. -/
def setTimer (x : PendState R T) (k : TimerState T) : PendState R T :=
  { x with
    st := x.setIpc { x.st.ipc with sched := k.sched }
    timeDelayQueue := k.timeDelayQueue
    periodTimeQueue := k.periodTimeQueue
    timedTimeQueue := k.timedTimeQueue }

end PendState

/-! ### Mutexes and semaphores -/

/-- The first half of a blocking call ended. -/
def PendState.pend (x : PendState R T) (cur : T) (pc : R → PendPc R T)
    (res : CallResult (CeilingObj R PendQueue) × IpcState (CeilingObj R PendQueue) T) :
    PendState R T :=
  match res with
  | (.blocked (.sem r), ipc) => x.goto cur (pc r) (x.setIpc ipc)
  | (_, ipc)                 => x.goto cur .idle (x.setIpc ipc)

/-- The critical section of `acoral_mutex_post` ended. -/
def PendState.posted (x : PendState R T) (cur : T)
    (res : KernelError × Option T × IpcState (CeilingObj R PendQueue) T) : PendState R T :=
  match res with
  | (_, some thread, ipc) => x.goto cur (.mutexPost thread) (x.setIpc ipc)
  | (_, none, ipc)        => x.goto cur .idle (x.setIpc ipc)

/-- A call, at the interrupt nesting 0. -/
def pendIpc (fuel : Nat) (x : PendState R T) (c : IpcCall) (cur : T) (ipc : Option R) :
    Option (PendState R T) :=
  let s := x.st.ipc
  let i := ipc.map CeilingObj.sem
  match c with
  | .acoral_mutex_trypend => some (x.goto cur .idle (x.setIpc (acoralMutexTrypend cur 0 i s).2))
  | .acoral_mutex_pend    => (acoralMutexPend fuel cur 0 i s).map (x.pend cur .mutexPend)
  | .acoral_mutex_post    => (acoralMutexPost cur i s).map (x.posted cur)
  | .acoral_sem_trypend   => some (x.goto cur .idle (x.setIpc (acoralSemTrypend 0 i s).2))
  | .acoral_sem_pend      => (acoralSemPend fuel cur 0 i s).map (x.pend cur .semPend)
  | .acoral_sem_pends     => (acoralSemPends fuel cur 0 i s).map (x.pend cur .semPends)
  | .acoral_sem_post      => (acoralSemPost i s).map fun res => x.goto cur .idle (x.setIpc res.2)
  | .acoral_sem_posts     =>
      (acoralSemPosts fuel i s).map fun res => x.goto cur .idle (x.setIpc res.2)

/-- A call of an interrupt handler. The pends refuse to run there. -/
def pendIntr (fuel : Nat) (x : PendState R T) (c : IpcCall) (cur : T) (ipc : Option R) :
    Option (PendState R T) :=
  let s := x.st.ipc
  let i := ipc.map CeilingObj.sem
  match c with
  | .acoral_mutex_trypend => some { x with st := x.setIpc (acoralMutexTrypend cur 1 i s).2 }
  | .acoral_mutex_pend    =>
      (acoralMutexPend fuel cur 1 i s).map fun res => { x with st := x.setIpc res.2 }
  | .acoral_mutex_post    =>
      (acoralMutexPost cur i s).map fun res =>
        let y := { x with st := x.setIpc res.2.2 }
        match res.2.1 with
        | some thread => y.rdyThread thread
        | none        => y
  | .acoral_sem_trypend   => some { x with st := x.setIpc (acoralSemTrypend 1 i s).2 }
  | .acoral_sem_pend      =>
      (acoralSemPend fuel cur 1 i s).map fun res => { x with st := x.setIpc res.2 }
  | .acoral_sem_pends     =>
      (acoralSemPends fuel cur 1 i s).map fun res => { x with st := x.setIpc res.2 }
  | .acoral_sem_post      => (acoralSemPost i s).map fun res => { x with st := x.setIpc res.2 }
  | .acoral_sem_posts     => (acoralSemPosts fuel i s).map fun res => { x with st := x.setIpc res.2 }

/-! ### The ceiling protocols -/

/-- The stretch of a pend ended: the caller returns, or it goes on from the
wait queue of the system or from that of the semaphore. -/
def PendState.pended (x : PendState R T) (cur : T) (queued blocked : PendPc R T)
    (res : CeilingResult × CeilingState R PendQueue T) : PendState R T :=
  match res.1 with
  | .ret _   => x.goto cur .idle res.2
  | .queued  => x.goto cur queued res.2
  | .blocked => x.goto cur blocked res.2

/-- `acoral_mpcp_pend` and `acoral_mpcp_post`. -/
def pendMpcp (fuel : Nat) (x : PendState R T) (c : CeilingCall) (cur : T) (r : R) :
    Option (PendState R T) :=
  match c with
  | .pend => (mpcpPendOn .mpcp fuel cur r x.st).map (x.pended cur (.mpcpWait r) (.mpcpSem r))
  | .post => (mpcpPostOn .mpcp cur r x.st).map fun res => x.goto cur .idle res.2

/-- The wait queue of a DPCP resource. -/
def dpcpQueue (s : CeilingState R PendQueue T) (r : R) : PendQueue :=
  .dpcp (s.res r).type (s.res r).cpu

/-- `acoral_dpcp_pend`, its first critical section. -/
def pendDpcpPend (fuel : Nat) (x : PendState R T) (cur : T) (r : R) : Option (PendState R T) :=
  let s := x.st
  match (s.res r).type with
  | .LOCAL =>
      if (s.res r).cpu ≠ s.cpu cur then some (x.goto cur .idle s)
      else
        (dpcpRoundOn fuel (dpcpQueue s r) cur r s).map (x.pended cur (.dpcpSuspend r) .idle)
  | .GLOBAL =>
      if s.cpu cur ≠ (s.res r).cpu then
        let data := Function.update s.data cur (some (.origin (s.cpu cur)))
        some (x.goto cur (.dpcpJump r) { s with data := data })
      else (dpcpEnterOn fuel (dpcpQueue s r) cur r s).map (x.pended cur (.dpcpSuspend r) .idle)

/-- `acoral_dpcp_pend` and `acoral_dpcp_post`. -/
def pendDpcp (fuel : Nat) (x : PendState R T) (c : CeilingCall) (cur : T) (r : R) :
    Option (PendState R T) :=
  match c with
  | .pend => pendDpcpPend fuel x cur r
  | .post =>
      (dpcpPostOn .dpcp cur r x.st).map fun
        | (_, none, s)     => x.goto cur .idle s
        | (_, some cpu, s) => x.goto cur (.dpcpBack cpu) s

/-! ### The rest of a call -/

/-- `cur` goes on with the call it is in. -/
def pendResume (fuel : Nat) (x : PendState R T) (cur : T) : Option (PendState R T) :=
  let s := x.st
  match x.pc cur with
  | .idle             => none
  | .mutexPend r      =>
      (acoralMutexPendResume cur (.sem r) s.ipc).map fun res =>
        x.goto cur .idle (x.setIpc res.2)
  | .semPend _        =>
      (acoralSemPendResume cur s.ipc).map fun res => x.goto cur .idle (x.setIpc res.2)
  | .semPends _       =>
      (acoralSemPendResume cur s.ipc).map fun res => x.goto cur .idle (x.setIpc res.2)
  | .mutexPost thread => some (x.goto cur .idle (s.rdyThread thread))
  | .mpcpWait r       =>
      (mpcpLocalOn fuel (.mpcp (s.res r).cpu) cur r s).map
        (x.pended cur (.mpcpWait r) (.mpcpSem r))
  | .mpcpSem _        =>
      (acoralSemPendResume cur s.ipc).map fun res => x.goto cur .idle (x.setIpc res.2)
  | .dpcpJump r       => some (x.goto cur (.dpcpEnter r) (jumpCpuOn s cur (s.res r).cpu))
  | .dpcpEnter r      =>
      (dpcpEnterOn fuel (dpcpQueue s r) cur r s).map (x.pended cur (.dpcpSuspend r) .idle)
  | .dpcpSuspend r    => some (x.goto cur (.dpcpWait r) (s.suspendSelf cur))
  | .dpcpWait r       =>
      (dpcpRoundOn fuel (dpcpQueue s r) cur r s).map (x.pended cur (.dpcpSuspend r) .idle)
  | .dpcpBack cpu     => some (x.goto cur .idle (jumpCpuOn s cur cpu))

/-! ### Delays and periods -/

/-- `acoral_delay_thread`, on the CPU of the thread. -/
def pendDelay (x : PendState R T) (t : T) (time : BitVec 32) : PendState R T :=
  x.setTimer (acoralDelayThread (x.st.cpu t) x.timer t time).2

/-- `time_delay_deal`. -/
def pendDelayTick (x : PendState R T) : Option (PendState R T) :=
  (timeDelayDeal x.timer).map x.setTimer

/-- The threads whose period is over at the next tick. -/
def PendState.due (x : PendState R T) : List T :=
  match tickDeal (fun t => some (periodThreadReload x.time t)) x.periodTimeQueue with
  | some (popped, _) => popped
  | none             => []

/-- `period_time_deal`. A thread that is due and SUSPEND gets a new stack: it
starts its route over, wherever it was. -/
def pendPeriodTick (x : PendState R T) : Option (PendState R T) :=
  (periodTimeDeal x.time x.timer).map fun k =>
    { x.setTimer k with
      pc := fun t => if t ∈ x.due ∧ x.isSuspended t = true then .idle else x.pc t }

/-! ### Killing a thread -/

/-- What `acoral_kill_thread` unlinks of a SUSPEND thread: its nodes in the
tick queues, and `pending` if `thread->ipc` names a wait queue. -/
def killUnlink (x : PendState R T) (t : T) : Option (PendState R T) :=
  let y := x.setTimer (killTimerNodes x.timer t)
  if x.isSuspended t = true ∧ x.st.ipc.threadIpc t ≠ none then
    (acoralIpcWaitQueueDel y.st.ipc t).map fun ipc => { y with st := y.setIpc ipc }
  else some y

/-- `acoral_prerelease_thread`. -/
def acoralPrereleaseThread (x : PendState R T) (t : T) : Option (PendState R T) :=
  let x := x.setState t ACORAL_THREAD_STATE_EXIT
  (acoralListAddTail x.st.ipc.links (.pending t) (.head (.wait .release))).map fun links =>
    PendState.rdyThread { x with st := x.setIpc { x.st.ipc with links := links } } x.daemon

/-- `acoral_kill_thread`, on the CPU of the thread. -/
def acoralKillThread (x : PendState R T) (t : T) : Option (PendState R T) :=
  (killUnlink x t).bind fun x => acoralPrereleaseThread { x with st := x.st.suspendSelf t } t

/-! ### The system -/

/-- One step. -/
def pendStep (fuel : Nat) (x : PendState R T) : PendOp R T → Option (PendState R T)
  | .ipc c cur ipc     =>
      if x.pc cur = .idle ∧ x.isKilled cur = false then pendIpc fuel x c cur ipc else none
  | .intr c cur ipc    => pendIntr fuel x c cur ipc
  | .mpcp c cur r      =>
      if x.pc cur = .idle ∧ x.isKilled cur = false then pendMpcp fuel x c cur r else none
  | .dpcp c cur r      =>
      if x.pc cur = .idle ∧ x.isKilled cur = false then pendDpcp fuel x c cur r else none
  | .resume cur        => if x.isKilled cur = false then pendResume fuel x cur else none
  | .rdy t             => some (x.rdyThread t)
  | .suspend t         => some { x with st := x.st.suspendSelf t }
  | .changePrio t prio => some { x with st := x.st.changePrio t prio }
  | .delay t time      => some (pendDelay x t time)
  | .delayTick         => pendDelayTick x
  | .periodTick        => pendPeriodTick x
  | .kill t            => acoralKillThread x t

end ACoral
