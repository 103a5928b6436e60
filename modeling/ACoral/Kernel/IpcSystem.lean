import ACoral.Kernel.Ipc
import ACoral.Lib.GuardedRun

/-!
# `ACoral.Kernel.IpcSystem`: threads that call the operations of `ipc.c`

The system runs any number of threads. One step is one critical
section: the first half of a call, the second half of a blocked pend, or
the wake-up that `acoral_mutex_post` makes after its critical section.
The steps of different threads come in any order, so a run is any
interleaving of the calls.

A thread executes only while it is READY. A thread in the middle of a
call goes on with that call (`Pc`), and the blocked half of a pend waits
until somebody has readied the thread.

`log` is the history of the calls that returned, newest first.
-/

set_option autoImplicit false

namespace ACoral

/-- Where a thread is between its steps. -/
inductive Pc (I T : Type) where
  /-- in no call -/
  | idle
  /-- at the schedule point of `acoral_mutex_pend` -/
  | mutexPend (i : I)
  /-- at the schedule point of `acoral_sem_pend` -/
  | semPend (i : I)
  /-- at the schedule point of `acoral_sem_pends` -/
  | semPends (i : I)
  /-- in `acoral_mutex_post`, with a thread still to ready -/
  | mutexPost (i : I) (thread : T)
  deriving DecidableEq

/-- The operations. -/
inductive IpcCall where
  | acoral_mutex_trypend
  | acoral_mutex_pend
  | acoral_mutex_post
  | acoral_sem_trypend
  | acoral_sem_pend
  | acoral_sem_pends
  | acoral_sem_post
  | acoral_sem_posts
  deriving DecidableEq, Repr

/-- A call that returned `err`. -/
structure IpcEvent (I T : Type) where
  call : IpcCall
  thread : T
  ipc : Option I
  err : KernelError

/-- The system: the kernel's data, where each thread is, and the history. -/
structure IpcRun (I T : Type) where
  st : IpcState I T
  pc : T → Pc I T
  log : List (IpcEvent I T)

/-- One step of a thread. -/
inductive IpcOp (I T : Type) where
  /-- `cur` calls the operation, at the given interrupt nesting -/
  | call (c : IpcCall) (cur : T) (intrNesting : Nat) (ipc : Option I)
  /-- `cur` goes on with the call it is in -/
  | resume (cur : T)

variable {I T : Type} [DecidableEq I] [DecidableEq T]

/-- The thread is READY. -/
def IpcState.isReady (s : IpcState I T) (t : T) : Bool :=
  hasFlag (s.sched.thread t).state ACORAL_THREAD_STATE_READY

/-- The thread is SUSPEND. -/
def IpcState.isSuspended (s : IpcState I T) (t : T) : Bool :=
  hasFlag (s.sched.thread t).state ACORAL_THREAD_STATE_SUSPEND

/-- The call of `cur` returned. -/
def IpcRun.ret (r : IpcRun I T) (c : IpcCall) (cur : T) (ipc : Option I)
    (res : KernelError × IpcState I T) : IpcRun I T :=
  { st := res.2
    pc := Function.update r.pc cur .idle
    log := ⟨c, cur, ipc, res.1⟩ :: r.log }

/-- The first half of a blocking call ended. -/
def IpcRun.pend (r : IpcRun I T) (c : IpcCall) (cur : T) (ipc : Option I) (pc : I → Pc I T)
    (res : CallResult I × IpcState I T) : IpcRun I T :=
  match res.1 with
  | .ret e     => r.ret c cur ipc (e, res.2)
  | .blocked i => { r with st := res.2, pc := Function.update r.pc cur (pc i) }

/-- The critical section of `acoral_mutex_post` ended. -/
def IpcRun.posted (r : IpcRun I T) (cur : T) (ipc : Option I)
    (res : KernelError × Option T × IpcState I T) : IpcRun I T :=
  match ipc, res with
  | some i, (e, some thread, s) =>
      { st := s
        pc := Function.update r.pc cur (.mutexPost i thread)
        log := ⟨.acoral_mutex_post, cur, ipc, e⟩ :: r.log }
  | _, (e, _, s) => r.ret .acoral_mutex_post cur ipc (e, s)

/-- A call of a thread that is in none. -/
def ipcCall (fuel : Nat) (r : IpcRun I T) (c : IpcCall) (cur : T) (intrNesting : Nat)
    (ipc : Option I) : Option (IpcRun I T) :=
  match c with
  | .acoral_mutex_trypend => some (r.ret c cur ipc (acoralMutexTrypend cur intrNesting ipc r.st))
  | .acoral_mutex_pend =>
      (acoralMutexPend fuel cur intrNesting ipc r.st).map (r.pend c cur ipc .mutexPend)
  | .acoral_mutex_post => (acoralMutexPost cur ipc r.st).map (r.posted cur ipc)
  | .acoral_sem_trypend => some (r.ret c cur ipc (acoralSemTrypend intrNesting ipc r.st))
  | .acoral_sem_pend =>
      (acoralSemPend fuel cur intrNesting ipc r.st).map (r.pend c cur ipc .semPend)
  | .acoral_sem_pends =>
      (acoralSemPends fuel cur intrNesting ipc r.st).map (r.pend c cur ipc .semPends)
  | .acoral_sem_post => (acoralSemPost ipc r.st).map (r.ret c cur ipc)
  | .acoral_sem_posts => (acoralSemPosts fuel ipc r.st).map (r.ret c cur ipc)

/-- The rest of a call. -/
def ipcResume (r : IpcRun I T) (cur : T) : Option (IpcRun I T) :=
  match r.pc cur with
  | .idle        => none
  | .mutexPend i =>
      (acoralMutexPendResume cur i r.st).map (r.ret .acoral_mutex_pend cur (some i))
  | .semPend i   => (acoralSemPendResume cur r.st).map (r.ret .acoral_sem_pend cur (some i))
  | .semPends i  => (acoralSemPendResume cur r.st).map (r.ret .acoral_sem_pends cur (some i))
  | .mutexPost _ thread =>
      some { r with st := r.st.rdyThread thread, pc := Function.update r.pc cur .idle }

/-- One step of the system: a READY thread calls an operation, or goes
on with its call. -/
def ipcStep (fuel : Nat) (r : IpcRun I T) : IpcOp I T → Option (IpcRun I T)
  | .call c cur intrNesting ipc =>
      if r.st.isReady cur ∧ r.pc cur = .idle then ipcCall fuel r c cur intrNesting ipc else none
  | .resume cur => if r.st.isReady cur then ipcResume r cur else none

/-- The system before the first step. -/
def IpcRun.start (s : IpcState I T) : IpcRun I T := ⟨s, fun _ => .idle, []⟩

/-! ### Changes of priority -/

/-- One step of a system whose priorities change. -/
inductive PrioOp (I T : Type) where
  | ipc (op : IpcOp I T)
  /-- `acoral_thread_change_prio` of any thread, called by whomever -/
  | acoral_thread_change_prio (t : T) (prio : Nat)

/-- One step of the system, with changes of priority. -/
def prioStep (fuel : Nat) (r : IpcRun I T) : PrioOp I T → Option (IpcRun I T)
  | .ipc op                            => ipcStep fuel r op
  | .acoral_thread_change_prio t prio => some { r with st := r.st.changePrio t prio }

end ACoral
