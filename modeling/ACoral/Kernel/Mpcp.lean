import ACoral.Kernel.Ceiling
import ACoral.Lib.GuardedRun

/-!
# `ACoral.Kernel.Mpcp`: the multiprocessor priority-ceiling protocol

`acoral_mpcp_pend` and `acoral_mpcp_post` of `kernel/src/ipc.c`, and the
threads that call them. A system is a CPU.

One step is the stretch of a call up to the point where its caller is
suspended, in the wait queue of the system or of the semaphore, or returns.
For a global resource the spin lock of the resource covers the stretch: a
step that takes the lock needs it free, and a caller that is suspended in
the semaphore keeps it. For a local resource nothing covers it; the steps
are those of calls that no other thread preempts before that point.
-/

set_option autoImplicit false

namespace ACoral

variable {R T : Type} [DecidableEq R] [DecidableEq T]

/-- The end of `acoral_mpcp_pend`, from the test of `sem->data` to the
schedule point of the semaphore. -/
def mpcpTake (fuel : Nat) (cur : T) (r : R) (s : CeilingState R Nat T) :
    Option (CeilingResult × CeilingState R Nat T) :=
  (s.own r cur).semPend fuel r cur

/-- `acoral_mpcp_pend` of a local resource, from its second test on. -/
def mpcpLocal (fuel : Nat) (cur : T) (r : R) (curCpu : Nat) (s : CeilingState R Nat T) :
    Option (CeilingResult × CeilingState R Nat T) :=
  if s.prio cur < s.sysPrio curCpu then
    (s.push curCpu r).bind fun s =>
      mpcpTake fuel cur r (s.setPrioSwitch r (BitVec.ofNat 8 (s.prio cur)))
  else mpcpTake fuel cur r s

/-- `acoral_mpcp_pend`. -/
def acoralMpcpPend (fuel : Nat) (cur : T) (r : R) (s : CeilingState R Nat T) :
    Option (CeilingResult × CeilingState R Nat T) :=
  match (s.res r).type with
  | .LOCAL =>
      let curCpu := s.cpu cur
      if (s.res r).cpu ≠ curCpu then some (.ret .KR_IPC_ERR_CPU, s)
      else if s.prio cur ≥ s.sysPrio curCpu then
        (s.inheritPrio curCpu cur).bind fun s =>
          (s.waitAdd fuel curCpu cur).map fun s => (.queued, s.suspendSelf cur)
      else mpcpLocal fuel cur r curCpu s
  | .GLOBAL =>
      let s := s.switchPreempt cur .ACORAL_PREEMPT_LOCAL .ACORAL_PREEMPT_GLOBAL
      let s :=
        if s.owner r = none then
          (s.setPrioSwitch r (BitVec.ofNat 8 (s.prio cur))).changePrio cur (s.res r).prioCeiling
        else s
      mpcpTake fuel cur r s

/-- The head of the wait queue is readied. It stays in the queue. -/
def mpcpWake (curCpu : Nat) (s : CeilingState R Nat T) : Option (CeilingState R Nat T) :=
  (s.waitHead curCpu).map fun
    | none        => s
    | some thread => s.rdyThread thread

/-- The part of `acoral_mpcp_post` that restores the priority. -/
def mpcpRestore (cur : T) (r : R) (s : CeilingState R Nat T) : CeilingState R Nat T :=
  let prioSwitch := (s.res r).prioSwitch.toNat
  let s := if s.prio cur ≠ prioSwitch then s.changePrio cur prioSwitch else s
  (s.setPrioSwitch r 0).setOwner r none

/-- `acoral_mpcp_post`. -/
def acoralMpcpPost (cur : T) (r : R) (s : CeilingState R Nat T) :
    Option (KernelError × CeilingState R Nat T) :=
  if s.owner r ≠ some cur then some (.KR_IPC_ERR_THREAD, s)
  else
    match (s.res r).type with
    | .LOCAL =>
        let curCpu := s.cpu cur
        (s.pop curCpu r).bind fun s =>
          (mpcpWake curCpu s).bind fun s => (mpcpRestore cur r s).semPost r
    | .GLOBAL =>
        let s := s.switchPreempt cur .ACORAL_PREEMPT_GLOBAL .ACORAL_PREEMPT_LOCAL
        (mpcpRestore cur r s).semPost r

/-! ### The system -/

/-- Where a thread is between its steps. -/
inductive MpcpPc (R : Type) where
  /-- in no call -/
  | idle
  /-- behind `acoral_suspend_self` in `acoral_mpcp_pend` -/
  | wait (r : R)
  /-- at the schedule point of the semaphore, in `acoral_mpcp_pend` -/
  | sem (r : R)
  deriving DecidableEq

/-- The system: the kernel's data, where each thread is, the threads that
hold the spin locks, and the history, newest first. -/
structure MpcpRun (R T : Type) where
  st : CeilingState R Nat T
  pc : T → MpcpPc R
  /-- `lock` of each resource -/
  lock : R → Option T
  log : List (CeilingEvent R T)

/-- The call of `cur` returned. -/
def MpcpRun.ret (x : MpcpRun R T) (c : CeilingCall) (cur : T) (r : R) (e : KernelError)
    (s : CeilingState R Nat T) : MpcpRun R T :=
  { x with
    st := s
    pc := Function.update x.pc cur .idle
    log := ⟨c, cur, r, e⟩ :: x.log }

/-- `acoral_spin_lock` and `acoral_spin_unlock` of a resource. -/
def MpcpRun.setLock (x : MpcpRun R T) (r : R) (holder : Option T) : MpcpRun R T :=
  { x with lock := Function.update x.lock r holder }

/-- The stretch of a pend on `r` ended. Only a caller that is suspended in
the semaphore of a global resource keeps the lock. -/
def MpcpRun.pended (x : MpcpRun R T) (cur : T) (r : R)
    (res : CeilingResult × CeilingState R Nat T) : MpcpRun R T :=
  match res.1 with
  | .ret e   => x.ret .pend cur r e res.2
  | .queued  => { x with st := res.2, pc := Function.update x.pc cur (.wait r) }
  | .blocked =>
      let y := { x with st := res.2, pc := Function.update x.pc cur (.sem r) }
      if (res.2.res r).type = .GLOBAL then y.setLock r (some cur) else y

/-- The lock of the resource is free, or the resource is local and has no
use for it. -/
def MpcpRun.unlocked (x : MpcpRun R T) (r : R) : Bool :=
  decide ((x.st.res r).type = .LOCAL ∨ x.lock r = none)

/-- A call. -/
def mpcpCall (fuel : Nat) (x : MpcpRun R T) (c : CeilingCall) (cur : T) (r : R) :
    Option (MpcpRun R T) :=
  match c with
  | .pend =>
      if x.unlocked r then (acoralMpcpPend fuel cur r x.st).map (x.pended cur r) else none
  | .post =>
      -- the owner is tested before the lock is taken
      if x.unlocked r ∨ x.st.owner r ≠ some cur then
        (acoralMpcpPost cur r x.st).map fun res => x.ret .post cur r res.1 res.2
      else none

/-- The rest of a call. -/
def mpcpResume (fuel : Nat) (x : MpcpRun R T) (cur : T) : Option (MpcpRun R T) :=
  match x.pc cur with
  | .idle   => none
  | .wait r => (mpcpLocal fuel cur r (x.st.res r).cpu x.st).map (x.pended cur r)
  | .sem r  =>
      (acoralSemPendResume cur x.st.ipc).map fun res =>
        let y := x.ret .pend cur r res.1 { x.st with ipc := res.2 }
        if (x.st.res r).type = .GLOBAL then y.setLock r none else y

/-- One step of the system: a READY thread calls an operation, or goes on
with its call. -/
def mpcpStep (fuel : Nat) (x : MpcpRun R T) : CeilingOp R T → Option (MpcpRun R T)
  | .call c cur r =>
      if x.st.isReady cur ∧ x.pc cur = .idle then mpcpCall fuel x c cur r else none
  | .resume cur => if x.st.isReady cur then mpcpResume fuel x cur else none

/-- The system before the first step. -/
def MpcpRun.start (s : CeilingState R Nat T) : MpcpRun R T := ⟨s, fun _ => .idle, fun _ => none, []⟩

end ACoral
