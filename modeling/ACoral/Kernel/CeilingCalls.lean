import ACoral.Kernel.Dpcp
import ACoral.Kernel.Mpcp

/-!
# `ACoral.Kernel.CeilingCalls`: both ceiling protocols on one set of systems

`ACoral.Kernel.Mpcp` and `ACoral.Kernel.Dpcp` each have a type of systems of
their own. A thread that uses resources of both protocols has one `pending`
node for the wait queues of all of them. This module states the operations
once more for any type `K` of systems, with the system of a CPU as a
parameter; `ACoral.Proofs.Ceiling.Calls` has that at the systems of one
protocol they are the operations of its own module.
-/

set_option autoImplicit false

namespace ACoral

variable {R K T : Type} [DecidableEq R] [DecidableEq K] [DecidableEq T]

/-! ### MPCP -/

/-- The end of a pend, from the test of `sem->data` to the schedule point of
the semaphore. -/
def ceilingTake (fuel : Nat) (cur : T) (r : R) (s : CeilingState R K T) :
    Option (CeilingResult × CeilingState R K T) :=
  (s.own r cur).semPend fuel r cur

/-- `acoral_mpcp_pend` of a local resource, from its second test on, with `k`
the system of the CPU. -/
def mpcpLocalOn (fuel : Nat) (k : K) (cur : T) (r : R) (s : CeilingState R K T) :
    Option (CeilingResult × CeilingState R K T) :=
  if s.prio cur < s.sysPrio k then
    (s.push k r).bind fun s =>
      ceilingTake fuel cur r (s.setPrioSwitch r (BitVec.ofNat 8 (s.prio cur)))
  else ceilingTake fuel cur r s

/-- `acoral_mpcp_pend`. -/
def mpcpPendOn (sys : Nat → K) (fuel : Nat) (cur : T) (r : R) (s : CeilingState R K T) :
    Option (CeilingResult × CeilingState R K T) :=
  match (s.res r).type with
  | .LOCAL =>
      let k := sys (s.cpu cur)
      if (s.res r).cpu ≠ s.cpu cur then some (.ret .KR_IPC_ERR_CPU, s)
      else if s.prio cur ≥ s.sysPrio k then
        (s.inheritPrio k cur).bind fun s =>
          (s.waitAdd fuel k cur).map fun s => (.queued, s.suspendSelf cur)
      else mpcpLocalOn fuel k cur r s
  | .GLOBAL =>
      let s := s.switchPreempt cur .ACORAL_PREEMPT_LOCAL .ACORAL_PREEMPT_GLOBAL
      let s :=
        if s.owner r = none then
          (s.setPrioSwitch r (BitVec.ofNat 8 (s.prio cur))).changePrio cur (s.res r).prioCeiling
        else s
      ceilingTake fuel cur r s

/-- The head of the wait queue is readied. It stays in the queue. -/
def mpcpWakeOn (k : K) (s : CeilingState R K T) : Option (CeilingState R K T) :=
  (s.waitHead k).map fun
    | none        => s
    | some thread => s.rdyThread thread

/-- The part of `acoral_mpcp_post` that restores the priority. -/
def mpcpRestoreOn (cur : T) (r : R) (s : CeilingState R K T) : CeilingState R K T :=
  let prioSwitch := (s.res r).prioSwitch.toNat
  let s := if s.prio cur ≠ prioSwitch then s.changePrio cur prioSwitch else s
  (s.setPrioSwitch r 0).setOwner r none

/-- `acoral_mpcp_post`. -/
def mpcpPostOn (sys : Nat → K) (cur : T) (r : R) (s : CeilingState R K T) :
    Option (KernelError × CeilingState R K T) :=
  if s.owner r ≠ some cur then some (.KR_IPC_ERR_THREAD, s)
  else
    match (s.res r).type with
    | .LOCAL =>
        let k := sys (s.cpu cur)
        (s.pop k r).bind fun s =>
          (mpcpWakeOn k s).bind fun s => (mpcpRestoreOn cur r s).semPost r
    | .GLOBAL =>
        let s := s.switchPreempt cur .ACORAL_PREEMPT_GLOBAL .ACORAL_PREEMPT_LOCAL
        (mpcpRestoreOn cur r s).semPost r

/-! ### DPCP -/

/-- The end of `acoral_dpcp_pend`, from the test of `sem->data` on. -/
def dpcpTakeOn (fuel : Nat) (cur : T) (r : R) (s : CeilingState R K T) :
    Option (CeilingResult × CeilingState R K T) :=
  (ceilingTake fuel cur r s).bind fun
    | (.blocked, s) =>
        (acoralSemPendResume cur s.ipc).map fun res => (.ret res.1, { s with ipc := res.2 })
    | res => some res

/-- One round of the loop of `acoral_dpcp_pend`, with `k` the system of the
resource. -/
def dpcpRoundOn (fuel : Nat) (k : K) (cur : T) (r : R) (s : CeilingState R K T) :
    Option (CeilingResult × CeilingState R K T) :=
  if s.prio cur ≥ s.sysPrio k then
    match (s.res r).type with
    | .LOCAL  => (s.inheritPrio k cur).bind fun s => (s.waitAdd fuel k cur).map fun s => (.queued, s)
    | .GLOBAL => (s.waitAdd fuel k cur).map fun s => (.queued, s)
  else
    (s.push k r).bind fun s =>
      match (s.res r).type with
      | .LOCAL =>
          -- the flag does not fit into the `acoral_u8`
          let value := (1#32 <<< PRIO_SWITCH_FLAG_SHIFT) ||| BitVec.ofNat 32 (s.prio cur)
          dpcpTakeOn fuel cur r (s.setPrioSwitch r (value.setWidth 8))
      | .GLOBAL => dpcpTakeOn fuel cur r s

/-- `acoral_dpcp_pend` of a global resource, on its CPU. -/
def dpcpEnterOn (fuel : Nat) (k : K) (cur : T) (r : R) (s : CeilingState R K T) :
    Option (CeilingResult × CeilingState R K T) :=
  dpcpRoundOn fuel k cur r (s.switchPreempt cur .ACORAL_PREEMPT_LOCAL .ACORAL_PREEMPT_GLOBAL)

/-- The head of the wait queue leaves it and is readied. -/
def dpcpWakeOn (k : K) (s : CeilingState R K T) : Option (CeilingState R K T) :=
  (s.waitHead k).bind fun
    | none        => some s
    | some thread => (s.waitDel thread).map fun s => s.rdyThread thread

/-- The part of `acoral_dpcp_post` that restores the priority. -/
def dpcpRestoreOn (cur : T) (r : R) (s : CeilingState R K T) : CeilingState R K T :=
  let prioSwitch := (s.res r).prioSwitch.setWidth 32
  let s :=
    if prioSwitch &&& PRIO_SWITCH_FLAG_MASK ≠ 0 then
      let s :=
        if s.prio cur ≠ (prioSwitch &&& PRIO_SWITCH_MASK).toNat then
          s.changePrio cur prioSwitch.toNat
        else s
      s.setPrioSwitch r 0
    else s
  s.setOwner r none

/-- The body of `acoral_dpcp_post`, behind its error exits and up to the
migration back. -/
def dpcpReleaseOn (k : K) (cur : T) (r : R) (s : CeilingState R K T) :
    Option (KernelError × CeilingState R K T) :=
  (s.pop k r).bind fun s => (dpcpWakeOn k s).bind fun s => (dpcpRestoreOn cur r s).semPost r

/-- `acoral_dpcp_post`, up to the migration back. The second component is
the CPU to which the caller migrates. -/
def dpcpPostOn (sys : CeilingType → Nat → K) (cur : T) (r : R) (s : CeilingState R K T) :
    Option (KernelError × Option Nat × CeilingState R K T) :=
  let curCpu := s.cpu cur
  let originCpuP := s.data cur
  if s.owner r ≠ some cur then some (.KR_IPC_ERR_THREAD, none, s)
  else
    match (s.res r).type with
    | .LOCAL =>
        if (s.res r).cpu ≠ curCpu then some (.KR_IPC_ERR_CPU, none, s)
        else (dpcpReleaseOn (sys .LOCAL curCpu) cur r s).map fun res => (res.1, none, res.2)
    | .GLOBAL =>
        let s := s.switchPreempt cur .ACORAL_PREEMPT_GLOBAL .ACORAL_PREEMPT_LOCAL
        (dpcpReleaseOn (sys .GLOBAL (s.res r).cpu) cur r s).map fun res =>
          match originCpuP with
          | some p =>
              if p.word ≠ curCpu then
                (res.1, some p.word, { res.2 with data := Function.update res.2.data cur none })
              else (res.1, none, res.2)
          | none => (res.1, none, res.2)

/-- `acoral_jump_cpu`: the caller suspends itself, and the target CPU, if
there is one, makes it ready there. -/
def jumpCpuOn (s : CeilingState R K T) (cur : T) (cpu : Nat) : CeilingState R K T :=
  if cpu ≥ CFG_MAX_CPU ∨ s.cpu cur = cpu then s
  else ((s.suspendSelf cur).setCpu cur cpu).rdyThread cur

end ACoral
