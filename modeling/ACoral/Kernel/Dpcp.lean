import ACoral.Kernel.Ceiling
import ACoral.Lib.GuardedRun

/-!
# `ACoral.Kernel.Dpcp`: the distributed priority-ceiling protocol

`acoral_dpcp_pend`, `acoral_dpcp_post` and `acoral_dpcp_set` of
`kernel/src/ipc.c`, and the threads that call the first two. A system is a type of resource and a CPU.

One step is one critical section, one suspension or one migration. The
thread that leaves its critical section to suspend itself is between two
steps (`DpcpPc.suspend`), and so is one that migrates. `acoral_sem_pend` and
`acoral_sem_post` run inside of the critical section, where no other thread
is scheduled: a pend that would block executes its second half at once.

The allocation of the word for the CPU succeeds. The two error exits that
leave the critical section open are those of the source; what the open
section does to the CPU is not modelled here.
-/

set_option autoImplicit false

namespace ACoral

open Lib (Links)

/-- A system: a type of resource and a CPU. -/
abbrev DpcpSystem := CeilingType × Nat

/-- `PRIO_SWITCH_FLAG_SHIFT`. -/
def PRIO_SWITCH_FLAG_SHIFT : Nat := 31

/-- `PRIO_SWITCH_FLAG_MASK`. -/
def PRIO_SWITCH_FLAG_MASK : BitVec 32 := 0x8000

/-- `PRIO_SWITCH_MASK`. -/
def PRIO_SWITCH_MASK : BitVec 32 := 0x7fff

variable {R T : Type} [DecidableEq R] [DecidableEq T]

/-- The system of a resource. -/
def CeilingState.dpcpSystem (s : CeilingState R DpcpSystem T) (r : R) : DpcpSystem :=
  ((s.res r).type, (s.res r).cpu)

/-- The end of `acoral_dpcp_pend`, from the test of `sem->data` on. -/
def dpcpTake (fuel : Nat) (cur : T) (r : R) (s : CeilingState R DpcpSystem T) :
    Option (CeilingResult × CeilingState R DpcpSystem T) :=
  ((s.own r cur).semPend fuel r cur).bind fun
    | (.blocked, s) =>
        (acoralSemPendResume cur s.ipc).map fun res => (.ret res.1, { s with ipc := res.2 })
    | res => some res

/-- One round of the loop of `acoral_dpcp_pend`, and the end of the call if
the round leaves the loop. -/
def dpcpRound (fuel : Nat) (cur : T) (r : R) (s : CeilingState R DpcpSystem T) :
    Option (CeilingResult × CeilingState R DpcpSystem T) :=
  let k := s.dpcpSystem r
  if s.prio cur ≥ s.sysPrio k then
    match (s.res r).type with
    | .LOCAL  => (s.inheritPrio k cur).bind fun s => (s.waitAdd fuel k cur).map fun s => (.queued, s)
    | .GLOBAL => (s.waitAdd fuel k cur).map fun s => (.queued, s)
  else
    (s.push k r).bind fun s =>
      match (s.res r).type with
      | .LOCAL =>
          -- the flag does not fit into the `acoral_u8`
          let value := (1#32 <<< PRIO_SWITCH_FLAG_SHIFT) ||| BitVec.ofNat 32 (s.prio cur)
          dpcpTake fuel cur r (s.setPrioSwitch r (value.setWidth 8))
      | .GLOBAL => dpcpTake fuel cur r s

/-- `acoral_dpcp_pend` of a global resource, on its CPU. -/
def dpcpEnter (fuel : Nat) (cur : T) (r : R) (s : CeilingState R DpcpSystem T) :
    Option (CeilingResult × CeilingState R DpcpSystem T) :=
  dpcpRound fuel cur r (s.switchPreempt cur .ACORAL_PREEMPT_LOCAL .ACORAL_PREEMPT_GLOBAL)

/-- The head of the wait queue leaves it and is readied. -/
def dpcpWake (k : DpcpSystem) (s : CeilingState R DpcpSystem T) :
    Option (CeilingState R DpcpSystem T) :=
  (s.waitHead k).bind fun
    | none        => some s
    | some thread => (s.waitDel thread).map fun s => s.rdyThread thread

/-- The part of `acoral_dpcp_post` that restores the priority. -/
def dpcpRestore (cur : T) (r : R) (s : CeilingState R DpcpSystem T) : CeilingState R DpcpSystem T :=
  let prioSwitch := (s.res r).prioSwitch.setWidth 32
  let s :=
    if prioSwitch &&& PRIO_SWITCH_FLAG_MASK ≠ 0 then
      let s :=
        if s.prio cur ≠ (prioSwitch &&& PRIO_SWITCH_MASK).toNat then
          s.changePrio cur prioSwitch.toNat
        else s
      s.setPrioSwitch r 0
    else s
  s.setOwner r none

/-- `acoral_dpcp_post`, up to the migration back. The second component is
the CPU to which the caller migrates. -/
def acoralDpcpPost (cur : T) (r : R) (s : CeilingState R DpcpSystem T) :
    Option (KernelError × Option Nat × CeilingState R DpcpSystem T) :=
  let curCpu := s.cpu cur
  let originCpuP := s.data cur
  if s.owner r ≠ some cur then some (.KR_IPC_ERR_THREAD, none, s)
  else
    match (s.res r).type with
    | .LOCAL =>
        if (s.res r).cpu ≠ curCpu then some (.KR_IPC_ERR_CPU, none, s)
        else
          (s.pop (.LOCAL, curCpu) r).bind fun s =>
            (dpcpWake (.LOCAL, curCpu) s).bind fun s =>
              ((dpcpRestore cur r s).semPost r).map fun res => (res.1, none, res.2)
    | .GLOBAL =>
        let s := s.switchPreempt cur .ACORAL_PREEMPT_GLOBAL .ACORAL_PREEMPT_LOCAL
        (s.pop (s.dpcpSystem r) r).bind fun s =>
          (dpcpWake (s.dpcpSystem r) s).bind fun s =>
            ((dpcpRestore cur r s).semPost r).map fun res =>
              match originCpuP with
              | some p =>
                  if p.word ≠ curCpu then
                    (res.1, some p.word, { res.2 with data := Function.update res.2.data cur none })
                  else (res.1, none, res.2)
              | none => (res.1, none, res.2)

/-- `acoral_jump_cpu`: the caller suspends itself, and the target CPU, if
there is one, makes it ready there. -/
def jumpCpu (s : CeilingState R DpcpSystem T) (cur : T) (cpu : Nat) :
    CeilingState R DpcpSystem T :=
  if cpu ≥ CFG_MAX_CPU ∨ s.cpu cur = cpu then s
  else ((s.suspendSelf cur).setCpu cur cpu).rdyThread cur

/-! ### `acoral_dpcp_set` -/

/-- The list nodes of `acoral_dpcp_queue`. -/
inductive DpcpNode (R : Type) where
  /-- the head of a queue -/
  | head (k : DpcpSystem)
  /-- `list` of a resource -/
  | list (r : R)
  deriving DecidableEq

/-- The data of DPCP, with the queues that list the resources of each system. -/
structure DpcpData (R T : Type) where
  st : CeilingState R DpcpSystem T
  /-- `acoral_dpcp_queue` -/
  queue : Links (DpcpNode R)

/-- The resource moves from the stack of `old` to that of `new`, which gets
`prioCeiling` as its priority. -/
def CeilingState.restack (s : CeilingState R DpcpSystem T) (r : R) (old new : DpcpSystem)
    (prioCeiling : Nat) : Option (CeilingState R DpcpSystem T) :=
  (s.pop old r).bind fun s => (s.setSysPrio new prioCeiling).lifoQueueAdd new r

/-- The resource moves to the queue of `new`. -/
def dpcpRelist (queue : Links (DpcpNode R)) (r : R) (new : DpcpSystem) :
    Option (Links (DpcpNode R)) :=
  (acoralListDel queue (.list r)).bind fun queue => acoralListAdd queue (.list r) (.head new)

/-- Write `type`, `prio_ceiling` and `stacking.value` of a resource. -/
def CeilingState.setCeiling (s : CeilingState R DpcpSystem T) (r : R) (type : CeilingType)
    (prioCeiling : Nat) : CeilingState R DpcpSystem T :=
  let res := { s.res r with type := type, prioCeiling := prioCeiling, stackingValue := prioCeiling }
  { s with res := Function.update s.res r res }

/-- `acoral_dpcp_set`. `none` if the resource has no CPU, so that the source
reads behind its arrays. -/
def acoralDpcpSet (r : R) (type : CeilingType) (prioCeiling : BitVec 8) (s : DpcpData R T) :
    Option (DpcpData R T) :=
  let old := s.st.dpcpSystem r
  let new : DpcpSystem := (type, (s.st.res r).cpu)
  let ceiling := prioCeiling.toNat
  if (s.st.res r).cpu ≥ CFG_MAX_CPU then none
  else if s.st.stackTop old = some r then
    if (s.st.res r).type ≠ type then
      (s.st.restack r old new ceiling).bind fun st =>
        (dpcpRelist s.queue r new).map fun queue =>
          { st := st.setCeiling r type ceiling, queue := queue }
    else some { s with st := (s.st.setSysPrio old ceiling).setCeiling r type ceiling }
  else some { s with st := s.st.setCeiling r type ceiling }

/-! ### The system -/

/-- Where a thread is between its steps. -/
inductive DpcpPc (R : Type) where
  /-- in no call -/
  | idle
  /-- in `acoral_dpcp_pend`, about to migrate to the CPU of the resource -/
  | jump (r : R)
  /-- in `acoral_dpcp_pend`, on the CPU of the resource -/
  | enter (r : R)
  /-- in the wait queue of the system, about to suspend itself -/
  | suspend (r : R)
  /-- behind `acoral_suspend_self` -/
  | wait (r : R)
  /-- in `acoral_dpcp_post`, about to migrate back -/
  | back (r : R) (cpu : Nat) (err : KernelError)
  deriving DecidableEq

/-- The system: the kernel's data, where each thread is, and the history,
newest first. -/
structure DpcpRun (R T : Type) where
  st : CeilingState R DpcpSystem T
  pc : T → DpcpPc R
  log : List (CeilingEvent R T)

/-- The call of `cur` returned. -/
def DpcpRun.ret (x : DpcpRun R T) (c : CeilingCall) (cur : T) (r : R) (e : KernelError)
    (s : CeilingState R DpcpSystem T) : DpcpRun R T :=
  { st := s
    pc := Function.update x.pc cur .idle
    log := ⟨c, cur, r, e⟩ :: x.log }

/-- `cur` goes on at `pc`. -/
def DpcpRun.goto (x : DpcpRun R T) (cur : T) (pc : DpcpPc R) (s : CeilingState R DpcpSystem T) :
    DpcpRun R T :=
  { x with st := s, pc := Function.update x.pc cur pc }

/-- A round of the loop of `acoral_dpcp_pend` ended. -/
def DpcpRun.round (x : DpcpRun R T) (cur : T) (r : R)
    (res : CeilingResult × CeilingState R DpcpSystem T) : DpcpRun R T :=
  match res.1 with
  | .ret e => x.ret .pend cur r e res.2
  | _      => x.goto cur (.suspend r) res.2

/-- `acoral_dpcp_pend`, its first critical section. -/
def dpcpPend (fuel : Nat) (x : DpcpRun R T) (cur : T) (r : R) : Option (DpcpRun R T) :=
  let s := x.st
  match (s.res r).type with
  | .LOCAL =>
      if (s.res r).cpu ≠ s.cpu cur then some (x.ret .pend cur r .KR_IPC_ERR_CPU s)
      else (dpcpRound fuel cur r s).map (x.round cur r)
  | .GLOBAL =>
      if s.cpu cur ≠ (s.res r).cpu then
        let data := Function.update s.data cur (some (.origin (s.cpu cur)))
        some (x.goto cur (.jump r) { s with data := data })
      else (dpcpEnter fuel cur r s).map (x.round cur r)

/-- `acoral_dpcp_post`, its critical section. -/
def dpcpPost (x : DpcpRun R T) (cur : T) (r : R) : Option (DpcpRun R T) :=
  (acoralDpcpPost cur r x.st).map fun
    | (e, none, s)     => x.ret .post cur r e s
    | (e, some cpu, s) => x.goto cur (.back r cpu e) s

/-- The rest of a call. -/
def dpcpResume (fuel : Nat) (x : DpcpRun R T) (cur : T) : Option (DpcpRun R T) :=
  match x.pc cur with
  | .idle         => none
  | .jump r       => some (x.goto cur (.enter r) (jumpCpu x.st cur (x.st.res r).cpu))
  | .enter r      => (dpcpEnter fuel cur r x.st).map (x.round cur r)
  | .suspend r    => some (x.goto cur (.wait r) (x.st.suspendSelf cur))
  | .wait r       => (dpcpRound fuel cur r x.st).map (x.round cur r)
  | .back r cpu e => some (x.ret .post cur r e (jumpCpu x.st cur cpu))

/-- One step of the system: a READY thread calls an operation, or goes on
with its call. -/
def dpcpStep (fuel : Nat) (x : DpcpRun R T) : CeilingOp R T → Option (DpcpRun R T)
  | .call c cur r =>
      if x.st.isReady cur ∧ x.pc cur = .idle then
        match c with
        | .pend => dpcpPend fuel x cur r
        | .post => dpcpPost x cur r
      else none
  | .resume cur => if x.st.isReady cur then dpcpResume fuel x cur else none

/-- The system before the first step. -/
def DpcpRun.start (s : CeilingState R DpcpSystem T) : DpcpRun R T := ⟨s, fun _ => .idle, []⟩

end ACoral
