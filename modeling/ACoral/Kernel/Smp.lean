import ACoral.Kernel.Switch
import ACoral.Lib.GuardedRun

/-!
# `ACoral.Kernel.Smp`: threads between the CPUs

`acoral_rdy_thread`, `acoral_suspend_thread`, `acoral_moveto_thread` and
`acoral_movein_thread` of `kernel/src/thread.c`, for threads of any CPU.

A call in progress is an element of a type `A` and runs on a fixed CPU.
One step is one test of the thread, one critical section on a ready array,
one lock operation or the sending of a command. Steps of different calls
come in any order. That covers calls of one CPU too, as an interrupt can
come between a test and the critical section behind it.

Each CPU has one mailbox (`mail`). A sender waits until it is empty, and a
handler run empties it before it executes the command.
-/

set_option autoImplicit false

namespace ACoral

/-- The commands of `ipi.h` about these operations. -/
inductive SmpCmd (T : Type) where
  | ACORAL_IPI_THREAD_READY (t : T)
  | ACORAL_IPI_THREAD_SUSPEND (t : T)
  | ACORAL_IPI_THREAD_MOVETO (t : T) (cpu : Nat)
  | ACORAL_IPI_THREAD_MOVEIN (t : T)

/-- Where a call is. `next` is where its caller goes on. -/
inductive SmpPc (T : Type) where
  /-- in no call -/
  | idle
  /-- `acoral_rdy_thread`: at the test of the state -/
  | rdy (t : T) (next : SmpPc T)
  /-- at the test of the CPU -/
  | rdyCpu (t : T) (next : SmpPc T)
  /-- at the critical section -/
  | rdyAdd (t : T) (next : SmpPc T)
  /-- `acoral_suspend_thread`: at the test of the state -/
  | suspend (t : T) (next : SmpPc T)
  /-- at the test of the CPU -/
  | suspendCpu (t : T) (next : SmpPc T)
  /-- at the critical section -/
  | suspendDel (t : T) (next : SmpPc T)
  /-- `acoral_ipi_cmd_send` -/
  | send (cpu : Nat) (cmd : SmpCmd T) (next : SmpPc T)
  /-- `acoral_moveto_thread`: at the tests of the target -/
  | moveto (t : T) (cpu : Nat)
  /-- at `acoral_spin_lock(&thread->move_lock)` -/
  | movetoLock (t : T) (cpu : Nat) (cur : T)
  /-- at the test of the CPU -/
  | movetoCpu (t : T) (cpu : Nat) (cur : T)
  /-- behind `acoral_suspend_thread` -/
  | movetoMark (t : T) (cpu : Nat) (cur : T)
  /-- behind `acoral_ipi_cmd_send` -/
  | movetoEnd (t cur : T)
  /-- `acoral_movein_thread`: at `acoral_spin_lock(&thread->move_lock)` -/
  | movein (t : T)
  /-- at `thread->cpu=acoral_current_cpu` -/
  | moveinCpu (t : T)
  /-- at `acoral_spin_unlock(&thread->move_lock)` -/
  | unlock (t : T)

/-- A call in progress. -/
structure SmpCall (T : Type) where
  /-- `acoral_current_cpu` -/
  cpu : Nat
  pc : SmpPc T

/-- The kernel's data, the mailboxes, and the calls in progress. -/
structure SmpState (A T : Type) where
  kernel : CpuState T
  mail : Nat → Option (SmpCmd T)
  call : A → SmpCall T

variable {A T : Type} [DecidableEq A] [DecidableEq T]

namespace SmpState

/-- `thread->cpu`. -/
def cpu (s : SmpState A T) (t : T) : Nat := (s.kernel.sched.thread t).cpu

/-- Let a call go on, with new data. -/
def goto (s : SmpState A T) (a : A) (pc : SmpPc T) (kernel : CpuState T) : SmpState A T :=
  { s with kernel := kernel, call := Function.update s.call a { s.call a with pc := pc } }

end SmpState

/-- Change the data of the scheduler. -/
def CpuState.setSched (s : CpuState T) (sched : Sched T) : CpuState T := { s with sched := sched }

/-- Write `move_lock` of a thread. -/
def CpuState.setMoveLock (s : CpuState T) (t : T) (value : Bool) : CpuState T :=
  { s with moveLock := Function.update s.moveLock t value }

/-- Write `thread->cpu`. -/
def CpuState.setCpu (s : CpuState T) (t : T) (cpu : Nat) : CpuState T :=
  s.setSched
    { s.sched with
      thread := Function.update s.sched.thread t { s.sched.thread t with cpu := cpu } }

/-- One step of a call on the CPU `cur`. A lock or a mailbox that is not
free is waited for. -/
def smpCallStep (s : SmpState A T) (a : A) : Option (SmpState A T) :=
  let cur := (s.call a).cpu
  let k := s.kernel
  match (s.call a).pc with
  | .idle => none
  | .rdy t next =>
      if hasFlag (k.state t) ACORAL_THREAD_STATE_SUSPEND then some (s.goto a (.rdyCpu t next) k)
      else some (s.goto a next k)
  | .rdyCpu t next =>
      if s.cpu t ≠ cur then
        some (s.goto a (.send (s.cpu t) (.ACORAL_IPI_THREAD_READY t) next) k)
      else some (s.goto a (.rdyAdd t next) k)
  | .rdyAdd t next => some (s.goto a next (k.setSched (acoralSchedRdyqueueAdd cur k.sched t)))
  | .suspend t next =>
      if hasFlag (k.state t) ACORAL_THREAD_STATE_READY then
        some (s.goto a (.suspendCpu t next) k)
      else some (s.goto a next k)
  | .suspendCpu t next =>
      if s.cpu t ≠ cur then
        some (s.goto a (.send (s.cpu t) (.ACORAL_IPI_THREAD_SUSPEND t) next) k)
      else some (s.goto a (.suspendDel t next) k)
  | .suspendDel t next =>
      some (s.goto a next (k.setSched (acoralSchedRdyqueueDel cur k.sched t)))
  | .send cpu cmd next =>
      let cpu := if cpu ≥ CFG_MAX_CPU then CFG_MAX_CPU - 1 else cpu
      if (s.mail cpu).isSome then none
      else some { s.goto a next k with mail := Function.update s.mail cpu (some cmd) }
  | .moveto t cpu =>
      if cpu ≥ CFG_MAX_CPU then some (s.goto a .idle k)
      else if s.cpu t = cpu then some (s.goto a .idle k)
      else some (s.goto a (.movetoLock t cpu (k.running cur)) k)
  | .movetoLock t cpu self =>
      if k.moveLock t then none
      else some (s.goto a (.movetoCpu t cpu self) (k.setMoveLock t true))
  | .movetoCpu t cpu self =>
      if s.cpu t ≠ cur then
        some (s.goto a (.send (s.cpu t) (.ACORAL_IPI_THREAD_MOVETO t cpu) (.unlock t)) k)
      else some (s.goto a (.suspend t (.movetoMark t cpu self)) k)
  | .movetoMark t cpu self =>
      some (s.goto a (.send cpu (.ACORAL_IPI_THREAD_MOVEIN t) (.movetoEnd t self))
        (k.setState t (k.state t ||| ACORAL_THREAD_STATE_MOVE)))
  | .movetoEnd t self =>
      -- the lock of the caller itself is given back by `acoral_switch_context`
      if t ≠ self then some (s.goto a (.unlock t) k) else some (s.goto a .idle k)
  | .movein t =>
      if k.moveLock t then none else some (s.goto a (.moveinCpu t) (k.setMoveLock t true))
  | .moveinCpu t => some (s.goto a (.rdy t (.unlock t)) (k.setCpu t cur))
  | .unlock t => some (s.goto a .idle (k.setMoveLock t false))

/-- The call that a handler run makes. -/
def SmpCmd.call : SmpCmd T → SmpPc T
  | .ACORAL_IPI_THREAD_READY t      => .rdy t .idle
  | .ACORAL_IPI_THREAD_SUSPEND t    => .suspend t .idle
  | .ACORAL_IPI_THREAD_MOVETO t cpu => .moveto t cpu
  | .ACORAL_IPI_THREAD_MOVEIN t     => .movein t

/-- The steps of a run. -/
inductive SmpOp (A T : Type) where
  /-- a call starts on a CPU: the one that the command would make -/
  | call (a : A) (cpu : Nat) (cmd : SmpCmd T)
  /-- a call goes on -/
  | step (a : A)
  /-- a CPU takes the command in its mailbox -/
  | handler (a : A) (cpu : Nat)
  /-- `acoral_switch_context` on a CPU -/
  | switchContext (cpu : Nat)

/-- The call is over. -/
def SmpPc.isIdle : SmpPc T → Bool
  | .idle => true
  | _     => false

namespace SmpState

/-- One step. -/
def step (s : SmpState A T) : SmpOp A T → Option (SmpState A T)
  | .call a cpu cmd =>
      if (s.call a).pc.isIdle then
        some { s with call := Function.update s.call a { cpu := cpu, pc := cmd.call } }
      else none
  | .step a => smpCallStep s a
  | .handler a cpu =>
      if (s.call a).pc.isIdle then
        (s.mail cpu).map fun cmd =>
          { s with
            mail := Function.update s.mail cpu none
            call := Function.update s.call a { cpu := cpu, pc := cmd.call } }
      else none
  | .switchContext cpu =>
      (acoralSwitchContext cpu s.kernel).map fun kernel => { s with kernel := kernel }

/-- The threads are suspended, each on its CPU, and no call is in
progress. -/
def start (kernel : CpuState T) (thread : T → Tcb) : SmpState A T :=
  { kernel :=
      { kernel with sched := acoralSchedRdyqueueInit thread, moveLock := fun _ => false }
    mail := fun _ => none
    call := fun _ => { cpu := 0, pc := .idle } }

end SmpState

end ACoral
