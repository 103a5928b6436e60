import ACoral.Kernel.CriticalCalls
import ACoral.Lib.GuardedRun

/-!
# `ACoral.Kernel.Critical`: critical sections on several CPUs

`critical_nesting` of each CPU, and the activities that run: threads and
interrupt handlers, named by `C`. One step is one instruction of the call
that the activity running on a CPU is in. A CPU changes to another activity
only at the nesting 0, where the interrupts are on: `acoral_exit_critical`
calls the scheduler there, and an interrupt can come there. User code enters
and leaves critical sections of its own (`enter`, `exit`).

The rest of the kernel changes the data at any time, in any way (`env`).

`log` has the calls that returned, newest first, with the nesting of the CPU
when they began and when they returned.
-/

set_option autoImplicit false

namespace ACoral.Critical

open Lib (Prog)

/-- A call that an activity is in. -/
structure Frame (R T : Type) where
  call : CriticalCall R T
  /-- the CPU at the start -/
  curCpu : Nat
  /-- the nesting of that CPU at the start -/
  entry : Nat
  /-- how many reads of the call have been done -/
  reads : Nat
  /-- what is left of its code -/
  rest : Code R T Unit

/-- A call that returned. -/
structure CriticalEvent (C R T : Type) where
  caller : C
  call : CriticalCall R T
  /-- the nesting of the CPU when it began -/
  entry : Nat
  /-- and when it returned -/
  exit : Nat

/-- The CPUs, the locks and the activities. -/
structure CriticalState (C R T : Type) where
  data : CeilingState R PendQueue T
  /-- `critical_nesting` -/
  criticalNesting : Nat → Nat
  /-- who has a spin lock -/
  holder : SpinLock R → Option C
  /-- who runs on a CPU -/
  running : Nat → Option C
  frame : C → Option (Frame R T)
  log : List (CriticalEvent C R T)

/-- One step. -/
inductive CriticalOp (C R T : Type) where
  /-- the activity on the CPU calls an operation -/
  | call (cpu : Nat) (c : CriticalCall R T)
  /-- it executes one instruction of its call -/
  | step (cpu : Nat)
  /-- the CPU changes to `next` -/
  | switch (cpu : Nat) (next : C)
  /-- user code calls `acoral_enter_critical` -/
  | enter (cpu : Nat)
  /-- user code calls `acoral_exit_critical` -/
  | exit (cpu : Nat)
  /-- the rest of the kernel works -/
  | env (data : CeilingState R PendQueue T)

variable {C R T : Type} [DecidableEq C] [DecidableEq R] [DecidableEq T]

namespace CriticalState

/-- `acoral_enter_critical`. -/
def enterCritical (x : CriticalState C R T) (cpu : Nat) : CriticalState C R T :=
  { x with criticalNesting :=
      Function.update x.criticalNesting cpu (x.criticalNesting cpu + 1) }

/-- `acoral_exit_critical`. The subtraction stops at 0, as the test in front of
it does. -/
def exitCritical (x : CriticalState C R T) (cpu : Nat) : CriticalState C R T :=
  { x with criticalNesting :=
      Function.update x.criticalNesting cpu (x.criticalNesting cpu - 1) }

/-- The activity is in a call. -/
def setFrame (x : CriticalState C R T) (c : C) (f : Option (Frame R T)) : CriticalState C R T :=
  { x with frame := Function.update x.frame c f }

/-- Who has the lock. -/
def setHolder (x : CriticalState C R T) (l : SpinLock R) (c : Option C) : CriticalState C R T :=
  { x with holder := Function.update x.holder l c }

end CriticalState

/-- One instruction of the call `f` of the activity `c` on a CPU. -/
def criticalStep (x : CriticalState C R T) (cpu : Nat) (c : C) (f : Frame R T) :
    Option (CriticalState C R T) :=
  match f.rest with
  | .ret _      =>
      let event : CriticalEvent C R T :=
        { caller := c, call := f.call, entry := f.entry, exit := x.criticalNesting cpu }
      some { x.setFrame c none with log := event :: x.log }
  | .enter k    => some ((x.enterCritical cpu).setFrame c (some { f with rest := k }))
  | .exit k     => some ((x.exitCritical cpu).setFrame c (some { f with rest := k }))
  | .lock l k   =>
      -- a CPU spins at a lock that is taken
      if x.holder l = none then
        some ((x.setHolder l (some c)).setFrame c (some { f with rest := k }))
      else none
  | .unlock l k => some ((x.setHolder l none).setFrame c (some { f with rest := k }))
  | .read g     =>
      some (x.setFrame c (some { f with reads := f.reads + 1, rest := g cpu x.data }))
  | .write g k  =>
      (g cpu x.data).map fun data => { x with data := data }.setFrame c (some { f with rest := k })

/-- One step. -/
def criticalRun (fuel : Nat) (x : CriticalState C R T) :
    CriticalOp C R T → Option (CriticalState C R T)
  | .call cpu call   =>
      (x.running cpu).bind fun c =>
        if cpu < CFG_MAX_CPU ∧ (x.frame c).isNone then
          some (x.setFrame c (some
            { call := call, curCpu := cpu, entry := x.criticalNesting cpu, reads := 0
              rest := call.code fuel cpu }))
        else none
  | .step cpu        =>
      (x.running cpu).bind fun c =>
        if cpu < CFG_MAX_CPU then (x.frame c).bind (criticalStep x cpu c) else none
  | .switch cpu next =>
      if cpu < CFG_MAX_CPU ∧ x.criticalNesting cpu = 0 ∧
          ∀ other < CFG_MAX_CPU, x.running other ≠ some next then
        some { x with running := Function.update x.running cpu (some next) }
      else none
  | .enter cpu       =>
      (x.running cpu).bind fun c =>
        if cpu < CFG_MAX_CPU ∧ (x.frame c).isNone then some (x.enterCritical cpu) else none
  | .exit cpu        =>
      (x.running cpu).bind fun c =>
        if cpu < CFG_MAX_CPU ∧ (x.frame c).isNone then some (x.exitCritical cpu) else none
  | .env data        => some { x with data := data }

end ACoral.Critical
