import ACoral.Kernel.Types
import ACoral.Lib.GuardedRun
import Mathlib.Logic.Function.Basic

/-!
# `ACoral.Kernel.Ipi`: commands between the CPUs

The mailbox of `kernel/src/ipi.c`, instruction by instruction. Each CPU
has one `acoral_ipi_cmd_t`. A sender takes its lock, writes the three
fields and raises the software interrupt; the handler on the target reads
the fields and gives the lock back.

A call of `acoral_ipi_cmd_send` is named by an element of a type `S`, and
a run of `acoral_ipi_cmd_handler` by an element of a type `H`. Any number
of calls can be in progress on each CPU, since an interrupt can come in the
middle of one. Each access to memory is a step of its own.

The run of the command (`switch(cmd)` in the handler) comes after the lock
has been given back. It may send commands, which are calls like any other.
-/

set_option autoImplicit false

namespace ACoral

/-- `acoral_ipi_cmd_t`. -/
structure IpiCmdBox where
  lock : Bool
  cmd : BitVec 32
  threadId : BitVec 32
  data : BitVec 32

/-- The arguments of `acoral_ipi_cmd_send` that go to the target. -/
structure IpiArgs where
  cmd : BitVec 32
  threadId : BitVec 32
  data : BitVec 32
  deriving DecidableEq, Repr

/-- The next instruction of `acoral_ipi_cmd_send`. -/
inductive IpiSendPc where
  | idle
  /-- `acoral_spin_lock(&cmd_data->lock)` -/
  | lock
  /-- `cmd_data->cmd=cmd` -/
  | cmd
  /-- `cmd_data->thread_id=thread_id` -/
  | threadId
  /-- `cmd_data->data=data` -/
  | data
  /-- `acoral_ipi_send(cpu)` -/
  | send
  | done
  deriving DecidableEq, Repr

/-- A call of `acoral_ipi_cmd_send`. -/
structure IpiSend where
  pc : IpiSendPc
  /-- the target CPU -/
  cpu : Nat
  args : IpiArgs

/-- The next instruction of `acoral_ipi_cmd_handler`. -/
inductive IpiHandlerPc where
  | idle
  /-- `cmd=cmd_data->cmd` -/
  | cmd
  /-- `thread_id=cmd_data->thread_id` -/
  | threadId
  /-- `data=cmd_data->data` -/
  | data
  /-- `acoral_spin_unlock(&cmd_data->lock)` -/
  | unlock
  | done
  deriving DecidableEq, Repr

/-- A run of `acoral_ipi_cmd_handler`, with its local variables. -/
structure IpiHandler where
  pc : IpiHandlerPc
  /-- `acoral_current_cpu` -/
  cpu : Nat
  locals : IpiArgs

/-- The data of `ipi.c`, with the calls and the handler runs in progress. -/
structure IpiState (S H : Type) where
  /-- `ipi_cmd` -/
  ipiCmd : Nat → IpiCmdBox
  /-- the software interrupts raised at a CPU and not yet handled -/
  pending : Nat → Nat
  send : S → IpiSend
  handler : H → IpiHandler

variable {S H : Type} [DecidableEq S] [DecidableEq H]

namespace IpiState

/-- Write the mailbox of a CPU. -/
def setBox (s : IpiState S H) (cpu : Nat) (box : IpiCmdBox) : IpiState S H :=
  { s with ipiCmd := Function.update s.ipiCmd cpu box }

/-- Let a call go on to an instruction. -/
def sendGoto (s : IpiState S H) (x : S) (pc : IpiSendPc) : IpiState S H :=
  { s with send := Function.update s.send x { s.send x with pc := pc } }

/-- Let a handler run go on to an instruction, with new local variables. -/
def handlerGoto (s : IpiState S H) (h : H) (pc : IpiHandlerPc) (locals : IpiArgs) :
    IpiState S H :=
  { s with handler := Function.update s.handler h { s.handler h with pc := pc, locals := locals } }

end IpiState

/-- `acoral_ipi_send`: raise the software interrupt at CPU 0 or 1. -/
def acoralIpiSend (s : IpiState S H) (cpu : Nat) : IpiState S H :=
  if cpu = 0 then { s with pending := Function.update s.pending 0 (s.pending 0 + 1) }
  else if cpu = 1 then { s with pending := Function.update s.pending 1 (s.pending 1 + 1) }
  else s

/-- The start of `acoral_ipi_cmd_send`: the number of the CPU is cut down
to the last one. -/
def ipiCmdSendCall (cpu : Nat) (args : IpiArgs) : IpiSend :=
  { pc := .lock, cpu := if cpu ≥ CFG_MAX_CPU then CFG_MAX_CPU - 1 else cpu, args := args }

/-- The next instruction of `acoral_ipi_cmd_send`. A lock that is taken is
waited for. -/
def ipiCmdSendStep (s : IpiState S H) (x : S) : Option (IpiState S H) :=
  let c := s.send x
  let box := s.ipiCmd c.cpu
  match c.pc with
  | .idle | .done => none
  | .lock     =>
      if box.lock then none
      else some ((s.setBox c.cpu { box with lock := true }).sendGoto x .cmd)
  | .cmd      => some ((s.setBox c.cpu { box with cmd := c.args.cmd }).sendGoto x .threadId)
  | .threadId => some ((s.setBox c.cpu { box with threadId := c.args.threadId }).sendGoto x .data)
  | .data     => some ((s.setBox c.cpu { box with data := c.args.data }).sendGoto x .send)
  | .send     => some ((acoralIpiSend s c.cpu).sendGoto x .done)

/-- The next instruction of `acoral_ipi_cmd_handler`. -/
def ipiCmdHandlerStep (s : IpiState S H) (h : H) : Option (IpiState S H) :=
  let r := s.handler h
  let box := s.ipiCmd r.cpu
  match r.pc with
  | .idle | .done => none
  | .cmd      => some (s.handlerGoto h .threadId { r.locals with cmd := box.cmd })
  | .threadId => some (s.handlerGoto h .data { r.locals with threadId := box.threadId })
  | .data     => some (s.handlerGoto h .unlock { r.locals with data := box.data })
  | .unlock   =>
      some ((s.setBox r.cpu { box with lock := false }).handlerGoto h .done r.locals)

/-- The steps of a run. -/
inductive IpiOp (S H : Type) where
  /-- `acoral_ipi_cmd_send` is called -/
  | call (x : S) (cpu : Nat) (args : IpiArgs)
  /-- a call goes on -/
  | send (x : S)
  /-- a CPU takes a software interrupt, and enters the handler -/
  | intr (h : H) (cpu : Nat) (locals : IpiArgs)
  /-- a handler run goes on -/
  | handler (h : H)

/-- A run in progress. `raised` and `started` record what happened at each
CPU: the calls that raised its interrupt, and the handler runs that it
entered, both in order. -/
structure IpiRun (S H : Type) where
  st : IpiState S H
  raised : Nat → List S
  started : Nat → List H

namespace IpiRun

/-- One step. An interrupt that has been raised is taken once. -/
def step (s : IpiRun S H) : IpiOp S H → Option (IpiRun S H)
  | .call x cpu args =>
      if (s.st.send x).pc = .idle then
        let send := Function.update s.st.send x (ipiCmdSendCall cpu args)
        some { s with st := { s.st with send := send } }
      else none
  | .send x =>
      let cpu := (s.st.send x).cpu
      (ipiCmdSendStep s.st x).map fun st =>
        if (s.st.send x).pc = .send then
          { s with st := st, raised := Function.update s.raised cpu (s.raised cpu ++ [x]) }
        else { s with st := st }
  | .intr h cpu locals =>
      if (s.st.handler h).pc = .idle ∧ s.st.pending cpu ≠ 0 then
        some
          { s with
            st :=
              { s.st with
                pending := Function.update s.st.pending cpu (s.st.pending cpu - 1)
                handler := Function.update s.st.handler h
                  { pc := .cmd, cpu := cpu, locals := locals } }
            started := Function.update s.started cpu (s.started cpu ++ [h]) }
      else none
  | .handler h => (ipiCmdHandlerStep s.st h).map fun st => { s with st := st }

/-- Execute the steps in order. -/
def run (s : IpiRun S H) (ops : List (IpiOp S H)) : Option (IpiRun S H) := Lib.run step s ops

/-- The state after `acoral_ipi_cmd_init`: no lock is taken, no call and no
handler run is in progress. The fields may hold anything. -/
def start (box : Nat → IpiCmdBox) : IpiRun S H :=
  { st :=
      { ipiCmd := fun cpu => { box cpu with lock := false }
        pending := fun _ => 0
        send := fun _ => { pc := .idle, cpu := 0, args := ⟨0, 0, 0⟩ }
        handler := fun _ => { pc := .idle, cpu := 0, locals := ⟨0, 0, 0⟩ } }
    raised := fun _ => []
    started := fun _ => [] }

end IpiRun

end ACoral
