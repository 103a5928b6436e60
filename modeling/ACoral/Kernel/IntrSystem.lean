import ACoral.Kernel.Switch
import ACoral.Lib.GuardedRun

/-!
# `ACoral.Kernel.IntrSystem`: interrupts and switches

The steps of all CPUs, each with the CPU that takes it. A critical section is taken in
one step by the operations of `SwitchOp`, and in several where interrupts come between its
begin, the changes to the ready array and its end.
-/

set_option autoImplicit false

namespace ACoral

/-- The steps of a CPU. -/
inductive IntrOp (T : Type) where
  | switch (op : SwitchOp T)
  /-- `acoral_sched_rdyqueue_add`, in a critical section -/
  | rdyqueueAdd (t : T)
  /-- `acoral_sched_rdyqueue_del`, in a critical section -/
  | rdyqueueDel (t : T)
  /-- `init` enables the scheduling -/
  | init

variable {T : Type} [DecidableEq T]

/-- One step. -/
def intrStep (s : CpuState T) : Nat × IntrOp T → Option (CpuState T)
  | (cur, .switch op)     => switchStep cur s op
  | (cur, .rdyqueueAdd t) => some { s with sched := acoralSchedRdyqueueAdd cur s.sched t }
  | (cur, .rdyqueueDel t) => some { s with sched := acoralSchedRdyqueueDel cur s.sched t }
  | (_,   .init)          => some { s with schedEnable := true }

end ACoral
