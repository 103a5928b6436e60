import ACoral.Kernel.Ceiling

/-!
# `ACoral.Kernel.Switch`: schedule points

The part of `kernel/src/sched.c` that changes the running thread:
critical sections, `acoral_sched` and `acoral_switch_context`.

The functions run on the CPU `cur`, and `none` says that the ready array is
empty: the source then takes the address of a queue head for a thread.

The interrupts of low priority are masked in a critical section, and an
interrupt handler raises `acoral_intr_nesting` by one, so that the schedule
points in it do not switch. When it returns, `acoral_intr_exit` sets
`hal_irq_switch` if there is to be a switch, and the epilogue of the
interrupt (`hal_int_s.S`) reads it. Nothing clears it.
-/

set_option autoImplicit false

namespace ACoral

/-- `ACORAL_THREAD_STATE_EXIT`. -/
def ACORAL_THREAD_STATE_EXIT : BitVec 8 := 0x08

/-- `ACORAL_THREAD_STATE_RELEASE`. -/
def ACORAL_THREAD_STATE_RELEASE : BitVec 8 := 0x10

/-- `ACORAL_THREAD_STATE_MOVE`. -/
def ACORAL_THREAD_STATE_MOVE : BitVec 8 := 0x20

/-- `ACORAL_THREAD_STATE_RELOAD`. -/
def ACORAL_THREAD_STATE_RELOAD : BitVec 8 := 0x40

/-- The data of the schedule points. -/
structure CpuState (T : Type) where
  sched : Sched T
  /-- `running_thread` -/
  running : Nat → T
  /-- `preempt_type` of each thread -/
  preemptType : T → PreemptType
  /-- `move_lock` of each thread -/
  moveLock : T → Bool
  /-- `critical_nesting` -/
  criticalNesting : Nat → Nat
  /-- `sched_lock` -/
  schedLock : Nat → Bool
  /-- `acoral_intr_nesting` of each CPU -/
  intrNesting : Nat → Nat
  /-- `acoral_sched_enable` -/
  schedEnable : Bool
  /-- `hal_irq_switch` -/
  irqSwitch : Nat → Bool

variable {T : Type} [DecidableEq T]

namespace CpuState

/-- `thread->state`. -/
def state (s : CpuState T) (t : T) : BitVec 8 := (s.sched.thread t).state

/-- Write `thread->state`. -/
def setState (s : CpuState T) (t : T) (state : BitVec 8) : CpuState T :=
  { s with
    sched := { s.sched with
      thread := Function.update s.sched.thread t { s.sched.thread t with state := state } } }

/-- `acoral_set_need_sched`. -/
def setNeedSched (cur : Nat) (s : CpuState T) (value : Bool) : CpuState T :=
  { s with sched := { s.sched with needSched := Function.update s.sched.needSched cur value } }

/-- Write `preempt_type` of a thread. -/
def setPreemptType (s : CpuState T) (t : T) (type : PreemptType) : CpuState T :=
  { s with preemptType := Function.update s.preemptType t type }

end CpuState

/-- `acoral_set_running_thread`. -/
def acoralSetRunningThread (cur : Nat) (s : CpuState T) (thread : T) : CpuState T :=
  let s := s.setState (s.running cur) (s.state (s.running cur) &&& ~~~ ACORAL_THREAD_STATE_RUNNING)
  let s := s.setState thread (s.state thread ||| ACORAL_THREAD_STATE_RUNNING)
  { s with running := Function.update s.running cur thread }

/-- The test of `acoral_switch_context`: a thread that is not SUSPEND gives
the CPU up, unless it is time-deterministic, or global and the other one is
local. -/
def canSched (s : CpuState T) (prev next : T) : Bool :=
  hasFlag (s.state prev) ACORAL_THREAD_STATE_SUSPEND ||
    !((s.preemptType prev = .ACORAL_PREEMPT_GLOBAL ∧ s.preemptType next = .ACORAL_PREEMPT_LOCAL) ∨
      s.preemptType prev = .ACORAL_PREEMPT_TIMED)

/-- `acoral_switch_context`. -/
def acoralSwitchContext (cur : Nat) (s : CpuState T) : Option (CpuState T) :=
  let s := s.setNeedSched cur false
  let prev := s.running cur
  let s := { s with sched := acoralSelectThread cur s.sched }
  (s.sched.readyThread cur).map fun next =>
    if prev ≠ next ∨ hasFlag (s.state prev) ACORAL_THREAD_STATE_RELOAD then
      if s.state prev = ACORAL_THREAD_STATE_EXIT then
        (acoralSetRunningThread cur s next).setState prev ACORAL_THREAD_STATE_RELEASE
      else if canSched s prev next then
        let s := acoralSetRunningThread cur s next
        if hasFlag (s.state prev) ACORAL_THREAD_STATE_RELOAD then
          s.setState prev (s.state prev &&& ~~~ ACORAL_THREAD_STATE_RELOAD)
        else if hasFlag (s.state prev) ACORAL_THREAD_STATE_MOVE then
          let s := s.setState prev (s.state prev &&& ~~~ ACORAL_THREAD_STATE_MOVE)
          { s with moveLock := Function.update s.moveLock prev false }
        else s
      else s
    else s

/-- `acoral_sched`. -/
def acoralSched (cur : Nat) (s : CpuState T) : Option (CpuState T) :=
  if !s.sched.needSched cur then some s
  else if s.intrNesting cur ≠ 0 then some s
  else if s.schedLock cur then some s
  else if !s.schedEnable then some s
  else acoralSwitchContext cur s

/-- `acoral_sched_lock`. -/
def acoralSchedLock (cur : Nat) (s : CpuState T) : CpuState T :=
  { s with schedLock := Function.update s.schedLock cur true }

/-- `acoral_sched_unlock`. -/
def acoralSchedUnlock (cur : Nat) (s : CpuState T) : Option (CpuState T) :=
  acoralSched cur { s with schedLock := Function.update s.schedLock cur false }

/-- `acoral_enter_critical`. -/
def acoralEnterCritical (cur : Nat) (s : CpuState T) : CpuState T :=
  let s := if !s.schedLock cur then acoralSchedLock cur s else s
  { s with criticalNesting := Function.update s.criticalNesting cur (s.criticalNesting cur + 1) }

/-- `acoral_exit_critical`. -/
def acoralExitCritical (cur : Nat) (s : CpuState T) : Option (CpuState T) :=
  let nesting := s.criticalNesting cur - 1
  let s := { s with criticalNesting := Function.update s.criticalNesting cur nesting }
  if nesting = 0 then acoralSchedUnlock cur s else some s

/-- `acoral_intr_entry`, before it calls the handler. -/
def acoralIntrEntry (cur : Nat) (s : CpuState T) : CpuState T :=
  { s with intrNesting := Function.update s.intrNesting cur (s.intrNesting cur + 1) }

/-- `acoral_intr_exit`. -/
def acoralIntrExit (cur : Nat) (s : CpuState T) : CpuState T :=
  if !s.sched.needSched cur then s
  else if s.intrNesting cur ≠ 0 then s
  else if s.schedLock cur then s
  else if !s.schedEnable then s
  else { s with irqSwitch := Function.update s.irqSwitch cur true }

/-- `acoral_intr_entry`, after the handler. -/
def acoralIntrReturn (cur : Nat) (s : CpuState T) : CpuState T :=
  acoralIntrExit cur
    { s with intrNesting := Function.update s.intrNesting cur (s.intrNesting cur - 1) }

/-- `HAL_CORE_IRQ_ENTRY` and `HAL_FOLLOW_IRQ_ENTRY`, after the handler. -/
def halIrqReturn (cur : Nat) (s : CpuState T) : Option (CpuState T) :=
  let s := acoralIntrReturn cur s
  if s.irqSwitch cur then acoralSwitchContext cur s else some s

/-! ### The thread operations, with their critical sections -/

/-- The body of a critical section. -/
def criticalSection (cur : Nat) (body : Sched T → Sched T) (s : CpuState T) :
    Option (CpuState T) :=
  let s := acoralEnterCritical cur s
  acoralExitCritical cur { s with sched := body s.sched }

/-- `acoral_rdy_thread`. -/
def cpuRdyThread (cur : Nat) (s : CpuState T) (t : T) : Option (CpuState T) :=
  if hasFlag (s.state t) ACORAL_THREAD_STATE_SUSPEND = false ∨ (s.sched.thread t).cpu ≠ cur then
    some { s with sched := (acoralRdyThread cur s.sched t).2 }
  else criticalSection cur (fun k => acoralSchedRdyqueueAdd cur k t) s

/-- `acoral_suspend_thread`. -/
def cpuSuspendThread (cur : Nat) (s : CpuState T) (t : T) : Option (CpuState T) :=
  if hasFlag (s.state t) ACORAL_THREAD_STATE_READY = false ∨ (s.sched.thread t).cpu ≠ cur then
    some { s with sched := (acoralSuspendThread cur s.sched t).2 }
  else criticalSection cur (fun k => acoralSchedRdyqueueDel cur k t) s

/-- `acoral_thread_change_prio`. -/
def cpuChangePrio (cur : Nat) (s : CpuState T) (t : T) (prio : Nat) : Option (CpuState T) :=
  if (s.sched.thread t).cpu ≠ cur then
    some { s with sched := acoralThreadChangePrio cur s.sched t prio }
  else criticalSection cur (fun k => acoralThreadChangePrio cur k t prio) s

/-! ### The system -/

/-- `acoral_start_os`: the thread of the highest priority runs. -/
def acoralStartOs (cur : Nat) (s : CpuState T) : Option (CpuState T) :=
  let s := s.setNeedSched cur false
  let s :=
    { s with
      sched := acoralSelectThread cur s.sched
      criticalNesting := Function.update s.criticalNesting cur 0
      schedLock := Function.update s.schedLock cur false }
  (s.sched.readyThread cur).map fun next => acoralSetRunningThread cur s next

/-- The operations of a run on one CPU. -/
inductive SwitchOp (T : Type) where
  /-- `acoral_rdy_thread` -/
  | rdy (t : T)
  /-- `acoral_suspend_thread` -/
  | suspend (t : T)
  /-- `acoral_thread_change_prio` -/
  | changePrio (t : T) (prio : Nat)
  /-- the ceiling protocols write `preempt_type` -/
  | setPreemptType (t : T) (type : PreemptType)
  /-- `acoral_enter_critical` -/
  | enterCritical
  /-- `acoral_exit_critical` -/
  | exitCritical
  /-- `acoral_sched` -/
  | sched
  /-- `acoral_sched_lock` -/
  | schedLock
  /-- `acoral_sched_unlock` -/
  | schedUnlock
  /-- an interrupt comes -/
  | intrEntry
  /-- its handler returns -/
  | intrExit

/-- One operation on the CPU `cur`. There is no queue for a priority from
`ACORAL_MAX_PRIO_NUM` on. -/
def switchStep (cur : Nat) (s : CpuState T) : SwitchOp T → Option (CpuState T)
  | .rdy t                   => cpuRdyThread cur s t
  | .suspend t               => cpuSuspendThread cur s t
  | .changePrio t prio       =>
      if prio % 256 < ACORAL_MAX_PRIO_NUM then cpuChangePrio cur s t prio else none
  | .setPreemptType t type => some (s.setPreemptType t type)
  | .enterCritical           => some (acoralEnterCritical cur s)
  | .exitCritical            => acoralExitCritical cur s
  | .sched                   => acoralSched cur s
  | .schedLock               => some (acoralSchedLock cur s)
  | .schedUnlock             => acoralSchedUnlock cur s
  | .intrEntry               => some (acoralIntrEntry cur s)
  | .intrExit                => halIrqReturn cur s

/-- The state in which `acoral_start_os` is called: the threads of `boot`
have been made ready. -/
def bootState (cur : Nat) (s : CpuState T) (thread : T → Tcb) (boot : List T) : CpuState T :=
  { s with
    sched := boot.foldl (fun k t => (acoralRdyThread cur k t).2) (acoralSchedRdyqueueInit thread) }

/-! ### Urgency -/

/-- `thread->prio` of the running thread. -/
def CpuState.runningPrio (s : CpuState T) (cur : Nat) : Nat := (s.sched.thread (s.running cur)).prio

/-- A thread is queued whose priority is more urgent than that of the
running thread. -/
def CpuState.urgentQueued (s : CpuState T) (cur : Nat) : Bool :=
  (List.range (s.runningPrio cur)).any fun p => !((s.sched.readyQueues cur).queue p).isEmpty

end ACoral
