import ACoral.Kernel.Types
import ACoral.Lib.GuardedRun

/-!
# `ACoral.Kernel.Monitor`: the trace logs of `kernel/src/monitor.c`

Two logs of fixed length, one of the threads that are created and one of the
thread switches. `InfoSet` is the layout they share. A drain copies both logs,
resets them and reports from the copies; the memory of the copies is there.

A `MonitorRun` keeps, beside the logs, what was added to each of them since the
last drain. What a drain reports is its output; the text around the records is
left out.
-/

set_option autoImplicit false

namespace ACoral

/-! ### One log -/

/-- `thread_info_set` and `thread_switch_info_set`. -/
structure InfoSet (A : Type) where
  totalSize : Nat
  stIdx : Nat
  edIdx : Nat
  size : BitVec 32
  overflow : BitVec 32
  /-- `threads`, `switch_infos` -/
  items : List A

section
variable {A : Type}

/-- What the two add functions share: write the item at `ed_idx`, and move on. At
the end of the array `capped` says whether `size` stops at `total_size`. -/
def InfoSet.add (capped : Bool) (s : InfoSet A) (write : A → A) : Option (InfoSet A) :=
  s.items[s.edIdx]?.map fun item =>
    let s := { s with items := s.items.set s.edIdx (write item) }
    if s.edIdx < s.totalSize - 1 then { s with edIdx := s.edIdx + 1, size := s.size + 1 }
    else
      let s := { s with edIdx := 0, overflow := s.overflow + 1 }
      if capped = false ∨ s.size < BitVec.ofNat 32 s.totalSize then { s with size := s.size + 1 }
      else s

/-- `print_num`. -/
def InfoSet.printNum (s : InfoSet A) : Nat :=
  if s.overflow > 0 then s.totalSize else s.size.toNat

/-- The items that are reported; `none` reads outside of the array. -/
def InfoSet.report (s : InfoSet A) : Option (List A) :=
  if s.size > 0 then
    if s.printNum ≤ s.items.length then some (s.items.take s.printNum) else none
  else some []

/-- What a drain resets. -/
def InfoSet.reset (s : InfoSet A) : InfoSet A := { s with size := 0, stIdx := 0, edIdx := 0 }

end

/-! ### The two logs -/

/-- `ACORAL_SCHED_POLICY_BASE`. -/
def ACORAL_SCHED_POLICY_BASE : BitVec 8 := 20

/-- `ACORAL_SCHED_POLICY_COMM`. -/
def ACORAL_SCHED_POLICY_COMM : BitVec 8 := ACORAL_SCHED_POLICY_BASE + 1

/-- `ACORAL_SCHED_POLICY_PERIOD`. -/
def ACORAL_SCHED_POLICY_PERIOD : BitVec 8 := ACORAL_SCHED_POLICY_BASE + 2

/-- `ACORAL_SCHED_POLICY_TIMED`. -/
def ACORAL_SCHED_POLICY_TIMED : BitVec 8 := ACORAL_SCHED_POLICY_BASE + 3

/-- `thread_info`, with threads from a type `T`. -/
structure ThreadInfo (T : Type) where
  threadPolicy : BitVec 32
  prio : BitVec 32
  tcbPtr : Option T
  period : BitVec 32
  supercycle : BitVec 32
  cpu : BitVec 32
  createTick : BitVec 32
  threadName : List (BitVec 8)
  deriving DecidableEq

/-- `thread_switch_info`. -/
structure ThreadSwitchInfo (T : Type) where
  cpu : BitVec 32
  tick : BitVec 32
  fromTcb : Option T
  toTcb : Option T
  deriving DecidableEq

/-- The fields of a thread that `acoral_tinfos_add` reads; `time` is that of the private
data of a periodic thread. -/
structure TracedThread (T : Type) where
  thread : T
  policy : BitVec 8
  prio : BitVec 8
  cpu : BitVec 32
  time : BitVec 32
  name : List (BitVec 8)

variable {T : Type}

/-- The `switch` over the policy. The case of the periodic threads falls through. -/
def tinfosPeriod (thread : TracedThread T) (info : ThreadInfo T) : ThreadInfo T :=
  if thread.policy = ACORAL_SCHED_POLICY_COMM then { info with period := 0, supercycle := 0 }
  else if thread.policy = ACORAL_SCHED_POLICY_PERIOD then
    let info := { info with period := thread.time, supercycle := 40000 }
    { info with period := 40000, supercycle := 40000 }
  else if thread.policy = ACORAL_SCHED_POLICY_TIMED then
    { info with period := 40000, supercycle := 40000 }
  else info

/-- What `acoral_tinfos_add` writes over the old item. -/
def tinfosWrite (ticks : BitVec 32) (thread : TracedThread T) (info : ThreadInfo T) :
    ThreadInfo T :=
  let info :=
    { info with
      tcbPtr := some thread.thread
      threadPolicy := thread.policy.setWidth 32
      prio := thread.prio.setWidth 32 }
  { tinfosPeriod thread info with
    cpu := thread.cpu
    createTick := ticks
    threadName := thread.name }

/-- What `acoral_tswinfos_add` writes, on the CPU `cur`. -/
def tswinfosWrite (cur ticks : BitVec 32) (source target : T) (info : ThreadSwitchInfo T) :
    ThreadSwitchInfo T :=
  { info with cpu := cur, tick := ticks, fromTcb := some source, toTcb := some target }

/-- `acoral_tinfos_add`. -/
def acoralTinfosAdd (tinfos : InfoSet (ThreadInfo T)) (ticks : BitVec 32)
    (thread : TracedThread T) : Option (InfoSet (ThreadInfo T)) :=
  tinfos.add true (tinfosWrite ticks thread)

/-- `acoral_tswinfos_add`. -/
def acoralTswinfosAdd (tswinfos : InfoSet (ThreadSwitchInfo T)) (cur ticks : BitVec 32)
    (source target : T) : Option (InfoSet (ThreadSwitchInfo T)) :=
  tswinfos.add false (tswinfosWrite cur ticks source target)

/-- The logs. -/
structure Monitor (T : Type) where
  tinfos : InfoSet (ThreadInfo T)
  tswinfos : InfoSet (ThreadSwitchInfo T)

/-- A zeroed item of static memory. -/
def ThreadInfo.zero : ThreadInfo T :=
  { threadPolicy := 0, prio := 0, tcbPtr := none, period := 0, supercycle := 0, cpu := 0
    createTick := 0, threadName := [] }

def ThreadSwitchInfo.zero : ThreadSwitchInfo T := { cpu := 0, tick := 0, fromTcb := none, toTcb := none }

/-- A log as it is initialised. -/
def InfoSet.start {A : Type} (zero : A) : InfoSet A :=
  { totalSize := CFG_MAX_THREAD, stIdx := 0, edIdx := 0, size := 0, overflow := 0
    items := List.replicate CFG_MAX_THREAD zero }

/-- `acoral_infos_send`: what is reported of the two logs. -/
def acoralInfosSend (m : Monitor T) :
    Option ((List (ThreadInfo T) × List (ThreadSwitchInfo T)) × Monitor T) :=
  m.tinfos.report.bind fun threads =>
    m.tswinfos.report.map fun switches =>
      ((threads, switches), { tinfos := m.tinfos.reset, tswinfos := m.tswinfos.reset })

/-! ### Runs -/

/-- One step. -/
inductive MonitorOp (T : Type) where
  /-- `acoral_tinfos_add` at the tick `ticks` -/
  | tinfosAdd (ticks : BitVec 32) (thread : TracedThread T)
  /-- `acoral_tswinfos_add` on the CPU `cur` -/
  | tswinfosAdd (cur ticks : BitVec 32) (source target : T)
  /-- `acoral_infos_send` -/
  | infosSend

/-- A log with what was added since the last drain. An item is taken down as it is
written. -/
structure TracedLog (A : Type) where
  log : InfoSet A
  added : List A

/-- Take down the item that an add function writes. -/
def TracedLog.record {A : Type} (s : TracedLog A) (write : A → A) (log : InfoSet A) :
    TracedLog A :=
  { log := log, added := s.added ++ (s.log.items[s.log.edIdx]?.map write).toList }

/-- The logs of a run. -/
structure MonitorRun (T : Type) where
  threads : TracedLog (ThreadInfo T)
  switches : TracedLog (ThreadSwitchInfo T)

/-- The logs before the first step. -/
def MonitorRun.start : MonitorRun T :=
  { threads := ⟨.start .zero, []⟩, switches := ⟨.start .zero, []⟩ }

/-- The logs of the kernel. -/
def MonitorRun.monitor (s : MonitorRun T) : Monitor T :=
  { tinfos := s.threads.log, tswinfos := s.switches.log }

def monitorStep (s : MonitorRun T) : MonitorOp T → Option (MonitorRun T)
  | .tinfosAdd ticks thread =>
      (acoralTinfosAdd s.threads.log ticks thread).map fun log =>
        { s with threads := s.threads.record (tinfosWrite ticks thread) log }
  | .tswinfosAdd cur ticks source target =>
      (acoralTswinfosAdd s.switches.log cur ticks source target).map fun log =>
        { s with switches := s.switches.record (tswinfosWrite cur ticks source target) log }
  | .infosSend =>
      (acoralInfosSend s.monitor).map fun (_, m) =>
        { threads := ⟨m.tinfos, []⟩, switches := ⟨m.tswinfos, []⟩ }

end ACoral
