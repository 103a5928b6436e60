import ACoral.Kernel.Switch
import ACoral.Kernel.Timer

/-!
# `ACoral.Kernel.Reclaim`: what becomes of a killed thread

`acoral_kill_thread` makes a thread EXIT and puts it into the release queue,
`acoral_switch_context` makes it RELEASE when it is switched away from, and
`daem` frees the threads of the queue that are RELEASE. The other threads are
readied, suspended and delayed, and the CPUs switch, as in `ACoral.Kernel.Switch`.

A kill on another CPU than that of the thread sends a command; the kill that
its handler makes is a step of its own. No thread here waits for an object of
`ipc.c` or has a period, so its `pending` node is in no other queue, and the
release queue is the list of its threads.

`killed` and `freed` are the history.

`daemSweep` is one run through the release queue, at the level of its list
nodes, while the threads keep their states.
-/

set_option autoImplicit false

namespace ACoral.Reclaim

open Lib (Links)

variable {T : Type} [DecidableEq T]

/-- The threads, the delay queue and the release queue. -/
structure ReclaimState (T : Type) where
  kernel : CpuState T
  /-- `time_delay_queue` -/
  timeDelayQueue : List (T × Int)
  /-- `acoral_release_queue` -/
  releaseQueue : List T
  /-- the thread `daemon_id` -/
  daemon : T
  /-- the commands `ACORAL_IPI_THREAD_KILL` that were sent -/
  killCmds : List (Nat × T)
  /-- the threads that were killed -/
  killed : List T
  /-- the threads that the daemon freed -/
  freed : List T

/-- `acoral_prerelease_thread`. -/
def acoralPrereleaseThread (cur : Nat) (x : ReclaimState T) (thread : T) :
    Option (ReclaimState T) :=
  (cpuRdyThread cur (x.kernel.setState thread ACORAL_THREAD_STATE_EXIT) x.daemon).map fun kernel =>
    { x with
      kernel := kernel
      releaseQueue := x.releaseQueue ++ [thread]
      killed := thread :: x.killed }

/-- `acoral_kill_thread`, on the CPU `cur`. -/
def acoralKillThread (cur : Nat) (x : ReclaimState T) (thread : T) : Option (ReclaimState T) :=
  let cpu := (x.kernel.sched.thread thread).cpu
  if cpu ≠ cur then some { x with killCmds := x.killCmds ++ [(cpu, thread)] }
  else
    let queue :=
      if hasFlag (x.kernel.state thread) ACORAL_THREAD_STATE_SUSPEND then
        acoralTickQueueDel x.timeDelayQueue thread
      else x.timeDelayQueue
    (cpuSuspendThread cur (acoralEnterCritical cur x.kernel) thread).bind fun kernel =>
      (acoralPrereleaseThread cur { x with kernel := kernel, timeDelayQueue := queue } thread).bind
        fun x => (acoralExitCritical cur x.kernel).map fun kernel => { x with kernel := kernel }

/-- `acoral_delay_thread`, on the CPU `cur`. -/
def acoralDelayThread (cur : Nat) (x : ReclaimState T) (thread : T) (time : BitVec 32) :
    Option (ReclaimState T) :=
  if x.timeDelayQueue.any (fun node => node.1 = thread) then some x
  else if (x.kernel.sched.thread thread).cpu ≠ cur then some x
  else
    let queue := acoralTickQueueAdd x.timeDelayQueue thread (timeToTicks time).toInt
    (cpuSuspendThread cur (acoralEnterCritical cur x.kernel) thread).bind fun kernel =>
      (acoralExitCritical cur kernel).map fun kernel =>
        { x with kernel := kernel, timeDelayQueue := queue }

/-- `time_delay_deal`, on the CPU `cur`. -/
def timeDelayDeal (cur : Nat) (x : ReclaimState T) : Option (ReclaimState T) :=
  (tickDeal (fun _ => none) x.timeDelayQueue).bind fun (popped, queue) =>
    (popped.foldlM (cpuRdyThread cur) x.kernel).map fun kernel =>
      { x with kernel := kernel, timeDelayQueue := queue }

/-- One round of the loop of `daem`, at the thread of the release queue. -/
def daem (x : ReclaimState T) (thread : T) : ReclaimState T :=
  if x.kernel.state thread = ACORAL_THREAD_STATE_RELEASE then
    -- `acoral_release_thread`
    { x with releaseQueue := x.releaseQueue.erase thread, freed := thread :: x.freed }
  else { x with releaseQueue := x.releaseQueue.erase thread ++ [thread] }

/-! ### A sweep -/

/-- The list nodes of a queue of threads. -/
inductive ThreadNode (T : Type) where
  | head
  | node (thread : T)
  deriving DecidableEq

/-- What a sweep of `daem` works on. -/
structure SweepState (T : Type) where
  /-- `acoral_release_queue`, of the `pending` nodes -/
  releaseQueue : Links (ThreadNode T)
  /-- `acoral_threads_queue`, of the `global_list` nodes -/
  threadsQueue : Links (ThreadNode T)
  /-- the threads that the daemon freed -/
  freed : List T

/-- `acoral_release_thread`. What the policy, the heap and the resource pool
do with the memory of the thread is no part of the two queues. -/
def acoralReleaseThread (x : SweepState T) (thread : T) : Option (SweepState T) :=
  (acoralListDel x.threadsQueue (.node thread)).map fun threadsQueue =>
    { x with threadsQueue := threadsQueue, freed := thread :: x.freed }

/-- The inner loop of `daem`, from the node `tmp` on, with the states the
threads have. `none`: the loop is not done in `fuel` rounds. -/
def daemLoop (state : T → BitVec 8) : (fuel : Nat) → ThreadNode T → SweepState T →
    Option (SweepState T)
  | 0, _, _                   => none
  | _ + 1, .head, x           => some x
  | fuel + 1, .node thread, x =>
      let tmp1 := x.releaseQueue.next (.node thread)
      (acoralListDel x.releaseQueue (.node thread)).bind fun releaseQueue =>
        if state thread = ACORAL_THREAD_STATE_RELEASE then
          (acoralReleaseThread { x with releaseQueue := releaseQueue } thread).bind
            (daemLoop state fuel tmp1)
        else
          (acoralListAddTail releaseQueue (.node thread) .head).bind fun releaseQueue =>
            daemLoop state fuel tmp1 { x with releaseQueue := releaseQueue }

/-- One sweep of `daem`, up to its `acoral_suspend_self`. -/
def daemSweep (state : T → BitVec 8) (fuel : Nat) (x : SweepState T) : Option (SweepState T) :=
  daemLoop state fuel (x.releaseQueue.next .head) x

/-! ### Steps -/

/-- One step. -/
inductive ReclaimOp (T : Type) where
  /-- the threads and interrupts of a CPU -/
  | kernel (cur : Nat) (op : SwitchOp T)
  /-- `acoral_kill_thread` -/
  | kill (cur : Nat) (thread : T)
  /-- `acoral_delay_thread` -/
  | delay (cur : Nat) (thread : T) (time : BitVec 32)
  /-- `time_delay_deal` -/
  | tick (cur : Nat)
  /-- the daemon looks at a thread -/
  | daem (thread : T)

/-- One step. -/
def reclaimStep (x : ReclaimState T) : ReclaimOp T → Option (ReclaimState T)
  | .kernel cur op         =>
      if cur < CFG_MAX_CPU then
        (switchStep cur x.kernel op).map fun kernel => { x with kernel := kernel }
      else none
  | .kill cur thread       => if cur < CFG_MAX_CPU then acoralKillThread cur x thread else none
  | .delay cur thread time =>
      if cur < CFG_MAX_CPU then acoralDelayThread cur x thread time else none
  | .tick cur              => if cur < CFG_MAX_CPU then timeDelayDeal cur x else none
  | .daem thread           => if thread ∈ x.releaseQueue then some (daem x thread) else none

end ACoral.Reclaim
