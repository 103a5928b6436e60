import ACoral.Kernel.Timer
import ACoral.Kernel.Switch

/-!
# `ACoral.Kernel.TimedThrd`: timed threads and their tick handler

A timed thread runs `frequency` times in a hyperperiod, and each run has
`section_num` sections. Its table holds, run by run, when each section starts
and when the run ends. The thread waits for a semaphore in front of each
section, and `timed_time_deal` posts it when the table says so. At the end of a
run it starts the thread again.

* A thread that is not moved stays on its CPU, so that the queue it is taken
  from is the one it is added to again.
* What the threads do in between is `env`. Only the thread itself waits for the
  semaphores of its sections, and only threads read what they count.
* `now` counts the ticks. `created` and `log` are the history: when each thread
  was created, and what each tick did.
-/

set_option autoImplicit false

namespace ACoral

variable {T : Type} [DecidableEq T]

/-- `timed_private_data_t`, without the functions of the sections. -/
structure TimedPrivateData where
  startTime : List (BitVec 32)
  sectionNum : BitVec 8
  frequency : BitVec 8
  /-- the next section, counted from 1; one more than there are at the end of a run -/
  sectn : BitVec 8
  /-- the run, counted from 1 -/
  runNum : BitVec 8
deriving DecidableEq, Repr

/-- What a thread that has an `ipc` waits for. -/
inductive TimedWait where
  /-- `private_data->ipc[i]` -/
  | sectionSem (i : Nat)
  | other
deriving DecidableEq, Repr

/-- What a tick does to a thread. The number is the place in the table that
was due. -/
inductive TimedEvent (T : Type) where
  /-- the semaphore of a section is posted -/
  | post (thread : T) (offset : Nat)
  /-- the next run of the thread is started -/
  | restart (thread : T) (offset : Nat)
  /-- the thread is stopped because it still runs -/
  | overrun (thread : T)
deriving DecidableEq, Repr

/-- The timed threads, the queues they wait in, and the history. -/
structure TimedState (T : Type) where
  sched : Sched T
  /-- `timed_time_queue` of each CPU -/
  timedTimeQueue : Nat → List (T × Int)
  /-- `thread->time` -/
  time : T → BitVec 32
  /-- `thread->private_data` -/
  privateData : T → TimedPrivateData
  /-- `thread->ipc`, `none` for `NULL` -/
  ipc : T → Option TimedWait
  /-- `last_timed_thread`, `none` for `NULL` -/
  lastTimedThread : Nat → Option T
  /-- `running_thread` -/
  runningThread : Nat → T
  now : Nat
  created : T → Option Nat
  log : List (Nat × List (TimedEvent T))

/-! ### The start times -/

/-- The place in the table that `timed_start_time_reload` reads. -/
def TimedPrivateData.offset (data : TimedPrivateData) : BitVec 32 :=
  (data.runNum.setWidth 32 - 1) * (data.sectionNum.setWidth 32 + 1) + (data.sectn.setWidth 32 - 1)

/-- `timed_start_time_reload`, without the queue: `thread->time` afterwards and
the ticks the thread is added for. -/
def timedStartTimeReload (data : TimedPrivateData) (time : BitVec 32) :
    Option (BitVec 32 × Int) :=
  data.startTime[data.offset.toNat]?.map fun start =>
    (timeToTicks start, (timeToTicks start - time).toInt)

/-! ### The tick handler -/

/-- The local variables of `timed_time_deal`, and what the tick did so far. -/
structure TimedDeal (T : Type) where
  state : TimedState T
  /-- `timed_error` -/
  timedError : Bool
  events : List (TimedEvent T)

/-- `thread->state|=ACORAL_THREAD_STATE_RELOAD` -/
def Sched.setReload (k : Sched T) (t : T) : Sched T :=
  { k with
    thread := Function.update k.thread t
      { k.thread t with state := (k.thread t).state ||| ACORAL_THREAD_STATE_RELOAD } }

/-- The branch for the timed thread that still runs. -/
def timedOverrun (d : TimedDeal T) (thread : T) : TimedDeal T :=
  let x := d.state
  let data := x.privateData thread
  { state :=
      { x with
        sched :=
          ((acoralSuspendThread (x.sched.thread thread).cpu x.sched thread).2).setReload thread
        privateData :=
          Function.update x.privateData thread { data with sectn := data.sectionNum + 1 } }
    timedError := true
    events := d.events ++ [.overrun thread] }

/-- `acoral_sem_post(private_data->ipc[private_data->section-1])` and the
section after it. The thread is woken when it waits for that semaphore. -/
def timedPost (d : TimedDeal T) (thread : T) : TimedDeal T :=
  let x := d.state
  let data := x.privateData thread
  let woken : Bool := x.ipc thread = some (.sectionSem (data.sectn - 1).toNat)
  { d with
    state :=
      { x with
        sched :=
          if woken then (acoralRdyThread (x.sched.thread thread).cpu x.sched thread).2 else x.sched
        ipc := if woken then Function.update x.ipc thread none else x.ipc
        privateData := Function.update x.privateData thread { data with sectn := data.sectn + 1 } }
    events := d.events ++ [.post thread data.offset.toNat] }

/-- The end of a run: the next one, or the first one of the next hyperperiod.
The stack of the thread is set up again, which is not modelled. -/
def timedRestart (d : TimedDeal T) (thread : T) : TimedDeal T :=
  let x := d.state
  let data := x.privateData thread
  let runNum := data.runNum + 1
  let wrapped : Bool := runNum > data.frequency
  { d with
    state :=
      { x with
        sched := (acoralRdyThread (x.sched.thread thread).cpu x.sched thread).2
        time := if wrapped then Function.update x.time thread 0 else x.time
        privateData := Function.update x.privateData thread
          { data with runNum := if wrapped then 1 else runNum, sectn := 1 } }
    events := d.events ++ [.restart thread data.offset.toNat] }

/-- The two branches for the thread that is due. -/
def timedDue (d : TimedDeal T) (thread : T) : TimedDeal T :=
  match d.state.ipc thread with
  | some _ =>
      if (d.state.privateData thread).sectn ≤ (d.state.privateData thread).sectionNum then
        timedPost d thread
      else d
  | none   => if d.timedError then d else timedRestart d thread

/-- `if(last_timed_thread[cpu] == running_thread[cpu])` -/
def timedStop (cpu : Nat) (d : TimedDeal T) : TimedDeal T :=
  if d.state.lastTimedThread cpu = some (d.state.runningThread cpu) then
    timedOverrun d (d.state.runningThread cpu)
  else d

/-- `last_timed_thread[cpu] = thread` -/
def TimedDeal.setLast (d : TimedDeal T) (cpu : Nat) (thread : T) : TimedDeal T :=
  { d with
    state := { d.state with
      lastTimedThread := Function.update d.state.lastTimedThread cpu (some thread) } }

/-- The reload at the end of the body, with the ticks the thread is added again
for. -/
def timedReload (d : TimedDeal T) (thread : T) : Option (TimedDeal T × Option Int) :=
  if (d.state.privateData thread).runNum ≤ (d.state.privateData thread).frequency then
    (timedStartTimeReload (d.state.privateData thread) (d.state.time thread)).map
      fun (time, tick) =>
        ({ d with state := { d.state with time := Function.update d.state.time thread time } },
          some tick)
  else some (d, none)

/-- The body of the loop for the thread `thread` that is due on `cpu`, without
the queue. -/
def timedPop (cpu : Nat) (d : TimedDeal T) (thread : T) : Option (TimedDeal T × Option Int) :=
  timedReload (timedDue ((timedStop cpu d).setLast cpu thread) thread) thread

/-- `acoral_timed_queue_del`, and the queue of the reload. -/
def timedRequeue (queue : List (T × Int)) (thread : T) (rearm : Option Int) : List (T × Int) :=
  match rearm with
  | none      => acoralTickQueueDel queue thread
  | some tick => acoralTickQueueAdd (acoralTickQueueDel queue thread) thread tick

/-- The loop of `timed_time_deal` over the queue of one CPU. -/
def timedPopLoop (cpu : Nat) :
    (fuel : Nat) → TimedDeal T → List (T × Int) → (tmp : Option T) →
      Option (TimedDeal T × List (T × Int))
  | 0,        _, _,     _      => none
  | _ + 1,    d, queue, none   => some (d, queue)
  | fuel + 1, d, queue, some t =>
      if nodeValue queue t > 0 then some (d, queue)
      else
        -- the next node is read before the thread is added again
        (timedPop cpu d t).bind fun (d, rearm) =>
          timedPopLoop cpu fuel d (timedRequeue queue t rearm) (nodeNext queue t)

/-- The threads that the loop may take. A table has at most `255 * 256` places,
so that a loop that takes more has gone round a whole table in one tick. -/
def timedFuel (queue : List (T × Int)) : Nat := queue.length * (255 * 256) + 1

/-- `timed_time_deal` for one CPU. -/
def timedCpuDeal (d : TimedDeal T) (cpu : Nat) : Option (TimedDeal T) :=
  let queue := tickCountDown (d.state.timedTimeQueue cpu)
  (timedPopLoop cpu (timedFuel queue) d queue (queue.head?.map Prod.fst)).map fun (d, queue) =>
    { d with
      state := { d.state with
        timedTimeQueue := Function.update d.state.timedTimeQueue cpu queue } }

/-- `timed_time_deal`, with the tick that calls it. -/
def timedTimeDeal (x : TimedState T) : Option (TimedState T) :=
  ((List.range CFG_MAX_CPU).foldlM timedCpuDeal ⟨x, false, []⟩).map fun d =>
    { d.state with now := x.now + 1, log := (x.now + 1, d.events) :: x.log }

/-! ### Steps -/

/-- `acoral_timed_policy_data_t`, without the functions of the sections. -/
structure TimedPolicyData where
  cpu : Nat
  startTime : List (BitVec 32)
  sectionNum : BitVec 8
  frequency : BitVec 8

/-- `timed_policy_thread_init`: the thread waits for the first start. -/
def timedPolicyThreadInit (x : TimedState T) (thread : T) (policyData : TimedPolicyData) :
    Option (TimedState T) :=
  let data : TimedPrivateData :=
    { startTime := policyData.startTime
      sectionNum := policyData.sectionNum
      frequency := policyData.frequency
      sectn := 1
      runNum := 1 }
  let cpu := min policyData.cpu (CFG_MAX_CPU - 1)
  (timedStartTimeReload data 0).map fun (time, tick) =>
    { x with
      sched := (acoralRdyThread (x.sched.thread thread).cpu x.sched thread).2
      timedTimeQueue := Function.update x.timedTimeQueue cpu
        (acoralTickQueueAdd (x.timedTimeQueue cpu) thread tick)
      time := Function.update x.time thread time
      privateData := Function.update x.privateData thread data
      ipc := Function.update x.ipc thread none
      created := Function.update x.created thread (some x.now) }

/-- One step. -/
inductive TimedOp (T : Type) where
  /-- `timed_policy_thread_init` -/
  | create (thread : T) (policyData : TimedPolicyData)
  /-- `timed_time_deal` -/
  | tick
  /-- the threads and the scheduler go on -/
  | env (sched : Sched T) (ipc : T → Option TimedWait) (runningThread : Nat → T)

/-- One step. A thread that exists is not created again. -/
def timedStep (x : TimedState T) : TimedOp T → Option (TimedState T)
  | .create thread policyData     =>
      if (x.created thread).isNone then timedPolicyThreadInit x thread policyData else none
  | .tick                         => timedTimeDeal x
  | .env sched ipc runningThread  =>
      some { x with sched := sched, ipc := ipc, runningThread := runningThread }

end ACoral
