import ACoral.Kernel.Queue
import ACoral.Kernel.Thread

/-!
# `ACoral.Kernel.Timer`: the tick queues and their handlers

The delayed threads (`kernel/src/timer.c`), the periodic threads
(`kernel/src/period_thrd.c`) and the timed threads of each CPU
(`kernel/src/timed_thrd.c`) wait in tick queues. Their handlers have one
shape: count the head down, then take every node whose ticks are over
from the front, and go on with the node that came after it. `tickDeal`
is that handler. What differs is whether a popped thread is added again
at once, and for how many ticks (`rearm`): a delayed thread is not, a
periodic one is for its period, and a timed one until its next start.
-/

set_option autoImplicit false

namespace ACoral

variable {T : Type} [DecidableEq T]

/-- `TIME_TO_TICKS`: the product is an `acoral_u32`. -/
def timeToTicks (time : BitVec 32) : BitVec 32 :=
  time * BitVec.ofNat 32 CFG_TICKS_PER_SEC / 1000

/-! ### The handler of a tick queue -/

/-- `node->value` of a queued thread. -/
def nodeValue (queue : List (T × Int)) (t : T) : Int :=
  ((queue.find? fun node => node.1 = t).map Prod.snd).getD 0

/-- `node->next` of a queued thread; `none` is the head of the queue. -/
def nodeNext (queue : List (T × Int)) (t : T) : Option T :=
  ((queue.dropWhile fun node => node.1 ≠ t).tail.head?).map Prod.fst

/-- `if(head->next->value>0) head->next->value--;` -/
def tickCountDown : List (T × Int) → List (T × Int)
  | []               => []
  | (t, value) :: tl => if value > 0 then (t, value - 1) :: tl else (t, value) :: tl

/-- The loop of the handler, with `tmp` the next node to look at and
`popped` the threads it has taken so far. The next node is read before
the thread is added again. -/
def tickPopLoop (rearm : T → Option Int) :
    (fuel : Nat) → List (T × Int) → (tmp : Option T) → (popped : List T) →
      Option (List T × List (T × Int))
  | 0,        _,     _,      _      => none
  | _ + 1,    queue, none,   popped => some (popped, queue)
  | fuel + 1, queue, some t, popped =>
      if nodeValue queue t > 0 then some (popped, queue)
      else
        let tmp1 := nodeNext queue t
        let queue := acoralTickQueueDel queue t
        let queue :=
          match rearm t with
          | none      => queue
          | some tick => acoralTickQueueAdd queue t tick
        tickPopLoop rearm fuel queue tmp1 (popped ++ [t])

/-- One call of the handler: the threads it pops, in order, and the
queue it leaves. A loop that takes more nodes than the queue had comes
to one of them again and does not end. -/
def tickDeal (rearm : T → Option Int) (queue : List (T × Int)) :
    Option (List T × List (T × Int)) :=
  let queue := tickCountDown queue
  tickPopLoop rearm (queue.length + 1) queue (queue.head?.map Prod.fst) []

/-! ### The queues -/

/-- The tick queues and the threads in them. -/
structure TimerState (T : Type) where
  sched : Sched T
  /-- `time_delay_queue`, of the `delaying` nodes -/
  timeDelayQueue : List (T × Int)
  /-- `period_time_queue`, of the `timing` nodes -/
  periodTimeQueue : List (T × Int)
  /-- `timed_time_queue` of each CPU, of the `timing` nodes -/
  timedTimeQueue : Nat → List (T × Int)

/-- `acoral_rdy_thread` on the CPU of the thread. -/
def TimerState.rdyThread (s : TimerState T) (t : T) : TimerState T :=
  { s with sched := (acoralRdyThread (s.sched.thread t).cpu s.sched t).2 }

/-- `acoral_time_delay_queue_add`, on the CPU `cur`. -/
def acoralTimeDelayQueueAdd (cur : Nat) (s : TimerState T) (new : T) (value : Int) :
    TimerState T :=
  { s with
    timeDelayQueue := acoralTickQueueAdd s.timeDelayQueue new value
    sched := (acoralSuspendThread cur s.sched new).2 }

/-- `acoral_delay_thread`, on the CPU `cur`. -/
def acoralDelayThread (cur : Nat) (s : TimerState T) (thread : T) (time : BitVec 32) :
    KernelError × TimerState T :=
  if s.timeDelayQueue.any (fun node => node.1 = thread) then (.KR_THREAD_ERR_UNDEF, s)
  else if (s.sched.thread thread).cpu ≠ cur then (.KR_THREAD_ERR_CPU, s)
  else (.KR_OK, acoralTimeDelayQueueAdd cur s thread (timeToTicks time).toInt)

/-- `time_delay_deal`. -/
def timeDelayDeal (s : TimerState T) : Option (TimerState T) :=
  (tickDeal (fun _ => none) s.timeDelayQueue).map fun (popped, queue) =>
    popped.foldl TimerState.rdyThread { s with timeDelayQueue := queue }

/-- `period_thread_reload`: the ticks a periodic thread is added for. -/
def periodThreadReload (time : T → BitVec 32) (thread : T) : Int :=
  (timeToTicks (time thread)).toInt

/-- `period_time_deal`. A popped thread that is not SUSPEND has not
finished its last period and is not readied. -/
def periodTimeDeal (time : T → BitVec 32) (s : TimerState T) : Option (TimerState T) :=
  (tickDeal (fun t => some (periodThreadReload time t)) s.periodTimeQueue).map
    fun (popped, queue) => popped.foldl TimerState.rdyThread { s with periodTimeQueue := queue }

/-- `acoral_kill_thread`, as far as the tick queues go: the nodes of a
SUSPEND thread are unlinked from the queues they are in. -/
def killTimerNodes (s : TimerState T) (thread : T) : TimerState T :=
  if hasFlag (s.sched.thread thread).state ACORAL_THREAD_STATE_SUSPEND then
    { s with
      timeDelayQueue := acoralTickQueueDel s.timeDelayQueue thread
      periodTimeQueue := acoralTickQueueDel s.periodTimeQueue thread
      timedTimeQueue := fun cpu => acoralTickQueueDel (s.timedTimeQueue cpu) thread }
  else s

end ACoral
