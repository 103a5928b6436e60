import ACoral.Kernel.Timer

/-!
# `ACoral.Kernel.PeriodThrd`: periodic threads and the tick handler

`period_policy_thread_init` puts a new periodic thread into the period queue
for one period, and `period_time_deal` takes it out when that is over, and
puts it back. `acoral_ticks_handler` calls it at every tick, behind the
handler of the delayed threads. The other threads run in between (`env`), and
delay themselves.

`now` counts the ticks without the wrap of `ticks`. `created` and `log` are
the history: when each thread was created, and what each tick popped.
-/

set_option autoImplicit false

namespace ACoral

variable {T : Type} [DecidableEq T]

/-- The tick queues, the periodic threads and the history. -/
structure PeriodState (T : Type) where
  timer : TimerState T
  /-- `private_data->time` of each periodic thread -/
  time : T → BitVec 32
  /-- `ticks` -/
  ticks : BitVec 32
  now : Nat
  created : T → Option Nat
  /-- each tick so far with the threads it popped, the last one first -/
  log : List (Nat × List T)

/-- One step. -/
inductive PeriodOp (T : Type) where
  /-- `period_policy_thread_init` with `policy_data->time` -/
  | create (thread : T) (time : BitVec 32)
  /-- `acoral_ticks_handler` -/
  | tick
  /-- `acoral_delay_thread`, on the CPU `cur` -/
  | delay (cur : Nat) (thread : T) (time : BitVec 32)
  /-- the threads and the scheduler go on -/
  | env (sched : Sched T)

/-- `period_policy_thread_init`: the thread waits for one period, and is
readied for its first run. -/
def periodPolicyThreadInit (x : PeriodState T) (thread : T) (time : BitVec 32) : PeriodState T :=
  let time := Function.update x.time thread time
  let queue :=
    acoralTickQueueAdd x.timer.periodTimeQueue thread (periodThreadReload time thread)
  { x with
    time := time
    timer := { x.timer with periodTimeQueue := queue }.rdyThread thread
    created := Function.update x.created thread (some x.now) }

/-- The threads that `period_time_deal` takes from the queue. -/
def periodPopped (time : T → BitVec 32) (s : TimerState T) : Option (List T) :=
  (tickDeal (fun t => some (periodThreadReload time t)) s.periodTimeQueue).map Prod.fst

/-- `acoral_ticks_handler`, behind the start of the scheduler. -/
def acoralTicksHandler (x : PeriodState T) : Option (PeriodState T) :=
  (timeDelayDeal x.timer).bind fun timer =>
    (periodPopped x.time timer).bind fun popped =>
      (periodTimeDeal x.time timer).map fun timer =>
        { x with
          timer := timer
          ticks := x.ticks + 1
          now := x.now + 1
          log := (x.now + 1, popped) :: x.log }

/-- One step. A thread that exists is not created again. -/
def periodStep (x : PeriodState T) : PeriodOp T → Option (PeriodState T)
  | .create thread time    =>
      if (x.created thread).isNone then some (periodPolicyThreadInit x thread time) else none
  | .tick                  => acoralTicksHandler x
  | .delay cur thread time =>
      some { x with timer := (acoralDelayThread cur x.timer thread time).2 }
  | .env sched             => some { x with timer := { x.timer with sched := sched } }

end ACoral
