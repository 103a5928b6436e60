import ACoral.Kernel.Dag
import ACoral.Kernel.IpcSystem
import ACoral.Kernel.Timer
import ACoral.Lib.Rounds

/-!
# `ACoral.Kernel.DagTask`: the threads of the DAGs at work

The threads that `dag_decode` makes are periodic. In every period each of them
runs `acoral_dag_task`: it waits for the semaphores of the nodes before it, runs
its function and posts its own semaphore. `period_time_deal` starts the next
period: it takes the semaphore back to 0 with `dag_deal_hook`, and the thread
back to the start of `acoral_dag_task`.

One step is one critical section of a thread, or one round of the loop of
`period_time_deal`. The steps come in any order, with two limits. A thread runs
only while it is READY. The tick interrupt is handled on CPU 0, so that the
threads of CPU 0 stand still until the handler is through; those of the other
CPU run on in the middle of it.

A thread of the other CPU is readied by a command, which it may take any time to
follow. It is READY at once here, and takes that time before its next step.

`history` is what the functions of the nodes did.
-/

set_option autoImplicit false

namespace ACoral

open Lib (RoundEvent)

/-- Where a thread is in `acoral_dag_task`. -/
inductive DagPc where
  /-- not created yet -/
  | absent
  /-- in front of `acoral_sem_pends(data->pend_ipc[i])` -/
  | pend (i : Nat)
  /-- at the schedule point of that call -/
  | pends (i : Nat)
  /-- in `data->dag_route` -/
  | route
  /-- in front of `acoral_sem_posts(data->post_ipc)` -/
  | post
  /-- in front of the `acoral_suspend_self` of `period_thread_exit` -/
  | exit
  /-- behind it -/
  | done
deriving DecidableEq, Repr

/-- The threads of the DAGs and what they share. -/
structure DagRun (T : Type) where
  /-- the semaphores and the states of the threads -/
  ipc : IpcState Nat T
  /-- `period_time_queue` -/
  periodTimeQueue : List (T × Int)
  /-- the threads that `acoral_dag_to_thread` has still to create -/
  todo : List T
  /-- `tmp` of `period_time_deal`, while it runs -/
  deal : Option (Option T)
  pc : T → DagPc
  history : List (RoundEvent T)

/-- One step. -/
inductive DagOp (T : Type) where
  /-- `acoral_dag_to_thread` creates its next thread -/
  | create
  /-- the tick interrupt enters `period_time_deal` -/
  | tick
  /-- one round of the loop there -/
  | deal
  /-- `thread` goes on -/
  | run (thread : T)
deriving DecidableEq, Repr

variable {R A T : Type} [DecidableEq T]

/-- The ticks that `period_thread_reload` adds the thread for. -/
def dagReload (task : T → DagThread R A) (thread : T) : Int :=
  periodThreadReload (fun t => BitVec.ofNat 32 (task t).time) thread

/-- `dag_deal_hook` -/
def dagDealHook (ipc : IpcState Nat T) (data : DagThread R A) : IpcState Nat T :=
  (acoralSemInit (some data.postIpc) 0 ipc).2

/-- `period_policy_thread_init`, from `period_thread_reload` on. -/
def dagCreate (task : T → DagThread R A) (r : DagRun T) : Option (DagRun T) :=
  match r.todo with
  | []             => none
  | thread :: todo =>
      some { r with
        ipc := r.ipc.rdyThread thread
        periodTimeQueue := acoralTickQueueAdd r.periodTimeQueue thread (dagReload task thread)
        todo := todo
        pc := Function.update r.pc thread (.pend 0) }

/-- `period_time_deal`, up to its loop. -/
def dagTick (r : DagRun T) : DagRun T :=
  let queue := tickCountDown r.periodTimeQueue
  { r with periodTimeQueue := queue, deal := some (queue.head?.map Prod.fst) }

/-- What `period_time_deal` does to a thread whose period is over. One that is not
SUSPEND goes on with the last period. -/
def dagRelease (task : T → DagThread R A) (r : DagRun T) (thread : T) : DagRun T :=
  if r.ipc.isSuspended thread then
    { r with
      ipc := (dagDealHook r.ipc (task thread)).rdyThread thread
      pc := Function.update r.pc thread (.pend 0) }
  else r

/-- One round of the loop of `period_time_deal`. -/
def dagDeal (task : T → DagThread R A) (r : DagRun T) : Option T → DagRun T
  | none     => { r with deal := none }
  | some tmp =>
      if nodeValue r.periodTimeQueue tmp > 0 then { r with deal := none }
      else
        let tmp1 := nodeNext r.periodTimeQueue tmp
        let queue := acoralTickQueueDel r.periodTimeQueue tmp
        { dagRelease task r tmp with
          periodTimeQueue := acoralTickQueueAdd queue tmp (dagReload task tmp)
          deal := some tmp1 }

/-- Where a thread is after the first half of `acoral_sem_pends`. -/
def CallResult.dagPc (i : Nat) : CallResult Nat → DagPc
  | .ret _     => .pend (i + 1)
  | .blocked _ => .pends i

/-- The next step of `acoral_dag_task`. -/
def dagTask (fuel : Nat) (task : T → DagThread R A) (r : DagRun T) (cur : T) :
    Option (DagRun T) :=
  let data := task cur
  let goto (ipc : IpcState Nat T) (pc : DagPc) : DagRun T :=
    { r with ipc := ipc, pc := Function.update r.pc cur pc }
  match r.pc cur with
  | .absent  => none
  | .pend i  =>
      if i < data.pendIpcCnt then
        data.pendIpc[i]?.join.bind fun sem =>
          (acoralSemPends fuel cur 0 (some sem) r.ipc).map fun res => goto res.2 (res.1.dagPc i)
      else some { goto r.ipc .route with history := .begin cur :: r.history }
  | .pends i => (acoralSemPendResume cur r.ipc).map fun res => goto res.2 (.pend (i + 1))
  | .route   => some { goto r.ipc .post with history := .finish cur :: r.history }
  | .post    => (acoralSemPosts fuel (some data.postIpc) r.ipc).map fun res => goto res.2 .exit
  | .exit    => some (goto (r.ipc.suspendSelf cur) .done)
  | .done    => none

/-- One step. The threads are created by a thread of CPU 0. -/
def dagStep (fuel : Nat) (task : T → DagThread R A) (r : DagRun T) : DagOp T → Option (DagRun T)
  | .create     => if r.deal = none then dagCreate task r else none
  | .tick       => if r.deal = none then some (dagTick r) else none
  | .deal       => r.deal.map (dagDeal task r)
  | .run thread =>
      if r.ipc.isReady thread ∧ (r.deal = none ∨ (task thread).cpu ≠ 0) then
        dagTask fuel task r thread
      else none

/-- The threads whose period is over at the next tick. -/
def dagDue (r : DagRun T) : List T :=
  ((tickCountDown r.periodTimeQueue).takeWhile fun node => node.2 ≤ 0).map Prod.fst

/-- No period overruns: when the tick comes all threads have been created, and those
whose period is over have finished. -/
def dagInTime (r : DagRun T) : DagOp T → Bool
  | .tick => r.todo.isEmpty && (dagDue r).all fun t => r.pc t = .done
  | _     => true

/-- The system before the first thread is created. -/
def DagRun.start (ipc : IpcState Nat T) (order : List T) : DagRun T :=
  { ipc := ipc
    periodTimeQueue := []
    todo := order
    deal := none
    pc := fun _ => .absent
    history := [] }

end ACoral
