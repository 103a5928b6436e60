import ACoral.Kernel.Thread

/-!
# `ACoral.Proofs.Thread`: the flags of a thread

What `acoral_rdy_thread` and `acoral_suspend_thread` do to the READY and
SUSPEND flags, when they run on the CPU of the thread. `acoral_rdy_thread`
makes a SUSPEND thread READY and no longer SUSPEND, and does nothing to
any other thread (`acoralRdyThread_thread`). `acoral_suspend_thread` is
the converse on a READY thread (`acoralSuspendThread_thread`).
-/

set_option autoImplicit false

namespace ACoral

/-- The READY bit of a thread. -/
def Tcb.isReady (t : Tcb) : Bool := hasFlag t.state ACORAL_THREAD_STATE_READY

/-- The SUSPEND bit of a thread. -/
def Tcb.isSuspended (t : Tcb) : Bool := hasFlag t.state ACORAL_THREAD_STATE_SUSPEND

/-- The state that `acoral_sched_rdyqueue_add` writes. -/
theorem hasFlag_readyState (s : BitVec 8) :
    hasFlag ((s &&& ~~~ ACORAL_THREAD_STATE_SUSPEND) ||| ACORAL_THREAD_STATE_READY)
        ACORAL_THREAD_STATE_READY = true ∧
    hasFlag ((s &&& ~~~ ACORAL_THREAD_STATE_SUSPEND) ||| ACORAL_THREAD_STATE_READY)
        ACORAL_THREAD_STATE_SUSPEND = false := by
  revert s
  decide

/-- The state that `acoral_sched_rdyqueue_del` writes. -/
theorem hasFlag_suspendState (s : BitVec 8) :
    hasFlag (((s &&& ~~~ ACORAL_THREAD_STATE_READY) &&& ~~~ ACORAL_THREAD_STATE_RUNNING)
        ||| ACORAL_THREAD_STATE_SUSPEND) ACORAL_THREAD_STATE_READY = false ∧
    hasFlag (((s &&& ~~~ ACORAL_THREAD_STATE_READY) &&& ~~~ ACORAL_THREAD_STATE_RUNNING)
        ||| ACORAL_THREAD_STATE_SUSPEND) ACORAL_THREAD_STATE_SUSPEND = true := by
  revert s
  decide

variable {T : Type} [DecidableEq T]

/-- `acoral_rdy_thread` on the CPU of the thread. -/
theorem acoralRdyThread_thread (k : Sched T) (t u : T) :
    let k' := (acoralRdyThread (k.thread t).cpu k t).2
    ((k'.thread u).isReady =
      if u = t ∧ (k.thread t).isSuspended = true then true else (k.thread u).isReady) ∧
    ((k'.thread u).isSuspended =
      if u = t then false else (k.thread u).isSuspended) := by
  have hflag := hasFlag_readyState (k.thread t).state
  unfold acoralRdyThread
  by_cases hs : hasFlag (k.thread t).state ACORAL_THREAD_STATE_SUSPEND = true
  · by_cases hu : u = t
    · simp [hs, hu, acoralSchedRdyqueueAdd, Tcb.isReady, Tcb.isSuspended, hflag]
    · simp [hs, hu, acoralSchedRdyqueueAdd]
  · rw [Bool.not_eq_true] at hs
    by_cases hu : u = t
    · simp [hs, hu, Tcb.isSuspended]
    · simp [hs, hu]

/-- `acoral_suspend_thread` of a READY thread, on its CPU. -/
theorem acoralSuspendThread_thread (k : Sched T) (t u : T)
    (ht : (k.thread t).isReady = true) :
    let k' := (acoralSuspendThread (k.thread t).cpu k t).2
    ((k'.thread u).isReady = if u = t then false else (k.thread u).isReady) ∧
    ((k'.thread u).isSuspended = if u = t then true else (k.thread u).isSuspended) := by
  have hflag := hasFlag_suspendState (k.thread t).state
  have ht' : hasFlag (k.thread t).state ACORAL_THREAD_STATE_READY = true := ht
  unfold acoralSuspendThread
  by_cases hu : u = t
  · simp [ht', hu, acoralSchedRdyqueueDel, Tcb.isReady, Tcb.isSuspended, hflag]
  · simp [ht', hu, acoralSchedRdyqueueDel]

/-! ### Priorities and CPUs -/

/-- `acoral_rdy_thread` on the CPU of the thread changes no priority and no
CPU. -/
theorem acoralRdyThread_attr (k : Sched T) (t u : T) :
    let k' := (acoralRdyThread (k.thread t).cpu k t).2
    (k'.thread u).prio = (k.thread u).prio ∧ (k'.thread u).cpu = (k.thread u).cpu := by
  unfold acoralRdyThread
  by_cases hs : hasFlag (k.thread t).state ACORAL_THREAD_STATE_SUSPEND = true
  · by_cases hu : u = t <;> simp [hs, hu, acoralSchedRdyqueueAdd]
  · simp [hs]

/-- `acoral_suspend_thread` on the CPU of the thread changes no priority and
no CPU. -/
theorem acoralSuspendThread_attr (k : Sched T) (t u : T) :
    let k' := (acoralSuspendThread (k.thread t).cpu k t).2
    (k'.thread u).prio = (k.thread u).prio ∧ (k'.thread u).cpu = (k.thread u).cpu := by
  unfold acoralSuspendThread
  by_cases hr : hasFlag (k.thread t).state ACORAL_THREAD_STATE_READY = true
  · by_cases hu : u = t <;> simp [hr, hu, acoralSchedRdyqueueDel]
  · simp [hr]

/-- `acoral_thread_change_prio` on the CPU of the thread changes its
priority. A READY thread leaves its queue and enters another one, after
which it is READY and not SUSPEND. -/
theorem acoralThreadChangePrio_thread (k : Sched T) (t : T) (prio : Nat) (u : T) :
    let k' := acoralThreadChangePrio (k.thread t).cpu k t prio
    (k'.thread u).prio = (if u = t then prio % 256 else (k.thread u).prio) ∧
    (k'.thread u).cpu = (k.thread u).cpu ∧
    (k'.thread u).isReady = (k.thread u).isReady ∧
    (k'.thread u).isSuspended =
      (if u = t ∧ (k.thread t).isReady = true then false else (k.thread u).isSuspended) := by
  unfold acoralThreadChangePrio
  by_cases hr : hasFlag (k.thread t).state ACORAL_THREAD_STATE_READY = true
  · have hflag := hasFlag_readyState (((k.thread t).state &&& ~~~ ACORAL_THREAD_STATE_READY)
      &&& ~~~ ACORAL_THREAD_STATE_RUNNING ||| ACORAL_THREAD_STATE_SUSPEND)
    by_cases hu : u = t
    · simp [hr, hu, acoralSchedRdyqueueAdd, acoralSchedRdyqueueDel, Sched.setPrio, Tcb.isReady,
        Tcb.isSuspended, hflag]
    · simp [hr, hu, acoralSchedRdyqueueAdd, acoralSchedRdyqueueDel, Sched.setPrio]
  · by_cases hu : u = t <;> simp [hr, hu, Sched.setPrio, Tcb.isReady, Tcb.isSuspended]

end ACoral
