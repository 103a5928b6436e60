import ACoral.Lib.GuardedRun
import ACoral.Proofs.Pending.Step

/-!
# `ACoral.Proofs.Pending.Membership`: one node, one queue

The `pending` node of a thread is shared by all wait queues. What keeps it
in one of them is that a thread runs on from a wait only through its own
unlinking. Four paths of the code break this (`pendGuard`): the error exit
of `acoral_mutex_pend`, the wake-up of `acoral_mpcp_post`, the release of a
periodic thread that waits, and the kill of a thread whose node
`thread->ipc` does not tell about.

- `pending_single`: on the other runs a node is linked only while it is in
  no queue and unlinked only while it is in one.
- `pending_twice`: a thread that left `acoral_mutex_pend` by its error exit
  is in two wait queues after the next pend.
-/

set_option autoImplicit false

namespace ACoral

open Lib (run)

variable {R T : Type} [DecidableEq R] [DecidableEq T]

/-- The system starts with every list node linked to itself, and no thread
is in a call. -/
structure PendState.Fresh (x : PendState R T) : Prop where
  links : x.st.ipc.links = ⟨id, id⟩
  threadIpc : ∀ t, x.st.ipc.threadIpc t = none
  pc : ∀ t, x.pc t = .idle
  alive : ∀ t, x.isKilled t = false

omit [DecidableEq R] [DecidableEq T] in
theorem PendInv.start {x : PendState R T} (hx : x.Fresh) : PendInv x fun _ => [] := by
  refine ⟨⟨⟨fun i => ?_, fun i j t hi => ?_⟩, fun t _ => ?_, fun t i hi => ?_⟩, fun t i hi => ?_,
    fun t r _ hr => ?_⟩
  · unfold IpcState.Waits
    rw [hx.links]
    exact Lib.Links.isRing_nil rfl rfl
  · cases hi
  · rw [hx.links]
    rfl
  · rw [hx.threadIpc] at hi
    cases hi
  · cases hi
  · rw [hx.pc] at hr
    cases hr

/-- The wait queues hold the threads `Q`, and what the next operation does to
a `pending` node fits where it is. -/
structure SingleMembership (fuel : Nat) (x : PendState R T)
    (Q : CeilingObj R PendQueue → List T) : Prop where
  /-- every queue is a ring of its threads, and no thread is in two of them -/
  queues : x.st.ipc.Queues Q
  /-- a thread that calls an operation is in no queue -/
  idle : ∀ t, x.isKilled t = false → x.pc t = .idle → ∀ i, t ∉ Q i
  /-- a thread that goes on behind a schedule point is in the queue it leaves -/
  sem : ∀ t r, x.isKilled t = false → (x.pc t).sem = some r → t ∈ Q (.sem r)
  /-- a thread that is killed is in the queue that `thread->ipc` names -/
  ipc : ∀ t i, x.st.ipc.threadIpc t = some i → t ∈ Q i
  /-- and the unlinking of a thread of a queue returns -/
  del : ∀ t i, t ∈ Q i → (acoralIpcWaitQueueDel x.st.ipc t).isSome = true
  /-- a step links a thread of no queue, and unlinks a thread of a queue -/
  moves : ∀ op y, pendGuard x op = true → pendStep fuel x op = some y →
    ∃ Q', y.st.ipc.Queues Q' ∧ QueueMoves Q Q'

theorem PendInv.single {x : PendState R T} {Q : CeilingObj R PendQueue → List T}
    (h : PendInv x Q) (fuel : Nat) : SingleMembership fuel x Q where
  queues := h.linked.queues
  idle t halive hpc := h.free_of_idle halive hpc
  sem t r halive hr := h.pc t r halive hr
  ipc t i hi := by
    obtain ⟨r, rfl, hin⟩ := h.linked.ipc t i hi
    exact hin
  del t i hin := h.linked.del_isSome hin
  moves op y hguard hstep := by
    obtain ⟨Q', hinv, hmoves⟩ := h.step hguard hstep
    exact ⟨Q', hinv.linked.queues, hmoves⟩

/-- Take any run of the calls, the releases of periodic threads and the
kills, from the start on, in which no thread goes on, starts over or is
killed with its node left behind. In the state it ends in the node of each
thread is in one wait queue at most, and what is done to it next fits. -/
theorem pending_single {fuel : Nat} {x y : PendState R T} (hx : x.Fresh)
    {ops : List (PendOp R T)}
    (hrun : run (Lib.guarded pendGuard (pendStep fuel)) x ops = some y) :
    ∃ Q, SingleMembership fuel y Q := by
  have hinv : ∃ Q, PendInv y Q :=
    Lib.guarded_induct (P := fun x => ∃ Q, PendInv x Q)
      (fun s op s' ⟨Q, h⟩ hguard hstep => by
        obtain ⟨Q', hinv, -⟩ := h.step hguard hstep
        exact ⟨Q', hinv⟩)
      ⟨_, PendInv.start hx⟩ hrun
  obtain ⟨Q, h⟩ := hinv
  exact ⟨Q, h.single fuel⟩

/-! ### Two threads, a mutex and a semaphore -/

/-- Object 0 is a mutex that is free, object 1 a semaphore without a unit, and
thread 0 is the more urgent one. -/
def pendStart : PendState (Fin 2) (Fin 2) where
  st :=
    { CeilingState.start (readyThreads (fun t => t.val) fun _ => 0) (fun t => (t.val : Int))
        (fun _ => .ACORAL_PREEMPT_LOCAL) (fun _ => none) (fun _ => (.LOCAL, 0, 0)) with
      ipc :=
        { sched := readyThreads (fun t => t.val) fun _ => 0
          ipc := fun i =>
            if i = .sem 0 then
              { type := .ACORAL_IPC_MUTEX, count := MUTEX_AVAI, number := 0, data := none }
            else { type := .ACORAL_IPC_SEM, count := 1, number := 0, data := none }
          links := ⟨id, id⟩
          pendingValue := fun t => t.val
          threadIpc := fun _ => none } }
  pc := fun _ => .idle
  timeDelayQueue := []
  periodTimeQueue := []
  timedTimeQueue := fun _ => []
  time := fun _ => 0
  daemon := 0

theorem pendStart_fresh : pendStart.Fresh where
  links := rfl
  threadIpc _ := rfl
  pc _ := rfl
  alive := by decide

/-- Thread 1 waits for the mutex, and is woken. -/
def wakeRun : List (PendOp (Fin 2) (Fin 2)) :=
  [.ipc .acoral_mutex_pend 0 (some 0), .ipc .acoral_mutex_pend 1 (some 0),
    .ipc .acoral_mutex_post 0 (some 0), .resume 0]

theorem pending_single_wakeRun :
    ∃ y, run (Lib.guarded pendGuard (pendStep 3)) pendStart (wakeRun ++ [.resume 1]) = some y ∧
      y.pc 1 = .idle ∧ ∃ Q, SingleMembership 3 y Q := by
  have heval : (run (Lib.guarded pendGuard (pendStep 3)) pendStart
      (wakeRun ++ [.resume 1])).any (fun y => decide (y.pc 1 = .idle)) = true := by
    decide +kernel
  obtain ⟨y, hrun, hpc⟩ := (Option.any_eq_true ..).mp heval
  exact ⟨y, hrun, of_decide_eq_true hpc, pending_single pendStart_fresh hrun⟩

/-- Before thread 1 runs, thread 0 takes the mutex again. Thread 1 gets an
error, and pends on the semaphore. -/
theorem pending_twice :
    ∃ y, run (pendStep 3) pendStart (wakeRun ++
        [.ipc .acoral_mutex_pend 0 (some 0), .resume 1, .ipc .acoral_sem_pend 1 (some 1)]) = some y ∧
      y.st.ipc.links.next (.head (.sem 0)) = .pending 1 ∧
      y.st.ipc.links.next (.head (.sem 1)) = .pending 1 ∧
      ¬ ∃ Q, SingleMembership 3 y Q := by
  have heval : (run (pendStep 3) pendStart (wakeRun ++
      [.ipc .acoral_mutex_pend 0 (some 0), .resume 1,
        .ipc .acoral_sem_pend 1 (some 1)])).any (fun y =>
      decide (y.st.ipc.links.next (.head (.sem 0)) = .pending 1 ∧
        y.st.ipc.links.next (.head (.sem 1)) = .pending 1)) = true := by
    decide +kernel
  obtain ⟨y, hrun, hnext⟩ := (Option.any_eq_true ..).mp heval
  obtain ⟨hmutex, hsem⟩ := of_decide_eq_true hnext
  refine ⟨y, hrun, hmutex, hsem, ?_⟩
  rintro ⟨Q, h⟩
  -- the first member of a queue is the thread whose node follows the head
  have hfirst : ∀ i, y.st.ipc.links.next (.head i) = .pending 1 → 1 ∈ Q i := by
    intro i hi
    have hring := (h.queues.waits i).next_head
    rw [hi] at hring
    cases hq : Q i with
    | nil =>
        rw [hq] at hring
        cases hring
    | cons t q =>
        rw [hq] at hring
        cases hring
        exact List.mem_cons_self
  cases h.queues.apart _ _ _ (hfirst _ hmutex) (hfirst _ hsem)

end ACoral
