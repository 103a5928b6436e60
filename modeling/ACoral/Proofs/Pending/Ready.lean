import ACoral.Proofs.Ceiling.Ops
import ACoral.Proofs.SmpReady

/-!
# `ACoral.Proofs.Pending.Ready`: the ready arrays while threads are killed

`SmpInv` knows threads that are READY or SUSPEND. A killed thread is
neither. `ReadyOk` says what is left of it: a thread is linked in the ready
arrays exactly while it is READY, once, in the array of its CPU and at its
priority. The operations of `thread.c`, each on the CPU of the thread, keep
that.
-/

set_option autoImplicit false

namespace ACoral

variable {T : Type} [DecidableEq T]

/-- The ready arrays hold the READY threads, each once. -/
structure ReadyOk (k : Sched T) : Prop where
  excl : ∀ t, (k.thread t).isSuspended = true → (k.thread t).isReady = false
  linked : ∀ t cpu prio, k.linked t cpu prio =
    if (k.thread t).isReady = true ∧ cpu = (k.thread t).cpu ∧ prio = (k.thread t).prio then 1 else 0

namespace ReadyOk

variable {k : Sched T} {t : T}

/-- A thread that is not READY is in no array. -/
theorem notMem (h : ReadyOk k) (ht : (k.thread t).isReady = false) (cpu prio : Nat) :
    t ∉ (k.readyQueues cpu).queue prio := by
  have hlinked := h.linked t cpu prio
  rw [if_neg (by simp [ht])] at hlinked
  exact List.count_eq_zero.mp hlinked

/-- The other bits of the states do not matter. -/
theorem sameReady (h : ReadyOk k) {k' : Sched T} (hsame : SameReady k k') : ReadyOk k' where
  excl t ht := by
    rw [hsame.suspended] at ht
    rw [hsame.ready]
    exact h.excl t ht
  linked t cpu prio := by
    unfold Sched.linked
    rw [hsame.array, hsame.ready, hsame.cpu, hsame.prio]
    exact h.linked t cpu prio

/-- A change of a thread that is not READY, and stays so. -/
theorem update (h : ReadyOk k) (ht : (k.thread t).isReady = false) {c : Tcb}
    (hc : c.isReady = false) {k' : Sched T} (hthread : k'.thread = Function.update k.thread t c)
    (hqueues : k'.readyQueues = k.readyQueues) : ReadyOk k' := by
  constructor
  · intro u hu
    rw [hthread] at hu ⊢
    by_cases hut : u = t
    · rw [hut, Function.update_self]
      exact hc
    · rw [Function.update_of_ne hut] at hu ⊢
      exact h.excl u hu
  · intro u cpu prio
    rw [Sched.linked, hqueues, hthread]
    have hold := h.linked u cpu prio
    rw [Sched.linked] at hold
    rw [hold]
    by_cases hut : u = t
    · rw [hut, Function.update_self]
      simp [ht, hc]
    · rw [Function.update_of_ne hut]

/-- The priority of a thread that is not READY. -/
theorem setPrio (h : ReadyOk k) (ht : (k.thread t).isReady = false) (prio : Nat) :
    ReadyOk (k.setPrio t prio) := by
  have hc : ({ k.thread t with prio := prio % 256 } : Tcb).isReady = false := ht
  exact h.update ht hc rfl rfl

/-- `acoral_sched_rdyqueue_add` of a SUSPEND thread. -/
theorem add (h : ReadyOk k) (cur : Nat) (ht : (k.thread t).isSuspended = true) :
    ReadyOk (acoralSchedRdyqueueAdd cur k t) := by
  have hflag := hasFlag_readyState (k.thread t).state
  have hnot := h.excl t ht
  have hother : ∀ u, u ≠ t → (acoralSchedRdyqueueAdd cur k t).thread u = k.thread u := fun u hu =>
    by simp [acoralSchedRdyqueueAdd, hu]
  constructor
  · intro u hu
    by_cases hut : u = t
    · simp [hut, acoralSchedRdyqueueAdd, Tcb.isSuspended, hflag] at hu
    · rw [hother u hut] at hu ⊢
      exact h.excl u hu
  · intro u cpu prio
    rw [SmpInv.linked_add, h.linked]
    by_cases hut : u = t
    · have hnew : ((acoralSchedRdyqueueAdd cur k t).thread t).isReady = true := by
        simp [acoralSchedRdyqueueAdd, Tcb.isReady, hflag]
      rw [hut, hnot, hnew]
      simp [acoralSchedRdyqueueAdd]
    · rw [hother u hut]
      simp [hut]

/-- `acoral_sched_rdyqueue_del` of a READY thread. -/
theorem del (h : ReadyOk k) (cur : Nat) (ht : (k.thread t).isReady = true) :
    ReadyOk (acoralSchedRdyqueueDel cur k t) := by
  have hflag := hasFlag_suspendState (k.thread t).state
  have hother : ∀ u, u ≠ t → (acoralSchedRdyqueueDel cur k t).thread u = k.thread u := fun u hu =>
    by simp [acoralSchedRdyqueueDel, hu]
  constructor
  · intro u hu
    by_cases hut : u = t
    · simp [hut, acoralSchedRdyqueueDel, Tcb.isReady, hflag]
    · rw [hother u hut] at hu ⊢
      exact h.excl u hu
  · intro u cpu prio
    rw [SmpInv.linked_del, h.linked]
    by_cases hut : u = t
    · have hnew : ((acoralSchedRdyqueueDel cur k t).thread t).isReady = false := by
        simp [acoralSchedRdyqueueDel, Tcb.isReady, hflag]
      rw [hut, ht, hnew]
      by_cases hcpu : cpu = (k.thread t).cpu
      · by_cases hprio : prio = (k.thread t).prio <;> simp [hcpu, hprio]
      · simp [hcpu]
    · rw [hother u hut]
      simp [hut]

/-! ### The operations of `thread.c` -/

/-- `acoral_rdy_thread`. -/
theorem rdyThread (h : ReadyOk k) (t : T) :
    ReadyOk (acoralRdyThread (k.thread t).cpu k t).2 := by
  unfold acoralRdyThread
  by_cases hs : hasFlag (k.thread t).state ACORAL_THREAD_STATE_SUSPEND = true
  · simpa [hs] using h.add (k.thread t).cpu hs
  · simpa [hs] using h

/-- `acoral_suspend_thread`. -/
theorem suspendThread (h : ReadyOk k) (t : T) :
    ReadyOk (acoralSuspendThread (k.thread t).cpu k t).2 := by
  unfold acoralSuspendThread
  by_cases hr : hasFlag (k.thread t).state ACORAL_THREAD_STATE_READY = true
  · simpa [hr] using h.del (k.thread t).cpu hr
  · simpa [hr] using h

/-- After `acoral_suspend_thread` a thread is not READY. -/
theorem not_isReady_suspendThread (k : Sched T) (t : T) :
    ((acoralSuspendThread (k.thread t).cpu k t).2.thread t).isReady = false := by
  have hflag := hasFlag_suspendState (k.thread t).state
  unfold acoralSuspendThread
  by_cases hr : hasFlag (k.thread t).state ACORAL_THREAD_STATE_READY = true
  · simp [hr, acoralSchedRdyqueueDel, Tcb.isReady, hflag]
  · simp [Tcb.isReady, hr]

/-- `acoral_thread_change_prio`. -/
theorem changePrio (h : ReadyOk k) (t : T) (prio : Nat) :
    ReadyOk (acoralThreadChangePrio (k.thread t).cpu k t prio) := by
  unfold acoralThreadChangePrio
  by_cases hr : hasFlag (k.thread t).state ACORAL_THREAD_STATE_READY = true
  · have hflag := hasFlag_suspendState (k.thread t).state
    have hdel := h.del (k.thread t).cpu hr
    have hnot : ((acoralSchedRdyqueueDel (k.thread t).cpu k t).thread t).isReady = false := by
      simp [acoralSchedRdyqueueDel, Tcb.isReady, hflag]
    have hset : ReadyOk ((acoralSchedRdyqueueDel (k.thread t).cpu k t).setPrio t prio) :=
      hdel.setPrio hnot prio
    have hsusp : (((acoralSchedRdyqueueDel (k.thread t).cpu k t).setPrio t prio).thread
        t).isSuspended = true := by
      simp [Sched.setPrio, acoralSchedRdyqueueDel, Tcb.isSuspended, hflag]
    simpa [hr] using hset.add (k.thread t).cpu hsusp
  · have hnot : (k.thread t).isReady = false := by simpa [Tcb.isReady] using hr
    simpa [hr] using h.setPrio hnot prio

end ReadyOk

/-- Threads that were readied from the start are linked as they should be. -/
theorem readyThreads_ready {n : Nat} (prio cpu : Fin n → Nat) :
    ReadyOk (readyThreads prio cpu) := by
  have hfold : ∀ (l : List (Fin n)) (k : Sched (Fin n)), ReadyOk k →
      (∀ t, (k.thread t).cpu = cpu t) →
      ReadyOk (l.foldl (fun k t => (acoralRdyThread (cpu t) k t).2) k) := by
    intro l
    induction l with
    | nil => exact fun k hk _ => hk
    | cons t l ih =>
        intro k hk hcpu
        rw [List.foldl_cons, ← hcpu t]
        refine ih _ (hk.rdyThread t) fun u => ?_
        exact ((acoralRdyThread_attr k t u).2).trans (hcpu u)
  refine hfold _ _ ⟨fun t ht => ?_, fun t c p => ?_⟩ fun t => rfl
  · exact (by decide : hasFlag ACORAL_THREAD_STATE_SUSPEND ACORAL_THREAD_STATE_READY = false)
  · have hstate : hasFlag ACORAL_THREAD_STATE_SUSPEND ACORAL_THREAD_STATE_READY = false := by decide
    simp [acoralSchedRdyqueueInit, acoralThreadPrioQueueInit, Sched.linked, Tcb.isReady, hstate]

end ACoral
