import Mathlib.Algebra.BigOperators.Group.Finset.Piecewise
import Mathlib.Algebra.Order.BigOperators.Group.Finset
import ACoral.Lib.GuardedRun
import ACoral.Proofs.Bitops
import ACoral.Proofs.Thread

/-!
# `ACoral.Proofs.ReadyArray`: the ready array over every run

The threads of one CPU are made ready, suspended, given a new priority
and selected, in any order. `schedStep` is one such operation of the
code on the CPU `cur`; beside the scheduler's data a run counts the
enqueues (`clock`) and remembers the last one of each thread
(`stamp`), which is what "queued first" means.

`ReadyInv` is the invariant. Its main facts are that a thread is linked
in the queue of its own priority exactly when it is READY, that the
bitmap lists the nonempty queues, and that every queue is sorted by
enqueue time. Three operations carry it:

* `ReadyInv.add`: `acoral_sched_rdyqueue_add` on a thread that is not
  READY;
* `ReadyInv.del`: `acoral_sched_rdyqueue_del` on a READY thread;
* `ReadyInv.setPrio`: the priority field of a thread that is not READY.

`acoral_thread_change_prio` of a READY thread is the three of them in
the order del, setPrio, add. So the state between them is an ordinary
state of the invariant, in which the thread is not READY.

`readyArray_run` is the result for runs from the initialised array, and
`ReadyInv.select` is what `acoral_select_thread` answers.
-/

set_option autoImplicit false

namespace ACoral

open Lib (run run_induct)

/-! ### Runs -/

/-- The operations of a run. -/
inductive SchedOp (T : Type) where
  /-- `acoral_rdy_thread` -/
  | rdy (t : T)
  /-- `acoral_suspend_thread` -/
  | suspend (t : T)
  /-- `acoral_thread_change_prio` -/
  | changePrio (t : T) (prio : Nat)
  /-- `acoral_select_thread` -/
  | select

/-- The state of a run: the scheduler's data, the number of enqueues
so far, and the last enqueue of each thread. -/
structure SchedRun (T : Type) where
  sched : Sched T
  clock : Nat
  stamp : T → Nat

variable {T : Type} [DecidableEq T]

/-- The run state after an operation that enqueued `t` if `enq`. -/
def SchedRun.next (r : SchedRun T) (k : Sched T) (t : T) (enq : Bool) : SchedRun T :=
  if enq then ⟨k, r.clock + 1, Function.update r.stamp t r.clock⟩ else ⟨k, r.clock, r.stamp⟩

/-- One operation on the CPU `cur`. There is no queue for a priority
from `ACORAL_MAX_PRIO_NUM` on, and no thread to select in an empty
array. -/
def schedStep (cur : Nat) (r : SchedRun T) : SchedOp T → Option (SchedRun T)
  | .rdy t =>
      some (r.next (acoralRdyThread cur r.sched t).2 t (r.sched.thread t).isSuspended)
  | .suspend t => some (r.next (acoralSuspendThread cur r.sched t).2 t false)
  | .changePrio t prio =>
      if prio % 256 < ACORAL_MAX_PRIO_NUM then
        some (r.next (acoralThreadChangePrio cur r.sched t prio) t (r.sched.thread t).isReady)
      else none
  | .select =>
      if (r.sched.readyQueues cur).num = 0 then none
      else some { r with sched := acoralSelectThread cur r.sched }

/-- The start of a run: the arrays are initialised and the threads are
those of `thread`. -/
def SchedRun.init (thread : T → Tcb) : SchedRun T :=
  ⟨acoralSchedRdyqueueInit thread, 0, fun _ => 0⟩

/-! ### The invariant -/

/-- The threads of the array, over all its queues. -/
def PrioArray.total (a : PrioArray T) : Nat :=
  ∑ p ∈ Finset.range ACORAL_MAX_PRIO_NUM, (a.queue p).length

/-- The invariant of the ready array of the CPU `cur`. -/
structure ReadyInv (cur : Nat) (r : SchedRun T) : Prop where
  cpu : ∀ t, (r.sched.thread t).cpu = cur
  prio_lt : ∀ t, (r.sched.thread t).prio < ACORAL_MAX_PRIO_NUM
  flags : ∀ t, (r.sched.thread t).isSuspended = !(r.sched.thread t).isReady
  bit : ∀ p, (r.sched.readyQueues cur).bitmap.bit p = true ↔
    (r.sched.readyQueues cur).queue p ≠ []
  num : (r.sched.readyQueues cur).num = (r.sched.readyQueues cur).total
  mem : ∀ t p, t ∈ (r.sched.readyQueues cur).queue p ↔
    (r.sched.thread t).isReady = true ∧ (r.sched.thread t).prio = p
  sorted : ∀ p, ((r.sched.readyQueues cur).queue p).Pairwise fun t u => r.stamp t < r.stamp u
  stamp_lt : ∀ t, (r.sched.thread t).isReady = true → r.stamp t < r.clock

namespace ReadyInv

variable {cur : Nat} {r : SchedRun T}

omit [DecidableEq T] in
/-- A queue holds a thread once. -/
theorem nodup (h : ReadyInv cur r) (p : Nat) : ((r.sched.readyQueues cur).queue p).Nodup :=
  (h.sorted p).imp fun hlt he => by simp [he] at hlt

/-- A READY thread occurs once, in the queue of its priority. -/
theorem count_eq (h : ReadyInv cur r) {t : T} (ht : (r.sched.thread t).isReady = true) (p : Nat) :
    ((r.sched.readyQueues cur).queue p).count t =
      if p = (r.sched.thread t).prio then 1 else 0 := by
  split
  · rename_i hp
    exact List.count_eq_one_of_mem (h.nodup p) ((h.mem t p).mpr ⟨ht, hp.symm⟩)
  · rename_i hp
    exact List.count_eq_zero.mpr fun hm => hp ((h.mem t p).mp hm).2.symm

/-- Unlinking a thread changes the queue of its priority only. -/
theorem unlink_eq (h : ReadyInv cur r) (t : T) :
    PrioArray.unlink (r.sched.readyQueues cur).queue t =
      Function.update (r.sched.readyQueues cur).queue (r.sched.thread t).prio
        (((r.sched.readyQueues cur).queue (r.sched.thread t).prio).erase t) := by
  funext p
  unfold PrioArray.unlink
  by_cases hp : p = (r.sched.thread t).prio
  · rw [hp, Function.update_self]
  · rw [Function.update_of_ne hp]
    exact List.erase_of_not_mem fun hm => hp ((h.mem t p).mp hm).2.symm

omit [DecidableEq T] in
/-- The count when one queue changes: what that queue gains or loses is
what the array gains or loses. -/
theorem total_update (a : PrioArray T) (num : Nat) (bitmap : Bitmap) {p : Nat}
    (hp : p < ACORAL_MAX_PRIO_NUM) (l : List T) :
    (PrioArray.mk num bitmap (Function.update a.queue p l)).total + (a.queue p).length =
      a.total + l.length := by
  have hmem : p ∈ Finset.range ACORAL_MAX_PRIO_NUM := Finset.mem_range.mpr hp
  unfold PrioArray.total
  rw [← Finset.add_sum_erase _ _ hmem, ← Finset.add_sum_erase _ (fun q => (a.queue q).length) hmem]
  have hrest : ∑ q ∈ (Finset.range ACORAL_MAX_PRIO_NUM).erase p,
      ((Function.update a.queue p l) q).length =
      ∑ q ∈ (Finset.range ACORAL_MAX_PRIO_NUM).erase p, (a.queue q).length :=
    Finset.sum_congr rfl fun q hq => by rw [Function.update_of_ne (Finset.ne_of_mem_erase hq)]
  rw [hrest]
  simp only [Function.update_self]
  omega

/-- `acoral_sched_rdyqueue_add` on a thread that is not READY. The
thread goes to the tail of its queue, with the latest enqueue time. -/
theorem add (h : ReadyInv cur r) {t : T} (ht : (r.sched.thread t).isReady = false) :
    ReadyInv cur (r.next (acoralSchedRdyqueueAdd cur r.sched t) t true) := by
  have hcpu := h.cpu t
  have hflag := hasFlag_readyState (r.sched.thread t).state
  have hnot : ∀ u p, u ∈ (r.sched.readyQueues cur).queue p → u ≠ t := by
    intro u p hu he
    simp [he ▸ ((h.mem u p).mp hu).1] at ht
  unfold SchedRun.next acoralSchedRdyqueueAdd
  simp only [hcpu, if_true]
  constructor
  case cpu =>
    intro u
    by_cases hu : u = t <;> simp [hu, h.cpu]
  case prio_lt =>
    intro u
    by_cases hu : u = t <;> simp [hu, h.prio_lt]
  case flags =>
    intro u
    by_cases hu : u = t
    · simp [hu, Tcb.isReady, Tcb.isSuspended, hflag]
    · simp [hu, h.flags]
  case bit =>
    intro p
    by_cases hp : p = (r.sched.thread t).prio
    · simp [acoralThreadPrioQueueAdd, hp]
    · simp [acoralThreadPrioQueueAdd, hp, h.bit]
  case num =>
    have := total_update (r.sched.readyQueues cur) ((r.sched.readyQueues cur).num + 1)
      (acoralSetBit (r.sched.thread t).prio (r.sched.readyQueues cur).bitmap) (h.prio_lt t)
      ((r.sched.readyQueues cur).queue (r.sched.thread t).prio ++ [t])
    have hnum := h.num
    simp only [Function.update_self, acoralThreadPrioQueueAdd, List.length_append,
      List.length_singleton] at this ⊢
    omega
  case mem =>
    intro u p
    by_cases hp : p = (r.sched.thread t).prio <;> by_cases hu : u = t
    · simp [acoralThreadPrioQueueAdd, hp, hu, Tcb.isReady, hflag]
    · simp [acoralThreadPrioQueueAdd, hp, hu, h.mem]
    · have hnm : t ∉ (r.sched.readyQueues cur).queue p := fun hm => hnot t p hm rfl
      simp [acoralThreadPrioQueueAdd, hp, hu, hnm, Ne.symm hp]
    · simp [acoralThreadPrioQueueAdd, hp, hu, h.mem]
  case sorted =>
    intro p
    have hold : ((r.sched.readyQueues cur).queue p).Pairwise fun u v =>
        Function.update r.stamp t r.clock u < Function.update r.stamp t r.clock v := by
      refine (h.sorted p).imp_of_mem fun hu hv hlt => ?_
      rwa [Function.update_of_ne (hnot _ p hu), Function.update_of_ne (hnot _ p hv)]
    by_cases hp : p = (r.sched.thread t).prio
    · subst hp
      simp only [acoralThreadPrioQueueAdd, Function.update_self]
      refine List.pairwise_append.mpr ⟨hold, List.pairwise_singleton _ _, fun u hu v hv => ?_⟩
      rw [List.mem_singleton.mp hv, Function.update_self, Function.update_of_ne (hnot u _ hu)]
      exact h.stamp_lt u ((h.mem u _).mp hu).1
    · simpa [acoralThreadPrioQueueAdd, hp] using hold
  case stamp_lt =>
    intro u hu
    by_cases hut : u = t
    · simp [hut]
    · simp only [Function.update_of_ne hut] at hu ⊢
      exact Nat.lt_succ_of_lt (h.stamp_lt u hu)

/-- `acoral_sched_rdyqueue_del` on a READY thread. -/
theorem del (h : ReadyInv cur r) {t : T} (ht : (r.sched.thread t).isReady = true) :
    ReadyInv cur { r with sched := acoralSchedRdyqueueDel cur r.sched t } := by
  have hcpu := h.cpu t
  have hflag := hasFlag_suspendState (r.sched.thread t).state
  have hin : t ∈ (r.sched.readyQueues cur).queue (r.sched.thread t).prio :=
    (h.mem t _).mpr ⟨ht, rfl⟩
  unfold acoralSchedRdyqueueDel
  simp only [hcpu]
  constructor
  case cpu =>
    intro u
    by_cases hu : u = t <;> simp [hu, h.cpu]
  case prio_lt =>
    intro u
    by_cases hu : u = t <;> simp [hu, h.prio_lt]
  case flags =>
    intro u
    by_cases hu : u = t
    · simp [hu, Tcb.isReady, Tcb.isSuspended, hflag]
    · simp [hu, h.flags]
  case bit =>
    intro p
    simp only [Function.update_self, acoralThreadPrioQueueDel, h.unlink_eq]
    by_cases hp : p = (r.sched.thread t).prio
    · subst hp
      simp only [Function.update_self]
      split
      · rename_i he
        simp [he]
      · rename_i he
        simp only [h.bit, ne_eq, he, not_false_eq_true, iff_true]
        exact List.ne_nil_of_mem hin
    · split <;> simp [hp, h.bit]
  case num =>
    have := total_update (r.sched.readyQueues cur) ((r.sched.readyQueues cur).num - 1)
      (if ((r.sched.readyQueues cur).queue (r.sched.thread t).prio).erase t = [] then
        acoralClearBit (r.sched.thread t).prio (r.sched.readyQueues cur).bitmap
        else (r.sched.readyQueues cur).bitmap) (h.prio_lt t)
      (((r.sched.readyQueues cur).queue (r.sched.thread t).prio).erase t)
    have hnum := h.num
    have hlen := List.length_erase_of_mem hin
    have hpos := List.length_pos_of_mem hin
    simp only [Function.update_self, acoralThreadPrioQueueDel, h.unlink_eq] at this ⊢
    omega
  case mem =>
    intro u p
    simp only [Function.update_self, acoralThreadPrioQueueDel, PrioArray.unlink]
    by_cases hu : u = t
    · simp [hu, (h.nodup p).not_mem_erase, Tcb.isReady, hflag]
    · simp [hu, List.mem_erase_of_ne hu, h.mem]
  case sorted =>
    intro p
    simp only [Function.update_self, acoralThreadPrioQueueDel, PrioArray.unlink]
    exact (h.sorted p).sublist (List.erase_sublist)
  case stamp_lt =>
    intro u hu
    by_cases hut : u = t
    · simp [hut, Tcb.isReady, hflag] at hu
    · simp only [Function.update_of_ne hut] at hu
      exact h.stamp_lt u hu

/-- The priority of a thread that is not READY: no queue holds it. -/
theorem setPrio (h : ReadyInv cur r) {t : T} (ht : (r.sched.thread t).isReady = false)
    {prio : Nat} (hprio : prio % 256 < ACORAL_MAX_PRIO_NUM) :
    ReadyInv cur { r with sched := r.sched.setPrio t prio } := by
  have hready : ∀ u, ((r.sched.setPrio t prio).thread u).isReady = (r.sched.thread u).isReady := by
    intro u
    by_cases hu : u = t <;> simp [Sched.setPrio, hu, Tcb.isReady]
  constructor
  case cpu =>
    intro u
    by_cases hu : u = t <;> simp [Sched.setPrio, hu, h.cpu]
  case prio_lt =>
    intro u
    by_cases hu : u = t <;> simp [Sched.setPrio, hu, h.prio_lt, hprio]
  case flags =>
    intro u
    rw [hready, ← h.flags]
    by_cases hu : u = t <;> simp [Sched.setPrio, hu, Tcb.isSuspended]
  case bit => exact h.bit
  case num => exact h.num
  case mem =>
    intro u p
    simp only [hready]
    by_cases hu : u = t
    · subst hu
      simp [ht, Sched.setPrio, h.mem]
    · simp [Sched.setPrio, hu, h.mem]
  case sorted => exact h.sorted
  case stamp_lt =>
    intro u hu
    exact h.stamp_lt u (by rwa [hready] at hu)

/-! ### The operations -/

/-- `acoral_rdy_thread`. -/
theorem rdy (h : ReadyInv cur r) (t : T) :
    ReadyInv cur
      (r.next (acoralRdyThread cur r.sched t).2 t (r.sched.thread t).isSuspended) := by
  have hf := h.flags t
  unfold acoralRdyThread
  by_cases hs : (r.sched.thread t).isSuspended = true
  · have hs' : hasFlag (r.sched.thread t).state ACORAL_THREAD_STATE_SUSPEND = true := hs
    simp only [hs', h.cpu t, hs, Bool.true_eq_false, ne_eq, not_true_eq_false, if_false]
    exact h.add (by simpa [hs] using hf)
  · rw [Bool.not_eq_true] at hs
    have hs' : hasFlag (r.sched.thread t).state ACORAL_THREAD_STATE_SUSPEND = false := hs
    simpa [hs', hs, SchedRun.next] using h

/-- `acoral_suspend_thread`. -/
theorem suspend (h : ReadyInv cur r) (t : T) :
    ReadyInv cur (r.next (acoralSuspendThread cur r.sched t).2 t false) := by
  unfold acoralSuspendThread SchedRun.next
  by_cases hr : (r.sched.thread t).isReady = true
  · have hr' : hasFlag (r.sched.thread t).state ACORAL_THREAD_STATE_READY = true := hr
    simpa [hr', h.cpu t] using h.del hr
  · rw [Bool.not_eq_true] at hr
    have hr' : hasFlag (r.sched.thread t).state ACORAL_THREAD_STATE_READY = false := hr
    simpa [hr'] using h

/-- `acoral_thread_change_prio`: a READY thread leaves the queue of its
old priority first and enters the new one last, so its flags and its
place never disagree. -/
theorem changePrio (h : ReadyInv cur r) (t : T) {prio : Nat}
    (hprio : prio % 256 < ACORAL_MAX_PRIO_NUM) :
    ReadyInv cur
      (r.next (acoralThreadChangePrio cur r.sched t prio) t (r.sched.thread t).isReady) := by
  unfold acoralThreadChangePrio
  by_cases hr : (r.sched.thread t).isReady = true
  · have hr' : hasFlag (r.sched.thread t).state ACORAL_THREAD_STATE_READY = true := hr
    have hflag := hasFlag_suspendState (r.sched.thread t).state
    have hdel := h.del hr
    have hset := hdel.setPrio (t := t)
      (by simp [acoralSchedRdyqueueDel, Tcb.isReady, hflag]) hprio
    have hadd := hset.add (t := t)
      (by simp [acoralSchedRdyqueueDel, Sched.setPrio, Tcb.isReady, hflag])
    simpa [hr', hr, h.cpu t, SchedRun.next] using hadd
  · rw [Bool.not_eq_true] at hr
    have hr' : hasFlag (r.sched.thread t).state ACORAL_THREAD_STATE_READY = false := hr
    simpa [hr', hr, h.cpu t, SchedRun.next] using h.setPrio hr hprio

/-- Every operation keeps the invariant. -/
theorem step (h : ReadyInv cur r) (op : SchedOp T) {r' : SchedRun T}
    (hstep : schedStep cur r op = some r') : ReadyInv cur r' := by
  cases op with
  | rdy t =>
      obtain rfl := Option.some.inj hstep
      exact h.rdy t
  | suspend t =>
      obtain rfl := Option.some.inj hstep
      exact h.suspend t
  | changePrio t prio =>
      simp only [schedStep, Option.ite_none_right_eq_some, Option.some.injEq] at hstep
      obtain ⟨hprio, rfl⟩ := hstep
      exact h.changePrio t hprio
  | select =>
      simp only [schedStep, Option.ite_none_left_eq_some, Option.some.injEq] at hstep
      obtain ⟨-, rfl⟩ := hstep
      exact ⟨h.cpu, h.prio_lt, h.flags, h.bit, h.num, h.mem, h.sorted, h.stamp_lt⟩

omit [DecidableEq T] in
/-- The invariant holds at the start. -/
theorem init {thread : T → Tcb} (hcpu : ∀ t, (thread t).cpu = cur)
    (hprio : ∀ t, (thread t).prio < ACORAL_MAX_PRIO_NUM)
    (hsusp : ∀ t, (thread t).state = ACORAL_THREAD_STATE_SUSPEND) :
    ReadyInv cur (SchedRun.init thread) := by
  have hready : ∀ t, (thread t).isReady = false := by
    intro t
    rw [Tcb.isReady, hsusp t]
    decide
  constructor
  case cpu => exact hcpu
  case prio_lt => exact hprio
  case flags =>
    intro t
    show (thread t).isSuspended = !(thread t).isReady
    rw [hready t, Tcb.isSuspended, hsusp t]
    decide
  case bit =>
    intro p
    simp [SchedRun.init, acoralSchedRdyqueueInit, acoralThreadPrioQueueInit, Bitmap.bit]
  case num =>
    simp [SchedRun.init, acoralSchedRdyqueueInit, acoralThreadPrioQueueInit, PrioArray.total]
  case mem =>
    intro t p
    simp [SchedRun.init, acoralSchedRdyqueueInit, acoralThreadPrioQueueInit, hready]
  case sorted =>
    intro p
    simp [SchedRun.init, acoralSchedRdyqueueInit, acoralThreadPrioQueueInit]
  case stamp_lt =>
    intro t ht
    have : (thread t).isReady = true := ht
    simp [hready] at this

/-! ### Selection -/

omit [DecidableEq T] in
/-- A nonempty array has a nonempty queue. -/
theorem exists_queue_ne_nil (h : ReadyInv cur r) (hnum : (r.sched.readyQueues cur).num ≠ 0) :
    ∃ p < ACORAL_MAX_PRIO_NUM, (r.sched.readyQueues cur).queue p ≠ [] := by
  rw [h.num] at hnum
  obtain ⟨p, hp, hne⟩ := Finset.exists_ne_zero_of_sum_ne_zero hnum
  exact ⟨p, Finset.mem_range.mp hp, fun he => hne (by simp [he])⟩

omit [DecidableEq T] in
/-- `acoral_thread_get_high_prio` answers the smallest set bit. The
array's bitmap has two words; the search may have to cross into the
second. -/
theorem getHighPrio (h : ReadyInv cur r) (hnum : (r.sched.readyQueues cur).num ≠ 0) :
    (r.sched.readyQueues cur).bitmap.bit (acoralThreadGetHighPrio (r.sched.readyQueues cur))
        = true ∧
      ∀ p < acoralThreadGetHighPrio (r.sched.readyQueues cur),
        (r.sched.readyQueues cur).bitmap.bit p = false := by
  obtain ⟨p, hp, hne⟩ := h.exists_queue_ne_nil hnum
  refine acoralFindFirstBit_spec _ _ p ((h.bit p).mpr hne) ?_
  calc p < ACORAL_MAX_PRIO_NUM := hp
    _ ≤ ACORAL_THREAD_PRIO_BITMAP_SIZE * 32 := by decide

omit [DecidableEq T] in
/-- `acoral_select_thread` on a nonempty array selects a READY thread
of the smallest priority, and of those the one queued first. -/
theorem select (h : ReadyInv cur r) (hnum : (r.sched.readyQueues cur).num ≠ 0) :
    ∃ t, (acoralSelectThread cur r.sched).readyThread cur = some t ∧
      (r.sched.thread t).isReady = true ∧
      (r.sched.thread t).prio = acoralThreadGetHighPrio (r.sched.readyQueues cur) ∧
      ∀ u, (r.sched.thread u).isReady = true → u ≠ t →
        (r.sched.thread t).prio < (r.sched.thread u).prio ∨
        ((r.sched.thread t).prio = (r.sched.thread u).prio ∧ r.stamp t < r.stamp u) := by
  obtain ⟨hbit, hmin⟩ := h.getHighPrio hnum
  set index := acoralThreadGetHighPrio (r.sched.readyQueues cur) with hindex
  obtain ⟨t, rest, hq⟩ := List.exists_cons_of_ne_nil ((h.bit index).mp hbit)
  have ht : t ∈ (r.sched.readyQueues cur).queue index := by simp [hq]
  obtain ⟨hready, hprio⟩ := (h.mem t index).mp ht
  refine ⟨t, by simp [acoralSelectThread, ← hindex, hq], hready, hprio, fun u hu hut => ?_⟩
  have humem := (h.mem u _).mpr ⟨hu, rfl⟩
  rcases Nat.lt_trichotomy index (r.sched.thread u).prio with hlt | heq | hgt
  · exact Or.inl (hprio.symm ▸ hlt)
  · -- the head of a sorted queue is its oldest thread
    refine Or.inr ⟨hprio.trans heq, ?_⟩
    rw [← heq, hq] at humem
    have hsorted := h.sorted index
    rw [hq] at hsorted
    exact List.rel_of_pairwise_cons hsorted ((List.mem_cons.mp humem).resolve_left hut)
  · have hset := (h.bit _).mpr (List.ne_nil_of_mem humem)
    simp [hmin _ hgt] at hset

end ReadyInv

/-- Every state of every run from the initialised array: the bitmap
lists the nonempty queues, the count is the number of queued threads,
a READY thread is linked once, in the queue of its priority, and is
not SUSPEND, and only READY threads are linked. On a nonempty array
`acoral_thread_get_high_prio` answers the smallest set bit and
`acoral_select_thread` the earliest queued thread of the smallest
priority. -/
theorem readyArray_run (cur : Nat) (thread : T → Tcb) (hcpu : ∀ t, (thread t).cpu = cur)
    (hprio : ∀ t, (thread t).prio < ACORAL_MAX_PRIO_NUM)
    (hsusp : ∀ t, (thread t).state = ACORAL_THREAD_STATE_SUSPEND)
    (ops : List (SchedOp T)) (r : SchedRun T)
    (hrun : run (schedStep cur) (SchedRun.init thread) ops = some r) :
    (∀ p, (r.sched.readyQueues cur).bitmap.bit p = true ↔
      (r.sched.readyQueues cur).queue p ≠ []) ∧
    (r.sched.readyQueues cur).num =
      ∑ p ∈ Finset.range ACORAL_MAX_PRIO_NUM, ((r.sched.readyQueues cur).queue p).length ∧
    (∀ t, hasFlag (r.sched.thread t).state ACORAL_THREAD_STATE_READY = true →
      ∀ p, ((r.sched.readyQueues cur).queue p).count t =
        if p = (r.sched.thread t).prio then 1 else 0) ∧
    (∀ t p, t ∈ (r.sched.readyQueues cur).queue p →
      hasFlag (r.sched.thread t).state ACORAL_THREAD_STATE_READY = true) ∧
    (∀ t, ¬ (hasFlag (r.sched.thread t).state ACORAL_THREAD_STATE_READY = true ∧
      hasFlag (r.sched.thread t).state ACORAL_THREAD_STATE_SUSPEND = true)) ∧
    ((r.sched.readyQueues cur).num ≠ 0 →
      ((r.sched.readyQueues cur).bitmap.bit
          (acoralThreadGetHighPrio (r.sched.readyQueues cur)) = true ∧
        ∀ p < acoralThreadGetHighPrio (r.sched.readyQueues cur),
          (r.sched.readyQueues cur).bitmap.bit p = false) ∧
      ∃ t, (acoralSelectThread cur r.sched).readyThread cur = some t ∧
        hasFlag (r.sched.thread t).state ACORAL_THREAD_STATE_READY = true ∧
        ∀ u, hasFlag (r.sched.thread u).state ACORAL_THREAD_STATE_READY = true → u ≠ t →
          (r.sched.thread t).prio < (r.sched.thread u).prio ∨
          ((r.sched.thread t).prio = (r.sched.thread u).prio ∧ r.stamp t < r.stamp u)) := by
  have h : ReadyInv cur r :=
    run_induct (fun _ op _ hinv hstep => ReadyInv.step hinv op hstep)
      (ReadyInv.init hcpu hprio hsusp) hrun
  refine ⟨h.bit, h.num, fun t ht p => h.count_eq ht p, fun t p ht => ((h.mem t p).mp ht).1,
    fun t ⟨hr, hs⟩ => ?_, fun hnum => ⟨h.getHighPrio hnum, ?_⟩⟩
  · have hf := h.flags t
    simp [Tcb.isReady, Tcb.isSuspended, hr, hs] at hf
  · obtain ⟨t, hsel, hready, -, hmin⟩ := h.select hnum
    exact ⟨t, hsel, hready, hmin⟩

/-- Two suspended threads whose bits lie in different words of the
bitmap. -/
def twoThreads (t : Bool) : Tcb :=
  { resId := 0, state := ACORAL_THREAD_STATE_SUSPEND, prio := if t then 40 else 3, cpu := 0 }

/-- A run on the two threads, with a select and then a priority change
of the selected thread. -/
theorem readyArray_run_twoThreads :
    ∃ r, run (schedStep 0) (SchedRun.init twoThreads)
        [.rdy true, .rdy false, .select, .changePrio false 50] = some r ∧
      ∃ t, (acoralSelectThread 0 r.sched).readyThread 0 = some t ∧
        ∀ u, hasFlag (r.sched.thread u).state ACORAL_THREAD_STATE_READY = true → u ≠ t →
          (r.sched.thread t).prio < (r.sched.thread u).prio ∨
          ((r.sched.thread t).prio = (r.sched.thread u).prio ∧ r.stamp t < r.stamp u) := by
  have hprio : ∀ t, (twoThreads t).prio < ACORAL_MAX_PRIO_NUM := by decide
  obtain ⟨t, hsel, -, hmin⟩ :=
    ((readyArray_run 0 twoThreads (fun _ => rfl) hprio (fun _ => rfl)
      [.rdy true, .rdy false, .select, .changePrio false 50] _ rfl).2.2.2.2.2 (by decide)).2
  exact ⟨_, rfl, t, hsel, hmin⟩

end ACoral
