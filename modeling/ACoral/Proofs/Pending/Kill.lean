import ACoral.Proofs.Pending.Membership
import ACoral.Proofs.Pending.Timers

/-!
# `ACoral.Proofs.Pending.Kill`: what is left of a killed thread

`acoral_kill_thread` decides by `thread->state` and `thread->ipc` what it
unlinks: the tick queues only of a SUSPEND thread, the wait queue only of a
SUSPEND thread with `thread->ipc` set. The nodes themselves may be linked in
other cases. A periodic thread that runs is in the period queue; a delayed
thread that was readied early is still in the delay queue; a woken thread is
in its wait queue until it has run.

- `kill_unreachable`: in the runs of `pending_single` the killed thread is in
  the release queue alone exactly if what was linked is what these tests name
  (`KillOk`).
- `kill_running`: a periodic thread that is killed while it runs.
-/

set_option autoImplicit false

namespace ACoral

open Lib (Links keys run)

variable {R T : Type} [DecidableEq R] [DecidableEq T]

/-- A thread is in no tick queue. -/
structure PendState.NotTicking (x : PendState R T) (t : T) : Prop where
  delay : t ∉ keys x.timeDelayQueue
  period : t ∉ keys x.periodTimeQueue
  timed : ∀ cpu, t ∉ keys (x.timedTimeQueue cpu)

/-- The nodes of a thread are in the release queue and nowhere else. -/
structure OnlyReleased (x : PendState R T) (t : T) : Prop where
  ready : ∀ cpu prio, t ∉ (x.st.ipc.sched.readyQueues cpu).queue prio
  ticks : x.NotTicking t
  /-- no walk over a wait queue comes to its `pending` node -/
  waits : ∀ i, i ≠ .wait .release → ∀ n, x.st.ipc.links.next^[n] (.head i) ≠ .pending t
  /-- and a walk over the release queue does -/
  release : ∃ n, x.st.ipc.links.next^[n] (.head (.wait .release)) = .pending t

/-- What is linked of a thread is what `acoral_kill_thread` unlinks. -/
structure KillOk (x : PendState R T) (t : T) : Prop where
  ticks : x.isSuspended t = true ∨ x.NotTicking t
  node : pendGuard x (.kill t) = true

variable {x y z : PendState R T} {Q : CeilingObj R PendQueue → List T} {t : T}

/-! ### Walks over the queues -/

omit [DecidableEq R] [DecidableEq T] in
/-- A walk over a queue comes to its threads only. -/
theorem PendLinked.walk_notMem {s : IpcState (CeilingObj R PendQueue) T} (h : PendLinked s Q)
    {i : CeilingObj R PendQueue} (ht : t ∉ Q i) (n : Nat) :
    s.links.next^[n] (.head i) ≠ .pending t := by
  intro hwalk
  have hmem := Links.IsRing.iterate_mem (h.queues.waits i) n
  rw [hwalk] at hmem
  simp [ht] at hmem

omit [DecidableEq R] [DecidableEq T] in
/-- And to each of them, also when the pointers of nodes behind it, or of
other queues, change. -/
theorem PendLinked.walk_mem {s : IpcState (CeilingObj R PendQueue) T} (h : PendLinked s Q)
    {i : CeilingObj R PendQueue} (ht : t ∈ Q i) {links : Links (IpcNode (CeilingObj R PendQueue) T)}
    (hnext : ∀ m, m ∈ .head i :: (Q i).map .pending → m ≠ .pending t →
      links.next m = s.links.next m) : ∃ n, links.next^[n] (.head i) = .pending t := by
  obtain ⟨l₁, l₂, hsplit⟩ := List.append_of_mem ht
  have hring := h.queues.waits i
  unfold IpcState.Waits at hring
  rw [hsplit, List.map_append, List.map_cons] at hring hnext
  refine ⟨_, hring.path_mem.iterate fun m hm => hnext m ?_ ?_⟩
  · rcases List.mem_cons.mp hm with rfl | hm
    · exact List.mem_cons_self
    · exact List.mem_cons_of_mem _ (List.mem_append_left _ hm)
  · -- the nodes up to the thread come before it
    rintro rfl
    have hnd := (List.nodup_cons.mp hring.nodup).2
    rcases List.mem_cons.mp hm with he | hm
    · cases he
    · exact (List.nodup_append.mp hnd).2.2 _ hm _ List.mem_cons_self rfl

/-! ### The steps of `acoral_kill_thread` -/

/-- The unlinking returns. -/
theorem PendInv.killUnlink_some (h : PendInv x Q) (t : T) :
    ∃ y, ACoral.killUnlink x t = some y := by
  unfold ACoral.killUnlink
  dsimp only
  split
  · rename_i hwait
    obtain ⟨i, hi⟩ := Option.ne_none_iff_exists'.mp hwait.2
    obtain ⟨r, -, hin⟩ := h.linked.ipc t i hi
    have hlinked : PendLinked (x.setTimer (killTimerNodes x.timer t)).st.ipc Q :=
      h.linked.congr rfl rfl
    obtain ⟨ipc, hdel⟩ := Option.isSome_iff_exists.mp (hlinked.del_isSome hin)
    exact ⟨_, by rw [hdel]; rfl⟩
  · exact ⟨_, rfl⟩

/-- A thread of which nothing is unlinked keeps its nodes. -/
theorem killUnlink_of_not (ht : ¬ (x.isSuspended t = true ∧ x.st.ipc.threadIpc t ≠ none)) :
    killUnlink x t = some (x.setTimer (killTimerNodes x.timer t)) := by
  unfold killUnlink
  rw [if_neg ht]

/-- The killed thread is EXIT, also when it is the daemon itself. -/
theorem prerelease_isReady (hstep : acoralPrereleaseThread x t = some y) :
    (y.st.ipc.sched.thread t).isReady = false := by
  obtain ⟨links, -, rfl⟩ := Option.map_eq_some_iff.mp hstep
  have hexit : (x.setState t ACORAL_THREAD_STATE_EXIT).st.ipc.sched.thread t =
      { x.st.ipc.sched.thread t with state := ACORAL_THREAD_STATE_EXIT } :=
    Function.update_self _ _ _
  have hready : hasFlag ACORAL_THREAD_STATE_EXIT ACORAL_THREAD_STATE_READY = false := by decide
  have hsuspend : hasFlag ACORAL_THREAD_STATE_EXIT ACORAL_THREAD_STATE_SUSPEND = false := by decide
  have hrdy := acoralRdyThread_thread (x.setState t ACORAL_THREAD_STATE_EXIT).st.ipc.sched x.daemon t
  refine hrdy.1.trans ?_
  rw [if_neg, hexit]
  · exact hready
  · -- `acoral_rdy_thread` does nothing for a thread that is EXIT
    rintro ⟨hdaemon, hstate⟩
    rw [← hdaemon, hexit, Tcb.isSuspended, hsuspend] at hstate
    cases hstate

/-- The tick queues that are left. -/
theorem prerelease_ticks (hstep : acoralPrereleaseThread x t = some y) :
    y.timeDelayQueue = x.timeDelayQueue ∧ y.periodTimeQueue = x.periodTimeQueue ∧
      y.timedTimeQueue = x.timedTimeQueue := by
  obtain ⟨links, -, rfl⟩ := Option.map_eq_some_iff.mp hstep
  exact ⟨rfl, rfl, rfl⟩

theorem kill_notTicking (hstep : acoralKillThread x t = some y) :
    y.NotTicking t ↔ (x.setTimer (killTimerNodes x.timer t)).NotTicking t := by
  obtain ⟨z, hunlink, hrelease⟩ := Option.bind_eq_some_iff.mp hstep
  obtain ⟨hdelay, hperiod, htimed⟩ := prerelease_ticks hrelease
  have htimer := TimerOk.killUnlink hunlink
  have hdelay' : (x.setTimer (killTimerNodes x.timer t)).timeDelayQueue = y.timeDelayQueue :=
    (hdelay.trans (congrArg TimerState.timeDelayQueue htimer)).symm
  have hperiod' : (x.setTimer (killTimerNodes x.timer t)).periodTimeQueue = y.periodTimeQueue :=
    (hperiod.trans (congrArg TimerState.periodTimeQueue htimer)).symm
  have htimed' : (x.setTimer (killTimerNodes x.timer t)).timedTimeQueue = y.timedTimeQueue :=
    (htimed.trans (congrArg TimerState.timedTimeQueue htimer)).symm
  constructor
  · rintro ⟨hd, hp, ht⟩
    exact ⟨hdelay' ▸ hd, hperiod' ▸ hp, htimed' ▸ ht⟩
  · rintro ⟨hd, hp, ht⟩
    exact ⟨hdelay' ▸ hd, hperiod' ▸ hp, htimed' ▸ ht⟩

omit [DecidableEq R] in
/-- A SUSPEND thread leaves its tick queues, and another thread stays. -/
theorem killTimerNodes_notTicking (h : TimerOk x.timer) (t : T) :
    (x.setTimer (killTimerNodes x.timer t)).NotTicking t ↔
      (x.isSuspended t = true ∨ x.NotTicking t) := by
  by_cases hsuspend : x.isSuspended t = true
  · have hflag : hasFlag (x.timer.sched.thread t).state ACORAL_THREAD_STATE_SUSPEND = true :=
      hsuspend
    unfold killTimerNodes
    rw [if_pos hflag]
    refine iff_of_true ?_ (Or.inl hsuspend)
    exact ⟨notMem_acoralTickQueueDel h.delay t, notMem_acoralTickQueueDel h.period t,
      fun cpu => notMem_acoralTickQueueDel (h.timed cpu) t⟩
  · have hflag : ¬ hasFlag (x.timer.sched.thread t).state ACORAL_THREAD_STATE_SUSPEND = true :=
      hsuspend
    unfold killTimerNodes
    rw [if_neg hflag]
    exact ⟨Or.inr, fun hx => hx.resolve_left hsuspend⟩

/-! ### The claim about the nodes -/

/-- The wait queues, when the node is unlinked. -/
theorem PendInv.kill_released (h : PendInv x Q) (htimer : TimerOk x.timer) (hok : KillOk x t)
    (hstep : acoralKillThread x t = some y) : OnlyReleased y t := by
  obtain ⟨Q', hinv, -, hin⟩ := h.kill hok.node hstep
  obtain ⟨z, -, hrelease⟩ := Option.bind_eq_some_iff.mp hstep
  constructor
  case ready => exact (htimer.kill hstep).ready.notMem (prerelease_isReady hrelease)
  case ticks => exact (kill_notTicking hstep).mpr ((killTimerNodes_notTicking htimer t).mpr hok.ticks)
  case waits =>
    intro i hi
    -- the thread is in the release queue, and in no other
    exact hinv.linked.walk_notMem fun hm => hi (hinv.linked.queues.apart _ _ t hm hin)
  case release => exact hinv.linked.walk_mem hin fun _ _ _ => rfl

/-- The wait queues, when the node is not unlinked: the walk that came to it
still does. -/
theorem PendInv.kill_linked (h : PendInv x Q) (halive : x.isKilled t = false)
    (hguard : pendGuard x (.kill t) = false) :
    ∃ y, acoralKillThread x t = some y ∧ ¬ OnlyReleased y t := by
  have hnode : x.unlinked t = false ∧
      ¬ (x.isSuspended t = true ∧ x.st.ipc.threadIpc t ≠ none) := by
    simpa [pendGuard, ← Option.isSome_iff_ne_none] using hguard
  have hqueue : ∃ i, t ∈ Q i := by
    by_contra hnone
    have hfree : ∀ i, t ∉ Q i := fun i hi => hnone ⟨i, hi⟩
    exact of_decide_eq_false hnode.1 ((h.linked.unlinked_iff t).mpr hfree)
  obtain ⟨i, hi⟩ := hqueue
  have hrelease : t ∉ Q (.wait .release) := fun hm =>
    Bool.false_ne_true (halive.symm.trans (h.place t _ hm))
  have hne : i ≠ .wait .release := by
    rintro rfl
    exact hrelease hi
  have hadd := h.linked.release_eq hrelease
  have hkill : ∃ y, acoralKillThread x t = some y ∧
      y.st.ipc.links = x.st.ipc.links.link (x.st.ipc.links.prev (.head (.wait .release)))
        (.pending t) (.head (.wait .release)) := by
    unfold acoralKillThread
    rw [killUnlink_of_not hnode.2]
    exact ⟨_, congrArg (Option.map _) hadd, rfl⟩
  obtain ⟨y, hstep, hlinks⟩ := hkill
  refine ⟨y, hstep, fun hout => ?_⟩
  obtain ⟨n, hwalk⟩ : ∃ n, y.st.ipc.links.next^[n] (.head i) = .pending t := by
    refine h.linked.walk_mem hi fun m hm hmt => ?_
    rw [hlinks]
    refine Links.link_next_of_ne _ (fun he => ?_) hmt
    -- the last node of the release queue is in no other
    have hfamily := h.linked.queues.family
    have hlast : m ∈ (.head (.wait .release)) :: queueMembers Q (.head (.wait .release)) := by
      rw [he, (hfamily.ring _ ⟨_, rfl⟩).prev_head]
      exact Links.getLastD_mem _ _
    have heq := hfamily.eq_of_mem ⟨i, rfl⟩ ⟨.wait .release, rfl⟩ hm hlast
    cases heq
    exact hne rfl
  exact hout.waits i hne n hwalk

/-- When the node is unlinked, or was not linked. -/
theorem PendInv.kill_some (h : PendInv x Q) (hguard : pendGuard x (.kill t) = true) :
    ∃ y, acoralKillThread x t = some y := by
  obtain ⟨z, hunlink⟩ := h.killUnlink_some t
  obtain ⟨-, -, Q', hlinked, -, hfree, -⟩ := h.killUnlink hguard hunlink
  unfold acoralKillThread
  rw [hunlink]
  exact ⟨_, congrArg (Option.map _) (hlinked.release_eq (hfree (.wait .release)))⟩

/-- Take any run of the calls, the tick handlers and the kills, from the start
on, in which no thread goes on, starts over or is killed with its node left
behind, and kill a thread in the state it ends in. `acoral_kill_thread`
returns, and the thread is in the release queue and in nothing else exactly if
it is SUSPEND or in no tick queue, and its `pending` node is unlinked or the
thread is SUSPEND with `thread->ipc` set. -/
theorem kill_unreachable {fuel : Nat} {x y : PendState R T} (hx : x.Fresh)
    (htimer : TimerOk x.timer) {ops : List (PendOp R T)}
    (hrun : run (Lib.guarded pendGuard (pendStep fuel)) x ops = some y) {t : T}
    (halive : y.isKilled t = false) :
    ∃ z, acoralKillThread y t = some z ∧ (OnlyReleased z t ↔ KillOk y t) := by
  have hboth : (∃ Q, PendInv y Q) ∧ TimerOk y.timer :=
    Lib.guarded_induct (P := fun x => (∃ Q, PendInv x Q) ∧ TimerOk x.timer)
      (fun s op s' ⟨⟨Q, h⟩, ht⟩ hguard hstep => by
        obtain ⟨Q', hinv, -⟩ := h.step hguard hstep
        exact ⟨⟨Q', hinv⟩, ht.step hstep⟩)
      ⟨⟨_, PendInv.start hx⟩, htimer⟩ hrun
  obtain ⟨⟨Q, h⟩, htimer'⟩ := hboth
  cases hguard : pendGuard y (.kill t) with
  | true =>
      obtain ⟨z, hkill⟩ := h.kill_some hguard
      refine ⟨z, hkill, fun hout => ⟨?_, hguard⟩, fun hok => h.kill_released htimer' hok hkill⟩
      exact (killTimerNodes_notTicking htimer' t).mp ((kill_notTicking hkill).mp hout.ticks)
  | false =>
      obtain ⟨z, hkill, hnot⟩ := h.kill_linked halive hguard
      refine ⟨z, hkill, fun hout => absurd hout hnot, fun hok => ?_⟩
      exact absurd (hguard.symm.trans hok.node) Bool.false_ne_true

/-! ### Two threads, one of them periodic -/

theorem pendStart_timer : TimerOk pendStart.timer :=
  ⟨readyThreads_ready _ _, List.nodup_nil, List.nodup_nil, fun _ => List.nodup_nil⟩

/-- Thread 1 is killed while it waits for the mutex. -/
theorem kill_unreachable_waiter :
    ∃ y z, run (Lib.guarded pendGuard (pendStep 3)) pendStart
        [.ipc .acoral_mutex_pend 0 (some 0), .ipc .acoral_mutex_pend 1 (some 0)] = some y ∧
      acoralKillThread y 1 = some z ∧ OnlyReleased z 1 := by
  have heval : (run (Lib.guarded pendGuard (pendStep 3)) pendStart
      [.ipc .acoral_mutex_pend 0 (some 0), .ipc .acoral_mutex_pend 1 (some 0)]).any (fun y =>
        decide (y.isKilled 1 = false ∧ y.isSuspended 1 = true ∧ pendGuard y (.kill 1) = true)) =
      true := by
    decide +kernel
  obtain ⟨y, hrun, hy⟩ := (Option.any_eq_true ..).mp heval
  obtain ⟨halive, hsuspend, hguard⟩ := of_decide_eq_true hy
  obtain ⟨z, hkill, hiff⟩ := kill_unreachable pendStart_fresh pendStart_timer hrun halive
  exact ⟨y, z, hrun, hkill, hiff.mpr ⟨Or.inl hsuspend, hguard⟩⟩

/-- Thread 1 is periodic, and 5 ticks are left of its period. -/
def periodStart : PendState (Fin 2) (Fin 2) := { pendStart with periodTimeQueue := [(1, 5)] }

/-- Thread 1 is killed while it runs: it stays in the period queue. And it is
killed while it is READY behind the post that woke it: the walk over the wait
queue of the mutex comes to it. -/
theorem kill_running :
    (periodStart.Fresh ∧ TimerOk periodStart.timer ∧ periodStart.isKilled 1 = false ∧
      ∃ z, acoralKillThread periodStart 1 = some z ∧ 1 ∈ keys z.periodTimeQueue ∧
        ¬ OnlyReleased z 1) ∧
    ∃ y z, run (Lib.guarded pendGuard (pendStep 3)) pendStart wakeRun = some y ∧
      acoralKillThread y 1 = some z ∧ z.st.ipc.links.next (.head (.sem 0)) = .pending 1 ∧
        ¬ OnlyReleased z 1 := by
  constructor
  · have heval : (acoralKillThread periodStart 1).any
        (fun z => decide (1 ∈ keys z.periodTimeQueue)) = true := by
      decide +kernel
    obtain ⟨z, hkill, hz⟩ := (Option.any_eq_true ..).mp heval
    have hin := of_decide_eq_true hz
    refine ⟨⟨rfl, fun _ => rfl, fun _ => rfl, by decide⟩, ?_, by decide, z, hkill, hin, ?_⟩
    · exact ⟨readyThreads_ready _ _, List.nodup_nil, by decide, fun _ => List.nodup_nil⟩
    · exact fun hout => hout.ticks.period hin
  · have heval : (run (Lib.guarded pendGuard (pendStep 3)) pendStart wakeRun).any (fun y =>
        (acoralKillThread y 1).any fun z =>
          decide (z.st.ipc.links.next (.head (.sem 0)) = .pending 1)) = true := by
      decide +kernel
    obtain ⟨y, hrun, hy⟩ := (Option.any_eq_true ..).mp heval
    obtain ⟨z, hkill, hz⟩ := (Option.any_eq_true ..).mp hy
    have hnext := of_decide_eq_true hz
    exact ⟨y, z, hrun, hkill, hnext, fun hout => hout.waits (.sem 0) (by simp) 1 hnext⟩

end ACoral
