import ACoral.Proofs.Pending.Step
import ACoral.Proofs.TickQueue

/-!
# `ACoral.Proofs.Pending.Timers`: the ready arrays and the tick queues

Beside its `pending` node a thread has a `ready`, a `delaying` and a `timing`
node. In every run, whether the wait queues survive it or not, the ready
arrays hold the READY threads and no thread is in a tick queue twice
(`TimerOk`): `TimerOk.step` is the step lemma. There is one lemma for each
kind of operation, as in `ACoral.Proofs.Pending.Step`.
-/

set_option autoImplicit false

namespace ACoral

open Lib (keys)

/-! ### One queue -/

section Queue

variable {T : Type} [DecidableEq T] {q : List (T × Int)} {t u : T}

omit [DecidableEq T] in
/-- A thread that is not queued is added. -/
theorem nodup_acoralTickQueueAdd (h : (keys q).Nodup) (ht : t ∉ keys q) (tick : Int) :
    (keys (acoralTickQueueAdd q t tick)).Nodup :=
  (keys_acoralTickQueueAdd q t tick).nodup_iff.mpr (List.nodup_cons.mpr ⟨ht, h⟩)

/-- Who is left behind when a thread is taken out. -/
theorem keys_acoralTickQueueDel (q : List (T × Int)) (t : T) :
    keys (acoralTickQueueDel q t) = (keys q).erase t := by
  induction q with
  | nil => rfl
  | cons node q ih =>
      obtain ⟨u, v⟩ := node
      by_cases hu : u = t
      · simp [acoralTickQueueDel, hu]
      · rw [Lib.keys_cons, List.erase_cons_tail (by simpa using hu), ← ih]
        simp [acoralTickQueueDel, hu]

theorem nodup_acoralTickQueueDel (h : (keys q).Nodup) (t : T) :
    (keys (acoralTickQueueDel q t)).Nodup := by
  rw [keys_acoralTickQueueDel]
  exact h.erase t

/-- The thread that is taken out is not left behind. -/
theorem notMem_acoralTickQueueDel (h : (keys q).Nodup) (t : T) :
    t ∉ keys (acoralTickQueueDel q t) := by
  rw [keys_acoralTickQueueDel]
  exact h.not_mem_erase

/-- The loop of a handler. A thread that it adds again was taken out before. -/
theorem nodup_tickPopLoop {rearm : T → Option Int} {fuel : Nat} {tmp : Option T}
    {popped popped' : List T} {q' : List (T × Int)} (h : (keys q).Nodup)
    (hloop : tickPopLoop rearm fuel q tmp popped = some (popped', q')) : (keys q').Nodup := by
  induction fuel generalizing q tmp popped with
  | zero => cases hloop
  | succ fuel ih =>
      cases tmp with
      | none =>
          obtain ⟨-, rfl⟩ := Prod.mk.inj (Option.some.inj hloop)
          exact h
      | some t =>
          have hdel := nodup_acoralTickQueueDel h t
          simp only [tickPopLoop] at hloop
          split at hloop
          · obtain ⟨-, rfl⟩ := Prod.mk.inj (Option.some.inj hloop)
            exact h
          · cases hrearm : rearm t with
            | none =>
                rw [hrearm] at hloop
                exact ih hdel hloop
            | some tick =>
                rw [hrearm] at hloop
                exact ih (nodup_acoralTickQueueAdd hdel (notMem_acoralTickQueueDel h t) tick) hloop

/-- One call of a handler. -/
theorem nodup_tickDeal {rearm : T → Option Int} {popped : List T} {q' : List (T × Int)}
    (h : (keys q).Nodup) (hdeal : tickDeal rearm q = some (popped, q')) : (keys q').Nodup := by
  rw [← keys_tickCountDown q] at h
  exact nodup_tickPopLoop h hdeal

end Queue

/-! ### The invariant -/

/-- The ready arrays hold the READY threads, and no thread is in a tick queue
twice. -/
structure TimerOk {T : Type} [DecidableEq T] (k : TimerState T) : Prop where
  ready : ReadyOk k.sched
  delay : (keys k.timeDelayQueue).Nodup
  period : (keys k.periodTimeQueue).Nodup
  timed : ∀ cpu, (keys (k.timedTimeQueue cpu)).Nodup

section Effects

variable {I K R T : Type} [DecidableEq I] [DecidableEq K] [DecidableEq R] [DecidableEq T]
  {fuel : Nat} {cur : T}

/-- The calls of `ipc.c` keep the ready arrays. -/
theorem PendEffect.ready {s s' : IpcState I T} {i : Option I} {res : CallResult I}
    (h : PendEffect fuel s i cur res s') (hready : ReadyOk s.sched) : ReadyOk s'.sched := by
  cases h with
  | ret e h => exact h.ready hready
  | blocked hi h hadd =>
      obtain ⟨links, -, rfl⟩ := Option.map_eq_some_iff.mp hadd
      exact h.ready hready

/-- So do those of the protocols. -/
theorem CeilingEffect.ready {s s' : CeilingState R K T} {k : K} {r : R} {res : CeilingResult}
    (h : CeilingEffect fuel k r cur s res s') (hready : ReadyOk s.ipc.sched) :
    ReadyOk s'.ipc.sched := by
  cases h with
  | ret h => exact h.ready hready
  | queued h hadd h' =>
      obtain ⟨links, -, rfl⟩ := Option.map_eq_some_iff.mp hadd
      exact h'.ready (h.ready hready)
  | blocked h hadd =>
      obtain ⟨links, -, hs⟩ := Option.map_eq_some_iff.mp hadd
      rw [← hs]
      exact h.ready hready
  | passed h hadd hdel h' =>
      obtain ⟨links, -, rfl⟩ := Option.map_eq_some_iff.mp hadd
      obtain ⟨links', -, rfl⟩ := Option.map_eq_some_iff.mp hdel
      exact h'.ready (h.ready hready)

theorem WakeEffect.ready {s s' : CeilingState R K T} {k : K} (h : WakeEffect k s s')
    (hready : ReadyOk s.ipc.sched) : ReadyOk s'.ipc.sched := by
  cases h with
  | none h => exact h.ready hready
  | some h hhead hdel h' =>
      obtain ⟨links, -, rfl⟩ := Option.map_eq_some_iff.mp hdel
      exact h'.ready (h.ready hready)

/-- And so does the rest of a call. -/
theorem semPendResume_ready {s s' : IpcState I T} {e : KernelError}
    (h : acoralSemPendResume cur s = some (e, s')) (hready : ReadyOk s.sched) :
    ReadyOk s'.sched := by
  obtain ⟨a, hdel, he⟩ := Option.map_eq_some_iff.mp h
  obtain ⟨-, rfl⟩ := Prod.mk.inj he
  obtain ⟨links, -, rfl⟩ := Option.map_eq_some_iff.mp hdel
  exact hready

theorem mutexPendResume_ready {s s' : IpcState I T} {i : I} {e : KernelError}
    (h : acoralMutexPendResume cur i s = some (e, s')) (hready : ReadyOk s.sched) :
    ReadyOk s'.sched := by
  unfold acoralMutexPendResume at h
  split at h
  · obtain ⟨a, hdel, he⟩ := Option.map_eq_some_iff.mp h
    obtain ⟨-, rfl⟩ := Prod.mk.inj he
    obtain ⟨links, -, rfl⟩ := Option.map_eq_some_iff.mp hdel
    exact hready
  · cases h
    exact hready

theorem mutexPost_ready {s s' : IpcState I T} {i : Option I} {e : KernelError}
    {thread : Option T} (h : acoralMutexPost cur i s = some (e, thread, s'))
    (hready : ReadyOk s.sched) : ReadyOk s'.sched := by
  rcases mutexPost_nodes h with hsame | hsame
  · exact hsame.ready hready
  · exact hsame.ready hready

end Effects

namespace TimerOk

variable {R T : Type} [DecidableEq R] [DecidableEq T] {x y : PendState R T} {cur t : T}
  {fuel : Nat}

/-- Other ready arrays, and the same tick queues. -/
theorem setSched {k : TimerState T} (h : TimerOk k) {sched : Sched T} (hready : ReadyOk sched) :
    TimerOk { k with sched := sched } :=
  ⟨hready, h.delay, h.period, h.timed⟩

omit [DecidableEq R] in
/-- A thread goes on. -/
theorem goto (h : TimerOk x.timer) {pc : PendPc R T} {st : CeilingState R PendQueue T}
    (hready : ReadyOk st.ipc.sched) : TimerOk (x.goto cur pc st).timer := h.setSched hready

omit [DecidableEq R] in
theorem pend (h : TimerOk x.timer) {place : R → PendPc R T}
    {res : CallResult (CeilingObj R PendQueue)} {s : IpcState (CeilingObj R PendQueue) T}
    (hready : ReadyOk s.sched) : TimerOk (x.pend cur place (res, s)).timer := by
  unfold PendState.pend
  split
  · rename_i he
    obtain ⟨-, rfl⟩ := Prod.mk.inj he
    exact h.goto hready
  · rename_i he
    obtain ⟨-, rfl⟩ := Prod.mk.inj he
    exact h.goto hready

omit [DecidableEq R] in
theorem pended (h : TimerOk x.timer) {queued blocked : PendPc R T} {res : CeilingResult}
    {s : CeilingState R PendQueue T} (hready : ReadyOk s.ipc.sched) :
    TimerOk (x.pended cur queued blocked (res, s)).timer := by
  cases res <;> exact h.goto hready

/-! ### Calls -/

/-- The calls of mutexes and semaphores. -/
theorem pendIpc (h : TimerOk x.timer) {c : IpcCall} {ipc : Option R}
    (hstep : ACoral.pendIpc fuel x c cur ipc = some y) : TimerOk y.timer := by
  cases c with
  | acoral_mutex_trypend =>
      obtain rfl := Option.some.inj hstep
      exact h.goto ((mutexTrypend_same _ _ _ _).ready h.ready)
  | acoral_mutex_pend =>
      obtain ⟨⟨res, s⟩, hpend, rfl⟩ := Option.map_eq_some_iff.mp hstep
      exact h.pend ((mutexPend_nodes hpend).ready h.ready)
  | acoral_mutex_post =>
      obtain ⟨⟨e, thread, s⟩, hpost, rfl⟩ := Option.map_eq_some_iff.mp hstep
      have hready := mutexPost_ready hpost h.ready
      cases thread with
      | none => exact h.goto hready
      | some thread => exact h.goto hready
  | acoral_sem_trypend =>
      obtain rfl := Option.some.inj hstep
      exact h.goto ((semTrypend_same _ _ _).ready h.ready)
  | acoral_sem_pend =>
      obtain ⟨⟨res, s⟩, hpend, rfl⟩ := Option.map_eq_some_iff.mp hstep
      exact h.pend ((semPend_nodes hpend).ready h.ready)
  | acoral_sem_pends =>
      obtain ⟨⟨res, s⟩, hpend, rfl⟩ := Option.map_eq_some_iff.mp hstep
      exact h.pend ((semPends_nodes hpend).ready h.ready)
  | acoral_sem_post =>
      obtain ⟨⟨e, s⟩, hpost, rfl⟩ := Option.map_eq_some_iff.mp hstep
      exact h.goto ((semPost_same hpost).ready h.ready)
  | acoral_sem_posts =>
      obtain ⟨⟨e, s⟩, hpost, rfl⟩ := Option.map_eq_some_iff.mp hstep
      exact h.goto ((semPosts_same hpost).ready h.ready)

/-- The calls of an interrupt handler. -/
theorem pendIntr (h : TimerOk x.timer) {c : IpcCall} {ipc : Option R}
    (hstep : ACoral.pendIntr fuel x c cur ipc = some y) : TimerOk y.timer := by
  cases c with
  | acoral_mutex_trypend =>
      obtain rfl := Option.some.inj hstep
      exact h.setSched ((mutexTrypend_same _ _ _ _).ready h.ready)
  | acoral_mutex_pend =>
      obtain rfl := Option.some.inj hstep
      exact h
  | acoral_mutex_post =>
      obtain ⟨⟨e, thread, s⟩, hpost, rfl⟩ := Option.map_eq_some_iff.mp hstep
      have hready := mutexPost_ready hpost h.ready
      cases thread with
      | none => exact h.setSched hready
      | some thread => exact h.setSched (hready.rdyThread thread)
  | acoral_sem_trypend =>
      obtain rfl := Option.some.inj hstep
      exact h.setSched ((semTrypend_same _ _ _).ready h.ready)
  | acoral_sem_pend =>
      obtain rfl := Option.some.inj hstep
      exact h
  | acoral_sem_pends =>
      obtain rfl := Option.some.inj hstep
      exact h
  | acoral_sem_post =>
      obtain ⟨⟨e, s⟩, hpost, rfl⟩ := Option.map_eq_some_iff.mp hstep
      exact h.setSched ((semPost_same hpost).ready h.ready)
  | acoral_sem_posts =>
      obtain ⟨⟨e, s⟩, hpost, rfl⟩ := Option.map_eq_some_iff.mp hstep
      exact h.setSched ((semPosts_same hpost).ready h.ready)

/-- The calls of MPCP. -/
theorem pendMpcp (h : TimerOk x.timer) {c : CeilingCall} {r : R}
    (hstep : ACoral.pendMpcp fuel x c cur r = some y) : TimerOk y.timer := by
  cases c with
  | pend =>
      obtain ⟨⟨res, s⟩, hpend, rfl⟩ := Option.map_eq_some_iff.mp hstep
      exact h.pended ((mpcpPendOn_effect hpend).ready h.ready)
  | post =>
      obtain ⟨⟨e, s⟩, hpost, rfl⟩ := Option.map_eq_some_iff.mp hstep
      exact h.goto ((mpcpPostOn_same hpost).ready h.ready)

/-- The calls of DPCP. -/
theorem pendDpcp (h : TimerOk x.timer) {c : CeilingCall} {r : R}
    (hstep : ACoral.pendDpcp fuel x c cur r = some y) : TimerOk y.timer := by
  cases c with
  | pend =>
      unfold ACoral.pendDpcp pendDpcpPend at hstep
      dsimp only at hstep
      split at hstep
      · split at hstep
        · obtain rfl := Option.some.inj hstep
          exact h.goto h.ready
        · obtain ⟨⟨res, s⟩, hround, rfl⟩ := Option.map_eq_some_iff.mp hstep
          exact h.pended ((dpcpRoundOn_effect hround).ready h.ready)
      · split at hstep
        · obtain rfl := Option.some.inj hstep
          exact h.goto h.ready
        · obtain ⟨⟨res, s⟩, henter, rfl⟩ := Option.map_eq_some_iff.mp hstep
          exact h.pended ((dpcpEnterOn_effect henter).ready h.ready)
  | post =>
      obtain ⟨⟨e, cpu, s⟩, hpost, hy⟩ := Option.map_eq_some_iff.mp hstep
      obtain ⟨k, heffect⟩ := dpcpPostOn_effect hpost
      have hready := heffect.ready h.ready
      cases cpu with
      | none =>
          subst hy
          exact h.goto hready
      | some cpu =>
          subst hy
          exact h.goto hready

/-- A thread goes on with its call. -/
theorem pendResume (h : TimerOk x.timer) (hstep : ACoral.pendResume fuel x cur = some y) :
    TimerOk y.timer := by
  have hsem : ∀ {z : PendState R T}, (acoralSemPendResume cur x.st.ipc).map
      (fun res => x.goto cur .idle (x.setIpc res.2)) = some z → TimerOk z.timer := by
    intro z hz
    obtain ⟨⟨e, s⟩, hresume, rfl⟩ := Option.map_eq_some_iff.mp hz
    exact h.goto (semPendResume_ready hresume h.ready)
  unfold ACoral.pendResume at hstep
  dsimp only at hstep
  cases hpc : x.pc cur with
  | idle =>
      rw [hpc] at hstep
      cases hstep
  | mutexPend r =>
      rw [hpc] at hstep
      obtain ⟨⟨e, s⟩, hresume, rfl⟩ := Option.map_eq_some_iff.mp hstep
      exact h.goto (mutexPendResume_ready hresume h.ready)
  | semPend r =>
      rw [hpc] at hstep
      exact hsem hstep
  | semPends r =>
      rw [hpc] at hstep
      exact hsem hstep
  | mutexPost thread =>
      rw [hpc] at hstep
      obtain rfl := Option.some.inj hstep
      exact h.goto (h.ready.rdyThread thread)
  | mpcpWait r =>
      rw [hpc] at hstep
      obtain ⟨⟨res, s⟩, hlocal, rfl⟩ := Option.map_eq_some_iff.mp hstep
      have heffect : CeilingEffect fuel (.mpcp 0) r cur x.st res s := mpcpLocalOn_effect hlocal
      exact h.pended (heffect.ready h.ready)
  | mpcpSem r =>
      rw [hpc] at hstep
      exact hsem hstep
  | dpcpJump r =>
      rw [hpc] at hstep
      obtain rfl := Option.some.inj hstep
      exact h.goto ((jumpCpuOn_same _ cur _).ready h.ready)
  | dpcpEnter r =>
      rw [hpc] at hstep
      obtain ⟨⟨res, s⟩, henter, rfl⟩ := Option.map_eq_some_iff.mp hstep
      exact h.pended ((dpcpEnterOn_effect henter).ready h.ready)
  | dpcpSuspend r =>
      rw [hpc] at hstep
      obtain rfl := Option.some.inj hstep
      exact h.goto (h.ready.suspendThread cur)
  | dpcpWait r =>
      rw [hpc] at hstep
      obtain ⟨⟨res, s⟩, hround, rfl⟩ := Option.map_eq_some_iff.mp hstep
      exact h.pended ((dpcpRoundOn_effect hround).ready h.ready)
  | dpcpBack cpu =>
      rw [hpc] at hstep
      obtain rfl := Option.some.inj hstep
      exact h.goto ((jumpCpuOn_same _ cur _).ready h.ready)

/-! ### Tick handlers -/

omit [DecidableEq R] in
/-- `acoral_delay_thread` adds a thread that is not queued. -/
theorem delayThread (h : TimerOk x.timer) (t : T) (time : BitVec 32) :
    TimerOk (pendDelay x t time).timer := by
  unfold pendDelay acoralDelayThread
  split
  · exact h
  · rename_i hqueued
    split
    · exact h
    · have hout : t ∉ keys x.timeDelayQueue := by
        intro hin
        obtain ⟨node, hnode, rfl⟩ := List.mem_map.mp hin
        exact hqueued (List.any_eq_true.mpr ⟨node, hnode, by simp⟩)
      exact ⟨h.ready.suspendThread t, nodup_acoralTickQueueAdd h.delay hout _, h.period, h.timed⟩

/-- The popped threads are readied. -/
theorem foldl_rdyThread (popped : List T) {k : TimerState T} (h : TimerOk k) :
    TimerOk (popped.foldl TimerState.rdyThread k) := by
  induction popped generalizing k with
  | nil => exact h
  | cons u popped ih => exact ih (h.setSched (h.ready.rdyThread u))

omit [DecidableEq R] in
/-- `time_delay_deal`. -/
theorem delayTick (h : TimerOk x.timer) (hstep : pendDelayTick x = some y) : TimerOk y.timer := by
  obtain ⟨k, hdeal, rfl⟩ := Option.map_eq_some_iff.mp hstep
  obtain ⟨⟨popped, queue⟩, hpop, rfl⟩ := Option.map_eq_some_iff.mp hdeal
  have hk : TimerOk { x.timer with timeDelayQueue := queue } :=
    ⟨h.ready, nodup_tickDeal h.delay hpop, h.period, h.timed⟩
  exact foldl_rdyThread popped hk

omit [DecidableEq R] in
/-- `period_time_deal`. -/
theorem periodTick (h : TimerOk x.timer) (hstep : pendPeriodTick x = some y) : TimerOk y.timer := by
  obtain ⟨k, hdeal, rfl⟩ := Option.map_eq_some_iff.mp hstep
  obtain ⟨⟨popped, queue⟩, hpop, rfl⟩ := Option.map_eq_some_iff.mp hdeal
  have hk : TimerOk { x.timer with periodTimeQueue := queue } :=
    ⟨h.ready, h.delay, nodup_tickDeal h.period hpop, h.timed⟩
  exact foldl_rdyThread popped hk

/-! ### Killing a thread -/

/-- `acoral_kill_thread` unlinks the nodes in the tick queues, or none. -/
theorem killTimerNodes {k : TimerState T} (h : TimerOk k) (t : T) :
    TimerOk (ACoral.killTimerNodes k t) := by
  unfold ACoral.killTimerNodes
  split
  · exact ⟨h.ready, nodup_acoralTickQueueDel h.delay t, nodup_acoralTickQueueDel h.period t,
      fun cpu => nodup_acoralTickQueueDel (h.timed cpu) t⟩
  · exact h

theorem killUnlink (hstep : ACoral.killUnlink x t = some y) :
    y.timer = ACoral.killTimerNodes x.timer t := by
  unfold ACoral.killUnlink at hstep
  dsimp only at hstep
  split at hstep
  · obtain ⟨ipc, hdel, rfl⟩ := Option.map_eq_some_iff.mp hstep
    obtain ⟨links, -, rfl⟩ := Option.map_eq_some_iff.mp hdel
    rfl
  · obtain rfl := Option.some.inj hstep
    rfl

/-- A thread that is killed becomes EXIT, which is not READY. -/
theorem prerelease (h : TimerOk x.timer) (ht : (x.st.ipc.sched.thread t).isReady = false)
    (hstep : acoralPrereleaseThread x t = some y) : TimerOk y.timer := by
  obtain ⟨links, -, rfl⟩ := Option.map_eq_some_iff.mp hstep
  have hexit : ({ x.st.ipc.sched.thread t with state := ACORAL_THREAD_STATE_EXIT } : Tcb).isReady =
      false := by
    simp only [Tcb.isReady]
    decide
  have hset : ReadyOk (x.setState t ACORAL_THREAD_STATE_EXIT).st.ipc.sched :=
    h.ready.update ht hexit rfl rfl
  exact h.setSched (hset.rdyThread x.daemon)

/-- `acoral_kill_thread`. -/
theorem kill (h : TimerOk x.timer) (hstep : acoralKillThread x t = some y) : TimerOk y.timer := by
  obtain ⟨z, hunlink, hrelease⟩ := Option.bind_eq_some_iff.mp hstep
  have hz : TimerOk z.timer := by
    rw [killUnlink hunlink]
    exact h.killTimerNodes t
  have hsuspend : TimerOk ({ z with st := z.st.suspendSelf t } : PendState R T).timer :=
    hz.setSched (hz.ready.suspendThread t)
  exact hsuspend.prerelease (ReadyOk.not_isReady_suspendThread z.st.ipc.sched t) hrelease

/-! ### All steps -/

/-- Every step keeps the ready arrays and the tick queues. -/
theorem step (h : TimerOk x.timer) {op : PendOp R T} (hstep : pendStep fuel x op = some y) :
    TimerOk y.timer := by
  have hif : ∀ {p : Prop} [Decidable p] {a : Option (PendState R T)},
      (if p then a else none) = some y → a = some y := by
    intro p hp a ha
    split at ha
    · exact ha
    · cases ha
  cases op with
  | ipc c cur ipc => exact h.pendIpc (hif hstep)
  | intr c cur ipc => exact h.pendIntr hstep
  | mpcp c cur r => exact h.pendMpcp (hif hstep)
  | dpcp c cur r => exact h.pendDpcp (hif hstep)
  | resume cur => exact h.pendResume (hif hstep)
  | rdy t =>
      obtain rfl := Option.some.inj hstep
      exact h.setSched (h.ready.rdyThread t)
  | suspend t =>
      obtain rfl := Option.some.inj hstep
      exact h.setSched (h.ready.suspendThread t)
  | changePrio t prio =>
      obtain rfl := Option.some.inj hstep
      exact h.setSched (h.ready.changePrio t prio)
  | delay t time =>
      obtain rfl := Option.some.inj hstep
      exact h.delayThread t time
  | delayTick => exact h.delayTick hstep
  | periodTick => exact h.periodTick hstep
  | kill t => exact h.kill hstep

end TimerOk

end ACoral
