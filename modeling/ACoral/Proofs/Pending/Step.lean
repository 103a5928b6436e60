import ACoral.Proofs.Pending.Invariant

/-!
# `ACoral.Proofs.Pending.Step`: every step keeps the queues

Each step that meets `pendGuard` keeps `PendInv`, and changes the queues one
thread at a time (`PendInv.step`). There is one lemma for each kind of
operation: the calls of `ipc.c` by a thread (`pendIpc`) and in an interrupt
handler (`pendIntr`), those of the ceiling protocols, the rest of a call
(`pendResume`), the tick handlers, and `acoral_kill_thread`.
-/

set_option autoImplicit false

namespace ACoral

/-! ### Moves of the queues -/

section Moves

variable {I T : Type} [DecidableEq I] [DecidableEq T] {Q Q' Q'' : I → List T}

/-- Moves in sequence. -/
theorem QueueMoves.trans (h : QueueMoves Q Q') (h' : QueueMoves Q' Q'') : QueueMoves Q Q'' := by
  induction h' with
  | refl => exact h
  | enter _ hfree hq ih => exact .enter ih hfree hq
  | leave _ hin ih => exact .leave ih hin

end Moves

variable {R T : Type} [DecidableEq R] [DecidableEq T]

namespace PendInv

variable {x y : PendState R T} {Q : CeilingObj R PendQueue → List T} {cur t : T} {fuel : Nat}

/-! ### Calls -/

omit [DecidableEq R] in
theorem goto_goto (x : PendState R T) (cur : T) (pc pc' : PendPc R T)
    (st st' : CeilingState R PendQueue T) :
    (x.goto cur pc st).goto cur pc' st' = x.goto cur pc' st' := by
  simp [PendState.goto]

/-- A pend of a semaphore or mutex. -/
theorem pend (h : PendInv x Q) (halive : x.isKilled cur = false) (hfree : ∀ i, cur ∉ Q i)
    {ipc : Option R} {place : R → PendPc R T} (hplace : ∀ r, (place r).sem = some r)
    {res : CallResult (CeilingObj R PendQueue)} {s : IpcState (CeilingObj R PendQueue) T}
    (heffect : PendEffect fuel x.st.ipc (ipc.map .sem) cur res s) :
    ∃ Q', PendInv (x.pend cur place (res, s)) Q' ∧ QueueMoves Q Q' := by
  cases heffect with
  | ret e hsame => exact ⟨Q, h.same hfree hsame rfl, .refl⟩
  | blocked hi hsame hadd =>
      obtain ⟨r, -, rfl⟩ := Option.map_eq_some_iff.mp hi
      exact h.enter halive hfree hsame hadd (SamePend.refl _) (hplace r)

/-- A stretch of a pend of a ceiling protocol. -/
theorem pended (h : PendInv x Q) (halive : x.isKilled cur = false) (hfree : ∀ i, cur ∉ Q i)
    {k : PendQueue} (hk : k ≠ .release) {r : R} {queued blocked : PendPc R T}
    {res : CeilingResult} {s : CeilingState R PendQueue T}
    (heffect : CeilingEffect fuel k r cur x.st res s)
    (hqueued : res = .queued → queued.waits = true)
    (hblocked : res = .blocked → blocked.sem = some r) :
    ∃ Q', PendInv (x.pended cur queued blocked (res, s)) Q' ∧ QueueMoves Q Q' := by
  cases heffect with
  | ret hsame => exact ⟨Q, h.same hfree hsame rfl, .refl⟩
  | queued hsame hadd hsame' => exact h.queue halive hfree hsame hk hadd hsame' (hqueued rfl)
  | blocked hsame hadd =>
      exact h.enter halive hfree hsame hadd (SamePend.refl _) (hblocked rfl)
  | @passed e a b c _ hsame hadd hdel hsame' =>
      -- the caller is in the queue between the two halves
      have henter : ∃ Q', PendInv (x.goto cur (.semPend r) (x.setIpc b)) Q' ∧ QueueMoves Q Q' :=
        h.enter halive hfree hsame hadd (SamePend.refl _) rfl
      obtain ⟨Q', hinv, hmoves⟩ := henter
      have halive' : (x.goto cur (.semPend r) (x.setIpc b)).isKilled cur = false := by
        obtain ⟨links, -, rfl⟩ := Option.map_eq_some_iff.mp hadd
        exact (hsame.isExit cur).trans halive
      have hpc : ((x.goto cur (.semPend r) (x.setIpc b)).pc cur).sem = some r := by
        rw [show (x.goto cur (.semPend r) (x.setIpc b)).pc cur = .semPend r from
          Function.update_self _ _ _]
        rfl
      have hidle : (PendPc.idle : PendPc R T).sem = none := rfl
      obtain ⟨Q'', hinv', hmoves'⟩ := hinv.leave halive' hpc hdel hsame' hidle
      rw [goto_goto] at hinv'
      exact ⟨Q'', hinv', hmoves.trans hmoves'⟩

/-- The calls of mutexes and semaphores. -/
theorem pendIpc (h : PendInv x Q) (halive : x.isKilled cur = false) (hpc : x.pc cur = .idle)
    {c : IpcCall} {ipc : Option R} (hstep : ACoral.pendIpc fuel x c cur ipc = some y) :
    ∃ Q', PendInv y Q' ∧ QueueMoves Q Q' := by
  have hfree := h.free_of_idle halive hpc
  cases c with
  | acoral_mutex_trypend =>
      obtain rfl := Option.some.inj hstep
      exact ⟨Q, h.same hfree (mutexTrypend_same _ _ _ _) rfl, .refl⟩
  | acoral_mutex_pend =>
      obtain ⟨⟨res, s⟩, hpend, rfl⟩ := Option.map_eq_some_iff.mp hstep
      exact h.pend halive hfree (fun _ => rfl) (mutexPend_nodes hpend)
  | acoral_mutex_post =>
      obtain ⟨⟨e, thread, s⟩, hpost, rfl⟩ := Option.map_eq_some_iff.mp hstep
      have hsame := mutexPost_nodes hpost
      refine ⟨Q, ?_, .refl⟩
      cases thread with
      | none => exact hsame.elim (h.same hfree · rfl) (h.forget hfree · rfl)
      | some thread => exact hsame.elim (h.same hfree · rfl) (h.forget hfree · rfl)
  | acoral_sem_trypend =>
      obtain rfl := Option.some.inj hstep
      exact ⟨Q, h.same hfree (semTrypend_same _ _ _) rfl, .refl⟩
  | acoral_sem_pend =>
      obtain ⟨⟨res, s⟩, hpend, rfl⟩ := Option.map_eq_some_iff.mp hstep
      exact h.pend halive hfree (fun _ => rfl) (semPend_nodes hpend)
  | acoral_sem_pends =>
      obtain ⟨⟨res, s⟩, hpend, rfl⟩ := Option.map_eq_some_iff.mp hstep
      exact h.pend halive hfree (fun _ => rfl) (semPends_nodes hpend)
  | acoral_sem_post =>
      obtain ⟨⟨e, s⟩, hpost, rfl⟩ := Option.map_eq_some_iff.mp hstep
      exact ⟨Q, h.same hfree (semPost_same hpost) rfl, .refl⟩
  | acoral_sem_posts =>
      obtain ⟨⟨e, s⟩, hpost, rfl⟩ := Option.map_eq_some_iff.mp hstep
      exact ⟨Q, h.same hfree (semPosts_same hpost) rfl, .refl⟩

/-- The calls of an interrupt handler. -/
theorem pendIntr (h : PendInv x Q) {c : IpcCall} {ipc : Option R}
    (hstep : ACoral.pendIntr fuel x c cur ipc = some y) : PendInv y Q := by
  cases c with
  | acoral_mutex_trypend =>
      obtain rfl := Option.some.inj hstep
      exact h.frame rfl (mutexTrypend_same _ _ _ _)
  | acoral_mutex_pend =>
      obtain rfl := Option.some.inj hstep
      exact h.frame rfl (SamePend.refl _)
  | acoral_mutex_post =>
      obtain ⟨⟨e, thread, s⟩, hpost, rfl⟩ := Option.map_eq_some_iff.mp hstep
      have hposted : PendInv { x with st := x.setIpc s } Q := by
        rcases mutexPost_nodes hpost with hsame | hsame
        · exact h.frame rfl hsame
        · exact h.congr rfl ((h.linked.forget cur).same hsame) hsame.isExit
      cases thread with
      | none => exact hposted
      | some thread => exact hposted.frame rfl (SamePend.rdyThread _ thread)
  | acoral_sem_trypend =>
      obtain rfl := Option.some.inj hstep
      exact h.frame rfl (semTrypend_same _ _ _)
  | acoral_sem_pend =>
      obtain rfl := Option.some.inj hstep
      exact h.frame rfl (SamePend.refl _)
  | acoral_sem_pends =>
      obtain rfl := Option.some.inj hstep
      exact h.frame rfl (SamePend.refl _)
  | acoral_sem_post =>
      obtain ⟨⟨e, s⟩, hpost, rfl⟩ := Option.map_eq_some_iff.mp hstep
      exact h.frame rfl (semPost_same hpost)
  | acoral_sem_posts =>
      obtain ⟨⟨e, s⟩, hpost, rfl⟩ := Option.map_eq_some_iff.mp hstep
      exact h.frame rfl (semPosts_same hpost)

/-- The calls of MPCP. -/
theorem pendMpcp (h : PendInv x Q) (halive : x.isKilled cur = false) (hpc : x.pc cur = .idle)
    {c : CeilingCall} {r : R} (hstep : ACoral.pendMpcp fuel x c cur r = some y) :
    ∃ Q', PendInv y Q' ∧ QueueMoves Q Q' := by
  have hfree := h.free_of_idle halive hpc
  cases c with
  | pend =>
      obtain ⟨⟨res, s⟩, hpend, rfl⟩ := Option.map_eq_some_iff.mp hstep
      exact h.pended halive hfree (by simp) (mpcpPendOn_effect hpend) (fun _ => rfl) fun _ => rfl
  | post =>
      obtain ⟨⟨e, s⟩, hpost, rfl⟩ := Option.map_eq_some_iff.mp hstep
      exact ⟨Q, h.same hfree (mpcpPostOn_same hpost) rfl, .refl⟩

/-- A round of the loop of `acoral_dpcp_pend`. -/
theorem round (h : PendInv x Q) (halive : x.isKilled cur = false) (hfree : ∀ i, cur ∉ Q i) {r : R}
    (hstep : (dpcpRoundOn fuel (dpcpQueue x.st r) cur r x.st).map
      (x.pended cur (.dpcpSuspend r) .idle) = some y) :
    ∃ Q', PendInv y Q' ∧ QueueMoves Q Q' := by
  obtain ⟨⟨res, s⟩, hround, rfl⟩ := Option.map_eq_some_iff.mp hstep
  exact h.pended halive hfree (by simp [dpcpQueue]) (dpcpRoundOn_effect hround) (fun _ => rfl)
    fun hres => absurd hres (dpcpRoundOn_not_blocked hround)

/-- `acoral_dpcp_pend` of a global resource, on its CPU. -/
theorem enterRound (h : PendInv x Q) (halive : x.isKilled cur = false) (hfree : ∀ i, cur ∉ Q i)
    {r : R} (hstep : (dpcpEnterOn fuel (dpcpQueue x.st r) cur r x.st).map
      (x.pended cur (.dpcpSuspend r) .idle) = some y) :
    ∃ Q', PendInv y Q' ∧ QueueMoves Q Q' := by
  obtain ⟨⟨res, s⟩, hround, rfl⟩ := Option.map_eq_some_iff.mp hstep
  exact h.pended halive hfree (by simp [dpcpQueue]) (dpcpEnterOn_effect hround) (fun _ => rfl)
    fun hres => absurd hres (dpcpRoundOn_not_blocked hround)

/-- The calls of DPCP. -/
theorem pendDpcp (h : PendInv x Q) (halive : x.isKilled cur = false) (hpc : x.pc cur = .idle)
    {c : CeilingCall} {r : R} (hstep : ACoral.pendDpcp fuel x c cur r = some y) :
    ∃ Q', PendInv y Q' ∧ QueueMoves Q Q' := by
  have hfree := h.free_of_idle halive hpc
  cases c with
  | pend =>
      unfold ACoral.pendDpcp pendDpcpPend at hstep
      dsimp only at hstep
      split at hstep
      · split at hstep
        · obtain rfl := Option.some.inj hstep
          exact ⟨Q, h.same hfree (SamePend.refl _) rfl, .refl⟩
        · exact h.round halive hfree hstep
      · split at hstep
        · obtain rfl := Option.some.inj hstep
          exact ⟨Q, h.same hfree (SamePend.refl _) rfl, .refl⟩
        · exact h.enterRound halive hfree hstep
  | post =>
      obtain ⟨⟨e, cpu, s⟩, hpost, hy⟩ := Option.map_eq_some_iff.mp hstep
      obtain ⟨k, heffect⟩ := dpcpPostOn_effect hpost
      obtain ⟨Q', hinv, hmoves⟩ := h.wake heffect
      have hfree' : ∀ i, cur ∉ Q' i := hinv.free_of_idle ((heffect.isExit cur).trans halive) hpc
      refine ⟨Q', ?_, hmoves⟩
      have hgoto : ∀ pc : PendPc R T, pc.sem = none → PendInv (x.goto cur pc s) Q' :=
        fun pc hsem => hinv.same hfree' (SamePend.refl _) hsem
      cases cpu with
      | none =>
          subst hy
          exact hgoto _ rfl
      | some cpu =>
          subst hy
          exact hgoto _ rfl

/-! ### The rest of a call -/

/-- Behind the schedule point of a semaphore the thread unlinks its node. -/
theorem semResume (h : PendInv x Q) (halive : x.isKilled cur = false) {r : R}
    (hr : (x.pc cur).sem = some r) (hstep : (acoralSemPendResume cur x.st.ipc).map
      (fun res => x.goto cur .idle (x.setIpc res.2)) = some y) :
    ∃ Q', PendInv y Q' ∧ QueueMoves Q Q' := by
  obtain ⟨⟨e, s⟩, hresume, rfl⟩ := Option.map_eq_some_iff.mp hstep
  obtain ⟨a, hdel, he⟩ := Option.map_eq_some_iff.mp hresume
  obtain ⟨-, rfl⟩ := Prod.mk.inj he
  exact h.leave halive hr hdel (SamePend.refl _) rfl

/-- Behind the schedule point of `acoral_mutex_pend`, if the mutex is free. -/
theorem mutexResume (h : PendInv x Q) (halive : x.isKilled cur = false) {r : R}
    (hr : (x.pc cur).sem = some r) (hdata : (x.st.ipc.ipc (.sem r)).data = none)
    (hstep : (acoralMutexPendResume cur (.sem r) x.st.ipc).map
      (fun res => x.goto cur .idle (x.setIpc res.2)) = some y) :
    ∃ Q', PendInv y Q' ∧ QueueMoves Q Q' := by
  obtain ⟨⟨e, s⟩, hresume, rfl⟩ := Option.map_eq_some_iff.mp hstep
  unfold acoralMutexPendResume at hresume
  rw [if_pos hdata] at hresume
  obtain ⟨a, hdel, he⟩ := Option.map_eq_some_iff.mp hresume
  obtain ⟨-, rfl⟩ := Prod.mk.inj he
  exact h.leave halive hr hdel (SamePend.setIpc _ _ _) rfl

omit [DecidableEq R] in
/-- The thread that `acoral_dpcp_pend` put into the queue of the system
suspends itself, whether it is still there or not. -/
theorem suspend (h : PendInv x Q) {r : R} (hpc : x.pc cur = .dpcpSuspend r) :
    PendInv (x.goto cur (.dpcpWait r) (x.st.suspendSelf cur)) Q := by
  have hsame : SamePend x.st.ipc (x.st.suspendSelf cur).ipc := SamePend.suspendSelf _ cur
  have hnew : (x.goto cur (.dpcpWait r) (x.st.suspendSelf cur)).pc cur = .dpcpWait r :=
    Function.update_self _ _ _
  refine h.goto (h.linked.same hsame) hsame.isExit (fun _ _ _ => Iff.rfl) (fun i hi => ?_)
    fun q hq => by cases hq
  have hold := h.place cur i hi
  cases i with
  | sem q =>
      have hsem := hold.2
      rw [hpc] at hsem
      cases hsem
  | wait k =>
      have hwaits : ((x.goto cur (.dpcpWait r) (x.st.suspendSelf cur)).pc cur).waits = true := by
        rw [hnew]
        rfl
      cases k with
      | release => exact (hsame.isExit cur).trans hold
      | mpcp c => exact ⟨(hsame.isExit cur).trans hold.1, hwaits⟩
      | dpcp type c => exact ⟨(hsame.isExit cur).trans hold.1, hwaits⟩

/-- A thread goes on with its call. -/
theorem pendResume (h : PendInv x Q) (halive : x.isKilled cur = false)
    (hguard : pendGuard x (.resume cur) = true) (hstep : ACoral.pendResume fuel x cur = some y) :
    ∃ Q', PendInv y Q' ∧ QueueMoves Q Q' := by
  have hplace : ∀ pc, x.pc cur = pc → pc.sem = none → pc.waits = false → ∀ i, cur ∉ Q i := by
    rintro pc rfl hsem hwaits
    exact h.free halive hsem hwaits
  unfold ACoral.pendResume at hstep
  unfold pendGuard at hguard
  dsimp only at hguard
  cases hpc : x.pc cur with
  | idle =>
      rw [hpc] at hstep
      cases hstep
  | mutexPend r =>
      rw [hpc] at hstep hguard
      exact h.mutexResume halive (by rw [hpc]; rfl) (of_decide_eq_true hguard) hstep
  | semPend r =>
      rw [hpc] at hstep
      exact h.semResume halive (r := r) (by rw [hpc]; rfl) hstep
  | semPends r =>
      rw [hpc] at hstep
      exact h.semResume halive (r := r) (by rw [hpc]; rfl) hstep
  | mutexPost thread =>
      rw [hpc] at hstep
      obtain rfl := Option.some.inj hstep
      exact ⟨Q, h.same (hplace _ hpc rfl rfl) (SamePend.rdyThread _ thread) rfl, .refl⟩
  | mpcpWait r =>
      rw [hpc] at hstep hguard
      obtain ⟨⟨res, s⟩, hlocal, rfl⟩ := Option.map_eq_some_iff.mp hstep
      exact h.pended halive (h.free_of_unlinked hguard) (k := .mpcp 0) (by simp)
        (mpcpLocalOn_effect hlocal) (fun _ => rfl) fun _ => rfl
  | mpcpSem r =>
      rw [hpc] at hstep
      exact h.semResume halive (r := r) (by rw [hpc]; rfl) hstep
  | dpcpJump r =>
      rw [hpc] at hstep
      obtain rfl := Option.some.inj hstep
      exact ⟨Q, h.same (hplace _ hpc rfl rfl) (jumpCpuOn_same _ cur _) rfl, .refl⟩
  | dpcpEnter r =>
      rw [hpc] at hstep
      exact h.enterRound halive (hplace _ hpc rfl rfl) hstep
  | dpcpSuspend r =>
      rw [hpc] at hstep
      obtain rfl := Option.some.inj hstep
      exact ⟨Q, h.suspend hpc, .refl⟩
  | dpcpWait r =>
      rw [hpc] at hstep hguard
      exact h.round halive (h.free_of_unlinked hguard) hstep
  | dpcpBack cpu =>
      rw [hpc] at hstep
      obtain rfl := Option.some.inj hstep
      exact ⟨Q, h.same (hplace _ hpc rfl rfl) (jumpCpuOn_same _ cur _) rfl, .refl⟩

/-! ### Tick handlers -/

omit [DecidableEq R] in
/-- The operations on the tick queues leave the nodes alone. -/
theorem setTimer_same (x : PendState R T) {k : TimerState T}
    (hexit : ∀ t, (k.sched.thread t).isExit = (x.st.ipc.sched.thread t).isExit)
    (hready : ReadyOk x.st.ipc.sched → ReadyOk k.sched) :
    SamePend x.st.ipc (x.setTimer k).st.ipc :=
  ⟨rfl, rfl, hexit, hready⟩

/-- The popped threads are readied. -/
theorem foldl_rdyThread_isExit (popped : List T) (k : TimerState T) (t : T) :
    ((popped.foldl TimerState.rdyThread k).sched.thread t).isExit = (k.sched.thread t).isExit := by
  induction popped generalizing k with
  | nil => rfl
  | cons u popped ih => exact (ih _).trans (rdyThread_isExit _ k.sched u t)

theorem foldl_rdyThread_ready (popped : List T) {k : TimerState T} (h : ReadyOk k.sched) :
    ReadyOk (popped.foldl TimerState.rdyThread k).sched := by
  induction popped generalizing k with
  | nil => exact h
  | cons u popped ih => exact ih (h.rdyThread u)

omit [DecidableEq R] in
/-- A tick handler leaves the nodes alone. -/
theorem popped_same (x : PendState R T) (popped : List T) {k : TimerState T}
    (hk : k.sched = x.st.ipc.sched) :
    SamePend x.st.ipc (x.setTimer (popped.foldl TimerState.rdyThread k)).st.ipc := by
  refine setTimer_same x (fun t => ?_) fun hready => ?_
  · rw [foldl_rdyThread_isExit, hk]
  · rw [← hk] at hready
    exact foldl_rdyThread_ready popped hready

omit [DecidableEq R] in
/-- `acoral_delay_thread`. -/
theorem delay_same (x : PendState R T) (t : T) (time : BitVec 32) :
    SamePend x.st.ipc (pendDelay x t time).st.ipc := by
  have hsuspend := SamePend.suspendSelf x.st.ipc t
  unfold pendDelay acoralDelayThread
  split
  · exact SamePend.refl _
  · split
    · exact SamePend.refl _
    · exact setTimer_same x hsuspend.isExit hsuspend.ready

omit [DecidableEq R] in
/-- `time_delay_deal`. -/
theorem delayTick_same (hstep : pendDelayTick x = some y) :
    y.pc = x.pc ∧ SamePend x.st.ipc y.st.ipc := by
  obtain ⟨k, hdeal, rfl⟩ := Option.map_eq_some_iff.mp hstep
  obtain ⟨⟨popped, queue⟩, -, rfl⟩ := Option.map_eq_some_iff.mp hdeal
  exact ⟨rfl, popped_same x popped rfl⟩

omit [DecidableEq R] in
/-- `period_time_deal`. -/
theorem periodTick_same (hstep : pendPeriodTick x = some y) : SamePend x.st.ipc y.st.ipc := by
  obtain ⟨k, hdeal, rfl⟩ := Option.map_eq_some_iff.mp hstep
  obtain ⟨⟨popped, queue⟩, -, rfl⟩ := Option.map_eq_some_iff.mp hdeal
  exact popped_same x popped rfl

/-- `period_time_deal`, when the nodes of the threads that start over are
unlinked. -/
theorem periodTick (h : PendInv x Q) (hguard : pendGuard x .periodTick = true)
    (hstep : pendPeriodTick x = some y) : PendInv y Q := by
  have hsame := periodTick_same hstep
  obtain ⟨k, hdeal, rfl⟩ := Option.map_eq_some_iff.mp hstep
  have hframe : PendInv (x.setTimer k) Q := h.frame rfl hsame
  refine hframe.restart (fun t => t ∈ x.due ∧ x.isSuspended t = true) fun t ht => ?_
  have hnode := List.all_eq_true.mp hguard t ht.1
  rw [ht.2] at hnode
  exact h.free_of_unlinked (by simpa using hnode)

/-! ### Killing a thread -/

omit [DecidableEq R] in
/-- The thread `t` is killed, and its node is in the release queue. -/
theorem killed (h : PendInv x Q) {Q' : CeilingObj R PendQueue → List T} (hpc : y.pc = x.pc)
    (hlinked : PendLinked y.st.ipc Q') (ht : y.isKilled t = true)
    (hkilled : ∀ u, u ≠ t → y.isKilled u = x.isKilled u)
    (hothers : ∀ u, u ≠ t → ∀ i, u ∈ Q' i ↔ u ∈ Q i)
    (hplace : ∀ i, t ∈ Q' i → i = .wait .release) : PendInv y Q' := by
  refine ⟨hlinked, fun u i hi => ?_, fun u r halive hr => ?_⟩
  · by_cases hu : u = t
    · subst hu
      obtain rfl := hplace i hi
      exact ht
    · exact (h.place u i ((hothers u hu i).mp hi)).congr (hkilled u hu) (congrFun hpc u)
  · have hu : u ≠ t := by
      rintro rfl
      exact Bool.false_ne_true (halive.symm.trans ht)
    rw [hpc] at hr
    exact (hothers u hu _).mpr (h.pc u r ((hkilled u hu).symm.trans halive) hr)

/-- What `acoral_kill_thread` unlinks: behind it the thread is in no queue, and
the other threads are where they were. -/
theorem killUnlink (h : PendInv x Q) (hguard : pendGuard x (.kill t) = true)
    (hstep : ACoral.killUnlink x t = some y) :
    y.pc = x.pc ∧ y.st.ipc.sched = x.st.ipc.sched ∧
      ∃ Q', PendLinked y.st.ipc Q' ∧ QueueMoves Q Q' ∧ (∀ i, t ∉ Q' i) ∧
        ∀ u, u ≠ t → ∀ i, u ∈ Q' i ↔ u ∈ Q i := by
  have hsched : (killTimerNodes x.timer t).sched = x.st.ipc.sched := by
    unfold killTimerNodes
    split <;> rfl
  have hlinked : PendLinked (x.setTimer (killTimerNodes x.timer t)).st.ipc Q :=
    h.linked.congr rfl rfl
  unfold ACoral.killUnlink at hstep
  dsimp only at hstep
  split at hstep
  · rename_i hwait
    obtain ⟨ipc, hdel, rfl⟩ := Option.map_eq_some_iff.mp hstep
    obtain ⟨i, hi⟩ := Option.ne_none_iff_exists'.mp hwait.2
    obtain ⟨r, -, hin⟩ := h.linked.ipc t i hi
    have hmem := fun u j => h.linked.queues.mem_update_erase hin (u := u) (j := j)
    refine ⟨rfl, ?_, _, hlinked.leave hin hdel, .leave .refl hin, fun j hj => ?_, fun u hu j => ?_⟩
    · obtain ⟨links, -, rfl⟩ := Option.map_eq_some_iff.mp hdel
      exact hsched
    · exact ((hmem t j).mp hj).2 rfl
    · rw [hmem]
      simp [hu]
  · rename_i hwait
    obtain rfl := Option.some.inj hstep
    refine ⟨rfl, hsched, Q, hlinked, .refl, ?_, fun _ _ _ => Iff.rfl⟩
    -- the guard leaves only the case that the node is linked to itself
    have hnode : x.unlinked t = true := by
      simp only [pendGuard, Bool.or_eq_true, Bool.and_eq_true, Option.isSome_iff_ne_none] at hguard
      exact hguard.resolve_right hwait
    exact h.free_of_unlinked hnode

/-- `acoral_prerelease_thread` of a thread of no queue. -/
theorem prerelease (hlinked : PendLinked x.st.ipc Q) (hfree : ∀ i, t ∉ Q i)
    (hstep : acoralPrereleaseThread x t = some y) :
    y.pc = x.pc ∧
      PendLinked y.st.ipc
        (Function.update Q (.wait .release) (Q (.wait .release) ++ [t])) ∧
      ∀ u, y.isKilled u = if u = t then true else x.isKilled u := by
  obtain ⟨links, hadd, rfl⟩ := Option.map_eq_some_iff.mp hstep
  have hexit : PendLinked (x.setState t ACORAL_THREAD_STATE_EXIT).st.ipc Q :=
    hlinked.congr rfl rfl
  refine ⟨rfl, (hexit.release hfree hadd).same (SamePend.rdyThread _ _), fun u => ?_⟩
  refine (rdyThread_isExit _ _ _ u).trans ?_
  by_cases hu : u = t
  · subst hu
    rw [if_pos rfl]
    simp only [PendState.setState, PendState.setIpc, Tcb.isExit, Function.update_self]
    decide
  · rw [if_neg hu]
    simp [PendState.setState, PendState.setIpc, PendState.isKilled, PendState.state, Tcb.isExit,
      Function.update_of_ne hu]

/-- `acoral_kill_thread` of a thread whose node it unlinks, or finds unlinked. -/
theorem kill (h : PendInv x Q) (hguard : pendGuard x (.kill t) = true)
    (hstep : acoralKillThread x t = some y) :
    ∃ Q', PendInv y Q' ∧ QueueMoves Q Q' ∧ t ∈ Q' (.wait .release) := by
  obtain ⟨z, hunlink, hrelease⟩ := Option.bind_eq_some_iff.mp hstep
  obtain ⟨hpc, hsched, Q₁, hlinked, hmoves, hfree, hothers⟩ := h.killUnlink hguard hunlink
  have hsuspend : SamePend z.st.ipc (z.st.suspendSelf t).ipc := SamePend.suspendSelf _ t
  obtain ⟨hpc', hlinked', hkilled⟩ := prerelease (x := { z with st := z.st.suspendSelf t })
    (hlinked.same hsuspend) hfree hrelease
  have hmem : ∀ v, v ∈ Q₁ (.wait .release) ++ [t] ↔ v = t ∨ v ∈ Q₁ (.wait .release) := fun v => by
    rw [List.mem_append, List.mem_singleton]
    exact or_comm
  have hperm : (Q₁ (.wait .release) ++ [t]).Perm (t :: Q₁ (.wait .release)) :=
    List.perm_append_singleton t _
  refine ⟨_, ?_, hmoves.trans (.enter .refl hfree hperm),
    (mem_update_insert hmem).mpr (Or.inl ⟨rfl, rfl⟩)⟩
  have hself : y.isKilled t = true := by rw [hkilled, if_pos rfl]
  refine h.killed (hpc'.trans hpc) hlinked' hself (fun u hu => ?_) (fun u hu i => ?_) fun i hi => ?_
  · rw [hkilled, if_neg hu]
    refine (hsuspend.isExit u).trans ?_
    rw [hsched]
    rfl
  · rw [mem_update_insert hmem, ← hothers u hu i]
    simp [hu]
  · rcases (mem_update_insert hmem).mp hi with ⟨-, rfl⟩ | hi
    · rfl
    · exact absurd hi (hfree i)

/-! ### All steps -/

/-- Every step that meets the guard keeps the invariant, and changes the
queues one thread at a time. -/
theorem step (h : PendInv x Q) {op : PendOp R T} (hguard : pendGuard x op = true)
    (hstep : pendStep fuel x op = some y) : ∃ Q', PendInv y Q' ∧ QueueMoves Q Q' := by
  have hif : ∀ {p : Prop} [Decidable p] {a b : Option (PendState R T)},
      (if p then a else none) = b → b = some y → p ∧ a = some y := by
    intro p hp a b hab hb
    split at hab
    · exact ⟨‹p›, hab.trans hb⟩
    · rw [← hab] at hb
      cases hb
  cases op with
  | ipc c cur ipc =>
      obtain ⟨⟨hpc, halive⟩, hstep⟩ := hif rfl hstep
      exact h.pendIpc halive hpc hstep
  | intr c cur ipc => exact ⟨Q, h.pendIntr hstep, .refl⟩
  | mpcp c cur r =>
      obtain ⟨⟨hpc, halive⟩, hstep⟩ := hif rfl hstep
      exact h.pendMpcp halive hpc hstep
  | dpcp c cur r =>
      obtain ⟨⟨hpc, halive⟩, hstep⟩ := hif rfl hstep
      exact h.pendDpcp halive hpc hstep
  | resume cur =>
      obtain ⟨halive, hstep⟩ := hif rfl hstep
      exact h.pendResume halive hguard hstep
  | rdy t =>
      obtain rfl := Option.some.inj hstep
      exact ⟨Q, h.frame rfl (SamePend.rdyThread _ t), .refl⟩
  | suspend t =>
      obtain rfl := Option.some.inj hstep
      exact ⟨Q, h.frame rfl (SamePend.suspendSelf _ t), .refl⟩
  | changePrio t prio =>
      obtain rfl := Option.some.inj hstep
      exact ⟨Q, h.frame rfl (SamePend.changePrio _ t prio), .refl⟩
  | delay t time =>
      obtain rfl := Option.some.inj hstep
      exact ⟨Q, h.frame rfl (delay_same x t time), .refl⟩
  | delayTick =>
      obtain ⟨hpc, hsame⟩ := delayTick_same hstep
      exact ⟨Q, h.frame hpc hsame, .refl⟩
  | periodTick => exact ⟨Q, h.periodTick hguard hstep, .refl⟩
  | kill t =>
      obtain ⟨Q', hinv, hmoves, -⟩ := h.kill hguard hstep
      exact ⟨Q', hinv, hmoves⟩

end PendInv

end ACoral
