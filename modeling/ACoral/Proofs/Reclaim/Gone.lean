import ACoral.Kernel.Reclaim
import ACoral.Proofs.Pending.Ready

/-!
# `ACoral.Proofs.Reclaim.Gone`: the operations of a CPU and the killed threads

A thread that is `Gone` is EXIT, or RELEASE and on no CPU. The operations of
`thread.c` and the schedule points leave such a thread alone, with one
exception: the switch away from it makes an EXIT thread RELEASE (`GoneStep`).
-/

set_option autoImplicit false

namespace ACoral.Reclaim

variable {T : Type} [DecidableEq T] {s s' s'' : CpuState T} {cur : Nat} {t : T}

/-! ### States -/

/-- The thread runs on some CPU. -/
def Current (s : CpuState T) (t : T) : Prop := ∃ cpu < CFG_MAX_CPU, s.running cpu = t

/-- The thread is EXIT, or it is RELEASE and on no CPU. -/
def Gone (s : CpuState T) (t : T) : Prop :=
  s.state t = ACORAL_THREAD_STATE_EXIT ∨
    s.state t = ACORAL_THREAD_STATE_RELEASE ∧ ¬ Current s t

/-- The ready arrays are in order, and what runs on a CPU is a thread of it. -/
structure KernelOk (s : CpuState T) : Prop where
  ready : ReadyOk s.sched
  home : ∀ cpu < CFG_MAX_CPU, (s.sched.thread (s.running cpu)).cpu = cpu

/-- What a step can do to a thread that is gone. -/
def GoneStep (s s' : CpuState T) (t : T) : Prop :=
  (s'.state t = s.state t ∧ (Current s' t ↔ Current s t)) ∨
    s.state t = ACORAL_THREAD_STATE_EXIT ∧ Current s t ∧
      s'.state t = ACORAL_THREAD_STATE_RELEASE ∧ ¬ Current s' t

/-- What a step of a CPU does. -/
structure KernelStep (s s' : CpuState T) : Prop where
  ok : KernelOk s'
  gone : ∀ t, Gone s t → GoneStep s s' t

omit [DecidableEq T] in
theorem Gone.of_step (h : Gone s t) (hstep : GoneStep s s' t) : Gone s' t := by
  rcases hstep with ⟨hstate, hcurrent⟩ | ⟨-, -, hstate, hcurrent⟩
  · unfold Gone
    rw [hstate, hcurrent]
    exact h
  · exact Or.inr ⟨hstate, hcurrent⟩

omit [DecidableEq T] in
theorem Gone.not_ready (h : Gone s t) : (s.sched.thread t).isReady = false := by
  have hstate : (s.sched.thread t).isReady = hasFlag (s.state t) ACORAL_THREAD_STATE_READY := rfl
  rcases h with h | h
  · rw [hstate, h]
    rfl
  · rw [hstate, h.1]
    rfl

omit [DecidableEq T] in
theorem Gone.not_suspended (h : Gone s t) : (s.sched.thread t).isSuspended = false := by
  have hstate : (s.sched.thread t).isSuspended = hasFlag (s.state t) ACORAL_THREAD_STATE_SUSPEND :=
    rfl
  rcases h with h | h
  · rw [hstate, h]
    rfl
  · rw [hstate, h.1]
    rfl

omit [DecidableEq T] in
theorem GoneStep.trans (h : GoneStep s s' t) (h' : GoneStep s' s'' t) : GoneStep s s'' t := by
  rcases h with ⟨hstate, hcurrent⟩ | ⟨hexit, hcurrent, hrelease, hnot⟩
  · unfold GoneStep at h' ⊢
    rwa [hstate, hcurrent] at h'
  · rcases h' with ⟨hstate', hcurrent'⟩ | ⟨hexit', -⟩
    · exact Or.inr ⟨hexit, hcurrent, hstate'.trans hrelease, fun h => hnot (hcurrent'.mp h)⟩
    · rw [hrelease] at hexit'
      exact absurd hexit' (by decide)

namespace KernelStep

theorem trans (h : KernelStep s s') (h' : KernelStep s' s'') : KernelStep s s'' where
  ok := h'.ok
  gone t ht := (h.gone t ht).trans (h'.gone t (ht.of_step (h.gone t ht)))

/-- The threads that are gone are as before, and so is what runs. -/
theorem of_running (ok : KernelOk s') (hrunning : s'.running = s.running)
    (hstate : ∀ t, Gone s t → s'.state t = s.state t) : KernelStep s s' where
  ok := ok
  gone t ht := Or.inl ⟨hstate t ht, by unfold Current; rw [hrunning]⟩

/-- The locks, the counters and the commands do not matter. -/
theorem of_frame (h : KernelOk s) (hthread : s'.sched.thread = s.sched.thread)
    (hqueues : s'.sched.readyQueues = s.sched.readyQueues) (hrunning : s'.running = s.running) :
    KernelStep s s' := by
  refine of_running ⟨⟨?_, ?_⟩, ?_⟩ hrunning fun t _ => ?_
  · rw [hthread]
    exact h.ready.excl
  · unfold Sched.linked
    rw [hthread, hqueues]
    exact h.ready.linked
  · rw [hthread, hrunning]
    exact h.home
  · unfold CpuState.state
    rw [hthread]

theorem refl (h : KernelOk s) : KernelStep s s := of_frame h rfl rfl rfl

/-- A thread that is not gone is changed, but for its CPU. -/
theorem of_thread {k : Sched T} {u : T} {c : Tcb} (h : KernelOk s) (hready : ReadyOk k)
    (hthread : k.thread = Function.update s.sched.thread u c) (hcpu : c.cpu = (s.sched.thread u).cpu)
    (hu : ¬ Gone s u) : KernelStep s { s with sched := k } := by
  refine of_running ⟨hready, fun cpu hlt => ?_⟩ rfl fun t ht => ?_
  · show (k.thread (s.running cpu)).cpu = cpu
    rw [hthread]
    by_cases heq : s.running cpu = u
    · rw [heq, Function.update_self, hcpu, ← heq]
      exact h.home cpu hlt
    · rw [Function.update_of_ne heq]
      exact h.home cpu hlt
  · show (k.thread t).state = (s.sched.thread t).state
    rw [hthread, Function.update_of_ne]
    rintro rfl
    exact hu ht

/-- `acoral_sched_rdyqueue_add` of a SUSPEND thread. -/
theorem add (h : KernelOk s) (cur : Nat) (ht : (s.sched.thread t).isSuspended = true) :
    KernelStep s { s with sched := acoralSchedRdyqueueAdd cur s.sched t } :=
  of_thread h (h.ready.add cur ht) rfl rfl fun hgone => by
    rw [hgone.not_suspended] at ht
    cases ht

/-- `acoral_sched_rdyqueue_del` of a READY thread. -/
theorem del (h : KernelOk s) (cur : Nat) (ht : (s.sched.thread t).isReady = true) :
    KernelStep s { s with sched := acoralSchedRdyqueueDel cur s.sched t } :=
  of_thread h (h.ready.del cur ht) rfl rfl fun hgone => by
    rw [hgone.not_ready] at ht
    cases ht

/-- `acoral_thread_change_prio`. -/
theorem changePrio (h : KernelOk s) (prio : Nat) :
    KernelStep s
      { s with sched := acoralThreadChangePrio (s.sched.thread t).cpu s.sched t prio } := by
  have hready := h.ready.changePrio t prio
  have hthread := fun u => acoralThreadChangePrio_thread s.sched t prio u
  refine of_running ⟨hready, fun cpu hlt => ?_⟩ rfl fun u hu => ?_
  · exact (hthread (s.running cpu)).2.1.trans (h.home cpu hlt)
  · by_cases hr : hasFlag (s.sched.thread t).state ACORAL_THREAD_STATE_READY = true
    · have hne : u ≠ t := by
        rintro rfl
        exact absurd (hu.not_ready.symm.trans hr) (by decide)
      simp [CpuState.state, acoralThreadChangePrio, hr, acoralSchedRdyqueueAdd, acoralSchedRdyqueueDel,
        Sched.setPrio, hne]
    · by_cases hne : u = t <;>
        simp [CpuState.state, acoralThreadChangePrio, hr, Sched.setPrio, hne]

end KernelStep

/-! ### Switches -/

/-- A selected thread is READY, and of the CPU. -/
theorem KernelOk.selected (h : KernelOk s) {next : T}
    (hsel : (acoralSelectThread cur s.sched).readyThread cur = some next) :
    (s.sched.thread next).isReady = true ∧ (s.sched.thread next).cpu = cur := by
  simp only [acoralSelectThread, Function.update_self] at hsel
  have hmem := List.mem_of_mem_head? hsel
  have hlinked := h.ready.linked next cur (acoralThreadGetHighPrio (s.sched.readyQueues cur))
  have hpos := List.count_pos_iff.mpr hmem
  rw [Sched.linked] at hlinked
  split at hlinked
  · rename_i hcase
    exact ⟨hcase.1, hcase.2.1.symm⟩
  · omega

/-- What `acoral_set_running_thread` leaves of the states. -/
theorem setRunningThread_state {next u : T} (hnext : u ≠ next) (hrun : u ≠ s.running cur) :
    (acoralSetRunningThread cur s next).state u = s.state u := by
  simp [acoralSetRunningThread, CpuState.state, CpuState.setState, hnext, hrun]

/-- The threads off the CPU keep their state when `next` gets it, and what
the switch writes to the thread that had it does not matter. -/
theorem KernelStep.switched (h : KernelOk s) (hcur : cur < CFG_MAX_CPU) {next : T}
    (hready : (s.sched.thread next).isReady = true) (hcpu : (s.sched.thread next).cpu = cur)
    (hok : ReadyOk s'.sched) (hcpus : ∀ t, (s'.sched.thread t).cpu = (s.sched.thread t).cpu)
    (hrunning : s'.running = Function.update s.running cur next)
    (hstate : ∀ t, t ≠ next → t ≠ s.running cur → s'.state t = s.state t)
    (hprev : s.state (s.running cur) = ACORAL_THREAD_STATE_EXIT →
      s'.state (s.running cur) = ACORAL_THREAD_STATE_RELEASE) : KernelStep s s' := by
  have hnext : ∀ t, Gone s t → t ≠ next := by
    rintro t ht rfl
    rw [ht.not_ready] at hready
    cases hready
  refine ⟨⟨hok, fun cpu hlt => ?_⟩, fun t ht => ?_⟩
  · rw [hcpus, hrunning]
    by_cases heq : cpu = cur
    · rw [heq, Function.update_self, hcpu]
    · rw [Function.update_of_ne heq]
      exact h.home cpu hlt
  · by_cases hcurrent : t = s.running cur
    · -- the thread is switched away from
      subst hcurrent
      have hexit : s.state (s.running cur) = ACORAL_THREAD_STATE_EXIT :=
        ht.resolve_right fun hrel => hrel.2 ⟨cur, hcur, rfl⟩
      refine Or.inr ⟨hexit, ⟨cur, hcur, rfl⟩, hprev hexit, ?_⟩
      rintro ⟨cpu, hlt, hrun⟩
      rw [hrunning] at hrun
      by_cases heq : cpu = cur
      · rw [heq, Function.update_self] at hrun
        exact hnext _ ht hrun.symm
      · rw [Function.update_of_ne heq] at hrun
        -- no thread is of two CPUs
        exact heq ((h.home cpu hlt).symm.trans (hrun ▸ h.home cur hcur))
    · refine Or.inl ⟨hstate t (hnext t ht) hcurrent, ?_⟩
      unfold Current
      rw [hrunning]
      constructor
      · rintro ⟨cpu, hlt, hrun⟩
        by_cases heq : cpu = cur
        · rw [heq, Function.update_self] at hrun
          exact absurd hrun.symm (hnext t ht)
        · rw [Function.update_of_ne heq] at hrun
          exact ⟨cpu, hlt, hrun⟩
      · rintro ⟨cpu, hlt, hrun⟩
        refine ⟨cpu, hlt, ?_⟩
        rw [Function.update_of_ne]
        · exact hrun
        · rintro rfl
          exact hcurrent hrun.symm

/-- `acoral_switch_context`. -/
theorem KernelStep.switchContext (h : KernelOk s) (hcur : cur < CFG_MAX_CPU)
    (hstep : acoralSwitchContext cur s = some s') : KernelStep s s' := by
  obtain ⟨next, hsel, hs'⟩ := Option.map_eq_some_iff.mp hstep
  obtain ⟨hready, hcpu⟩ := h.selected hsel
  -- the state with the thread selected, and no need to schedule
  set s₁ : CpuState T :=
    { s.setNeedSched cur false with
      sched := acoralSelectThread cur (s.setNeedSched cur false).sched }
  have hselect : KernelStep s s₁ := of_frame h rfl rfl rfl
  have hset := SameReady.setRunningThread cur s₁ next
  have hrunning : (acoralSetRunningThread cur s₁ next).running = Function.update s₁.running cur next :=
    rfl
  have hprev : (s.setNeedSched cur false).running cur = s₁.running cur := rfl
  rw [hprev] at hs'
  split at hs'
  · split at hs'
    · rename_i hexit
      subst hs'
      have hnot : ((acoralSetRunningThread cur s₁ next).sched.thread (s₁.running cur)).isReady = false := by
        rw [hset.ready]
        show hasFlag (s₁.state (s₁.running cur)) _ = false
        rw [hexit]
        rfl
      have hreleased : ({ (acoralSetRunningThread cur s₁ next).sched.thread (s₁.running cur) with
          state := ACORAL_THREAD_STATE_RELEASE } : Tcb).isReady = false := by
        show hasFlag ACORAL_THREAD_STATE_RELEASE ACORAL_THREAD_STATE_READY = false
        decide
      refine hselect.trans (switched hselect.ok hcur hready hcpu
        ((hselect.ok.ready.sameReady hset).update hnot hreleased rfl rfl) (fun t => ?_) hrunning
        (fun t hn hp => ?_) fun _ => ?_)
      · by_cases ht : t = s₁.running cur
        · simp [CpuState.setState, ht, hset.cpu]
        · simp [CpuState.setState, ht, hset.cpu]
      · rw [← setRunningThread_state hn hp]
        simp [CpuState.setState, CpuState.state, hp]
      · simp [CpuState.setState, CpuState.state]
    · rename_i hexit
      have hfinish : ∀ {s' : CpuState T}, SameReady (acoralSetRunningThread cur s₁ next).sched s'.sched →
          s'.running = (acoralSetRunningThread cur s₁ next).running →
          (∀ t, t ≠ s₁.running cur → s'.state t = (acoralSetRunningThread cur s₁ next).state t) →
          KernelStep s s' := fun hsame hrun hstate =>
        hselect.trans (switched hselect.ok hcur hready hcpu
          (hselect.ok.ready.sameReady (hset.trans hsame)) (hset.trans hsame).cpu (hrun.trans hrunning)
          (fun t hn hp => (hstate t hp).trans (setRunningThread_state hn hp))
          fun h => absurd h hexit)
      have hother : ∀ (value : BitVec 8) (t : T), t ≠ s₁.running cur →
          ((acoralSetRunningThread cur s₁ next).setState (s₁.running cur) value).state t =
            (acoralSetRunningThread cur s₁ next).state t := by
        intro value t ht
        simp [CpuState.setState, CpuState.state, ht]
      split at hs'
      · dsimp only at hs'
        split at hs'
        · subst hs'
          exact hfinish (SameReady.setState _ _ (hasFlag_reload _)) rfl (hother _)
        · split at hs'
          · subst hs'
            exact hfinish (SameReady.setState _ _ (hasFlag_move _)) rfl (hother _)
          · subst hs'
            exact hfinish (SameReady.refl _) rfl fun _ _ => rfl
      · subst hs'
        exact hselect
  · subst hs'
    exact hselect

/-! ### Schedule points -/

namespace KernelStep

/-- `acoral_sched`. -/
theorem sched (h : KernelOk s) (hcur : cur < CFG_MAX_CPU) (hstep : acoralSched cur s = some s') :
    KernelStep s s' := by
  unfold acoralSched at hstep
  split at hstep
  · cases hstep
    exact refl h
  split at hstep
  · cases hstep
    exact refl h
  split at hstep
  · cases hstep
    exact refl h
  split at hstep
  · cases hstep
    exact refl h
  · exact switchContext h hcur hstep

/-- The end of an interrupt. -/
theorem irqReturn (h : KernelOk s) (hcur : cur < CFG_MAX_CPU)
    (hstep : halIrqReturn cur s = some s') : KernelStep s s' := by
  have hreturn : KernelStep s (acoralIntrReturn cur s) := by
    rw [acoralIntrReturn, acoralIntrExit]
    split_ifs <;> exact of_frame h rfl rfl rfl
  rw [halIrqReturn] at hstep
  split at hstep
  · exact hreturn.trans (switchContext hreturn.ok hcur hstep)
  · cases hstep
    exact hreturn

theorem schedUnlock (h : KernelOk s) (hcur : cur < CFG_MAX_CPU)
    (hstep : acoralSchedUnlock cur s = some s') : KernelStep s s' :=
  have hframe : KernelStep s { s with schedLock := Function.update s.schedLock cur false } :=
    of_frame h rfl rfl rfl
  hframe.trans (sched hframe.ok hcur hstep)

/-- `acoral_enter_critical`. -/
theorem enterCritical (h : KernelOk s) (cur : Nat) : KernelStep s (acoralEnterCritical cur s) := by
  unfold acoralEnterCritical
  cases s.schedLock cur with
  | false => exact of_frame h rfl rfl rfl
  | true => exact of_frame h rfl rfl rfl

/-- `acoral_exit_critical`. -/
theorem exitCritical (h : KernelOk s) (hcur : cur < CFG_MAX_CPU)
    (hstep : acoralExitCritical cur s = some s') : KernelStep s s' := by
  unfold acoralExitCritical at hstep
  dsimp only at hstep
  have hframe : KernelStep s { s with
      criticalNesting := Function.update s.criticalNesting cur (s.criticalNesting cur - 1) } :=
    of_frame h rfl rfl rfl
  split at hstep
  · exact hframe.trans (schedUnlock hframe.ok hcur hstep)
  · cases hstep
    exact hframe

/-- A critical section. -/
theorem critical {body : Sched T → Sched T}
    (hbody : ∀ s : CpuState T, KernelOk s → s.sched = s''.sched →
      KernelStep s { s with sched := body s.sched })
    (h : KernelOk s'') (hcur : cur < CFG_MAX_CPU) (hstep : criticalSection cur body s'' = some s') :
    KernelStep s'' s' := by
  have henter := enterCritical h cur
  have hsched : (acoralEnterCritical cur s'').sched = s''.sched := by
    unfold acoralEnterCritical
    cases s''.schedLock cur <;> rfl
  have hmid := hbody _ henter.ok hsched
  exact henter.trans (hmid.trans (exitCritical hmid.ok hcur hstep))

/-- `acoral_rdy_thread`. -/
theorem rdyThread (h : KernelOk s) (hcur : cur < CFG_MAX_CPU)
    (hstep : cpuRdyThread cur s t = some s') : KernelStep s s' := by
  unfold cpuRdyThread at hstep
  split at hstep
  · rename_i hcase
    cases hstep
    have hframe : ∀ k : Sched T, k.thread = s.sched.thread → k.readyQueues = s.sched.readyQueues →
        KernelStep s { s with sched := k } := fun k hthread hqueues => of_frame h hthread hqueues rfl
    refine hframe _ ?_ ?_ <;>
    · unfold acoralRdyThread
      split
      · rfl
      · rename_i hsusp
        rw [if_pos (hcase.resolve_left hsusp)]
        rfl
  · rename_i hcase
    rw [not_or] at hcase
    have hsusp : (s.sched.thread t).isSuspended = true := (Bool.not_eq_false _).mp hcase.1
    exact critical (fun u hu heq => add hu cur (heq ▸ hsusp)) h hcur hstep

/-- `acoral_suspend_thread`. -/
theorem suspendThread (h : KernelOk s) (hcur : cur < CFG_MAX_CPU)
    (hstep : cpuSuspendThread cur s t = some s') : KernelStep s s' := by
  unfold cpuSuspendThread at hstep
  split at hstep
  · rename_i hcase
    cases hstep
    have hframe : ∀ k : Sched T, k.thread = s.sched.thread → k.readyQueues = s.sched.readyQueues →
        KernelStep s { s with sched := k } := fun k hthread hqueues => of_frame h hthread hqueues rfl
    refine hframe _ ?_ ?_ <;>
    · unfold acoralSuspendThread
      split
      · rfl
      · rename_i hready
        rw [if_pos (hcase.resolve_left hready)]
        rfl
  · rename_i hcase
    rw [not_or] at hcase
    have hready : (s.sched.thread t).isReady = true := (Bool.not_eq_false _).mp hcase.1
    exact critical (fun u hu heq => del hu cur (heq ▸ hready)) h hcur hstep

/-- `acoral_thread_change_prio`. -/
theorem cpuChangePrio (h : KernelOk s) (hcur : cur < CFG_MAX_CPU) {prio : Nat}
    (hstep : ACoral.cpuChangePrio cur s t prio = some s') : KernelStep s s' := by
  unfold ACoral.cpuChangePrio at hstep
  split at hstep
  · rename_i hcase
    cases hstep
    have hframe : ∀ k : Sched T, k.thread = s.sched.thread → k.readyQueues = s.sched.readyQueues →
        KernelStep s { s with sched := k } := fun k hthread hqueues => of_frame h hthread hqueues rfl
    refine hframe _ ?_ ?_ <;>
    · unfold acoralThreadChangePrio
      rw [if_pos hcase]
      rfl
  · rename_i hcase
    rw [not_not] at hcase
    refine critical (fun u hu heq => ?_) h hcur hstep
    rw [← hcase, ← heq]
    exact changePrio hu prio

/-- An operation of a CPU. -/
theorem switchStep {op : SwitchOp T} (h : KernelOk s) (hcur : cur < CFG_MAX_CPU)
    (hstep : ACoral.switchStep cur s op = some s') : KernelStep s s' := by
  cases op with
  | rdy t => exact rdyThread h hcur hstep
  | suspend t => exact suspendThread h hcur hstep
  | changePrio t prio =>
      unfold ACoral.switchStep at hstep
      dsimp only at hstep
      split at hstep
      · exact cpuChangePrio h hcur hstep
      · cases hstep
  | setPreemptType t type =>
      cases hstep
      exact of_frame h rfl rfl rfl
  | enterCritical =>
      cases hstep
      exact enterCritical h cur
  | exitCritical => exact exitCritical h hcur hstep
  | sched => exact sched h hcur hstep
  | schedLock =>
      cases hstep
      exact of_frame h rfl rfl rfl
  | schedUnlock => exact schedUnlock h hcur hstep
  | intrEntry =>
      cases hstep
      exact of_frame h rfl rfl rfl
  | intrExit => exact irqReturn h hcur hstep

end KernelStep

end ACoral.Reclaim
