import ACoral.Kernel.Switch
import ACoral.Proofs.Thread

/-!
# `ACoral.Proofs.Switch`: what a switch leaves alone

`acoral_switch_context` writes the RUNNING, RELOAD and MOVE bits of
threads, but neither READY nor SUSPEND, and no ready array
(`SameReady.switchContext`).
-/

set_option autoImplicit false

namespace ACoral

variable {T : Type} [DecidableEq T] {cur : Nat}

/-! ### Flags -/

/-- The other bits of `thread->state` can be cleared and set without a
change of READY and SUSPEND. -/
theorem hasFlag_running (state : BitVec 8) :
    (hasFlag (state &&& ~~~ ACORAL_THREAD_STATE_RUNNING) ACORAL_THREAD_STATE_READY =
        hasFlag state ACORAL_THREAD_STATE_READY ∧
      hasFlag (state &&& ~~~ ACORAL_THREAD_STATE_RUNNING) ACORAL_THREAD_STATE_SUSPEND =
        hasFlag state ACORAL_THREAD_STATE_SUSPEND) ∧
    (hasFlag (state ||| ACORAL_THREAD_STATE_RUNNING) ACORAL_THREAD_STATE_READY =
        hasFlag state ACORAL_THREAD_STATE_READY ∧
      hasFlag (state ||| ACORAL_THREAD_STATE_RUNNING) ACORAL_THREAD_STATE_SUSPEND =
        hasFlag state ACORAL_THREAD_STATE_SUSPEND) := by
  revert state
  decide

theorem hasFlag_reload (state : BitVec 8) :
    hasFlag (state &&& ~~~ ACORAL_THREAD_STATE_RELOAD) ACORAL_THREAD_STATE_READY =
        hasFlag state ACORAL_THREAD_STATE_READY ∧
      hasFlag (state &&& ~~~ ACORAL_THREAD_STATE_RELOAD) ACORAL_THREAD_STATE_SUSPEND =
        hasFlag state ACORAL_THREAD_STATE_SUSPEND := by
  revert state
  decide

theorem hasFlag_move (state : BitVec 8) :
    hasFlag (state &&& ~~~ ACORAL_THREAD_STATE_MOVE) ACORAL_THREAD_STATE_READY =
        hasFlag state ACORAL_THREAD_STATE_READY ∧
      hasFlag (state &&& ~~~ ACORAL_THREAD_STATE_MOVE) ACORAL_THREAD_STATE_SUSPEND =
        hasFlag state ACORAL_THREAD_STATE_SUSPEND := by
  revert state
  decide

theorem hasFlag_setMove (state : BitVec 8) :
    hasFlag (state ||| ACORAL_THREAD_STATE_MOVE) ACORAL_THREAD_STATE_READY =
        hasFlag state ACORAL_THREAD_STATE_READY ∧
      hasFlag (state ||| ACORAL_THREAD_STATE_MOVE) ACORAL_THREAD_STATE_SUSPEND =
        hasFlag state ACORAL_THREAD_STATE_SUSPEND := by
  revert state
  decide

/-- Two states of the scheduler that differ in other bits of
`thread->state`, in `need_sched` and in `ready_thread` at most. -/
structure SameReady (k k' : Sched T) : Prop where
  cpu : ∀ t, (k'.thread t).cpu = (k.thread t).cpu
  prio : ∀ t, (k'.thread t).prio = (k.thread t).prio
  ready : ∀ t, (k'.thread t).isReady = (k.thread t).isReady
  suspended : ∀ t, (k'.thread t).isSuspended = (k.thread t).isSuspended
  array : k'.readyQueues = k.readyQueues

namespace SameReady

omit [DecidableEq T] in
theorem refl (k : Sched T) : SameReady k k :=
  ⟨fun _ => rfl, fun _ => rfl, fun _ => rfl, fun _ => rfl, rfl⟩

omit [DecidableEq T] in
theorem trans {k k' k'' : Sched T} (h : SameReady k k') (h' : SameReady k' k'') :
    SameReady k k'' :=
  ⟨fun t => (h'.cpu t).trans (h.cpu t), fun t => (h'.prio t).trans (h.prio t),
    fun t => (h'.ready t).trans (h.ready t), fun t => (h'.suspended t).trans (h.suspended t),
    h'.array.trans h.array⟩

/-- Bits of one thread change. -/
theorem setState (s : CpuState T) (t : T) {state : BitVec 8}
    (h : hasFlag state ACORAL_THREAD_STATE_READY =
        hasFlag (s.state t) ACORAL_THREAD_STATE_READY ∧
      hasFlag state ACORAL_THREAD_STATE_SUSPEND =
        hasFlag (s.state t) ACORAL_THREAD_STATE_SUSPEND) :
    SameReady s.sched (s.setState t state).sched := by
  constructor
  · intro u
    by_cases hu : u = t <;> simp [CpuState.setState, hu]
  · intro u
    by_cases hu : u = t <;> simp [CpuState.setState, hu]
  · intro u
    by_cases hu : u = t
    · simpa [CpuState.setState, CpuState.state, hu, Tcb.isReady] using h.1
    · simp [CpuState.setState, hu]
  · intro u
    by_cases hu : u = t
    · simpa [CpuState.setState, CpuState.state, hu, Tcb.isSuspended] using h.2
    · simp [CpuState.setState, hu]
  · rfl

theorem setRunningThread (cur : Nat) (s : CpuState T) (next : T) :
    SameReady s.sched (acoralSetRunningThread cur s next).sched :=
  (setState s _ (hasFlag_running _).1).trans (setState _ _ (hasFlag_running _).2)

omit [DecidableEq T] in
theorem setNeedSched (s : CpuState T) (value : Bool) :
    SameReady s.sched (s.setNeedSched cur value).sched :=
  ⟨fun _ => rfl, fun _ => rfl, fun _ => rfl, fun _ => rfl, rfl⟩

omit [DecidableEq T] in
theorem selectThread (k : Sched T) : SameReady k (acoralSelectThread cur k) :=
  ⟨fun _ => rfl, fun _ => rfl, fun _ => rfl, fun _ => rfl, rfl⟩

end SameReady

/-- A switch: the selected thread runs, or the running thread keeps the
CPU, which a local thread does not. -/
theorem acoralSwitchContext_cases {s s' : CpuState T}
    (hexit : s.state (s.running cur) ≠ ACORAL_THREAD_STATE_EXIT)
    (hswitch : acoralSwitchContext cur s = some s') :
    SameReady s.sched s'.sched ∧ ∃ next,
      (acoralSelectThread cur s.sched).readyThread cur = some next ∧
        (s'.running cur = next ∨
          s'.running = s.running ∧ s'.preemptType = s.preemptType ∧
            hasFlag (s.state (s.running cur)) ACORAL_THREAD_STATE_SUSPEND = false ∧
            s.preemptType (s.running cur) ≠ .ACORAL_PREEMPT_LOCAL) := by
  obtain ⟨next, hsel, hs'⟩ := Option.map_eq_some_iff.mp hswitch
  -- the state with the thread selected, and no need to schedule
  set s₁ : CpuState T :=
    { s.setNeedSched cur false with
      sched := acoralSelectThread cur (s.setNeedSched cur false).sched }
  have hselect : SameReady s.sched s₁.sched :=
    (SameReady.setNeedSched s false).trans (SameReady.selectThread _)
  have hset := hselect.trans (SameReady.setRunningThread cur s₁ next)
  have hrunning : (acoralSetRunningThread cur s₁ next).running cur = next :=
    Function.update_self ..
  split at hs'
  · split at hs'
    · rename_i hstate
      exact absurd hstate hexit
    · split at hs'
      · simp only at hs'
        split at hs'
        · subst hs'
          exact ⟨hset.trans (SameReady.setState _ _ (hasFlag_reload _)), next, hsel,
            Or.inl hrunning⟩
        split at hs'
        · subst hs'
          exact ⟨hset.trans (SameReady.setState _ _ (hasFlag_move _)), next, hsel,
            Or.inl hrunning⟩
        · subst hs'
          exact ⟨hset, next, hsel, Or.inl hrunning⟩
      · -- the running thread keeps the CPU
        rename_i hkeep
        subst hs'
        rw [Bool.not_eq_true, canSched, Bool.or_eq_false_iff] at hkeep
        refine ⟨hselect, next, hsel, Or.inr ⟨rfl, rfl, hkeep.1, fun hlocal => ?_⟩⟩
        have hrefused := hkeep.2
        rw [show s₁.preemptType ((s.setNeedSched cur false).running cur) = .ACORAL_PREEMPT_LOCAL
          from hlocal] at hrefused
        simp at hrefused
  · -- the selected thread runs already
    rename_i hsame
    subst hs'
    rw [not_or, not_not] at hsame
    exact ⟨hselect, next, hsel, Or.inl hsame.1⟩

end ACoral
