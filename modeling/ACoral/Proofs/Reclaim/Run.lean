import ACoral.Lib.GuardedRun
import ACoral.Proofs.Ceiling.Ops
import ACoral.Proofs.Reclaim.Gone

/-!
# `ACoral.Proofs.Reclaim.Run`: which killed threads come free

Only the switch away from an EXIT thread makes it RELEASE. So a thread that
is killed while it runs comes free (`kill_reclaimed`), and one that is killed
while it is READY or SUSPEND never does (`killed_lost`): the daemon takes it
from the release queue and puts it back for ever.
-/

set_option autoImplicit false

namespace ACoral.Reclaim

open Lib (run guarded)

variable {T : Type} [DecidableEq T] {x y z : ReclaimState T} {s s' : CpuState T} {cur : Nat} {t : T}

/-! ### `acoral_kill_thread` -/

/-- A critical section in a critical section does not switch. -/
theorem criticalSection_nested {body : Sched T → Sched T} (hnesting : s.criticalNesting cur ≠ 0)
    (hstep : criticalSection cur body s = some s') :
    s'.running = s.running ∧ s'.sched = body s.sched := by
  have henter : (acoralEnterCritical cur s).criticalNesting cur = s.criticalNesting cur + 1 ∧
      (acoralEnterCritical cur s).running = s.running ∧ (acoralEnterCritical cur s).sched = s.sched := by
    unfold acoralEnterCritical
    cases s.schedLock cur <;> exact ⟨Function.update_self _ _ _, rfl, rfl⟩
  unfold criticalSection acoralExitCritical at hstep
  dsimp only at hstep
  rw [henter.1, Nat.add_sub_cancel, if_neg hnesting] at hstep
  cases hstep
  exact ⟨henter.2.1, congrArg body henter.2.2⟩

/-- The suspension in `acoral_kill_thread`. -/
theorem suspendThread_nested (hcpu : (s.sched.thread t).cpu = cur)
    (hnesting : s.criticalNesting cur ≠ 0) (hstep : cpuSuspendThread cur s t = some s') :
    s'.running = s.running ∧ (s'.sched.thread t).isReady = false := by
  have hsuspend : s'.running = s.running ∧
      s'.sched = (ACoral.acoralSuspendThread cur s.sched t).2 := by
    unfold cpuSuspendThread at hstep
    split at hstep
    · cases hstep
      exact ⟨rfl, rfl⟩
    · rename_i hcase
      rw [not_or, not_not] at hcase
      have hready : ¬ hasFlag (s.sched.thread t).state ACORAL_THREAD_STATE_READY = false := hcase.1
      obtain ⟨hrunning, hsched⟩ := criticalSection_nested hnesting hstep
      refine ⟨hrunning, ?_⟩
      unfold ACoral.acoralSuspendThread
      rw [if_neg hready, if_neg (not_not.mpr hcpu)]
      exact hsched
  refine ⟨hsuspend.1, ?_⟩
  rw [hsuspend.2, ← hcpu]
  exact ReadyOk.not_isReady_suspendThread s.sched t

/-- What a kill does: between two steps of the CPU the thread becomes EXIT. -/
structure KillEffect (x y : ReclaimState T) (t : T) (mid : CpuState T) : Prop where
  ok : KernelOk mid
  running : mid.running = x.kernel.running
  exit : mid.state t = ACORAL_THREAD_STATE_EXIT
  other : ∀ u, u ≠ t → Gone x.kernel u → mid.state u = x.kernel.state u
  step : KernelStep mid y.kernel
  releaseQueue : y.releaseQueue = x.releaseQueue ++ [t]
  killed : y.killed = t :: x.killed
  freed : y.freed = x.freed

omit [DecidableEq T] in
/-- Who is not switched away from keeps his state. -/
theorem GoneStep.state_eq (h : GoneStep s s' t) (hrunning : s'.running = s.running) :
    s'.state t = s.state t := by
  rcases h with ⟨hstate, -⟩ | ⟨-, hcurrent, -, hnot⟩
  · exact hstate
  · unfold Current at hnot
    rw [hrunning] at hnot
    exact absurd hcurrent hnot

theorem acoralKillThread_effect (h : KernelOk x.kernel) (hcur : cur < CFG_MAX_CPU)
    (hcpu : (x.kernel.sched.thread t).cpu = cur) (hstep : acoralKillThread cur x t = some y) :
    ∃ mid, KillEffect x y t mid := by
  unfold acoralKillThread at hstep
  dsimp only at hstep
  rw [if_neg (not_not.mpr hcpu)] at hstep
  obtain ⟨s₂, hsuspend, hstep⟩ := Option.bind_eq_some_iff.mp hstep
  obtain ⟨x₄, hprerelease, hstep⟩ := Option.bind_eq_some_iff.mp hstep
  obtain ⟨s₄, hrdy, rfl⟩ := Option.map_eq_some_iff.mp hprerelease
  obtain ⟨s₅, hexit, rfl⟩ := Option.map_eq_some_iff.mp hstep
  have henter := KernelStep.enterCritical h cur
  have hframe : (acoralEnterCritical cur x.kernel).sched = x.kernel.sched ∧
      (acoralEnterCritical cur x.kernel).running = x.kernel.running ∧
      (acoralEnterCritical cur x.kernel).criticalNesting cur ≠ 0 := by
    unfold acoralEnterCritical
    cases x.kernel.schedLock cur <;>
      exact ⟨rfl, rfl, by simp⟩
  obtain ⟨hsched, hrunning, hnesting⟩ := hframe
  have hkernel := KernelStep.suspendThread henter.ok hcur hsuspend
  obtain ⟨hrunning₂, hready⟩ := suspendThread_nested (by rw [hsched]; exact hcpu) hnesting hsuspend
  have hbefore := henter.trans hkernel
  -- the thread is not READY, so it may become EXIT
  have hexitReady : ({ s₂.sched.thread t with state := ACORAL_THREAD_STATE_EXIT } : Tcb).isReady =
      false := by
    show hasFlag ACORAL_THREAD_STATE_EXIT ACORAL_THREAD_STATE_READY = false
    decide
  have hok : KernelOk (s₂.setState t ACORAL_THREAD_STATE_EXIT) := by
    refine ⟨hkernel.ok.ready.update hready hexitReady rfl rfl, fun cpu hlt => ?_⟩
    have hhome := hkernel.ok.home cpu hlt
    by_cases heq : s₂.running cpu = t
    · rw [heq] at hhome
      simp [CpuState.setState, heq, hhome]
    · simp [CpuState.setState, heq, hhome]
  have hrdyStep := KernelStep.rdyThread hok hcur hrdy
  refine ⟨s₂.setState t ACORAL_THREAD_STATE_EXIT, hok, hrunning₂.trans hrunning, ?_, fun u hu hgone => ?_,
    hrdyStep.trans (KernelStep.exitCritical hrdyStep.ok hcur hexit), rfl, rfl, rfl⟩
  · simp [CpuState.setState, CpuState.state]
  · have hstate := (hbefore.gone u hgone).state_eq (hrunning₂.trans hrunning)
    rw [← hstate]
    simp [CpuState.setState, CpuState.state, hu]

/-! ### The steps -/

/-- A step that touches none of the queues of the killed threads. -/
structure PlainEffect (x y : ReclaimState T) : Prop where
  step : KernelStep x.kernel y.kernel
  releaseQueue : y.releaseQueue = x.releaseQueue
  killed : y.killed = x.killed
  freed : y.freed = x.freed

theorem PlainEffect.delay (h : KernelOk x.kernel) (hcur : cur < CFG_MAX_CPU) {time : BitVec 32}
    (hstep : acoralDelayThread cur x t time = some y) : PlainEffect x y := by
  unfold acoralDelayThread at hstep
  split at hstep
  · cases hstep
    exact ⟨.refl h, rfl, rfl, rfl⟩
  split at hstep
  · cases hstep
    exact ⟨.refl h, rfl, rfl, rfl⟩
  · dsimp only at hstep
    obtain ⟨s₂, hsuspend, hstep⟩ := Option.bind_eq_some_iff.mp hstep
    obtain ⟨s₃, hexit, rfl⟩ := Option.map_eq_some_iff.mp hstep
    have henter := KernelStep.enterCritical h cur
    have hkernel := KernelStep.suspendThread henter.ok hcur hsuspend
    exact ⟨henter.trans (hkernel.trans (.exitCritical hkernel.ok hcur hexit)), rfl, rfl, rfl⟩

theorem PlainEffect.tick (h : KernelOk x.kernel) (hcur : cur < CFG_MAX_CPU)
    (hstep : timeDelayDeal cur x = some y) : PlainEffect x y := by
  have hrdyAll : ∀ (popped : List T) {s s' : CpuState T}, KernelOk s →
      popped.foldlM (cpuRdyThread cur) s = some s' → KernelStep s s' := by
    intro popped
    induction popped with
    | nil =>
        intro s s' h hstep
        cases hstep
        exact .refl h
    | cons t popped ih =>
        intro s s' h hstep
        obtain ⟨s₁, hrdy, hrest⟩ := Option.bind_eq_some_iff.mp hstep
        have hfirst := KernelStep.rdyThread h hcur hrdy
        exact hfirst.trans (ih hfirst.ok hrest)
  obtain ⟨⟨popped, queue⟩, -, hstep⟩ := Option.bind_eq_some_iff.mp hstep
  obtain ⟨kernel, hrdy, rfl⟩ := Option.map_eq_some_iff.mp hstep
  exact ⟨hrdyAll popped h hrdy, rfl, rfl, rfl⟩

/-- All that a step can do. -/
theorem reclaimStep_cases {op : ReclaimOp T} (h : KernelOk x.kernel)
    (hstep : reclaimStep x op = some y) :
    PlainEffect x y ∨
      (∃ cur t mid, op = .kill cur t ∧ (x.kernel.sched.thread t).cpu = cur ∧ cur < CFG_MAX_CPU ∧
        KillEffect x y t mid) ∨
      ∃ t ∈ x.releaseQueue, y = daem x t := by
  cases op with
  | kernel cur op =>
      unfold reclaimStep at hstep
      dsimp only at hstep
      split at hstep
      case isFalse => cases hstep
      case isTrue hcur =>
      obtain ⟨kernel, hkernel, rfl⟩ := Option.map_eq_some_iff.mp hstep
      exact Or.inl ⟨.switchStep h hcur hkernel, rfl, rfl, rfl⟩
  | kill cur t =>
      unfold reclaimStep at hstep
      dsimp only at hstep
      split at hstep
      case isFalse => cases hstep
      case isTrue hcur =>
      by_cases hcpu : (x.kernel.sched.thread t).cpu = cur
      · obtain ⟨mid, heffect⟩ := acoralKillThread_effect h hcur hcpu hstep
        exact Or.inr (Or.inl ⟨cur, t, mid, rfl, hcpu, hcur, heffect⟩)
      · -- only the command is sent
        unfold acoralKillThread at hstep
        dsimp only at hstep
        rw [if_pos hcpu] at hstep
        cases hstep
        exact Or.inl ⟨.refl h, rfl, rfl, rfl⟩
  | delay cur t time =>
      unfold reclaimStep at hstep
      dsimp only at hstep
      split at hstep
      case isFalse => cases hstep
      case isTrue hcur => exact Or.inl (.delay h hcur hstep)
  | tick cur =>
      unfold reclaimStep at hstep
      dsimp only at hstep
      split at hstep
      case isFalse => cases hstep
      case isTrue hcur => exact Or.inl (.tick h hcur hstep)
  | daem t =>
      unfold reclaimStep at hstep
      dsimp only at hstep
      split at hstep
      case isFalse => cases hstep
      case isTrue hin =>
      cases hstep
      exact Or.inr (Or.inr ⟨t, hin, rfl⟩)

/-! ### A kill of a thread that does not run -/

/-- The thread is in the release queue, EXIT and on no CPU. -/
structure Lost (x : ReclaimState T) (t : T) : Prop where
  ok : KernelOk x.kernel
  queued : t ∈ x.releaseQueue
  exit : x.kernel.state t = ACORAL_THREAD_STATE_EXIT
  off : ¬ Current x.kernel t

omit [DecidableEq T] in
/-- Nobody switches away from a thread that is on no CPU. -/
theorem GoneStep.of_off (h : GoneStep s s' t) (hoff : ¬ Current s t) :
    s'.state t = s.state t ∧ ¬ Current s' t := by
  rcases h with ⟨hstate, hcurrent⟩ | ⟨-, hcurrent, -⟩
  · exact ⟨hstate, fun h => hoff (hcurrent.mp h)⟩
  · exact absurd hcurrent hoff

theorem Lost.kernelStep (h : Lost x t) (hstep : KernelStep x.kernel y.kernel)
    (hqueued : t ∈ y.releaseQueue) : Lost y t := by
  obtain ⟨hstate, hoff⟩ := (hstep.gone t (Or.inl h.exit)).of_off h.off
  exact ⟨hstep.ok, hqueued, hstate.trans h.exit, hoff⟩

/-- Right after the kill. -/
theorem KillEffect.lost {mid : CpuState T} (h : KillEffect x y t mid) (hoff : ¬ Current x.kernel t) :
    Lost y t := by
  have hmid : ¬ Current mid t := by
    unfold Current
    rw [h.running]
    exact hoff
  have hlost : Lost { y with kernel := mid } t :=
    ⟨h.ok, by rw [h.releaseQueue]; exact List.mem_append_right _ List.mem_cons_self, h.exit, hmid⟩
  exact hlost.kernelStep h.step hlost.queued

theorem Lost.reclaimStep {op : ReclaimOp T} (h : Lost x t) (hstep : reclaimStep x op = some y) :
    Lost y t := by
  rcases reclaimStep_cases h.ok hstep with hplain | ⟨cur, u, mid, -, -, -, hkill⟩ | ⟨u, hu, rfl⟩
  · exact h.kernelStep hplain.step (hplain.releaseQueue ▸ h.queued)
  · by_cases hut : u = t
    · exact hut ▸ hkill.lost (hut ▸ h.off)
    · have hmid : Lost { x with kernel := mid } t := by
        refine ⟨hkill.ok, h.queued, (hkill.other t (Ne.symm hut) (Or.inl h.exit)).trans h.exit, ?_⟩
        show ¬ Current mid t
        unfold Current
        rw [hkill.running]
        exact h.off
      refine hmid.kernelStep hkill.step ?_
      rw [hkill.releaseQueue]
      exact List.mem_append_left _ h.queued
  · unfold daem
    by_cases hut : u = t
    · -- the daemon puts it back
      subst hut
      rw [if_neg (by rw [h.exit]; decide)]
      exact ⟨h.ok, List.mem_append_right _ List.mem_cons_self, h.exit, h.off⟩
    · have herase : t ∈ x.releaseQueue.erase u := (List.mem_erase_of_ne (Ne.symm hut)).mpr h.queued
      split
      · exact ⟨h.ok, herase, h.exit, h.off⟩
      · exact ⟨h.ok, List.mem_append_left _ herase, h.exit, h.off⟩

/-- A thread that is killed while it is on no CPU stays EXIT in the release
queue, whatever happens. -/
theorem killed_lost {ops : List (ReclaimOp T)} (h : KernelOk x.kernel) (hcur : cur < CFG_MAX_CPU)
    (hcpu : (x.kernel.sched.thread t).cpu = cur) (hoff : ¬ Current x.kernel t)
    (hkill : acoralKillThread cur x t = some y) (hrun : run reclaimStep y ops = some z) :
    t ∈ z.releaseQueue ∧ z.kernel.state t = ACORAL_THREAD_STATE_EXIT ∧ ¬ Current z.kernel t := by
  obtain ⟨mid, heffect⟩ := acoralKillThread_effect h hcur hcpu hkill
  have hlost : Lost z t :=
    Lib.run_induct (P := fun x => Lost x t) (fun _ _ _ h hstep => h.reclaimStep hstep)
      (heffect.lost hoff) hrun
  exact ⟨hlost.queued, hlost.exit, hlost.off⟩

/-! ### A kill of the thread that runs -/

/-- The kills that take effect are of threads that run, each for the first
time. -/
def reclaimGuard (x : ReclaimState T) : ReclaimOp T → Bool
  | .kill cur thread =>
      decide ((x.kernel.sched.thread thread).cpu = cur →
        x.kernel.running cur = thread ∧ thread ∉ x.killed)
  | _                => true

/-- No thread was killed so far. -/
structure ReclaimState.Fresh (x : ReclaimState T) : Prop where
  ok : KernelOk x.kernel
  releaseQueue : x.releaseQueue = []
  killed : x.killed = []
  freed : x.freed = []

/-- The thread is EXIT and runs, or it is RELEASE and does not. -/
def Leaving (s : CpuState T) (t : T) : Prop :=
  s.state t = ACORAL_THREAD_STATE_EXIT ∧ Current s t ∨
    s.state t = ACORAL_THREAD_STATE_RELEASE ∧ ¬ Current s t

omit [DecidableEq T] in
theorem Leaving.gone (h : Leaving s t) : Gone s t := h.imp_left And.left

omit [DecidableEq T] in
theorem Leaving.of_step (h : Leaving s t) (hstep : GoneStep s s' t) : Leaving s' t := by
  rcases hstep with ⟨hstate, hcurrent⟩ | ⟨-, -, hrelease⟩
  · unfold Leaving
    rw [hstate, hcurrent]
    exact h
  · exact Or.inr hrelease

/-- The invariant of a run. -/
structure ReclaimInv (x : ReclaimState T) : Prop where
  ok : KernelOk x.kernel
  leaving : ∀ t ∈ x.killed, Leaving x.kernel t
  /-- a killed thread waits for the daemon, or it was freed, once -/
  nodup : (x.releaseQueue ++ x.freed).Nodup
  killed : ∀ t, t ∈ x.killed ↔ t ∈ x.releaseQueue ∨ t ∈ x.freed

namespace ReclaimInv

theorem start (h : x.Fresh) : ReclaimInv x where
  ok := h.ok
  leaving t ht := by rw [h.killed] at ht; cases ht
  nodup := by rw [h.releaseQueue, h.freed]; exact List.nodup_nil
  killed t := by rw [h.killed, h.releaseQueue, h.freed]; simp

theorem plain (h : ReclaimInv x) (hstep : PlainEffect x y) : ReclaimInv y where
  ok := hstep.step.ok
  leaving t ht := by
    rw [hstep.killed] at ht
    have hleaving := h.leaving t ht
    exact hleaving.of_step (hstep.step.gone t hleaving.gone)
  nodup := by rw [hstep.releaseQueue, hstep.freed]; exact h.nodup
  killed t := by rw [hstep.killed, hstep.releaseQueue, hstep.freed]; exact h.killed t

theorem kill (h : ReclaimInv x) {mid : CpuState T} (hkill : KillEffect x y t mid)
    (hcurrent : Current x.kernel t) (hnew : t ∉ x.killed) : ReclaimInv y where
  ok := hkill.step.ok
  leaving u hu := by
    have hmid : Leaving mid u := by
      have hrun : Current mid u ↔ Current x.kernel u := by
        unfold Current
        rw [hkill.running]
      rw [hkill.killed] at hu
      rcases List.mem_cons.mp hu with rfl | hu
      · exact Or.inl ⟨hkill.exit, hrun.mpr hcurrent⟩
      · have hleaving := h.leaving u hu
        have hne : u ≠ t := fun he => hnew (he ▸ hu)
        unfold Leaving
        rw [hrun, hkill.other u hne hleaving.gone]
        exact hleaving
    exact hmid.of_step (hkill.step.gone u hmid.gone)
  nodup := by
    rw [hkill.releaseQueue, hkill.freed]
    have hperm : (x.releaseQueue ++ [t] ++ x.freed).Perm (t :: (x.releaseQueue ++ x.freed)) := by
      rw [List.append_assoc]
      exact List.perm_middle
    refine hperm.nodup_iff.mpr (List.nodup_cons.mpr ⟨fun hin => hnew ?_, h.nodup⟩)
    exact (h.killed t).mpr (List.mem_append.mp hin)
  killed u := by
    rw [hkill.killed, hkill.releaseQueue, hkill.freed, List.mem_cons, h.killed u, List.mem_append,
      List.mem_singleton]
    tauto

theorem daem (h : ReclaimInv x) (ht : t ∈ x.releaseQueue) : ReclaimInv (Reclaim.daem x t) := by
  have hperm := List.perm_cons_erase ht
  unfold Reclaim.daem
  split
  · refine ⟨h.ok, h.leaving, ?_, fun u => ?_⟩
    · have hmove : (x.releaseQueue.erase t ++ t :: x.freed).Perm (x.releaseQueue ++ x.freed) :=
        List.perm_middle.trans (hperm.symm.append_right x.freed)
      exact hmove.nodup_iff.mpr h.nodup
    · rw [h.killed u, hperm.mem_iff, List.mem_cons, List.mem_cons]
      tauto
  · refine ⟨h.ok, h.leaving, ?_, fun u => ?_⟩
    · have hmove : (x.releaseQueue.erase t ++ [t] ++ x.freed).Perm (x.releaseQueue ++ x.freed) :=
        (List.perm_append_comm.trans hperm.symm).append_right x.freed
      exact hmove.nodup_iff.mpr h.nodup
    · rw [h.killed u, hperm.mem_iff, List.mem_append, List.mem_cons, List.mem_singleton]
      tauto

theorem step {op : ReclaimOp T} (h : ReclaimInv x) (hguard : reclaimGuard x op = true)
    (hstep : reclaimStep x op = some y) : ReclaimInv y := by
  rcases reclaimStep_cases h.ok hstep with hplain | ⟨cur, t, mid, rfl, hcpu, hcur, hkill⟩ | ⟨t, ht, rfl⟩
  · exact h.plain hplain
  · obtain ⟨hrunning, hnew⟩ := of_decide_eq_true hguard hcpu
    exact h.kill hkill ⟨cur, hcur, hrunning⟩ hnew
  · exact h.daem ht

end ReclaimInv

/-- The switch away from an EXIT thread makes it RELEASE. -/
theorem switchContext_exit (h : KernelOk s) (hexit : s.state (s.running cur) = ACORAL_THREAD_STATE_EXIT)
    (hstep : acoralSwitchContext cur s = some s') :
    s'.state (s.running cur) = ACORAL_THREAD_STATE_RELEASE := by
  obtain ⟨next, hsel, hs'⟩ := Option.map_eq_some_iff.mp hstep
  have hready := (h.selected hsel).1
  have hne : s.running cur ≠ next := by
    rintro rfl
    have hnot : (s.sched.thread (s.running cur)).isReady = false := Gone.not_ready (Or.inl hexit)
    rw [hnot] at hready
    cases hready
  split at hs'
  · split at hs'
    · subst hs'
      simp [CpuState.setState, CpuState.state, CpuState.setNeedSched]
    · rename_i hnot
      exact absurd hexit hnot
  · rename_i hsame
    exact absurd (Or.inl hne) hsame

/-- Take any run in which the kills that take effect are of threads that run.
In the state it ends in, a thread of the release queue that is EXIT runs; the
next switch of a CPU makes its thread RELEASE, if it was killed; and a killed
thread that no longer runs is free, or the daemon frees it when it looks. -/
theorem kill_reclaimed {ops : List (ReclaimOp T)} (hx : x.Fresh)
    (hrun : run (guarded reclaimGuard reclaimStep) x ops = some y) :
    (∀ t ∈ y.releaseQueue, y.kernel.state t = ACORAL_THREAD_STATE_EXIT → Current y.kernel t) ∧
    (∀ cur < CFG_MAX_CPU, y.kernel.running cur ∈ y.killed → ∀ s',
      acoralSwitchContext cur y.kernel = some s' →
        s'.state (y.kernel.running cur) = ACORAL_THREAD_STATE_RELEASE) ∧
    ∀ t ∈ y.killed, ¬ Current y.kernel t →
      t ∈ y.freed ∨ ∃ z, reclaimStep y (.daem t) = some z ∧ t ∈ z.freed := by
  have hinv : ReclaimInv y :=
    Lib.guarded_induct (P := ReclaimInv) (fun _ _ _ h hguard hstep => h.step hguard hstep)
      (ReclaimInv.start hx) hrun
  refine ⟨fun t ht hexit => ?_, fun cur hcur hin s' hswitch => ?_, fun t ht hoff => ?_⟩
  · rcases hinv.leaving t ((hinv.killed t).mpr (Or.inl ht)) with hleaving | hleaving
    · exact hleaving.2
    · rw [hexit] at hleaving
      exact absurd hleaving.1 (by decide)
  · rcases hinv.leaving _ hin with hleaving | hleaving
    · exact switchContext_exit hinv.ok hleaving.1 hswitch
    · exact absurd ⟨cur, hcur, rfl⟩ hleaving.2
  · rcases hinv.leaving t ht with hleaving | hleaving
    · exact absurd hleaving.2 hoff
    · rcases (hinv.killed t).mp ht with hqueued | hfreed
      · refine Or.inr ⟨daem y t, if_pos hqueued, ?_⟩
        unfold daem
        rw [if_pos hleaving.1]
        exact List.mem_cons_self
      · exact Or.inl hfreed

/-! ### Two CPUs -/

/-- Threads 0 to 2 on the first CPU, where 0 runs, and 3 and 4 on the second
one, where 3 runs. Thread 2 is the daemon. -/
def fiveThreads : ReclaimState (Fin 5) where
  kernel :=
    { sched := readyThreads (fun t => t.val) fun t => if t < 3 then 0 else 1
      running := fun cpu => if cpu = 0 then 0 else 3
      preemptType := fun _ => .ACORAL_PREEMPT_LOCAL
      moveLock := fun _ => false
      criticalNesting := fun _ => 0
      schedLock := fun _ => false
      intrNesting := fun _ => 0
      schedEnable := true
      irqSwitch := fun _ => false }
  timeDelayQueue := []
  releaseQueue := []
  daemon := 2
  killCmds := []
  killed := []
  freed := []

theorem fiveThreads_fresh : fiveThreads.Fresh where
  ok := ⟨readyThreads_ready _ _, by decide⟩
  releaseQueue := rfl
  killed := rfl
  freed := rfl

/-- Thread 0 is killed while it runs, and thread 3 by a command to its CPU;
both come free. -/
theorem kill_reclaimed_five :
    ∃ y, run (guarded reclaimGuard reclaimStep) fiveThreads
        [.kill 0 3, .kill 1 3, .kill 0 0, .daem 0] = some y ∧ y.freed = [0] ∧
      (∀ t ∈ y.releaseQueue, y.kernel.state t = ACORAL_THREAD_STATE_EXIT → Current y.kernel t) ∧
      ∀ t ∈ y.killed, ¬ Current y.kernel t →
        t ∈ y.freed ∨ ∃ z, reclaimStep y (.daem t) = some z ∧ t ∈ z.freed := by
  have heval : (run (guarded reclaimGuard reclaimStep) fiveThreads
      [.kill 0 3, .kill 1 3, .kill 0 0, .daem 0]).any (fun y => decide (y.freed = [0])) = true := by
    decide +kernel
  obtain ⟨y, hrun, hy⟩ := (Option.any_eq_true ..).mp heval
  obtain ⟨hexit, -, hfreed⟩ := kill_reclaimed fiveThreads_fresh hrun
  exact ⟨y, hrun, of_decide_eq_true hy, hexit, hfreed⟩

/-- Thread 1 is killed while it is READY, and a thread that was suspended
before: they are EXIT in the release queue, on no CPU, and stay so. -/
theorem kill_ready_lost :
    fiveThreads.Fresh ∧
    (∃ y, run reclaimStep fiveThreads [.kill 0 1] = some y ∧ 1 ∈ y.releaseQueue ∧
      y.kernel.state 1 = ACORAL_THREAD_STATE_EXIT ∧ ¬ Current y.kernel 1) ∧
    ∃ y, run reclaimStep fiveThreads [.kernel 0 (.suspend 1), .kill 0 1, .daem 1, .kernel 0 .sched,
        .daem 1] = some y ∧ 1 ∈ y.releaseQueue ∧
      y.kernel.state 1 = ACORAL_THREAD_STATE_EXIT ∧ ¬ Current y.kernel 1 := by
  have hsplit : ∀ {r : Option (ReclaimState (Fin 5))},
      r.any (fun y => decide (1 ∈ y.releaseQueue ∧ y.kernel.state 1 = ACORAL_THREAD_STATE_EXIT ∧
        ∀ cpu < CFG_MAX_CPU, y.kernel.running cpu ≠ 1)) = true →
      ∃ y, r = some y ∧ 1 ∈ y.releaseQueue ∧ y.kernel.state 1 = ACORAL_THREAD_STATE_EXIT ∧
        ¬ Current y.kernel 1 := by
    intro r heval
    obtain ⟨y, hrun, hy⟩ := (Option.any_eq_true ..).mp heval
    obtain ⟨hin, hexit, hoff⟩ := of_decide_eq_true hy
    exact ⟨y, hrun, hin, hexit, fun ⟨cpu, hlt, hcpu⟩ => hoff cpu hlt hcpu⟩
  refine ⟨fiveThreads_fresh, hsplit ?_, hsplit ?_⟩ <;> decide +kernel

end ACoral.Reclaim
