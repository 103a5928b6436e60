import ACoral.Proofs.ReadyArray
import ACoral.Proofs.Switch

/-!
# `ACoral.Proofs.Preempt`: a preemption that is lost

`acoral_switch_context` clears `need_sched` also when it refuses to switch,
because the running thread is globally preemptive. When that thread goes
back to local preemption nothing sets `need_sched` again.

The invariant is `PreemptInv`: a running thread that is not READY has
`need_sched` set, and so has a local one while a more urgent thread is
queued. Every operation keeps it, but for a change to local preemption
while it is owed.

- `preempt_kept`: no preemption is lost in the runs without such a change.
- `preempt_lost`: one that is.
-/

set_option autoImplicit false

namespace ACoral

open Lib (run)

variable {T : Type} [DecidableEq T] {cur : Nat}

/-! ### The invariant -/

omit [DecidableEq T] in
/-- The invariant of the ready array is about nothing else. -/
theorem SameReady.readyInv {k k' : Sched T} (h : SameReady k k') {clock : Nat} {stamp : T → Nat}
    (hk : ReadyInv cur ⟨k, clock, stamp⟩) : ReadyInv cur ⟨k', clock, stamp⟩ := by
  constructor
  case cpu => exact fun t => (h.cpu t).trans (hk.cpu t)
  case prio_lt => exact fun t => (h.prio t) ▸ hk.prio_lt t
  case flags => exact fun t => by rw [h.suspended, h.ready]; exact hk.flags t
  case bit => exact fun p => by rw [h.array]; exact hk.bit p
  case num => rw [h.array]; exact hk.num
  case mem => exact fun t p => by rw [h.array, h.ready, h.prio]; exact hk.mem t p
  case sorted => exact fun p => by rw [h.array]; exact hk.sorted p
  case stamp_lt => exact fun t ht => hk.stamp_lt t (by rwa [h.ready] at ht)

/-- The ready array of the CPU is in order. -/
def ArrayOk (cur : Nat) (k : Sched T) : Prop := ∃ clock stamp, ReadyInv cur ⟨k, clock, stamp⟩

/-- `need_sched` is set while the running thread is to be switched away
from. -/
structure PreemptInv (cur : Nat) (s : CpuState T) : Prop where
  array : ArrayOk cur s.sched
  suspended : (s.sched.thread (s.running cur)).isReady = false → s.sched.needSched cur = true
  owed : s.preemptType (s.running cur) = .ACORAL_PREEMPT_LOCAL → s.urgentQueued cur = true →
    s.sched.needSched cur = true

theorem ArrayOk.of_next {r : SchedRun T} {k : Sched T} {t : T} {enq : Bool}
    (h : ReadyInv cur (r.next k t enq)) : ArrayOk cur k := by
  cases enq with
  | false => exact ⟨_, _, h⟩
  | true => exact ⟨_, _, h⟩

omit [DecidableEq T] in
theorem urgentQueued_iff (s : CpuState T) :
    s.urgentQueued cur = true ↔
      ∃ p < s.runningPrio cur, (s.sched.readyQueues cur).queue p ≠ [] := by
  simp [CpuState.urgentQueued]

omit [DecidableEq T] in
/-- A selected thread is READY, and no queue before its own has a thread. -/
theorem ArrayOk.selected {k : Sched T} (h : ArrayOk cur k) {next : T}
    (hsel : (acoralSelectThread cur k).readyThread cur = some next) :
    (k.thread next).isReady = true ∧
      ∀ p < (k.thread next).prio, (k.readyQueues cur).queue p = [] := by
  obtain ⟨clock, stamp, hk⟩ := h
  simp only [acoralSelectThread, Function.update_self] at hsel
  have hmem := List.mem_of_mem_head? hsel
  obtain ⟨hready, hprio⟩ := (hk.mem next _).mp hmem
  have hnum : (k.readyQueues cur).num ≠ 0 := by
    intro hzero
    have htotal : (k.readyQueues cur).total = 0 := hk.num.symm.trans hzero
    have hlt : acoralThreadGetHighPrio (k.readyQueues cur) < ACORAL_MAX_PRIO_NUM :=
      hprio ▸ hk.prio_lt next
    have hnil := Finset.sum_eq_zero_iff.mp htotal _ (Finset.mem_range.mpr hlt)
    rw [List.eq_nil_of_length_eq_zero hnil] at hmem
    cases hmem
  refine ⟨hready, fun p hp => ?_⟩
  have hclear := (hk.getHighPrio hnum).2 p (hprio ▸ hp)
  by_contra hne
  rw [(hk.bit p).mpr hne] at hclear
  cases hclear

namespace PreemptInv

omit [DecidableEq T] in
theorem of_need {s : CpuState T} (h : ArrayOk cur s.sched) (hneed : s.sched.needSched cur = true) :
    PreemptInv cur s :=
  ⟨h, fun _ => hneed, fun _ _ => hneed⟩

omit [DecidableEq T] in
/-- Nothing is owed while the selected thread runs. -/
theorem of_selected {k : Sched T} (h : ArrayOk cur k) {next : T}
    (hsel : (acoralSelectThread cur k).readyThread cur = some next) {s : CpuState T}
    (hsame : SameReady k s.sched) (hrun : s.running cur = next) : PreemptInv cur s := by
  obtain ⟨hready, hmin⟩ := h.selected hsel
  obtain ⟨clock, stamp, hk⟩ := h
  refine ⟨⟨clock, stamp, hsame.readyInv hk⟩, fun hnot => ?_, fun _ hurgent => ?_⟩
  · rw [hrun, hsame.ready] at hnot
    exact absurd (hready.symm.trans hnot) nofun
  · obtain ⟨p, hp, hne⟩ := (urgentQueued_iff s).mp hurgent
    rw [CpuState.runningPrio, hrun, hsame.prio] at hp
    rw [hsame.array] at hne
    exact absurd (hmin p hp) hne

/-- After the switch the running thread is the one selected, or it is one
that may keep the CPU. -/
theorem switchContext {s s' : CpuState T} (h : ArrayOk cur s.sched)
    (hswitch : acoralSwitchContext cur s = some s') : PreemptInv cur s' := by
  obtain ⟨clock, stamp, hk⟩ := h
  have hflags := hk.flags (s.running cur)
  have hexit : s.state (s.running cur) ≠ ACORAL_THREAD_STATE_EXIT := by
    intro hstate
    have hstate' : (s.sched.thread (s.running cur)).state = ACORAL_THREAD_STATE_EXIT := hstate
    rw [Tcb.isSuspended, Tcb.isReady, hstate'] at hflags
    exact absurd hflags (by decide)
  obtain ⟨hsame, next, hsel, hrun | ⟨hrun, htype, hsuspended, hnot⟩⟩ :=
    acoralSwitchContext_cases hexit hswitch
  · exact of_selected ⟨clock, stamp, hk⟩ hsel hsame hrun
  · -- the running thread keeps the CPU: it is READY, and not local
    rw [Tcb.isSuspended, show hasFlag (s.sched.thread (s.running cur)).state
      ACORAL_THREAD_STATE_SUSPEND = false from hsuspended] at hflags
    refine ⟨⟨clock, stamp, hsame.readyInv hk⟩, fun hready => ?_, fun hlocal => ?_⟩
    · rw [hrun, hsame.ready] at hready
      rw [hready] at hflags
      cases hflags
    · rw [hrun, htype] at hlocal
      exact absurd hlocal hnot

/-! ### The operations -/

omit [DecidableEq T] in
/-- The locks and the nesting counters do not matter. -/
theorem congr {s s' : CpuState T} (h : PreemptInv cur s) (hsched : s'.sched = s.sched)
    (hrunning : s'.running = s.running) (htype : s'.preemptType = s.preemptType) :
    PreemptInv cur s' := by
  constructor
  · rw [hsched]
    exact h.array
  · rw [hsched, hrunning]
    exact h.suspended
  · rw [CpuState.urgentQueued, CpuState.runningPrio, hsched, hrunning, htype]
    exact h.owed

/-- A schedule point. -/
theorem sched {s s' : CpuState T} (h : PreemptInv cur s) (hstep : acoralSched cur s = some s') :
    PreemptInv cur s' := by
  rw [acoralSched] at hstep
  split at hstep
  · cases hstep
    exact h
  split at hstep
  · cases hstep
    exact h
  split at hstep
  · cases hstep
    exact h
  split at hstep
  · cases hstep
    exact h
  · exact switchContext h.array hstep

/-- The end of an interrupt, with whatever its flag says. -/
theorem irqReturn {s s' : CpuState T} (h : PreemptInv cur s) (hstep : halIrqReturn cur s = some s') :
    PreemptInv cur s' := by
  have hreturn : PreemptInv cur (acoralIntrReturn cur s) := by
    refine h.congr ?_ ?_ ?_ <;>
    · rw [acoralIntrReturn, acoralIntrExit]
      split_ifs <;> rfl
  rw [halIrqReturn] at hstep
  split at hstep
  · exact switchContext hreturn.array hstep
  · cases hstep
    exact hreturn

omit [DecidableEq T] in
theorem enterCritical {s : CpuState T} (h : PreemptInv cur s) :
    PreemptInv cur (acoralEnterCritical cur s) := by
  refine h.congr ?_ ?_ ?_ <;> rw [acoralEnterCritical] <;> split <;> rfl

theorem exitCritical {s s' : CpuState T} (h : PreemptInv cur s)
    (hstep : acoralExitCritical cur s = some s') : PreemptInv cur s' := by
  rw [acoralExitCritical] at hstep
  split at hstep
  · refine sched ?_ hstep
    exact h.congr rfl rfl rfl
  · cases hstep
    exact h.congr rfl rfl rfl

/-- A critical section: what its body leaves is seen by the schedule point
at its end. -/
theorem criticalSection {s s' : CpuState T} {body : Sched T → Sched T}
    (h : PreemptInv cur { s with sched := body s.sched })
    (hstep : criticalSection cur body s = some s') : PreemptInv cur s' := by
  refine exitCritical (h.congr ?_ ?_ ?_) hstep
  · simp only [acoralEnterCritical]
    split <;> rfl
  · simp only [acoralEnterCritical]
    split <;> rfl
  · simp only [acoralEnterCritical]
    split <;> rfl

theorem rdy {s s' : CpuState T} (h : PreemptInv cur s) {t : T}
    (hstep : cpuRdyThread cur s t = some s') : PreemptInv cur s' := by
  obtain ⟨clock, stamp, hk⟩ := h.array
  rw [cpuRdyThread, hk.cpu t] at hstep
  split at hstep
  · rename_i hnot
    have hstate : hasFlag (s.sched.thread t).state ACORAL_THREAD_STATE_SUSPEND = false :=
      hnot.resolve_right fun hne => hne rfl
    rw [acoralRdyThread, if_pos hstate] at hstep
    cases hstep
    exact h
  · rename_i hnot
    have hsuspended : (s.sched.thread t).isSuspended = true :=
      Bool.not_eq_false _ ▸ (not_or.mp hnot).1
    refine criticalSection (of_need ⟨_, _, hk.add ?_⟩ ?_) hstep
    · have hflags := hk.flags t
      rw [hsuspended] at hflags
      exact Bool.not_eq_true _ ▸ fun hr => by rw [hr] at hflags; cases hflags
    · simp [acoralSchedRdyqueueAdd]

theorem suspend {s s' : CpuState T} (h : PreemptInv cur s) {t : T}
    (hstep : cpuSuspendThread cur s t = some s') : PreemptInv cur s' := by
  obtain ⟨clock, stamp, hk⟩ := h.array
  rw [cpuSuspendThread, hk.cpu t] at hstep
  split at hstep
  · rename_i hnot
    have hstate : hasFlag (s.sched.thread t).state ACORAL_THREAD_STATE_READY = false :=
      hnot.resolve_right fun hne => hne rfl
    rw [acoralSuspendThread, if_pos hstate] at hstep
    cases hstep
    exact h
  · rename_i hnot
    have hready : (s.sched.thread t).isReady = true := Bool.not_eq_false _ ▸ (not_or.mp hnot).1
    exact criticalSection (of_need ⟨_, _, hk.del hready⟩ (by simp [acoralSchedRdyqueueDel])) hstep

/-- The priority of a thread that is not READY changes without a call of
the scheduler. If that is the running thread, `need_sched` is set already. -/
theorem changePrio {s s' : CpuState T} (h : PreemptInv cur s) {t : T} {prio : Nat}
    (hprio : prio % 256 < ACORAL_MAX_PRIO_NUM) (hstep : cpuChangePrio cur s t prio = some s') :
    PreemptInv cur s' := by
  obtain ⟨clock, stamp, hk⟩ := h.array
  have hcpu : (s.sched.thread t).cpu = cur := hk.cpu t
  rw [cpuChangePrio, hcpu, if_neg fun hne => hne rfl] at hstep
  have hmove := hk.changePrio t hprio
  refine criticalSection ?_ hstep
  cases hready : (s.sched.thread t).isReady with
  | true =>
      have hflag : hasFlag (s.sched.thread t).state ACORAL_THREAD_STATE_READY = true := hready
      refine of_need (ArrayOk.of_next hmove) ?_
      simp [acoralThreadChangePrio, hcpu, hflag, acoralSchedRdyqueueAdd]
  | false =>
      have hflag : hasFlag (s.sched.thread t).state ACORAL_THREAD_STATE_READY = false := hready
      have hbody : acoralThreadChangePrio cur s.sched t prio = s.sched.setPrio t prio := by
        rw [acoralThreadChangePrio, hcpu, if_neg fun hne => hne rfl, hflag,
          if_neg Bool.false_ne_true]
      rw [hbody]
      refine ⟨⟨_, _, hk.setPrio hready hprio⟩, fun hnot => h.suspended ?_, fun hlocal hurgent => ?_⟩
      · rw [← hnot]
        by_cases he : s.running cur = t <;> simp [Sched.setPrio, Tcb.isReady, he]
      · by_cases he : s.running cur = t
        · exact h.suspended (he ▸ hready)
        · refine h.owed hlocal ?_
          simpa [CpuState.urgentQueued, CpuState.runningPrio, Sched.setPrio, he] using hurgent

end PreemptInv

/-! ### Runs -/

/-- The running thread does not go back to local preemption while a
preemption is owed and `need_sched` is clear. -/
def keepsPreemption (cur : Nat) (s : CpuState T) : SwitchOp T → Bool
  | .setPreemptType t .ACORAL_PREEMPT_LOCAL =>
      decide (t ≠ s.running cur) || s.sched.needSched cur || !s.urgentQueued cur
  | _ => true

/-- No preemption is lost: where scheduling is permitted and the running
thread is local, `need_sched` is set if a more urgent thread is queued. -/
def PreemptionKept (cur : Nat) (s : CpuState T) : Prop :=
  s.criticalNesting cur = 0 → s.schedLock cur = false → s.intrNesting cur = 0 →
    s.preemptType (s.running cur) = .ACORAL_PREEMPT_LOCAL →
    (∃ t p, t ∈ (s.sched.readyQueues cur).queue p ∧ (s.sched.thread t).isReady = true ∧
      (s.sched.thread t).prio < s.runningPrio cur) →
    s.sched.needSched cur = true

namespace PreemptInv

theorem setPreemptType {s : CpuState T} (h : PreemptInv cur s) {t : T} {type : PreemptType}
    (hkeep : keepsPreemption cur s (.setPreemptType t type) = true) :
    PreemptInv cur (s.setPreemptType t type) := by
  refine ⟨h.array, h.suspended, fun hlocal hurgent => ?_⟩
  by_cases ht : s.running cur = t
  · subst ht
    have htype : type = .ACORAL_PREEMPT_LOCAL := by
      simpa [CpuState.setPreemptType] using hlocal
    subst htype
    have hurgent' : s.urgentQueued cur = true := hurgent
    have hneed : s.sched.needSched cur = true := by simpa [keepsPreemption, hurgent'] using hkeep
    exact hneed
  · refine h.owed ?_ hurgent
    simpa [CpuState.setPreemptType, ht] using hlocal

theorem step {s s' : CpuState T} {op : SwitchOp T} (h : PreemptInv cur s)
    (hkeep : keepsPreemption cur s op = true) (hstep : switchStep cur s op = some s') :
    PreemptInv cur s' := by
  cases op with
  | rdy t => exact h.rdy hstep
  | suspend t => exact h.suspend hstep
  | changePrio t prio =>
      simp only [switchStep, Option.ite_none_right_eq_some] at hstep
      exact h.changePrio hstep.1 hstep.2
  | setPreemptType t type =>
      cases hstep
      exact h.setPreemptType hkeep
  | enterCritical =>
      cases hstep
      exact h.enterCritical
  | exitCritical => exact h.exitCritical hstep
  | sched => exact h.sched hstep
  | schedLock =>
      cases hstep
      exact h.congr rfl rfl rfl
  | schedUnlock =>
      refine sched ?_ hstep
      exact h.congr rfl rfl rfl
  | intrEntry =>
      cases hstep
      exact h.congr rfl rfl rfl
  | intrExit => exact h.irqReturn hstep

omit [DecidableEq T] in
/-- A READY thread of the array is in the queue of its priority. -/
theorem kept {s : CpuState T} (h : PreemptInv cur s) : PreemptionKept cur s := by
  rintro - - - hlocal ⟨t, p, hmem, -, hprio⟩
  obtain ⟨clock, stamp, hk⟩ := h.array
  have hp : (s.sched.thread t).prio = p := ((hk.mem t p).mp hmem).2
  exact h.owed hlocal ((urgentQueued_iff s).mpr ⟨p, hp ▸ hprio, List.ne_nil_of_mem hmem⟩)

/-- The operating system starts with the thread of the highest priority. -/
theorem start {s s' : CpuState T} (h : ArrayOk cur s.sched)
    (hstart : acoralStartOs cur s = some s') : PreemptInv cur s' := by
  obtain ⟨next, hsel, hs'⟩ := Option.map_eq_some_iff.mp hstart
  subst hs'
  have hselect : SameReady s.sched (acoralSelectThread cur (s.setNeedSched cur false).sched) :=
    (SameReady.setNeedSched s false).trans (SameReady.selectThread _)
  refine of_selected h hsel ?_ (Function.update_self ..)
  exact hselect.trans (SameReady.setRunningThread cur
    { s.setNeedSched cur false with
      sched := acoralSelectThread cur (s.setNeedSched cur false).sched
      criticalNesting := Function.update s.criticalNesting cur 0
      schedLock := Function.update s.schedLock cur false } next)

theorem boot {thread : T → Tcb} (hcpu : ∀ t, (thread t).cpu = cur)
    (hprio : ∀ t, (thread t).prio < ACORAL_MAX_PRIO_NUM)
    (hsusp : ∀ t, (thread t).state = ACORAL_THREAD_STATE_SUSPEND) (s : CpuState T)
    (boot : List T) : ArrayOk cur (bootState cur s thread boot).sched := by
  have hfold : ∀ k : Sched T, ArrayOk cur k →
      ArrayOk cur (boot.foldl (fun k t => (acoralRdyThread cur k t).2) k) := by
    induction boot with
    | nil => exact fun k hk => hk
    | cons t boot ih =>
        rintro k ⟨clock, stamp, hk⟩
        exact ih _ (ArrayOk.of_next (hk.rdy t))
  exact hfold _ ⟨_, _, ReadyInv.init hcpu hprio hsusp⟩

end PreemptInv

/-- Take any run on one CPU, from the start of the operating system on, in
which the running thread never goes back to local preemption while a
preemption is owed. No preemption is lost in the state it ends in. -/
theorem preempt_kept {thread : T → Tcb} (hcpu : ∀ t, (thread t).cpu = cur)
    (hprio : ∀ t, (thread t).prio < ACORAL_MAX_PRIO_NUM)
    (hsusp : ∀ t, (thread t).state = ACORAL_THREAD_STATE_SUSPEND) {s₀ s₁ s : CpuState T}
    {boot : List T} (hstart : acoralStartOs cur (bootState cur s₀ thread boot) = some s₁)
    {ops : List (SwitchOp T)}
    (hrun : run (Lib.guarded (keepsPreemption cur) (switchStep cur)) s₁ ops = some s) :
    PreemptionKept cur s :=
  PreemptInv.kept (Lib.guarded_induct (fun _ _ _ h hkeep hstep => h.step hkeep hstep)
    (PreemptInv.start (PreemptInv.boot hcpu hprio hsusp s₀ boot) hstart) hrun)

/-- The state before the start: two threads of CPU 0. -/
def twoPrios : CpuState Bool :=
  { sched := acoralSchedRdyqueueInit twoThreads
    running := fun _ => true
    preemptType := fun _ => .ACORAL_PREEMPT_LOCAL
    moveLock := fun _ => false
    criticalNesting := fun _ => 0
    schedLock := fun _ => false
    intrNesting := fun _ => 0
    schedEnable := true
    irqSwitch := fun _ => false }

/-- The running thread is made globally preemptive, and goes back after the
more urgent thread has been readied. -/
def globalRun (wake : Bool) : List (SwitchOp Bool) :=
  [.setPreemptType true .ACORAL_PREEMPT_GLOBAL] ++
    (if wake then [.rdy false] else [.changePrio true 45]) ++
      [.setPreemptType true .ACORAL_PREEMPT_LOCAL]

theorem preempt_kept_twoPrios :
    ∃ s₁ s, acoralStartOs 0 (bootState 0 twoPrios twoThreads [true]) = some s₁ ∧
      run (Lib.guarded (keepsPreemption 0) (switchStep 0)) s₁ (globalRun false ++ [.rdy false]) =
        some s ∧ s.running 0 = false ∧ PreemptionKept 0 s := by
  have heval : ((acoralStartOs 0 (bootState 0 twoPrios twoThreads [true])).bind fun s₁ =>
      (run (Lib.guarded (keepsPreemption 0) (switchStep 0)) s₁
        (globalRun false ++ [.rdy false]))).any (fun s => decide (s.running 0 = false)) = true := by
    decide +kernel
  obtain ⟨s, hs, hrunning⟩ := (Option.any_eq_true ..).mp heval
  obtain ⟨s₁, hstart, hrun⟩ := Option.bind_eq_some_iff.mp hs
  have hcpu : ∀ t, (twoThreads t).cpu = 0 := fun _ => rfl
  have hprio : ∀ t, (twoThreads t).prio < ACORAL_MAX_PRIO_NUM := by decide
  have hsusp : ∀ t, (twoThreads t).state = ACORAL_THREAD_STATE_SUSPEND := fun _ => rfl
  have hkept := preempt_kept hcpu hprio hsusp hstart hrun
  exact ⟨s₁, s, hstart, hrun, of_decide_eq_true hrunning, hkept⟩

/-- A preemption that is lost: the more urgent thread is queued, scheduling
is permitted, and nothing will switch to it. -/
def lostIn (s : CpuState Bool) : Bool :=
  decide (s.criticalNesting 0 = 0 ∧ s.schedLock 0 = false ∧ s.intrNesting 0 = 0) &&
    decide (s.preemptType (s.running 0) = .ACORAL_PREEMPT_LOCAL) &&
    decide (false ∈ (s.sched.readyQueues 0).queue 3) && (s.sched.thread false).isReady &&
    decide ((s.sched.thread false).prio < s.runningPrio 0) && !s.sched.needSched 0

theorem not_kept_of_lostIn {s : CpuState Bool} (h : lostIn s = true) : ¬ PreemptionKept 0 s := by
  simp only [lostIn, Bool.and_eq_true, decide_eq_true_eq, Bool.not_eq_true'] at h
  obtain ⟨⟨⟨⟨⟨⟨hnest, hlock, hintr⟩, hlocal⟩, hmem⟩, hready⟩, hprio⟩, hneed⟩ := h
  intro hkept
  have hset := hkept hnest hlock hintr hlocal ⟨false, 3, hmem, hready, hprio⟩
  rw [hneed] at hset
  cases hset

theorem preempt_lost :
    ∃ s₁ s, acoralStartOs 0 (bootState 0 twoPrios twoThreads [true]) = some s₁ ∧
      run (switchStep 0) s₁ (globalRun true) = some s ∧ ¬ PreemptionKept 0 s := by
  have heval : ((acoralStartOs 0 (bootState 0 twoPrios twoThreads [true])).bind fun s₁ =>
      run (switchStep 0) s₁ (globalRun true)).any lostIn = true := by
    decide +kernel
  obtain ⟨s, hs, hlost⟩ := (Option.any_eq_true ..).mp heval
  obtain ⟨s₁, hstart, hrun⟩ := Option.bind_eq_some_iff.mp hs
  exact ⟨s₁, s, hstart, hrun, not_kept_of_lostIn hlost⟩

end ACoral
