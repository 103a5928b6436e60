import ACoral.Kernel.Smp
import ACoral.Proofs.Switch

/-!
# `ACoral.Proofs.SmpReady`: ready arrays and migration

A thread that is between two CPUs is SUSPEND on the one it leaves. Nothing
keeps a third party from making it ready there, and the command that
arrives at the target then changes the CPU of a READY thread.

Three kinds of steps trust a test that another CPU, or an interrupt, may
have outdated: the critical section of `acoral_rdy_thread`, that of
`acoral_suspend_thread`, and the write of `thread->cpu` in
`acoral_movein_thread`. Each of them does what it should exactly if the
thread is still in the state it needs (`smpUpToDate`).

- `smp_readyLinked`: in the runs of such steps a READY thread is linked
  once, in the array of its CPU, and a step that is not one breaks this.
- `movein_of_ready`: a thread that is readied while it moves.
-/

set_option autoImplicit false

namespace ACoral

variable {A T : Type} [DecidableEq A] [DecidableEq T]

/-- How often a thread is linked in the array of a CPU at a priority. -/
def Sched.linked (k : Sched T) (t : T) (cpu prio : Nat) : Nat :=
  ((k.readyQueues cpu).queue prio).count t

/-- A READY thread is linked once, in the array of the CPU that it names. -/
def ReadyLinked (k : Sched T) : Prop :=
  ∀ t, (k.thread t).isReady = true → ∀ cpu prio,
    k.linked t cpu prio = if cpu = (k.thread t).cpu ∧ prio = (k.thread t).prio then 1 else 0

/-- The invariant: a thread is READY or SUSPEND, and a SUSPEND thread is not
linked. -/
structure SmpInv (k : Sched T) : Prop where
  flags : ∀ t, (k.thread t).isSuspended = !(k.thread t).isReady
  ready : ReadyLinked k
  suspended : ∀ t, (k.thread t).isReady = false → ∀ cpu prio, k.linked t cpu prio = 0

namespace SmpInv

variable {k : Sched T}

/-- Other bits of the state do not matter. -/
theorem sameReady (h : SmpInv k) {k' : Sched T} (hsame : SameReady k k') : SmpInv k' := by
  constructor
  · intro t
    rw [hsame.suspended, hsame.ready]
    exact h.flags t
  · intro t ht cpu prio
    rw [hsame.ready] at ht
    rw [Sched.linked, hsame.array, hsame.cpu, hsame.prio]
    exact h.ready t ht cpu prio
  · intro t ht cpu prio
    rw [hsame.ready] at ht
    rw [Sched.linked, hsame.array]
    exact h.suspended t ht cpu prio

/-! ### The three steps -/

/-- What `acoral_sched_rdyqueue_add` does to the links. -/
theorem linked_add (cur : Nat) (k : Sched T) (t u : T) (cpu prio : Nat) :
    (acoralSchedRdyqueueAdd cur k t).linked u cpu prio =
      k.linked u cpu prio +
        if u = t ∧ cpu = (k.thread t).cpu ∧ prio = (k.thread t).prio then 1 else 0 := by
  by_cases hc : cpu = (k.thread t).cpu
  · by_cases hp : prio = (k.thread t).prio
    · by_cases hu : u = t
      · simp [Sched.linked, acoralSchedRdyqueueAdd, acoralThreadPrioQueueAdd, hc, hp, hu]
      · simp [Sched.linked, acoralSchedRdyqueueAdd, acoralThreadPrioQueueAdd, hc, hp, hu,
          List.count_eq_zero.mpr]
    · simp [Sched.linked, acoralSchedRdyqueueAdd, acoralThreadPrioQueueAdd, hc, hp]
  · simp [Sched.linked, acoralSchedRdyqueueAdd, hc]

/-- What `acoral_sched_rdyqueue_del` does to the links. -/
theorem linked_del (cur : Nat) (k : Sched T) (t u : T) (cpu prio : Nat) :
    (acoralSchedRdyqueueDel cur k t).linked u cpu prio =
      k.linked u cpu prio - if u = t ∧ cpu = (k.thread t).cpu then 1 else 0 := by
  by_cases hc : cpu = (k.thread t).cpu
  · by_cases hu : u = t
    · simp [Sched.linked, acoralSchedRdyqueueDel, acoralThreadPrioQueueDel, PrioArray.unlink, hc,
        hu, List.count_erase_self]
    · simp [Sched.linked, acoralSchedRdyqueueDel, acoralThreadPrioQueueDel, PrioArray.unlink, hc,
        hu, List.count_erase_of_ne hu]
  · simp [Sched.linked, acoralSchedRdyqueueDel, hc]

/-- `acoral_sched_rdyqueue_add` of a SUSPEND thread. -/
theorem add (h : SmpInv k) (cur : Nat) {t : T} (ht : (k.thread t).isSuspended = true) :
    SmpInv (acoralSchedRdyqueueAdd cur k t) := by
  have hnot : (k.thread t).isReady = false := by
    have hflags := h.flags t
    rw [ht] at hflags
    cases hr : (k.thread t).isReady with
    | false => rfl
    | true =>
        rw [hr] at hflags
        cases hflags
  have hflag := hasFlag_readyState (k.thread t).state
  constructor
  · intro u
    by_cases hu : u = t
    · simp [acoralSchedRdyqueueAdd, hu, Tcb.isReady, Tcb.isSuspended, hflag]
    · simp [acoralSchedRdyqueueAdd, hu, h.flags]
  · intro u hu cpu prio
    rw [linked_add]
    by_cases hut : u = t
    · simp [acoralSchedRdyqueueAdd, hut, h.suspended t hnot]
    · have hold : ((acoralSchedRdyqueueAdd cur k t).thread u) = k.thread u := by
        simp [acoralSchedRdyqueueAdd, hut]
      rw [hold] at hu ⊢
      simp [hut, h.ready u hu]
  · intro u hu cpu prio
    have hut : u ≠ t := by
      rintro rfl
      simp [acoralSchedRdyqueueAdd, Tcb.isReady, hflag] at hu
    have hold : ((acoralSchedRdyqueueAdd cur k t).thread u) = k.thread u := by
      simp [acoralSchedRdyqueueAdd, hut]
    rw [hold] at hu
    rw [linked_add]
    simp [hut, h.suspended u hu]

/-- `acoral_sched_rdyqueue_del` of a READY thread. -/
theorem del (h : SmpInv k) (cur : Nat) {t : T} (ht : (k.thread t).isReady = true) :
    SmpInv (acoralSchedRdyqueueDel cur k t) := by
  have hflag := hasFlag_suspendState (k.thread t).state
  constructor
  · intro u
    by_cases hu : u = t
    · simp [acoralSchedRdyqueueDel, hu, Tcb.isReady, Tcb.isSuspended, hflag]
    · simp [acoralSchedRdyqueueDel, hu, h.flags]
  · intro u hu cpu prio
    have hut : u ≠ t := by
      rintro rfl
      simp [acoralSchedRdyqueueDel, Tcb.isReady, hflag] at hu
    have hold : ((acoralSchedRdyqueueDel cur k t).thread u) = k.thread u := by
      simp [acoralSchedRdyqueueDel, hut]
    rw [hold] at hu ⊢
    rw [linked_del, if_neg fun hc => hut hc.1, Nat.sub_zero]
    exact h.ready u hu cpu prio
  · intro u hu cpu prio
    rw [linked_del]
    by_cases hut : u = t
    · rw [hut, h.ready t ht cpu prio]
      by_cases hc : cpu = (k.thread t).cpu
      · have hone : (if t = t ∧ cpu = (k.thread t).cpu then 1 else 0) = 1 := if_pos ⟨rfl, hc⟩
        rw [hone]
        split <;> rfl
      · rw [if_neg fun hp => hc hp.1]
        exact Nat.zero_sub _
    · have hold : ((acoralSchedRdyqueueDel cur k t).thread u) = k.thread u := by
        simp [acoralSchedRdyqueueDel, hut]
      rw [hold] at hu
      rw [h.suspended u hu cpu prio]
      exact Nat.zero_sub _

/-- The CPU of a thread that is not READY. -/
theorem setCpu {s : CpuState T} (h : SmpInv s.sched) {t : T} {cpu : Nat}
    (ht : (s.sched.thread t).isReady = false ∨ (s.sched.thread t).cpu = cpu) :
    SmpInv (s.setCpu t cpu).sched := by
  have hflags : ∀ u, ((s.setCpu t cpu).sched.thread u).state = (s.sched.thread u).state := by
    intro u
    by_cases hu : u = t <;> simp [CpuState.setCpu, CpuState.setSched, hu]
  constructor
  · intro u
    rw [Tcb.isSuspended, Tcb.isReady, hflags]
    exact h.flags u
  · intro u hu c prio
    have hu' : (s.sched.thread u).isReady = true := by
      rwa [Tcb.isReady, hflags] at hu
    have hcpu : ((s.setCpu t cpu).sched.thread u).cpu = (s.sched.thread u).cpu := by
      by_cases hut : u = t
      · subst hut
        rcases ht with ht | ht
        · exact Bool.noConfusion (hu'.symm.trans ht)
        · simp [CpuState.setCpu, CpuState.setSched, ht]
      · simp [CpuState.setCpu, CpuState.setSched, hut]
    have hprio : ((s.setCpu t cpu).sched.thread u).prio = (s.sched.thread u).prio := by
      by_cases hut : u = t <;> simp [CpuState.setCpu, CpuState.setSched, hut]
    rw [hcpu, hprio]
    exact h.ready u hu' c prio
  · intro u hu c prio
    rw [Tcb.isReady, hflags] at hu
    exact h.suspended u hu c prio

end SmpInv

/-! ### Steps -/

/-- The test that a step trusts still holds when the step is taken. -/
def smpUpToDate (s : SmpState A T) : SmpOp A T → Bool
  | .step a =>
      match (s.call a).pc with
      | .rdyAdd t _     => (s.kernel.sched.thread t).isSuspended
      | .suspendDel t _ => (s.kernel.sched.thread t).isReady
      | .moveinCpu t    =>
          !(s.kernel.sched.thread t).isReady || decide (s.cpu t = (s.call a).cpu)
      | _               => true
  | _ => true

/-- A step removes a thread only from an array that it is in. -/
def RemovesLinked (s : SmpState A T) (op : SmpOp A T) : Prop :=
  ∀ a t next, op = .step a → (s.call a).pc = .suspendDel t next →
    0 < s.kernel.sched.linked t (s.cpu t) (s.kernel.sched.thread t).prio

/-- What a step does to the scheduler's data. -/
inductive SmpEffect (s : SmpState A T) (op : SmpOp A T) (k : Sched T) : Prop where
  | add (a : A) (t : T) (next : SmpPc T) (hop : op = .step a)
      (hpc : (s.call a).pc = .rdyAdd t next)
      (hk : k = acoralSchedRdyqueueAdd (s.call a).cpu s.kernel.sched t)
  | del (a : A) (t : T) (next : SmpPc T) (hop : op = .step a)
      (hpc : (s.call a).pc = .suspendDel t next)
      (hk : k = acoralSchedRdyqueueDel (s.call a).cpu s.kernel.sched t)
  | setCpu (a : A) (t : T) (hop : op = .step a) (hpc : (s.call a).pc = .moveinCpu t)
      (hk : k = (s.kernel.setCpu t (s.call a).cpu).sched)
  | other (hdel : ∀ a t next, op = .step a → (s.call a).pc ≠ .suspendDel t next)
      (hupToDate : smpUpToDate s op = true) (hsame : SameReady s.kernel.sched k)

theorem smpCallStep_effect {s s' : SmpState A T} {a : A} (hstep : smpCallStep s a = some s') :
    SmpEffect s (.step a) s'.kernel.sched := by
  -- a call that only goes on
  have hother : ∀ {pc : SmpPc T}, (s.call a).pc = pc →
      (∀ t next, pc ≠ .suspendDel t next) → smpUpToDate s (.step a) = true →
      ∀ {k : Sched T}, SameReady s.kernel.sched k → SmpEffect s (.step a) k := by
    intro pc hpc hdel htrue k hsame
    refine .other (fun b t next hop => ?_) htrue hsame
    cases hop
    exact hpc ▸ hdel t next
  rw [smpCallStep] at hstep
  simp only at hstep
  cases hpc : (s.call a).pc with
  | idle => simp [hpc] at hstep
  | rdy t next =>
      simp only [hpc] at hstep
      refine hother hpc nofun (by simp [smpUpToDate, hpc]) ?_
      split at hstep <;> cases hstep <;> exact SameReady.refl _
  | rdyCpu t next =>
      simp only [hpc] at hstep
      refine hother hpc nofun (by simp [smpUpToDate, hpc]) ?_
      split at hstep <;> cases hstep <;> exact SameReady.refl _
  | rdyAdd t next =>
      simp only [hpc] at hstep
      cases hstep
      exact .add a t next rfl hpc rfl
  | suspend t next =>
      simp only [hpc] at hstep
      refine hother hpc nofun (by simp [smpUpToDate, hpc]) ?_
      split at hstep <;> cases hstep <;> exact SameReady.refl _
  | suspendCpu t next =>
      simp only [hpc] at hstep
      refine hother hpc nofun (by simp [smpUpToDate, hpc]) ?_
      split at hstep <;> cases hstep <;> exact SameReady.refl _
  | suspendDel t next =>
      simp only [hpc] at hstep
      cases hstep
      exact .del a t next rfl hpc rfl
  | send cpu cmd next =>
      simp only [hpc, Option.ite_none_left_eq_some] at hstep
      refine hother hpc nofun (by simp [smpUpToDate, hpc]) ?_
      obtain ⟨-, hs⟩ := hstep
      cases hs
      exact SameReady.refl _
  | moveto t cpu =>
      simp only [hpc] at hstep
      refine hother hpc nofun (by simp [smpUpToDate, hpc]) ?_
      split at hstep
      · cases hstep
        exact SameReady.refl _
      · split at hstep <;> cases hstep <;> exact SameReady.refl _
  | movetoLock t cpu self =>
      simp only [hpc] at hstep
      refine hother hpc nofun (by simp [smpUpToDate, hpc]) ?_
      split at hstep <;> cases hstep
      exact SameReady.refl _
  | movetoCpu t cpu self =>
      simp only [hpc] at hstep
      refine hother hpc nofun (by simp [smpUpToDate, hpc]) ?_
      split at hstep <;> cases hstep <;> exact SameReady.refl _
  | movetoMark t cpu self =>
      simp only [hpc] at hstep
      refine hother hpc nofun (by simp [smpUpToDate, hpc]) ?_
      cases hstep
      exact SameReady.setState _ _ (hasFlag_setMove _)
  | movetoEnd t self =>
      simp only [hpc] at hstep
      refine hother hpc nofun (by simp [smpUpToDate, hpc]) ?_
      split at hstep <;> cases hstep <;> exact SameReady.refl _
  | movein t =>
      simp only [hpc] at hstep
      refine hother hpc nofun (by simp [smpUpToDate, hpc]) ?_
      split at hstep <;> cases hstep
      exact SameReady.refl _
  | moveinCpu t =>
      simp only [hpc] at hstep
      cases hstep
      exact .setCpu a t rfl hpc rfl
  | unlock t =>
      simp only [hpc] at hstep
      refine hother hpc nofun (by simp [smpUpToDate, hpc]) ?_
      cases hstep
      exact SameReady.refl _

theorem SmpInv.effect {s s' : SmpState A T} {op : SmpOp A T} (h : SmpInv s.kernel.sched)
    (hstep : s.step op = some s') : SmpEffect s op s'.kernel.sched := by
  cases op with
  | call a cpu cmd =>
      simp only [SmpState.step] at hstep
      split at hstep
      · cases hstep
        exact .other (fun b t next hop => by cases hop) rfl (SameReady.refl _)
      · cases hstep
  | step a => exact smpCallStep_effect hstep
  | handler a cpu =>
      simp only [SmpState.step] at hstep
      split at hstep
      · obtain ⟨cmd, -, rfl⟩ := Option.map_eq_some_iff.mp hstep
        exact .other (fun b t next hop => by cases hop) rfl (SameReady.refl _)
      · cases hstep
  | switchContext cpu =>
      obtain ⟨kernel, hswitch, rfl⟩ := Option.map_eq_some_iff.mp hstep
      have hexit : s.kernel.state (s.kernel.running cpu) ≠ ACORAL_THREAD_STATE_EXIT := by
        intro hstate
        have hstate' : (s.kernel.sched.thread (s.kernel.running cpu)).state =
            ACORAL_THREAD_STATE_EXIT := hstate
        have hflags := h.flags (s.kernel.running cpu)
        rw [Tcb.isSuspended, Tcb.isReady, hstate'] at hflags
        exact absurd hflags (by decide)
      exact .other (fun b t next hop => by cases hop) rfl (acoralSwitchContext_cases hexit hswitch).1

/-! ### Runs -/

/-- A step whose test still holds keeps the invariant. -/
theorem SmpInv.step {s s' : SmpState A T} {op : SmpOp A T} (h : SmpInv s.kernel.sched)
    (hupToDate : smpUpToDate s op = true) (hstep : s.step op = some s') :
    SmpInv s'.kernel.sched := by
  cases h.effect hstep with
  | add a t next hop hpc hk =>
      subst hop
      rw [smpUpToDate, hpc] at hupToDate
      rw [hk]
      exact h.add _ hupToDate
  | del a t next hop hpc hk =>
      subst hop
      rw [smpUpToDate, hpc] at hupToDate
      rw [hk]
      exact h.del _ hupToDate
  | setCpu a t hop hpc hk =>
      subst hop
      rw [smpUpToDate, hpc] at hupToDate
      simp only [Bool.or_eq_true, Bool.not_eq_true', decide_eq_true_eq] at hupToDate
      rw [hk]
      exact h.setCpu hupToDate
  | other _ _ hsame => exact h.sameReady hsame

/-- A step does what it should if and only if its test still holds. -/
theorem SmpInv.step_iff {s s' : SmpState A T} {op : SmpOp A T} (h : SmpInv s.kernel.sched)
    (hstep : s.step op = some s') :
    ReadyLinked s'.kernel.sched ∧ RemovesLinked s op ↔ smpUpToDate s op = true := by
  constructor
  · rintro ⟨hlinked, hremoves⟩
    cases h.effect hstep with
    | add a t next hop hpc hk =>
        subst hop
        rw [smpUpToDate, hpc]
        simp only
        rw [h.flags]
        cases hready : (s.kernel.sched.thread t).isReady with
        | false => rfl
        | true =>
            -- the thread is linked a second time
            have htwo := hlinked t
            rw [hk] at htwo
            have hflag := hasFlag_readyState (s.kernel.sched.thread t).state
            have hcount := htwo (by simp [acoralSchedRdyqueueAdd, Tcb.isReady, hflag])
              (s.kernel.sched.thread t).cpu (s.kernel.sched.thread t).prio
            rw [SmpInv.linked_add, h.ready t hready] at hcount
            simp [acoralSchedRdyqueueAdd] at hcount
    | del a t next hop hpc hk =>
        have hin := hremoves a t next hop hpc
        subst hop
        rw [smpUpToDate, hpc]
        simp only
        by_contra hready
        rw [Bool.not_eq_true] at hready
        rw [h.suspended t hready] at hin
        exact absurd hin (Nat.lt_irrefl 0)
    | setCpu a t hop hpc hk =>
        subst hop
        rw [smpUpToDate, hpc]
        simp only [Bool.or_eq_true, Bool.not_eq_true', decide_eq_true_eq]
        by_contra hboth
        obtain ⟨hready, hcpu⟩ := not_or.mp hboth
        rw [Bool.not_eq_false] at hready
        have hone := hlinked t
        rw [hk] at hone
        -- the new CPU is not the one of the array that the thread is in
        have hcount := hone (by simpa [CpuState.setCpu, CpuState.setSched, Tcb.isReady] using hready)
          (s.call a).cpu (s.kernel.sched.thread t).prio
        have hzero := h.ready t hready (s.call a).cpu (s.kernel.sched.thread t).prio
        rw [if_neg fun hc => hcpu hc.1.symm] at hzero
        have hsame : (s.kernel.setCpu t (s.call a).cpu).sched.linked t (s.call a).cpu
            (s.kernel.sched.thread t).prio = 0 := hzero
        rw [hsame] at hcount
        simp [CpuState.setCpu, CpuState.setSched] at hcount
    | other _ hupToDate _ => exact hupToDate
  · intro hupToDate
    refine ⟨(h.step hupToDate hstep).ready, fun a t next hop hpc => ?_⟩
    subst hop
    rw [smpUpToDate, hpc] at hupToDate
    rw [h.ready t hupToDate, if_pos ⟨rfl, rfl⟩]
    exact Nat.one_pos

omit [DecidableEq A] in
theorem SmpInv.start (kernel : CpuState T) {thread : T → Tcb}
    (hsusp : ∀ t, (thread t).state = ACORAL_THREAD_STATE_SUSPEND) :
    SmpInv (SmpState.start kernel thread : SmpState A T).kernel.sched := by
  have hready : ∀ t, (thread t).isReady = false := by
    intro t
    rw [Tcb.isReady, hsusp t]
    decide
  constructor
  · intro t
    have hs : (thread t).isSuspended = true := by
      rw [Tcb.isSuspended, hsusp t]
      decide
    exact hs.trans (congrArg (!·) (hready t)).symm
  · intro t ht
    exact Bool.noConfusion (ht.symm.trans (hready t))
  · intro t _ cpu prio
    exact List.count_nil

/-- Take any interleaving of the steps of the four operations on any CPUs,
with the commands that are in flight, in which every test that a step
trusts still holds. Then a READY thread is linked once, in the array of its
CPU, and no step removes a thread from an array that it is not in. A step
whose test does not hold any more breaks one of the two. -/
theorem smp_readyLinked {kernel : CpuState T} {thread : T → Tcb}
    (hsusp : ∀ t, (thread t).state = ACORAL_THREAD_STATE_SUSPEND) {ops : List (SmpOp A T)}
    {s : SmpState A T}
    (hrun : Lib.run (Lib.guarded smpUpToDate SmpState.step) (SmpState.start kernel thread) ops =
      some s) :
    ReadyLinked s.kernel.sched ∧
      ∀ op s', s.step op = some s' →
        (ReadyLinked s'.kernel.sched ∧ RemovesLinked s op ↔ smpUpToDate s op = true) := by
  have h : SmpInv s.kernel.sched :=
    Lib.guarded_induct (P := fun s : SmpState A T => SmpInv s.kernel.sched)
      (fun _ _ _ h hupToDate hstep => SmpInv.step h hupToDate hstep) (SmpInv.start kernel hsusp) hrun
  exact ⟨h.ready, fun op s' hstep => h.step_iff hstep⟩

/-- A thread of CPU 0, and the idle threads of both CPUs. -/
def idleThreads (t : Fin 3) : Tcb :=
  { resId := 0
    state := ACORAL_THREAD_STATE_SUSPEND
    prio := if t = 0 then 5 else 59
    cpu := if t = 2 then 1 else 0 }

/-- The idle threads run. -/
def idleKernel : CpuState (Fin 3) :=
  { sched := acoralSchedRdyqueueInit idleThreads
    running := fun cpu => if cpu = 0 then 1 else 2
    preemptType := fun _ => .ACORAL_PREEMPT_LOCAL
    moveLock := fun _ => false
    criticalNesting := fun _ => 0
    schedLock := fun _ => false
    intrNesting := fun _ => 0
    schedEnable := true
    irqSwitch := fun _ => false }

/-- The idle threads are made ready, and the other one too, from CPU 1 by a
command to CPU 0. -/
def rdyRun : List (SmpOp (Fin 4) (Fin 3)) :=
  [.call 0 0 (.ACORAL_IPI_THREAD_READY 1), .step 0, .step 0, .step 0] ++
    [.call 0 1 (.ACORAL_IPI_THREAD_READY 2), .step 0, .step 0, .step 0] ++
    [.call 0 1 (.ACORAL_IPI_THREAD_READY 0), .step 0, .step 0, .step 0] ++
    [.handler 1 0, .step 1, .step 1, .step 1]

theorem smp_readyLinked_rdyRun :
    ∃ s : SmpState (Fin 4) (Fin 3),
      Lib.run (Lib.guarded smpUpToDate SmpState.step) (SmpState.start idleKernel idleThreads)
        rdyRun = some s ∧ s.kernel.sched.linked 0 0 5 = 1 ∧ ReadyLinked s.kernel.sched := by
  have heval : (Lib.run (Lib.guarded smpUpToDate SmpState.step)
      (SmpState.start idleKernel idleThreads) rdyRun).any
        (fun s => decide (s.kernel.sched.linked 0 0 5 = 1)) = true := by
    decide +kernel
  obtain ⟨s, hrun, hlinked⟩ := (Option.any_eq_true ..).mp heval
  have hsusp : ∀ t, (idleThreads t).state = ACORAL_THREAD_STATE_SUSPEND := fun _ => rfl
  exact ⟨s, hrun, of_decide_eq_true hlinked, (smp_readyLinked hsusp hrun).1⟩

/-- The thread leaves for CPU 1, and is made ready on CPU 0 before CPU 1
takes it in. -/
def moveRun : List (SmpOp (Fin 4) (Fin 3)) :=
  rdyRun ++
    [.call 0 0 (.ACORAL_IPI_THREAD_MOVETO 0 1), .step 0, .step 0, .step 0, .step 0, .step 0,
      .step 0, .step 0, .step 0, .step 0, .step 0] ++
    [.call 2 0 (.ACORAL_IPI_THREAD_READY 0), .step 2, .step 2, .step 2] ++
    [.handler 3 1, .step 3, .step 3, .step 3, .step 3]

/-- Each call runs to its end before the next one starts. The thread ends
READY on CPU 1, and linked in the array of CPU 0. -/
theorem movein_of_ready :
    ∃ s : SmpState (Fin 4) (Fin 3),
      Lib.run SmpState.step (SmpState.start idleKernel idleThreads) moveRun = some s ∧
        (s.kernel.sched.thread 0).isReady = true ∧ s.cpu 0 = 1 ∧
        s.kernel.sched.linked 0 0 5 = 1 ∧ ¬ ReadyLinked s.kernel.sched := by
  have heval : (Lib.run SmpState.step (SmpState.start idleKernel idleThreads) moveRun).any
      (fun s => decide ((s.kernel.sched.thread 0).isReady = true ∧ s.cpu 0 = 1 ∧
        s.kernel.sched.linked 0 0 5 = 1)) = true := by
    decide +kernel
  obtain ⟨s, hrun, hend⟩ := (Option.any_eq_true ..).mp heval
  obtain ⟨hready, hcpu, hlinked⟩ := of_decide_eq_true hend
  refine ⟨s, hrun, hready, hcpu, hlinked, fun h => ?_⟩
  have hcount := h 0 hready 0 5
  have hcpu' : (s.kernel.sched.thread 0).cpu = 1 := hcpu
  rw [hlinked, hcpu', if_neg fun hc => nomatch hc.1] at hcount
  cases hcount

end ACoral
