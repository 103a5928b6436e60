import ACoral.Proofs.Ceiling.Stack
import ACoral.Proofs.WaitQueue

/-!
# `ACoral.Proofs.Ceiling.Ops`: what the operations on the state do

- the thread operations, by what they do to the priority, the CPU and the
  READY flag of a thread;
- `Asleep`: the threads that suspended themselves;
- `waitAdd_queues` and `waitDel_queues`: the wait queues of the systems;
- `SameRes`: the operations on threads and wait queues leave the resources
  alone;
- `take` and `drop`: the semaphore of a resource that is free is taken, and
  that of one that is in use is given back (`dpcpTake`, `mpcpTake` and the
  posts end so);
- `holds_cons_pend` and its siblings: who holds what after one more call.
-/

set_option autoImplicit false

namespace ACoral

open Lib (Links)

variable {R K T : Type} [DecidableEq R] [DecidableEq K] [DecidableEq T]

namespace CeilingState

/-- The thread is SUSPEND. -/
def isSuspended (s : CeilingState R K T) (t : T) : Bool :=
  hasFlag (s.ipc.sched.thread t).state ACORAL_THREAD_STATE_SUSPEND

/-! ### Threads -/

section Threads

omit [DecidableEq R] [DecidableEq K]

variable (s : CeilingState R K T) (t u : T)

theorem changePrio_prio (p : Nat) :
    (s.changePrio t p).prio u = if u = t then p % 256 else s.prio u :=
  (acoralThreadChangePrio_thread s.ipc.sched t p u).1

@[simp] theorem changePrio_cpu (p : Nat) : (s.changePrio t p).cpu u = s.cpu u :=
  (acoralThreadChangePrio_thread s.ipc.sched t p u).2.1

@[simp] theorem changePrio_isReady (p : Nat) : (s.changePrio t p).isReady u = s.isReady u :=
  (acoralThreadChangePrio_thread s.ipc.sched t p u).2.2.1

theorem changePrio_isSuspended (p : Nat) : (s.changePrio t p).isSuspended u =
    if u = t ∧ s.isReady t = true then false else s.isSuspended u :=
  (acoralThreadChangePrio_thread s.ipc.sched t p u).2.2.2

@[simp] theorem rdyThread_prio : (s.rdyThread t).prio u = s.prio u :=
  (acoralRdyThread_attr s.ipc.sched t u).1

@[simp] theorem rdyThread_cpu : (s.rdyThread t).cpu u = s.cpu u :=
  (acoralRdyThread_attr s.ipc.sched t u).2

theorem rdyThread_isReady : (s.rdyThread t).isReady u =
    if u = t ∧ s.isSuspended t = true then true else s.isReady u :=
  (acoralRdyThread_thread s.ipc.sched t u).1

theorem rdyThread_isSuspended : (s.rdyThread t).isSuspended u =
    if u = t then false else s.isSuspended u :=
  (acoralRdyThread_thread s.ipc.sched t u).2

@[simp] theorem suspendSelf_prio : (s.suspendSelf t).prio u = s.prio u :=
  (acoralSuspendThread_attr s.ipc.sched t u).1

@[simp] theorem suspendSelf_cpu : (s.suspendSelf t).cpu u = s.cpu u :=
  (acoralSuspendThread_attr s.ipc.sched t u).2

theorem suspendSelf_flags (ht : s.isReady t = true) :
    (s.suspendSelf t).isReady u = (if u = t then false else s.isReady u) ∧
    (s.suspendSelf t).isSuspended u = (if u = t then true else s.isSuspended u) :=
  acoralSuspendThread_thread s.ipc.sched t u ht

@[simp] theorem switchPreempt_ipc (old new : PreemptType) :
    (s.switchPreempt t old new).ipc = s.ipc := by
  unfold switchPreempt
  split <;> rfl

@[simp] theorem setCpu_prio (c : Nat) : (s.setCpu t c).prio u = s.prio u := by
  unfold setCpu prio
  by_cases hu : u = t <;> simp [hu]

theorem setCpu_cpu (c : Nat) : (s.setCpu t c).cpu u = if u = t then c else s.cpu u := by
  unfold setCpu cpu
  by_cases hu : u = t <;> simp [hu]

@[simp] theorem setCpu_isReady (c : Nat) : (s.setCpu t c).isReady u = s.isReady u := by
  unfold setCpu isReady
  by_cases hu : u = t <;> simp [hu]

@[simp] theorem setCpu_isSuspended (c : Nat) :
    (s.setCpu t c).isSuspended u = s.isSuspended u := by
  unfold setCpu isSuspended
  by_cases hu : u = t <;> simp [hu]

end Threads

/-! ### Threads that sleep -/

/-- The thread has suspended itself and was not made READY since. -/
def Asleep (s : CeilingState R K T) (t : T) : Prop :=
  s.isReady t = false ∧ s.isSuspended t = true

section Asleep

variable {s : CeilingState R K T} {t u : T}

omit [DecidableEq R] [DecidableEq K] in
theorem Asleep.changePrio (h : s.Asleep u) (t : T) (p : Nat) : (s.changePrio t p).Asleep u := by
  refine ⟨(changePrio_isReady s t u p).trans h.1, ?_⟩
  rw [changePrio_isSuspended, if_neg fun he => ?_]
  · exact h.2
  · rw [← he.1, h.1] at he
    exact absurd he.2 (by simp)

omit [DecidableEq R] [DecidableEq K] in
theorem Asleep.suspendSelf (h : s.Asleep u) (ht : s.isReady t = true) :
    (s.suspendSelf t).Asleep u := by
  have hne : u ≠ t := fun he => absurd (h.1.symm.trans (he ▸ ht)) (by simp)
  obtain ⟨hready, hsuspended⟩ := suspendSelf_flags s t u ht
  exact ⟨hready.trans ((if_neg hne).trans h.1), hsuspended.trans ((if_neg hne).trans h.2)⟩

omit [DecidableEq R] [DecidableEq K] in
theorem asleep_self (ht : s.isReady t = true) : (s.suspendSelf t).Asleep t := by
  obtain ⟨hready, hsuspended⟩ := suspendSelf_flags s t t ht
  exact ⟨hready.trans (if_pos rfl), hsuspended.trans (if_pos rfl)⟩

omit [DecidableEq R] [DecidableEq K] in
theorem Asleep.rdyThread (h : s.Asleep u) (hne : u ≠ t) : (s.rdyThread t).Asleep u := by
  refine ⟨?_, ?_⟩
  · rw [rdyThread_isReady, if_neg fun he => hne he.1]
    exact h.1
  · rw [rdyThread_isSuspended, if_neg hne]
    exact h.2

omit [DecidableEq R] [DecidableEq K] in
/-- A thread that sleeps is made READY. -/
theorem Asleep.rdyThread_self (h : s.Asleep u) : (s.rdyThread u).isReady u = true := by
  rw [rdyThread_isReady, if_pos ⟨rfl, h.2⟩]

omit [DecidableEq R] [DecidableEq K] in
/-- `acoral_rdy_thread` takes the READY flag from nobody. -/
theorem isReady_rdyThread (hu : s.isReady u = true) (t : T) : (s.rdyThread t).isReady u = true := by
  rw [rdyThread_isReady]
  split
  · rfl
  · exact hu

end Asleep

/-! ### Wait queues -/

section Queues

variable {s s' : CeilingState R K T} {Q : CeilingObj R K → List T} {k : K} {t : T}

/-- `acoral_prio_queue_add` of a thread that is in no queue. -/
theorem waitAdd_queues {fuel : Nat} (h : s.ipc.Queues Q) (hfree : ∀ j, t ∉ Q j)
    (hadd : s.waitAdd fuel k t = some s') :
    s'.ipc.Queues (Function.update Q (.wait k) (s.ipc.enqueue t (Q (.wait k)))) ∧
      s'.ipc.sched = s.ipc.sched := by
  obtain ⟨links, hlinks, rfl⟩ := Option.map_eq_some_iff.mp hadd
  have hipc : acoralIpcWaitQueueAdd fuel s.ipc (.wait k) t = some
      { s.ipc with threadIpc := Function.update s.ipc.threadIpc t (some (.wait k)), links := links } := by
    unfold acoralIpcWaitQueueAdd
    rw [hlinks]
    rfl
  exact ⟨(h.add hfree hipc).congr rfl, rfl⟩

/-- `acoral_prio_queue_del` of a thread of the queue. -/
theorem waitDel_queues (h : s.ipc.Queues Q) (hin : t ∈ Q (.wait k))
    (hdel : s.waitDel t = some s') :
    s'.ipc.Queues (Function.update Q (.wait k) ((Q (.wait k)).erase t)) ∧
      s'.ipc.sched = s.ipc.sched := by
  obtain ⟨links, hlinks, rfl⟩ := Option.map_eq_some_iff.mp hdel
  have hipc : acoralIpcWaitQueueDel s.ipc t = some
      { s.ipc with links := links, threadIpc := Function.update s.ipc.threadIpc t none } := by
    unfold acoralIpcWaitQueueDel
    rw [hlinks]
    rfl
  exact ⟨(h.del hin hipc).congr rfl, rfl⟩

end Queues

/-! ### Resources -/

/-- The stacks, the priorities of the systems, the resources and the
semaphores are the same. -/
structure SameRes (s s' : CeilingState R K T) : Prop where
  stack : s'.stack = s.stack
  sysPrio : s'.sysPrio = s.sysPrio
  res : s'.res = s.res
  obj : s'.ipc.ipc = s.ipc.ipc

namespace SameRes

variable {s s' s'' : CeilingState R K T}

omit [DecidableEq R] [DecidableEq K] [DecidableEq T] in
theorem refl (s : CeilingState R K T) : SameRes s s := ⟨rfl, rfl, rfl, rfl⟩

omit [DecidableEq R] [DecidableEq K] [DecidableEq T] in
theorem trans (h : SameRes s s') (h' : SameRes s' s'') : SameRes s s'' :=
  ⟨h'.stack.trans h.stack, h'.sysPrio.trans h.sysPrio, h'.res.trans h.res, h'.obj.trans h.obj⟩

omit [DecidableEq R] [DecidableEq K] in
theorem changePrio (s : CeilingState R K T) (t : T) (p : Nat) : SameRes s (s.changePrio t p) :=
  ⟨rfl, rfl, rfl, rfl⟩

omit [DecidableEq R] [DecidableEq K] in
theorem rdyThread (s : CeilingState R K T) (t : T) : SameRes s (s.rdyThread t) :=
  ⟨rfl, rfl, rfl, rfl⟩

omit [DecidableEq R] [DecidableEq K] in
theorem suspendSelf (s : CeilingState R K T) (t : T) : SameRes s (s.suspendSelf t) :=
  ⟨rfl, rfl, rfl, rfl⟩

omit [DecidableEq R] [DecidableEq K] in
theorem setCpu (s : CeilingState R K T) (t : T) (cpu : Nat) : SameRes s (s.setCpu t cpu) :=
  ⟨rfl, rfl, rfl, rfl⟩

omit [DecidableEq R] [DecidableEq K] in
theorem switchPreempt (s : CeilingState R K T) (t : T) (old new : PreemptType) :
    SameRes s (s.switchPreempt t old new) := by
  unfold CeilingState.switchPreempt
  split <;> exact ⟨rfl, rfl, rfl, rfl⟩

theorem waitAdd {fuel : Nat} {k : K} {cur : T} (h : s.waitAdd fuel k cur = some s') :
    SameRes s s' := by
  obtain ⟨links, -, rfl⟩ := Option.map_eq_some_iff.mp h
  exact ⟨rfl, rfl, rfl, rfl⟩

theorem waitDel {t : T} (h : s.waitDel t = some s') : SameRes s s' := by
  obtain ⟨links, -, rfl⟩ := Option.map_eq_some_iff.mp h
  exact ⟨rfl, rfl, rfl, rfl⟩

omit [DecidableEq R] [DecidableEq K] in
theorem inheritPrio {k : K} {cur : T} (h : s.inheritPrio k cur = some s') :
    SameRes s s' ∧ ∃ last t, s.stackTop k = some last ∧ s.owner last = some t ∧
      s' = s.changePrio t (s.prio cur) := by
  obtain ⟨last, hlast, h⟩ := Option.bind_eq_some_iff.mp h
  obtain ⟨t, ht, rfl⟩ := Option.map_eq_some_iff.mp h
  exact ⟨SameRes.changePrio s t _, last, t, hlast, ht, rfl⟩

omit [DecidableEq R] [DecidableEq K] [DecidableEq T] in
theorem owner (h : SameRes s s') (r : R) : s'.owner r = s.owner r := by
  unfold CeilingState.owner
  rw [h.obj]

end SameRes

omit [DecidableEq R] [DecidableEq K] [DecidableEq T] in
theorem Stacked.sameRes {s s' : CeilingState R K T} {sys : R → K} {S : K → List R}
    (h : s.Stacked sys S) (hsame : SameRes s s') : s'.Stacked sys S :=
  h.congr hsame.stack hsame.sysPrio fun r => by rw [hsame.res]; exact ⟨rfl, rfl⟩

/-! ### Semaphores -/

omit [DecidableEq R] [DecidableEq K] [DecidableEq T] in
/-- The object that the checks let through. -/
theorem ipcCheck_ok {I : Type} {type : IpcType} {s : IpcState I T} {i j : I}
    (h : ipcCheck type s (some i) = .ok j) : j = i := by
  simp only [ipcCheck] at h
  split at h
  · exact absurd h (by simp)
  · exact (Except.ok.inj h).symm

/-- The semaphore of a resource counts whether the resource is in use. -/
def SemOk (s : CeilingState R K T) (r : R) : Prop :=
  (s.ipc.ipc (.sem r)).type = .ACORAL_IPC_SEM ∧
    (s.ipc.ipc (.sem r)).count = if s.owner r = none then 0 else 1

/-- Those of all resources do. -/
def Sems (s : CeilingState R K T) : Prop := ∀ r, s.SemOk r

/-- `cur` takes the semaphore of `r`. -/
def take (s : CeilingState R K T) (r : R) (cur : T) : CeilingState R K T :=
  { s with ipc := s.ipc.setIpc (.sem r) { s.ipc.ipc (.sem r) with count := 1, data := some cur } }

/-- The semaphore of `r` is given back. -/
def drop (s : CeilingState R K T) (r : R) : CeilingState R K T :=
  { s with ipc := s.ipc.setIpc (.sem r) { s.ipc.ipc (.sem r) with count := 0, data := none } }

section Semaphores

variable {s s' : CeilingState R K T}

omit [DecidableEq R] [DecidableEq K] [DecidableEq T] in
/-- The counting of a semaphore is about its object only. -/
theorem SemOk.congr {r : R} (h : s.SemOk r)
    (hobj : s'.ipc.ipc (.sem r) = s.ipc.ipc (.sem r)) : s'.SemOk r := by
  unfold SemOk CeilingState.owner at h ⊢
  rwa [hobj]

omit [DecidableEq R] [DecidableEq K] [DecidableEq T] in
theorem Sems.sameRes (h : s.Sems) (hsame : SameRes s s') : s'.Sems := fun r =>
  (h r).congr (by rw [hsame.obj])

omit [DecidableEq T] in
theorem take_owner (s : CeilingState R K T) (r q : R) (cur : T) :
    (s.take r cur).owner q = if q = r then some cur else s.owner q := by
  unfold take owner IpcState.setIpc
  by_cases hq : q = r <;> simp [hq]

omit [DecidableEq T] in
theorem drop_owner (s : CeilingState R K T) (r q : R) :
    (s.drop r).owner q = if q = r then none else s.owner q := by
  unfold drop owner IpcState.setIpc
  by_cases hq : q = r <;> simp [hq]

omit [DecidableEq T] in
theorem SemOk.take {q : R} (h : s.SemOk q) (r : R) (cur : T) : (s.take r cur).SemOk q := by
  unfold SemOk
  rw [take_owner]
  by_cases hq : q = r
  · subst hq
    unfold CeilingState.take
    simpa [IpcState.setIpc] using h.1
  · rw [if_neg hq]
    unfold CeilingState.take
    simpa [IpcState.setIpc, hq, SemOk] using h

omit [DecidableEq T] in
theorem SemOk.drop {q : R} (h : s.SemOk q) (r : R) : (s.drop r).SemOk q := by
  unfold SemOk
  rw [drop_owner]
  by_cases hq : q = r
  · subst hq
    unfold CeilingState.drop
    simpa [IpcState.setIpc] using h.1
  · rw [if_neg hq]
    unfold CeilingState.drop
    simpa [IpcState.setIpc, hq, SemOk] using h

/-- `acoral_sem_pend` knows nothing of the systems. -/
theorem semPend_not_queued {fuel : Nat} {r : R} {cur : T} {res : CeilingResult}
    (h : s.semPend fuel r cur = some (res, s')) : res ≠ .queued := by
  obtain ⟨⟨res', ipc⟩, -, hres⟩ := Option.map_eq_some_iff.mp h
  cases res' with
  | ret e => simp [← (Prod.mk.inj hres).1]
  | blocked i => simp [← (Prod.mk.inj hres).1]

/-- `acoral_sem_pend` of a semaphore whose unit is there. -/
theorem semPend_own {fuel : Nat} {r : R} {cur : T} (h : s.SemOk r) (hfree : s.owner r = none) :
    (s.own r cur).semPend fuel r cur = some (.ret .KR_OK, s.take r cur) := by
  obtain ⟨htype, hcount⟩ := h
  rw [if_pos hfree] at hcount
  unfold own
  rw [if_pos hfree]
  unfold semPend setOwner acoralSemPend ipcPendCheck ipcCheck take incCount
  simp [IpcState.setIpc, htype, hcount, show semAvailable 0#16 = true from rfl]

/-- Only the semaphore of `r`, the wait queues and the threads differ, and the
owners are the same. -/
structure SemOnly (r : R) (s s' : CeilingState R K T) : Prop where
  eq : s' = { s with ipc := s'.ipc }
  obj : ∀ q, q ≠ r → s'.ipc.ipc (.sem q) = s.ipc.ipc (.sem q)
  owner : ∀ q, s'.owner q = s.owner q

omit [DecidableEq T] in
/-- The object of `r` has another count. -/
theorem SemOnly.of_count {r : R} {count : BitVec 16} {ipc : IpcState (CeilingObj R K) T}
    (hipc : ipc.ipc = (s.ipc.setIpc (.sem r) { s.ipc.ipc (.sem r) with count := count }).ipc) :
    SemOnly r s { s with ipc := ipc } := by
  refine ⟨rfl, fun q hq => ?_, fun q => ?_⟩
  · show ipc.ipc (.sem q) = _
    rw [hipc]
    exact Function.update_of_ne (by simp [hq]) _ _
  · unfold CeilingState.owner
    rw [hipc]
    by_cases hq : q = r
    · rw [hq]
      simp [IpcState.setIpc]
    · simp [IpcState.setIpc, hq]

/-- `acoral_sem_pend` either returns, with the threads and the queues as they
were, or suspends the caller and links it in the wait queue. -/
theorem semPend_cases {fuel : Nat} {r : R} {cur : T} {res : CeilingResult}
    (h : s.semPend fuel r cur = some (res, s')) : SemOnly r s s' ∧
    ((∃ e, res = .ret e) ∧ s'.ipc.links = s.ipc.links ∧ s'.ipc.sched = s.ipc.sched ∨
      res = .blocked ∧ acoralIpcWaitQueueAdd fuel ((incCount s.ipc (.sem r)).suspendSelf cur)
        (.sem r) cur = some s'.ipc) := by
  obtain ⟨⟨res', ipc⟩, hpend, hres⟩ := Option.map_eq_some_iff.mp h
  unfold acoralSemPend at hpend
  split at hpend
  · obtain ⟨rfl, rfl⟩ := Prod.mk.inj (Option.some.inj hpend)
    obtain ⟨rfl, rfl⟩ := Prod.mk.inj hres
    exact ⟨⟨rfl, fun _ _ => rfl, fun _ => rfl⟩, Or.inl ⟨⟨_, rfl⟩, rfl, rfl⟩⟩
  · rename_i i hcheck
    obtain rfl := ipcCheck_ok hcheck
    split at hpend
    · obtain ⟨rfl, rfl⟩ := Prod.mk.inj (Option.some.inj hpend)
      obtain ⟨rfl, rfl⟩ := Prod.mk.inj hres
      exact ⟨.of_count rfl, Or.inl ⟨⟨_, rfl⟩, rfl, rfl⟩⟩
    · obtain ⟨s₁, hadd, hs₁⟩ := Option.map_eq_some_iff.mp hpend
      obtain ⟨rfl, rfl⟩ := Prod.mk.inj hs₁
      obtain ⟨rfl, rfl⟩ := Prod.mk.inj hres
      refine ⟨?_, Or.inr ⟨rfl, hadd⟩⟩
      obtain ⟨links, -, rfl⟩ := Option.map_eq_some_iff.mp hadd
      exact .of_count rfl

/-- `acoral_sem_post` keeps the owners and the queues, and makes at most the
first of the wait queue READY. -/
theorem semPost_cases {r : R} {e : KernelError} (h : s.semPost r = some (e, s')) :
    SemOnly r s s' ∧ s'.ipc.links = s.ipc.links ∧
    (s'.ipc.sched = s.ipc.sched ∨ ∃ t, acoralIpcHighThread s.ipc (.sem r) = some (some t) ∧
      s'.ipc.sched = (s.ipc.rdyThread t).sched) := by
  obtain ⟨⟨e', ipc⟩, hpost, hres⟩ := Option.map_eq_some_iff.mp h
  obtain ⟨-, rfl⟩ := Prod.mk.inj hres
  unfold acoralSemPost at hpost
  split at hpost
  · obtain ⟨-, rfl⟩ := Prod.mk.inj (Option.some.inj hpost)
    exact ⟨⟨rfl, fun _ _ => rfl, fun _ => rfl⟩, rfl, Or.inl rfl⟩
  · rename_i i hcheck
    obtain rfl := ipcCheck_ok hcheck
    simp only at hpost
    split at hpost
    · split at hpost
      · obtain ⟨-, rfl⟩ := Prod.mk.inj (Option.some.inj hpost)
        exact ⟨.of_count rfl, rfl, Or.inl rfl⟩
      · obtain ⟨v, hv, hpost⟩ := Option.map_eq_some_iff.mp hpost
        cases v with
        | none =>
            obtain ⟨-, rfl⟩ := Prod.mk.inj hpost
            exact ⟨.of_count rfl, rfl, Or.inl rfl⟩
        | some t =>
            obtain ⟨-, rfl⟩ := Prod.mk.inj hpost
            exact ⟨.of_count rfl, rfl, Or.inr ⟨t, hv, rfl⟩⟩
    · obtain ⟨-, rfl⟩ := Prod.mk.inj (Option.some.inj hpost)
      exact ⟨⟨rfl, fun _ _ => rfl, fun _ => rfl⟩, rfl, Or.inl rfl⟩

/-- `acoral_sem_pend` of a semaphore whose unit is taken suspends the caller. -/
theorem semPend_taken {fuel : Nat} {r : R} {cur : T} {res : CeilingResult} (h : s.SemOk r)
    (htaken : s.owner r ≠ none) (hpend : s.semPend fuel r cur = some (res, s')) :
    res = .blocked := by
  obtain ⟨htype, hcount⟩ := h
  rw [if_neg htaken] at hcount
  obtain ⟨⟨res', ipc⟩, hpend, hres⟩ := Option.map_eq_some_iff.mp hpend
  have hcheck : ipcPendCheck .ACORAL_IPC_SEM 0 s.ipc (some (.sem r)) = .ok (.sem r) := by
    simp [ipcPendCheck, ipcCheck, htype]
  have htest : semAvailable (s.ipc.ipc (.sem r)).count ≠ true := by
    rw [hcount]
    decide
  simp only [acoralSemPend, hcheck, if_neg htest] at hpend
  obtain ⟨s₁, -, hs₁⟩ := Option.map_eq_some_iff.mp hpend
  obtain ⟨rfl, rfl⟩ := Prod.mk.inj hs₁
  exact (Prod.mk.inj hres).1.symm

/-- `acoral_sem_post` of a semaphore whose unit is taken, with `data` already
cleared. -/
theorem semPost_clear {r : R} (htype : (s.ipc.ipc (.sem r)).type = .ACORAL_IPC_SEM)
    (hcount : (s.ipc.ipc (.sem r)).count = 1) :
    (s.setOwner r none).semPost r = some (.KR_OK, s.drop r) := by
  unfold semPost setOwner acoralSemPost ipcCheck drop decCount
  simp [IpcState.setIpc, htype, hcount]

end Semaphores

end CeilingState

/-! ### The history -/

section History

variable {R T : Type} [DecidableEq R] [DecidableEq T]

/-- A call that failed says nothing about who holds what. -/
theorem holds_cons_error {e : CeilingEvent R T}
    (log : List (CeilingEvent R T)) (he : e.err ≠ .KR_OK) (t : T) (q : R) :
    holds (e :: log) t q = holds log t q := by
  simp [holds, he]

/-- A pend that succeeded. -/
theorem holds_cons_pend (log : List (CeilingEvent R T)) (cur t : T) (r q : R) :
    holds (⟨.pend, cur, r, .KR_OK⟩ :: log) t q = (decide (cur = t ∧ r = q) || holds log t q) := by
  by_cases h : cur = t ∧ r = q
  · simp [holds, h]
  · rw [holds, if_neg (by simpa using h)]
    simp [h]

/-- A post that succeeded. -/
theorem holds_cons_post (log : List (CeilingEvent R T)) (cur t : T) (r q : R) :
    holds (⟨.post, cur, r, .KR_OK⟩ :: log) t q = (!decide (cur = t ∧ r = q) && holds log t q) := by
  by_cases h : cur = t ∧ r = q
  · simp [holds, h]
  · rw [holds, if_neg (by simpa using h)]
    simp [h]

/-- A call on another resource says nothing about who holds this one. -/
theorem holds_cons_ne {e : CeilingEvent R T} (log : List (CeilingEvent R T)) {q : R}
    (he : e.res ≠ q) (t : T) : holds (e :: log) t q = holds log t q := by
  simp [holds, he]

end History

/-! ### Inputs -/

/-- READY threads of the given priorities and CPUs. -/
def readyThreads {n : Nat} (prio cpu : Fin n → Nat) : Sched (Fin n) :=
  let thread (t : Fin n) : Tcb :=
    { resId := 0, state := ACORAL_THREAD_STATE_SUSPEND, prio := prio t, cpu := cpu t }
  (List.finRange n).foldl (fun k t => (acoralRdyThread (cpu t) k t).2)
    (acoralSchedRdyqueueInit thread)

end ACoral
