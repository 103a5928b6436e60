import ACoral.Proofs.Semaphore
import ACoral.Proofs.WaitQueue
import Mathlib.Data.Fintype.Card

/-!
# `ACoral.Proofs.PrioWakeup`: which waiter a post wakes

Any number of threads call the operations of any number of mutexes and
semaphores, and priorities change at any time. A wait queue is sorted by
the key in each node, which is the priority the thread was created with.
Nothing updates the key when the priority changes, so a post may wake a
thread while a more urgent one waits (`sem_post_lessUrgent`).

- `orderGuard`: the conditions under which the keys give the order of the
  priorities. A thread that blocks stands to each waiter by its priority as
  it does by its key, and a change of priority leaves a waiter between its
  neighbours.
- `PrioQueues`: the invariant. Every wait queue is sorted by the current
  priorities.
- `prio_wakeup`: in the runs whose steps meet the guard, the thread that a
  post wakes is one of the most urgent waiters.
-/

set_option autoImplicit false

namespace ACoral

open Lib (run guarded guarded_induct guarded_eq_some Links)

variable {I T : Type}

/-! ### The guard -/

/-- The thread of a node. -/
def IpcNode.thread? : IpcNode I T → Option T
  | .head _    => none
  | .pending t => some t

/-- The current priority. -/
def IpcState.prio (s : IpcState I T) (t : T) : Nat := (s.sched.thread t).prio

variable [DecidableEq I] [DecidableEq T]

/-- The object in whose wait queue the call puts its caller. -/
def blocksOn (s : IpcState I T) (c : IpcCall) (intrNesting : Nat) (ipc : Option I) : Option I :=
  match c with
  | .acoral_mutex_pend =>
      match ipcPendCheck .ACORAL_IPC_MUTEX intrNesting s ipc with
      | .error _ => none
      | .ok i    => if (s.ipc i).count = MUTEX_AVAI then none else some i
  | .acoral_sem_pend | .acoral_sem_pends =>
      match ipcPendCheck .ACORAL_IPC_SEM intrNesting s ipc with
      | .error _ => none
      | .ok i    => if semAvailable (s.ipc i).count then none else some i
  | _ => none

/-- The threads in the wait queue of `i`, read off the links. -/
def IpcState.waiters [Fintype T] (s : IpcState I T) (i : I) : List T :=
  (s.links.members (.head i) (Fintype.card T) (s.links.next (.head i))).filterMap IpcNode.thread?

/-- The conditions on a step. -/
def orderGuard [Fintype I] [Fintype T] (r : IpcRun I T) : PrioOp I T → Bool
  | .ipc (.call c cur intrNesting ipc) =>
      match blocksOn r.st c intrNesting ipc with
      | none   => true
      | some i =>
          -- the caller is in no wait queue, and among the waiters its key tells its place
          decide (r.st.links.next (.pending cur) = .pending cur ∧
            ∀ u ∈ r.st.waiters i,
              (r.st.pendingValue u ≤ r.st.pendingValue cur → r.st.prio u ≤ r.st.prio cur) ∧
              (r.st.pendingValue cur < r.st.pendingValue u → r.st.prio cur ≤ r.st.prio u))
  | .ipc (.resume _) => true
  | .acoral_thread_change_prio t prio =>
      -- the new priority keeps the thread between those before it and those behind it
      decide (∀ i, t ∈ r.st.waiters i →
        (∀ u ∈ (r.st.waiters i).takeWhile (· ≠ t), r.st.prio u ≤ prio % 256) ∧
        ∀ u ∈ ((r.st.waiters i).dropWhile (· ≠ t)).tail, prio % 256 ≤ r.st.prio u)

/-- The walk over the links gives the wait queue. -/
theorem IpcState.Waits.waiters_eq [Fintype T] {s : IpcState I T} {i : I} {q : List T}
    (h : s.Waits i q) : s.waiters i = q := by
  have hlen : (q.map (.pending : T → IpcNode I T)).length ≤ Fintype.card T := by
    rw [List.length_map]
    exact h.nodup.length_le_card
  have hwalk :=
    Links.IsRing.members (show s.links.IsRing (.head i) ([] ++ q.map .pending) from h) hlen
  unfold IpcState.waiters
  rw [h.next_head, hwalk, List.filterMap_map]
  exact List.filterMap_some

/-! ### Sorted insertion -/

/-- A list sorted by a rank stays so when the rank of one member changes to
one between those before it and those behind it. -/
theorem pairwise_update {rank : T → Nat} {t : T} {p : Nat} {l₁ l₂ : List T}
    (hnodup : (l₁ ++ t :: l₂).Nodup) (hrank : (l₁ ++ t :: l₂).Pairwise fun a b => rank a ≤ rank b)
    (hbefore : ∀ u ∈ l₁, rank u ≤ p) (hbehind : ∀ u ∈ l₂, p ≤ rank u) :
    (l₁ ++ t :: l₂).Pairwise fun a b =>
      Function.update rank t p a ≤ Function.update rank t p b := by
  obtain ⟨-, hnd₂, hapart⟩ := List.nodup_append.mp hnodup
  have hne₁ : ∀ u ∈ l₁, u ≠ t := fun u hu => hapart u hu t List.mem_cons_self
  have hne₂ : ∀ u ∈ l₂, u ≠ t := fun u hu he => (List.nodup_cons.mp hnd₂).1 (he ▸ hu)
  obtain ⟨hr₁, hr₂, hr⟩ := List.pairwise_append.mp hrank
  obtain ⟨-, hr₂⟩ := List.pairwise_cons.mp hr₂
  refine List.pairwise_append.mpr ⟨?_, List.pairwise_cons.mpr ⟨?_, ?_⟩, ?_⟩
  · refine hr₁.imp_of_mem fun ha hb hab => ?_
    rwa [Function.update_of_ne (hne₁ _ ha), Function.update_of_ne (hne₁ _ hb)]
  · intro u hu
    rw [Function.update_self, Function.update_of_ne (hne₂ u hu)]
    exact hbehind u hu
  · refine hr₂.imp_of_mem fun ha hb hab => ?_
    rwa [Function.update_of_ne (hne₂ _ ha), Function.update_of_ne (hne₂ _ hb)]
  · intro a ha b hb
    rw [Function.update_of_ne (hne₁ a ha)]
    rcases List.mem_cons.mp hb with rfl | hb'
    · rw [Function.update_self]
      exact hbefore a ha
    · rw [Function.update_of_ne (hne₂ b hb')]
      exact hr a ha b hb

/-! ### What the operations keep -/

/-- The wait queues, the keys and the priorities are the same. -/
structure Keeps (s s' : IpcState I T) : Prop where
  links : s'.links = s.links
  pendingValue : s'.pendingValue = s.pendingValue
  prio : ∀ t, s'.prio t = s.prio t

namespace Keeps

variable {s s' s'' : IpcState I T}

omit [DecidableEq I] [DecidableEq T] in
theorem refl (s : IpcState I T) : Keeps s s := ⟨rfl, rfl, fun _ => rfl⟩

omit [DecidableEq I] [DecidableEq T] in
theorem trans (h : Keeps s s') (h' : Keeps s' s'') : Keeps s s'' :=
  ⟨h'.links.trans h.links, h'.pendingValue.trans h.pendingValue,
    fun t => (h'.prio t).trans (h.prio t)⟩

omit [DecidableEq T] in
theorem setIpc (s : IpcState I T) (i : I) (o : Ipc T) : Keeps s (s.setIpc i o) :=
  ⟨rfl, rfl, fun _ => rfl⟩

omit [DecidableEq I] in
theorem rdyThread (s : IpcState I T) (t : T) : Keeps s (s.rdyThread t) :=
  ⟨rfl, rfl, fun u => (acoralRdyThread_attr s.sched t u).1⟩

omit [DecidableEq I] in
theorem suspendSelf (s : IpcState I T) (t : T) : Keeps s (s.suspendSelf t) :=
  ⟨rfl, rfl, fun u => (acoralSuspendThread_attr s.sched t u).1⟩

omit [DecidableEq I] in
/-- A change of priority changes that of the thread. -/
theorem changePrio_prio (s : IpcState I T) (t : T) (prio : Nat) :
    (s.changePrio t prio).prio = Function.update s.prio t (prio % 256) := by
  funext u
  rw [Function.update_apply]
  exact (acoralThreadChangePrio_thread s.sched t prio u).1

/-- `acoral_sem_posts` only readies threads. -/
theorem semRdyAll {i : I} {fuel : Nat} {tmp : IpcNode I T}
    (h : ACoral.semRdyAll i fuel tmp s = some s') : Keeps s s' := by
  induction fuel generalizing tmp s with
  | zero => simp [ACoral.semRdyAll] at h
  | succ fuel ih =>
      cases tmp with
      | head j =>
          simp only [ACoral.semRdyAll, Option.ite_none_right_eq_some] at h
          obtain rfl := Option.some.inj h.2
          exact refl s
      | pending t =>
          simp only [ACoral.semRdyAll] at h
          exact (rdyThread s t).trans (ih h)

end Keeps

/-! ### What a step does to the wait queues -/

/-- The thread is in the middle of a pend on `i`. -/
def Pc.InPend (pc : Pc I T) (i : I) : Prop :=
  pc = .mutexPend i ∨ pc = .semPend i ∨ pc = .semPends i

/-- The three things that a step can do to the wait queues. -/
inductive QueueEffect (fuel : Nat) (r : IpcRun I T) : IpcOp I T → IpcRun I T → Prop where
  /-- nothing -/
  | keep {op : IpcOp I T} {r' : IpcRun I T} (hkeep : Keeps r.st r'.st)
      (hpc : ∀ t j, (r'.pc t).InPend j → (r.pc t).InPend j) : QueueEffect fuel r op r'
  /-- the caller enters the queue of `i` -/
  | enter {c : IpcCall} {cur : T} {n : Nat} {ipc : Option I} {i : I} {s : IpcState I T}
      {r' : IpcRun I T} (hblock : blocksOn r.st c n ipc = some i) (hkeep : Keeps r.st s)
      (hadd : acoralIpcWaitQueueAdd fuel s i cur = some r'.st)
      (hpc : ∀ t j, (r'.pc t).InPend j → t = cur ∧ j = i ∨ (r.pc t).InPend j) :
      QueueEffect fuel r (.call c cur n ipc) r'
  /-- a thread in a pend on `i` leaves its queue -/
  | leave {cur : T} {i : I} {s : IpcState I T} {r' : IpcRun I T} (hin : (r.pc cur).InPend i)
      (hdel : acoralIpcWaitQueueDel r.st cur = some s) (hkeep : Keeps s r'.st)
      (hpc : ∀ t j, (r'.pc t).InPend j → t ≠ cur ∧ (r.pc t).InPend j) :
      QueueEffect fuel r (.resume cur) r'

namespace QueueEffect

variable {fuel : Nat} {r r' : IpcRun I T}

omit [DecidableEq I] [DecidableEq T] in
theorem not_inPend_idle (j : I) : ¬ (Pc.idle : Pc I T).InPend j := by
  simp [Pc.InPend]

omit [DecidableEq I] in
/-- After a call has returned its thread is in no pend. -/
theorem ret_inPend {c : IpcCall} {cur : T} {ipc : Option I} {res : KernelError × IpcState I T}
    {t : T} {j : I} (h : ((r.ret c cur ipc res).pc t).InPend j) : t ≠ cur ∧ (r.pc t).InPend j := by
  by_cases ht : t = cur
  · rw [ht, show (r.ret c cur ipc res).pc cur = .idle from Function.update_self _ _ _] at h
    exact absurd h (not_inPend_idle j)
  · rw [show (r.ret c cur ipc res).pc t = r.pc t from Function.update_of_ne ht _ _] at h
    exact ⟨ht, h⟩

/-- A call that returned and left the queues alone. -/
theorem ret {c : IpcCall} {cur : T} {ipc : Option I} {res : KernelError × IpcState I T}
    (hkeep : Keeps r.st res.2) (op : IpcOp I T) : QueueEffect fuel r op (r.ret c cur ipc res) :=
  .keep hkeep fun _ _ h => (ret_inPend h).2

/-- A first half that blocked. -/
theorem block {c : IpcCall} {cur : T} {n : Nat} {ipc : Option I} {i : I} {s : IpcState I T}
    {pc : I → Pc I T} {res : CallResult I × IpcState I T} (hblock : blocksOn r.st c n ipc = some i)
    (hkeep : Keeps r.st s) (hres : ipcBlock fuel s i cur = some res)
    (hpc : ∀ j k, (pc j).InPend k → k = j) :
    QueueEffect fuel r (.call c cur n ipc) (r.pend c cur ipc pc res) := by
  obtain ⟨s', hadd, rfl⟩ := Option.map_eq_some_iff.mp hres
  refine .enter hblock (hkeep.trans (Keeps.suspendSelf s cur)) hadd fun t j h => ?_
  by_cases ht : t = cur
  · rw [ht, show (r.pend c cur ipc pc (.blocked i, s')).pc cur = pc i
      from Function.update_self _ _ _] at h
    exact Or.inl ⟨ht, hpc i j h⟩
  · rw [show (r.pend c cur ipc pc (.blocked i, s')).pc t = r.pc t
      from Function.update_of_ne ht _ _] at h
    exact Or.inr h

/-- `acoral_mutex_pend`, its first half. -/
theorem mutexPend {cur : T} {n : Nat} {ipc : Option I} {res : CallResult I × IpcState I T}
    (hres : acoralMutexPend fuel cur n ipc r.st = some res) :
    QueueEffect fuel r (.call .acoral_mutex_pend cur n ipc)
      (r.pend .acoral_mutex_pend cur ipc .mutexPend res) := by
  unfold acoralMutexPend at hres
  cases hcheck : ipcPendCheck .ACORAL_IPC_MUTEX n r.st ipc with
  | error e =>
      rw [hcheck] at hres
      obtain rfl := Option.some.inj hres
      exact ret (Keeps.refl r.st) _
  | ok i =>
      simp only [hcheck] at hres
      split at hres
      case isTrue =>
        obtain rfl := Option.some.inj hres
        exact ret (Keeps.setIpc r.st i _) _
      case isFalse hcount =>
        refine block ?_ (Keeps.refl r.st) hres fun j k h => ?_
        · simp only [blocksOn, hcheck, if_neg hcount]
        · simpa [Pc.InPend, eq_comm] using h

/-- `acoral_sem_pend`, its first half. -/
theorem semPend {cur : T} {n : Nat} {ipc : Option I} {res : CallResult I × IpcState I T}
    (hres : acoralSemPend fuel cur n ipc r.st = some res) :
    QueueEffect fuel r (.call .acoral_sem_pend cur n ipc)
      (r.pend .acoral_sem_pend cur ipc .semPend res) := by
  unfold acoralSemPend at hres
  cases hcheck : ipcPendCheck .ACORAL_IPC_SEM n r.st ipc with
  | error e =>
      rw [hcheck] at hres
      obtain rfl := Option.some.inj hres
      exact ret (Keeps.refl r.st) _
  | ok i =>
      simp only [hcheck] at hres
      split at hres
      case isTrue =>
        obtain rfl := Option.some.inj hres
        exact ret (Keeps.setIpc r.st i _) _
      case isFalse hcount =>
        refine block ?_ (Keeps.setIpc r.st i _) hres fun j k h => ?_
        · simp only [blocksOn, hcheck, if_neg hcount]
        · simpa [Pc.InPend, eq_comm] using h

/-- `acoral_sem_pends`, its first half. -/
theorem semPends {cur : T} {n : Nat} {ipc : Option I} {res : CallResult I × IpcState I T}
    (hres : acoralSemPends fuel cur n ipc r.st = some res) :
    QueueEffect fuel r (.call .acoral_sem_pends cur n ipc)
      (r.pend .acoral_sem_pends cur ipc .semPends res) := by
  unfold acoralSemPends at hres
  cases hcheck : ipcPendCheck .ACORAL_IPC_SEM n r.st ipc with
  | error e =>
      rw [hcheck] at hres
      obtain rfl := Option.some.inj hres
      exact ret (Keeps.refl r.st) _
  | ok i =>
      simp only [hcheck] at hres
      split at hres
      case isTrue =>
        obtain rfl := Option.some.inj hres
        exact ret (Keeps.refl r.st) _
      case isFalse hcount =>
        refine block ?_ (Keeps.refl r.st) hres fun j k h => ?_
        · simp only [blocksOn, hcheck, if_neg hcount]
        · simpa [Pc.InPend, eq_comm] using h

omit [DecidableEq T] in
/-- `acoral_mutex_trypend`. -/
theorem mutexTrypend (cur : T) (n : Nat) (ipc : Option I) (s : IpcState I T) :
    Keeps s (acoralMutexTrypend cur n ipc s).2 := by
  unfold acoralMutexTrypend
  split
  · exact Keeps.refl s
  · split
    · exact Keeps.setIpc s _ _
    · exact Keeps.refl s

omit [DecidableEq T] in
/-- `acoral_sem_trypend`. -/
theorem semTrypend (n : Nat) (ipc : Option I) (s : IpcState I T) :
    Keeps s (acoralSemTrypend n ipc s).2 := by
  unfold acoralSemTrypend
  split
  · exact Keeps.refl s
  · split
    · exact Keeps.setIpc s _ _
    · exact Keeps.refl s

/-- The critical section of `acoral_mutex_post`. A thread that it picks is
the first one of the wait queue. -/
theorem mutexPost {cur : T} {ipc : Option I} {s s' : IpcState I T} {e : KernelError}
    {u : Option T} (hres : acoralMutexPost cur ipc s = some (e, u, s')) :
    Keeps s s' ∧ ∀ t, u = some t → ∃ i, ipc = some i ∧ acoralIpcHighThread s i = some (some t) := by
  unfold acoralMutexPost ipcCheck at hres
  cases ipc with
  | none =>
      obtain ⟨-, rfl, rfl⟩ : _ ∧ _ ∧ _ := by simpa using hres
      exact ⟨Keeps.refl _, fun t ht => by simp at ht⟩
  | some i =>
      by_cases htype : (s.ipc i).type ≠ .ACORAL_IPC_MUTEX
      · obtain ⟨-, rfl, rfl⟩ : _ ∧ _ ∧ _ := by simpa [htype] using hres
        exact ⟨Keeps.refl _, fun t ht => by simp at ht⟩
      · by_cases hown : (s.ipc i).data ≠ some cur
        · obtain ⟨-, rfl, rfl⟩ : _ ∧ _ ∧ _ := by simpa [htype, hown] using hres
          exact ⟨Keeps.refl _, fun t ht => by simp at ht⟩
        · simp only [htype, hown, if_false] at hres
          obtain ⟨v, hv, heq⟩ := Option.map_eq_some_iff.mp hres
          simp only [Prod.mk.injEq] at heq
          obtain ⟨-, rfl, rfl⟩ := heq
          exact ⟨⟨rfl, rfl, fun _ => rfl⟩, fun t ht => ⟨i, rfl, ht ▸ hv⟩⟩

/-- `acoral_sem_post`. A thread that becomes READY is the first one of the
wait queue. -/
theorem semPost {ipc : Option I} {s s' : IpcState I T} {e : KernelError}
    (hres : acoralSemPost ipc s = some (e, s')) :
    Keeps s s' ∧ ∀ t, s.isReady t = false → s'.isReady t = true →
      ∃ i, ipc = some i ∧ acoralIpcHighThread s i = some (some t) := by
  have hquiet : ∀ {s' : IpcState I T}, Keeps s s' → s'.sched = s.sched →
      Keeps s s' ∧ ∀ t, s.isReady t = false → s'.isReady t = true →
        ∃ i, ipc = some i ∧ acoralIpcHighThread s i = some (some t) := by
    intro s' hkeep hsched
    refine ⟨hkeep, fun t ht ht' => ?_⟩
    unfold IpcState.isReady at ht ht'
    rw [hsched, ht] at ht'
    exact Bool.noConfusion ht'
  unfold acoralSemPost ipcCheck at hres
  cases ipc with
  | none =>
      obtain ⟨-, rfl⟩ : _ ∧ _ := by simpa using hres
      exact hquiet (Keeps.refl _) rfl
  | some i =>
      by_cases htype : (s.ipc i).type ≠ .ACORAL_IPC_SEM
      · obtain ⟨-, rfl⟩ : _ ∧ _ := by simpa [htype] using hres
        exact hquiet (Keeps.refl _) rfl
      simp only [htype, if_false] at hres
      split at hres
      case isFalse =>
        obtain ⟨-, rfl⟩ : _ ∧ _ := by simpa using hres
        exact hquiet (Keeps.refl _) rfl
      split at hres
      case isTrue =>
        obtain ⟨-, rfl⟩ : _ ∧ _ := by simpa using hres
        exact hquiet (Keeps.setIpc s i _) rfl
      obtain ⟨v, hv, heq⟩ := Option.map_eq_some_iff.mp hres
      cases v with
      | none =>
          obtain ⟨-, rfl⟩ : _ ∧ _ := by simpa using heq
          exact hquiet (Keeps.setIpc s i _) rfl
      | some u =>
          simp only [Prod.mk.injEq] at heq
          obtain ⟨-, rfl⟩ := heq
          refine ⟨(Keeps.setIpc s i _).trans (Keeps.rdyThread _ u), fun t ht ht' => ⟨i, rfl, ?_⟩⟩
          have hflag := (rdyThread_flags (decCount s i) u t).1
          by_cases htu : t = u
          · rw [htu]
            exact hv
          · rw [if_neg fun h => htu h.1] at hflag
            rw [hflag, show (decCount s i).isReady t = s.isReady t from rfl, ht] at ht'
            exact Bool.noConfusion ht'

/-- `acoral_sem_posts`. -/
theorem semPosts {ipc : Option I} {s s' : IpcState I T} {e : KernelError}
    (hres : acoralSemPosts fuel ipc s = some (e, s')) : Keeps s s' := by
  unfold acoralSemPosts at hres
  split at hres
  · obtain ⟨-, rfl⟩ : _ ∧ _ := by simpa using hres
    exact Keeps.refl _
  · rename_i i hcheck
    simp only at hres
    split at hres
    · obtain ⟨s₂, hall, heq⟩ := Option.map_eq_some_iff.mp hres
      obtain ⟨-, rfl⟩ : _ ∧ _ := by simpa using heq
      refine Keeps.trans ?_ (Keeps.semRdyAll hall)
      split
      · exact Keeps.setIpc s i _
      · exact Keeps.refl _
    · obtain ⟨-, rfl⟩ : _ ∧ _ := by simpa using hres
      exact Keeps.refl _

/-- A call. -/
theorem call {c : IpcCall} {cur : T} {n : Nat} {ipc : Option I}
    (hcall : ipcCall fuel r c cur n ipc = some r') : QueueEffect fuel r (.call c cur n ipc) r' := by
  cases c with
  | acoral_mutex_trypend =>
      obtain rfl := Option.some.inj hcall
      exact ret (mutexTrypend cur n ipc r.st) _
  | acoral_mutex_pend =>
      obtain ⟨res, hres, rfl⟩ := Option.map_eq_some_iff.mp hcall
      exact mutexPend hres
  | acoral_mutex_post =>
      obtain ⟨⟨e, u, s'⟩, hres, rfl⟩ := Option.map_eq_some_iff.mp hcall
      have hkeep := (mutexPost hres).1
      cases ipc with
      | none => exact ret hkeep _
      | some i =>
          cases u with
          | none => exact ret hkeep _
          | some u =>
              refine .keep hkeep fun t j h => ?_
              by_cases ht : t = cur
              · rw [ht, show (r.posted cur (some i) (e, some u, s')).pc cur = .mutexPost i u
                  from Function.update_self _ _ _] at h
                simp [Pc.InPend] at h
              · rwa [show (r.posted cur (some i) (e, some u, s')).pc t = r.pc t
                  from Function.update_of_ne ht _ _] at h
  | acoral_sem_trypend =>
      obtain rfl := Option.some.inj hcall
      exact ret (semTrypend n ipc r.st) _
  | acoral_sem_pend =>
      obtain ⟨res, hres, rfl⟩ := Option.map_eq_some_iff.mp hcall
      exact semPend hres
  | acoral_sem_pends =>
      obtain ⟨res, hres, rfl⟩ := Option.map_eq_some_iff.mp hcall
      exact semPends hres
  | acoral_sem_post =>
      obtain ⟨⟨e, s'⟩, hres, rfl⟩ := Option.map_eq_some_iff.mp hcall
      exact ret (semPost hres).1 _
  | acoral_sem_posts =>
      obtain ⟨⟨e, s'⟩, hres, rfl⟩ := Option.map_eq_some_iff.mp hcall
      exact ret (semPosts hres) _

/-- The rest of a call. -/
theorem resume {cur : T} (hresume : ipcResume r cur = some r') :
    QueueEffect fuel r (.resume cur) r' := by
  unfold ipcResume at hresume
  cases hpc : r.pc cur with
  | idle => simp [hpc] at hresume
  | mutexPend i =>
      simp only [hpc] at hresume
      obtain ⟨res, hres, rfl⟩ := Option.map_eq_some_iff.mp hresume
      unfold acoralMutexPendResume at hres
      split at hres
      · obtain ⟨s, hdel, rfl⟩ := Option.map_eq_some_iff.mp hres
        exact .leave (i := i) (Or.inl hpc) hdel (Keeps.setIpc s i _) fun _ _ => ret_inPend
      · obtain rfl := Option.some.inj hres
        exact ret (Keeps.refl r.st) _
  | semPend i =>
      simp only [hpc] at hresume
      obtain ⟨res, hres, rfl⟩ := Option.map_eq_some_iff.mp hresume
      obtain ⟨s, hdel, rfl⟩ := Option.map_eq_some_iff.mp hres
      exact .leave (i := i) (Or.inr (Or.inl hpc)) hdel (Keeps.refl s) fun _ _ => ret_inPend
  | semPends i =>
      simp only [hpc] at hresume
      obtain ⟨res, hres, rfl⟩ := Option.map_eq_some_iff.mp hresume
      obtain ⟨s, hdel, rfl⟩ := Option.map_eq_some_iff.mp hres
      exact .leave (i := i) (Or.inr (Or.inr hpc)) hdel (Keeps.refl s) fun _ _ => ret_inPend
  | mutexPost i u =>
      simp only [hpc] at hresume
      obtain rfl := Option.some.inj hresume
      refine .keep (Keeps.rdyThread r.st u) fun t j h => ?_
      by_cases ht : t = cur
      · rw [ht] at h
        simp [Pc.InPend] at h
      · have hkept : Function.update r.pc cur .idle t = r.pc t := Function.update_of_ne ht _ _
        exact hkept ▸ h

/-- Every step. -/
theorem step {op : IpcOp I T} (hstep : ipcStep fuel r op = some r') : QueueEffect fuel r op r' := by
  cases op with
  | call c cur n ipc =>
      simp only [ipcStep, Option.ite_none_right_eq_some] at hstep
      exact call hstep.2
  | resume cur =>
      simp only [ipcStep, Option.ite_none_right_eq_some] at hstep
      exact resume hstep.2

end QueueEffect

/-! ### The invariant -/

/-- The wait queues `Q` are apart, hold the threads that are in the middle
of a pend, and are sorted by key and by current priority. -/
structure PrioQueues (r : IpcRun I T) (Q : I → List T) : Prop extends r.st.Queues Q where
  mem : ∀ t i, (r.pc t).InPend i → t ∈ Q i
  keys : ∀ i, (Q i).Pairwise fun u v => r.st.pendingValue u ≤ r.st.pendingValue v
  sorted : ∀ i, (Q i).Pairwise fun u v => r.st.prio u ≤ r.st.prio v

namespace PrioQueues

variable {r r' : IpcRun I T} {Q : I → List T}

omit [DecidableEq I] [DecidableEq T] in
/-- A step that leaves the queues alone. -/
theorem keep (h : PrioQueues r Q) (hkeep : Keeps r.st r'.st)
    (hpc : ∀ t j, (r'.pc t).InPend j → (r.pc t).InPend j) : PrioQueues r' Q := by
  refine ⟨h.toQueues.congr hkeep.links, fun t i ht => h.mem t i (hpc t i ht), fun i => ?_,
    fun i => ?_⟩
  · rw [hkeep.pendingValue]
    exact h.keys i
  · simp only [hkeep.prio]
    exact h.sorted i

/-- A thread of no queue enters one, where its key says. -/
theorem enter (h : PrioQueues r Q) {fuel : Nat} {cur : T} {i : I} {s : IpcState I T}
    (hfree : ∀ j, cur ∉ Q j)
    (hagree : ∀ u ∈ Q i,
      (r.st.pendingValue u ≤ r.st.pendingValue cur → r.st.prio u ≤ r.st.prio cur) ∧
      (r.st.pendingValue cur < r.st.pendingValue u → r.st.prio cur ≤ r.st.prio u))
    (hkeep : Keeps r.st s) (hadd : acoralIpcWaitQueueAdd fuel s i cur = some r'.st)
    (hpc : ∀ t j, (r'.pc t).InPend j → t = cur ∧ j = i ∨ (r.pc t).InPend j) :
    PrioQueues r' (Function.update Q i (s.enqueue cur (Q i))) := by
  have hqueues : s.Queues Q := h.toQueues.congr hkeep.links
  obtain ⟨-, hsched, -⟩ := (hqueues.waits i).add (hfree i) hadd
  have hkey : r'.st.pendingValue = r.st.pendingValue := by
    obtain ⟨links, -, heq⟩ := Option.map_eq_some_iff.mp hadd
    rw [← heq]
    exact hkeep.pendingValue
  have hprio : ∀ t, r'.st.prio t = r.st.prio t := fun t => by
    rw [← hkeep.prio t]
    unfold IpcState.prio
    rw [hsched]
  have henqueue : s.enqueue cur (Q i) =
      (Q i).orderedInsert (fun a b => r.st.pendingValue a < r.st.pendingValue b) cur := by
    unfold IpcState.enqueue
    rw [hkeep.pendingValue]
  constructor
  case toQueues => exact hqueues.add hfree hadd
  case mem =>
    intro t j ht
    rcases hpc t j ht with ⟨rfl, rfl⟩ | ht
    · rw [Function.update_self, mem_enqueue]
      exact Or.inl rfl
    · have hold := h.mem t j ht
      by_cases hj : j = i
      · rw [hj, Function.update_self, mem_enqueue]
        exact Or.inr (hj ▸ hold)
      · rwa [Function.update_of_ne hj]
  case keys =>
    intro j
    rw [hkey]
    by_cases hj : j = i
    · rw [hj, Function.update_self, henqueue]
      exact pairwise_orderedInsert (h.keys i) (h.keys i) fun u _ => ⟨id, le_of_lt⟩
    · rw [Function.update_of_ne hj]
      exact h.keys j
  case sorted =>
    intro j
    simp only [hprio]
    by_cases hj : j = i
    · rw [hj, Function.update_self, henqueue]
      exact pairwise_orderedInsert (h.keys i) (h.sorted i) hagree
    · rw [Function.update_of_ne hj]
      exact h.sorted j

/-- A thread leaves its queue. -/
theorem leave (h : PrioQueues r Q) {cur : T} {i : I} {s : IpcState I T} (hin : cur ∈ Q i)
    (hdel : acoralIpcWaitQueueDel r.st cur = some s) (hkeep : Keeps s r'.st)
    (hpc : ∀ t j, (r'.pc t).InPend j → t ≠ cur ∧ (r.pc t).InPend j) :
    PrioQueues r' (Function.update Q i ((Q i).erase cur)) := by
  have hsub := fun j => IpcState.Queues.erase_sublist Q i j cur
  have hkey : r'.st.pendingValue = r.st.pendingValue := by
    obtain ⟨links, -, heq⟩ := Option.map_eq_some_iff.mp hdel
    rw [hkeep.pendingValue, ← heq]
  have hprio : ∀ t, r'.st.prio t = r.st.prio t := fun t => by
    obtain ⟨links, -, heq⟩ := Option.map_eq_some_iff.mp hdel
    rw [hkeep.prio t, ← heq]
    rfl
  constructor
  case toQueues => exact (h.toQueues.del hin hdel).congr hkeep.links
  case mem =>
    intro t j ht
    obtain ⟨hne, ht⟩ := hpc t j ht
    have hold := h.mem t j ht
    by_cases hj : j = i
    · rw [hj, Function.update_self]
      exact (List.mem_erase_of_ne hne).mpr (hj ▸ hold)
    · rwa [Function.update_of_ne hj]
  case keys =>
    intro j
    rw [hkey]
    exact (h.keys j).sublist (hsub j)
  case sorted =>
    intro j
    simp only [hprio]
    exact (h.sorted j).sublist (hsub j)

/-- The priority of a thread changes. -/
theorem changePrio [Fintype I] [Fintype T] (h : PrioQueues r Q) {t : T} {prio : Nat}
    (hguard : orderGuard r (.acoral_thread_change_prio t prio) = true) :
    PrioQueues { r with st := r.st.changePrio t prio } Q := by
  refine ⟨h.toQueues.congr rfl, h.mem, h.keys, fun i => ?_⟩
  rw [Keeps.changePrio_prio]
  by_cases ht : t ∈ Q i
  · obtain ⟨l₁, l₂, hsplit⟩ := List.append_of_mem ht
    have hnodup := (h.waits i).nodup
    have hsorted := h.sorted i
    have hguard := of_decide_eq_true hguard i
    rw [(h.waits i).waiters_eq] at hguard
    rw [hsplit] at hnodup hsorted hguard ⊢
    have hne : ∀ u ∈ l₁, u ≠ t := fun u hu =>
      (List.nodup_append.mp hnodup).2.2 u hu t List.mem_cons_self
    have htake : (l₁ ++ t :: l₂).takeWhile (· ≠ t) = l₁ := by
      rw [List.takeWhile_append_of_pos (by simpa using hne)]
      simp
    have hdrop : ((l₁ ++ t :: l₂).dropWhile (· ≠ t)).tail = l₂ := by
      rw [List.dropWhile_append_of_pos (by simpa using hne)]
      simp
    rw [htake, hdrop] at hguard
    obtain ⟨hbefore, hbehind⟩ := hguard (by simp)
    exact pairwise_update hnodup hsorted hbefore hbehind
  · refine (h.sorted i).imp_of_mem fun {a b} ha hb hab => ?_
    have hna : a ≠ t := fun he => ht (he ▸ ha)
    have hnb : b ≠ t := fun he => ht (he ▸ hb)
    rwa [Function.update_of_ne hna, Function.update_of_ne hnb]

/-- Every step that meets the guard. -/
theorem step [Fintype I] [Fintype T] (h : PrioQueues r Q) {fuel : Nat} {op : PrioOp I T}
    (hguard : orderGuard r op = true) (hstep : prioStep fuel r op = some r') :
    ∃ Q', PrioQueues r' Q' := by
  cases op with
  | acoral_thread_change_prio t prio =>
      obtain rfl := Option.some.inj hstep
      exact ⟨Q, h.changePrio hguard⟩
  | ipc op =>
      cases QueueEffect.step hstep with
      | keep hkeep hpc => exact ⟨Q, h.keep hkeep hpc⟩
      | leave hin hdel hkeep hpc => exact ⟨_, h.leave (h.mem _ _ hin) hdel hkeep hpc⟩
      | @enter c cur n ipc i s _ hblock hkeep hadd hpc =>
          simp only [orderGuard, hblock, decide_eq_true_eq] at hguard
          obtain ⟨hself, hagree⟩ := hguard
          rw [(h.waits i).waiters_eq] at hagree
          -- a node that is linked to itself is in no queue
          refine ⟨_, h.enter (fun j hj => ?_) hagree hkeep hadd hpc⟩
          obtain ⟨l₁, l₂, hsplit⟩ := List.append_of_mem hj
          have hring := h.waits j
          unfold IpcState.Waits at hring
          rw [hsplit, List.map_append, List.map_cons] at hring
          have hnext := hring.next_mem
          have hnodup := List.nodup_cons.mp hring.nodup
          rw [hself] at hnext
          cases l₂ with
          | nil => cases hnext
          | cons u l₂ =>
              obtain rfl : cur = u := by simpa using hnext
              have := (List.nodup_append.mp hnodup.2).2.1
              simp at this

omit [DecidableEq T] in
/-- The first of a wait queue is one of the most urgent. -/
theorem high (h : PrioQueues r Q) {i : I} {t : T}
    (hhigh : acoralIpcHighThread r.st i = some (some t)) :
    t ∈ Q i ∧ ∀ u ∈ Q i, r.st.prio t ≤ r.st.prio u := by
  rw [(h.waits i).high, Option.some.injEq] at hhigh
  obtain ⟨l, hl⟩ := List.head?_eq_some_iff.mp hhigh
  have hsorted := h.sorted i
  rw [hl] at hsorted ⊢
  refine ⟨List.mem_cons_self, fun u hu => ?_⟩
  rcases List.mem_cons.mp hu with rfl | hu
  · exact le_refl _
  · exact (List.pairwise_cons.mp hsorted).1 u hu

end PrioQueues

/-- The thread `t` waits on `i`, and no thread that waits on `i` has a
smaller priority number. -/
def IpcState.MostUrgent (s : IpcState I T) (i : I) (t : T) : Prop :=
  ∃ q, s.Waits i q ∧ t ∈ q ∧ ∀ u ∈ q, s.prio t ≤ s.prio u

/-- Every run of any number of threads, mutexes and semaphores, with any
changes of priority, whose steps meet the guard. In every state of it, a
thread that `acoral_sem_post` makes READY, and a thread that
`acoral_mutex_post` picks to make it READY, is one of the most urgent that
wait on the object. -/
theorem prio_wakeup [Fintype I] [Fintype T] (fuel : Nat) (s : IpcState I T)
    (hinit : ∀ i, s.Waits i []) (ops : List (PrioOp I T)) (r : IpcRun I T)
    (hrun : run (guarded orderGuard (prioStep fuel)) (IpcRun.start s) ops = some r) :
    (∀ cur n ipc r', prioStep fuel r (.ipc (.call .acoral_sem_post cur n ipc)) = some r' →
      ∀ t, r.st.isReady t = false → r'.st.isReady t = true →
        ∃ i, ipc = some i ∧ r.st.MostUrgent i t) ∧
    (∀ cur n ipc r', prioStep fuel r (.ipc (.call .acoral_mutex_post cur n ipc)) = some r' →
      ∀ i t, r'.pc cur = .mutexPost i t → ipc = some i ∧ r.st.MostUrgent i t) := by
  have hstart : PrioQueues (IpcRun.start s) fun _ => [] :=
    ⟨⟨hinit, fun _ _ _ h => absurd h List.not_mem_nil⟩,
      fun _ i h => absurd h (QueueEffect.not_inPend_idle i), fun _ => .nil, fun _ => .nil⟩
  obtain ⟨Q, h⟩ := guarded_induct (P := fun r => ∃ Q, PrioQueues r Q)
    (fun _ _ _ ⟨_, hinv⟩ hguard hstep => hinv.step hguard hstep) ⟨_, hstart⟩ hrun
  have hmost : ∀ {i t}, acoralIpcHighThread r.st i = some (some t) → r.st.MostUrgent i t :=
    fun hhigh => ⟨_, h.waits _, h.high hhigh⟩
  refine ⟨fun cur n ipc r' hstep t ht ht' => ?_, fun cur n ipc r' hstep i t hpc => ?_⟩
  · simp only [prioStep, ipcStep, ipcCall, Option.ite_none_right_eq_some] at hstep
    obtain ⟨⟨e, s'⟩, hres, rfl⟩ := Option.map_eq_some_iff.mp hstep.2
    obtain ⟨i, hi, hhigh⟩ := (QueueEffect.semPost hres).2 t ht ht'
    exact ⟨i, hi, hmost hhigh⟩
  · simp only [prioStep, ipcStep, ipcCall, Option.ite_none_right_eq_some] at hstep
    obtain ⟨⟨e, u, s'⟩, hres, rfl⟩ := Option.map_eq_some_iff.mp hstep.2
    cases ipc with
    | none =>
        rw [show (r.posted cur none (e, u, s')).pc cur = .idle from Function.update_self _ _ _] at hpc
        cases hpc
    | some j =>
        cases u with
        | none =>
            rw [show (r.posted cur (some j) (e, none, s')).pc cur = .idle
              from Function.update_self _ _ _] at hpc
            cases hpc
        | some u =>
            rw [show (r.posted cur (some j) (e, some u, s')).pc cur = .mutexPost j u
              from Function.update_self _ _ _] at hpc
            obtain ⟨rfl, rfl⟩ : j = i ∧ u = t := by simpa using hpc
            obtain ⟨k, hk, hhigh⟩ := (QueueEffect.mutexPost hres).2 u rfl
            obtain rfl := Option.some.inj hk
            exact ⟨rfl, hmost hhigh⟩

/-- A semaphore of no units, of three ready threads. -/
def noUnits : IpcState Unit (Fin 3) := (acoralSemInit (some ()) 0 threeReady).2

theorem noUnits_waits (i : Unit) : noUnits.Waits i [] := by
  unfold IpcState.Waits
  exact Lib.Links.isRing_nil rfl rfl

/-- Two threads wait, and the second one becomes as urgent as the first. -/
theorem prio_wakeup_twoWaiters :
    ∃ r, run (guarded orderGuard (prioStep 4)) (IpcRun.start noUnits)
        [.ipc (.call .acoral_sem_pend 0 0 (some ())), .ipc (.call .acoral_sem_pend 1 0 (some ())),
         .acoral_thread_change_prio 1 3] = some r ∧
      ∀ cur n ipc r', prioStep 4 r (.ipc (.call .acoral_sem_post cur n ipc)) = some r' →
        ∀ t, r.st.isReady t = false → r'.st.isReady t = true →
          ∃ i, ipc = some i ∧ r.st.MostUrgent i t := by
  have hsome : (run (guarded orderGuard (prioStep 4)) (IpcRun.start noUnits)
      [.ipc (.call .acoral_sem_pend 0 0 (some ())), .ipc (.call .acoral_sem_pend 1 0 (some ())),
       .acoral_thread_change_prio 1 3]).isSome = true := by decide
  obtain ⟨r, hr⟩ := Option.isSome_iff_exists.mp hsome
  exact ⟨r, hr, (prio_wakeup 4 noUnits noUnits_waits _ r hr).1⟩

/-- A thread of priority 4 gets priority 1 before it ever blocks. Then it
waits behind one of priority 3, which the post makes READY. -/
theorem sem_post_lessUrgent :
    ∃ r r', run (prioStep 4) (IpcRun.start noUnits)
        [.acoral_thread_change_prio 1 1, .ipc (.call .acoral_sem_pend 0 0 (some ())),
         .ipc (.call .acoral_sem_pend 1 0 (some ()))] = some r ∧
      prioStep 4 r (.ipc (.call .acoral_sem_post 2 0 (some ()))) = some r' ∧
      r.st.isReady 0 = false ∧ r'.st.isReady 0 = true ∧ ¬ r.st.MostUrgent () 0 := by
  have hsome : (run (prioStep 4) (IpcRun.start noUnits)
      ([.acoral_thread_change_prio 1 1, .ipc (.call .acoral_sem_pend 0 0 (some ())),
        .ipc (.call .acoral_sem_pend 1 0 (some ()))] ++
       [.ipc (.call .acoral_sem_post 2 0 (some ()))])).isSome = true := by decide
  obtain ⟨r', hr'⟩ := Option.isSome_iff_exists.mp hsome
  obtain ⟨r, hr, hpost⟩ := Lib.run_append.mp hr'
  have hbefore : (run (prioStep 4) (IpcRun.start noUnits)
      [.acoral_thread_change_prio 1 1, .ipc (.call .acoral_sem_pend 0 0 (some ())),
       .ipc (.call .acoral_sem_pend 1 0 (some ()))]).map
      (fun r => (r.st.isReady 0, r.st.waiters (), r.st.prio 0, r.st.prio 1)) =
        some (false, [0, 1], 3, 1) := by decide
  have hafter : (run (prioStep 4) (IpcRun.start noUnits)
      ([.acoral_thread_change_prio 1 1, .ipc (.call .acoral_sem_pend 0 0 (some ())),
        .ipc (.call .acoral_sem_pend 1 0 (some ()))] ++
       [.ipc (.call .acoral_sem_post 2 0 (some ()))])).map (fun r => r.st.isReady 0) =
        some true := by decide
  rw [hr, Option.map_some, Option.some.injEq] at hbefore
  rw [hr', Option.map_some, Option.some.injEq] at hafter
  simp only [Prod.mk.injEq] at hbefore
  obtain ⟨hready, hwaiters, h0, h1⟩ := hbefore
  obtain ⟨m, hm, hnil⟩ := Lib.run_cons_eq_some.mp hpost
  obtain rfl := Option.some.inj hnil
  refine ⟨r, m, hr, hm, hready, hafter, ?_⟩
  rintro ⟨q, hq, -, hmin⟩
  rw [← hq.waiters_eq, hwaiters] at hmin
  have hle := hmin 1 (by simp)
  rw [h0, h1] at hle
  exact absurd hle (by decide)

end ACoral
