import ACoral.Kernel.PendSystem
import ACoral.Proofs.Ceiling.Ops
import ACoral.Proofs.Pending.Ready

/-!
# `ACoral.Proofs.Pending.Effect`: what the calls do to the `pending` nodes

Most of what the operations do concerns neither the `pending` nodes, nor
`thread->ipc`, nor which threads are killed, and keeps the ready arrays
right (`SamePend`). What is left is
the linking of the caller's node by a pend that blocks (`Enters`), its
unlinking behind the schedule point, and the unlinking of a waiting thread
in `acoral_dpcp_post`.

- `mutexPend_nodes`, `semPend_nodes`, `semPends_nodes`: a pend returns
  and leaves the nodes alone, or its caller enters the wait queue.
- `mpcpPendOn_effect`, `dpcpRoundOn_effect`: the same for the protocols.
- `mpcpPostOn_same`, `dpcpPostOn_effect`: the posts. That of MPCP unlinks
  no node.
-/

set_option autoImplicit false

namespace ACoral

/-! ### The EXIT bit -/

/-- The EXIT bit of a thread. -/
def Tcb.isExit (t : Tcb) : Bool := hasFlag t.state ACORAL_THREAD_STATE_EXIT

/-- `acoral_sched_rdyqueue_add` leaves the EXIT bit. -/
theorem exit_readyState (s : BitVec 8) :
    hasFlag ((s &&& ~~~ ACORAL_THREAD_STATE_SUSPEND) ||| ACORAL_THREAD_STATE_READY)
      ACORAL_THREAD_STATE_EXIT = hasFlag s ACORAL_THREAD_STATE_EXIT := by
  revert s
  decide

/-- So does `acoral_sched_rdyqueue_del`. -/
theorem exit_suspendState (s : BitVec 8) :
    hasFlag (((s &&& ~~~ ACORAL_THREAD_STATE_READY) &&& ~~~ ACORAL_THREAD_STATE_RUNNING)
      ||| ACORAL_THREAD_STATE_SUSPEND) ACORAL_THREAD_STATE_EXIT =
      hasFlag s ACORAL_THREAD_STATE_EXIT := by
  revert s
  decide

section Sched

variable {T : Type} [DecidableEq T]

theorem rdyqueueAdd_isExit (cur : Nat) (k : Sched T) (t u : T) :
    ((acoralSchedRdyqueueAdd cur k t).thread u).isExit = (k.thread u).isExit := by
  by_cases hu : u = t
  · subst hu
    simp only [acoralSchedRdyqueueAdd, Function.update_self, Tcb.isExit]
    exact exit_readyState _
  · simp [acoralSchedRdyqueueAdd, hu]

theorem rdyqueueDel_isExit (cur : Nat) (k : Sched T) (t u : T) :
    ((acoralSchedRdyqueueDel cur k t).thread u).isExit = (k.thread u).isExit := by
  by_cases hu : u = t
  · subst hu
    simp only [acoralSchedRdyqueueDel, Function.update_self, Tcb.isExit]
    exact exit_suspendState _
  · simp [acoralSchedRdyqueueDel, hu]

theorem rdyThread_isExit (cur : Nat) (k : Sched T) (t u : T) :
    ((acoralRdyThread cur k t).2.thread u).isExit = (k.thread u).isExit := by
  unfold acoralRdyThread
  split
  · rfl
  · split
    · rfl
    · exact rdyqueueAdd_isExit cur k t u

theorem suspendThread_isExit (cur : Nat) (k : Sched T) (t u : T) :
    ((acoralSuspendThread cur k t).2.thread u).isExit = (k.thread u).isExit := by
  unfold acoralSuspendThread
  split
  · rfl
  · split
    · rfl
    · exact rdyqueueDel_isExit cur k t u

theorem setPrio_isExit (k : Sched T) (t : T) (prio : Nat) (u : T) :
    ((k.setPrio t prio).thread u).isExit = (k.thread u).isExit := by
  by_cases hu : u = t
  · simp [Sched.setPrio, Tcb.isExit, hu]
  · simp [Sched.setPrio, hu]

theorem changePrio_isExit (cur : Nat) (k : Sched T) (t : T) (prio : Nat) (u : T) :
    ((acoralThreadChangePrio cur k t prio).thread u).isExit = (k.thread u).isExit := by
  unfold acoralThreadChangePrio
  split
  · rfl
  · split
    · rw [rdyqueueAdd_isExit, setPrio_isExit, rdyqueueDel_isExit]
    · exact setPrio_isExit k t prio u

end Sched

/-! ### What leaves the nodes alone -/

section Same

variable {I T : Type} [DecidableEq T]

/-- The `pending` nodes, `thread->ipc` and the killed threads are the same, and
the ready arrays are as they should be. -/
structure SamePend (s s' : IpcState I T) : Prop where
  links : s'.links = s.links
  threadIpc : s'.threadIpc = s.threadIpc
  isExit : ∀ t, (s'.sched.thread t).isExit = (s.sched.thread t).isExit
  ready : ReadyOk s.sched → ReadyOk s'.sched

namespace SamePend

variable {s s' s'' : IpcState I T}

theorem refl (s : IpcState I T) : SamePend s s := ⟨rfl, rfl, fun _ => rfl, id⟩

theorem trans (h : SamePend s s') (h' : SamePend s' s'') : SamePend s s'' where
  links := h'.links.trans h.links
  threadIpc := h'.threadIpc.trans h.threadIpc
  isExit t := (h'.isExit t).trans (h.isExit t)
  ready hready := h'.ready (h.ready hready)

theorem rdyThread (s : IpcState I T) (t : T) : SamePend s (s.rdyThread t) :=
  ⟨rfl, rfl, rdyThread_isExit _ s.sched t, fun hready => hready.rdyThread t⟩

theorem suspendSelf (s : IpcState I T) (t : T) : SamePend s (s.suspendSelf t) :=
  ⟨rfl, rfl, suspendThread_isExit _ s.sched t, fun hready => hready.suspendThread t⟩

theorem changePrio (s : IpcState I T) (t : T) (prio : Nat) : SamePend s (s.changePrio t prio) :=
  ⟨rfl, rfl, changePrio_isExit _ s.sched t prio, fun hready => hready.changePrio t prio⟩

variable [DecidableEq I]

theorem setIpc (s : IpcState I T) (i : I) (o : Ipc T) : SamePend s (s.setIpc i o) :=
  ⟨rfl, rfl, fun _ => rfl, id⟩

end SamePend

end Same

/-! ### Mutexes and semaphores -/

section Ipc

variable {I T : Type} [DecidableEq I] [DecidableEq T] {s s' : IpcState I T} {i : Option I}
  {cur : T} {fuel n : Nat}

/-- A pend returned and left the nodes alone, or its caller entered the wait
queue of the object it named. -/
inductive PendEffect (fuel : Nat) (s : IpcState I T) (ipc : Option I) (cur : T) :
    CallResult I → IpcState I T → Prop
  | ret (e : KernelError) {s' : IpcState I T} (h : SamePend s s') :
      PendEffect fuel s ipc cur (.ret e) s'
  | blocked {i : I} {a s' : IpcState I T} (hi : ipc = some i) (h : SamePend s a)
      (hadd : acoralIpcWaitQueueAdd fuel a i cur = some s') :
      PendEffect fuel s ipc cur (.blocked i) s'

omit [DecidableEq I] [DecidableEq T] in
/-- The object that the checks of a pend let through is the one it named. -/
theorem ipcPendCheck_named {type : IpcType} {j : I} (h : ipcPendCheck type n s i = .ok j) :
    i = some j := by
  unfold ipcPendCheck at h
  split at h
  · cases h
  · cases i with
    | none => cases h
    | some i => rw [CeilingState.ipcCheck_ok h]

/-- The blocking part of a pend. -/
theorem ipcBlock_nodes {a : IpcState I T} {j : I} {res : CallResult I} (hi : i = some j)
    (h : SamePend s a) (hblock : ipcBlock fuel a j cur = some (res, s')) :
    PendEffect fuel s i cur res s' := by
  obtain ⟨b, hadd, he⟩ := Option.map_eq_some_iff.mp hblock
  obtain ⟨rfl, rfl⟩ := Prod.mk.inj he
  exact .blocked hi (h.trans (SamePend.suspendSelf a cur)) hadd

theorem mutexPend_nodes {res : CallResult I}
    (h : acoralMutexPend fuel cur n i s = some (res, s')) : PendEffect fuel s i cur res s' := by
  unfold acoralMutexPend at h
  split at h
  · cases h
    exact .ret _ (SamePend.refl s)
  · rename_i j hcheck
    split at h
    · cases h
      exact .ret _ (SamePend.setIpc s j _)
    · exact ipcBlock_nodes (ipcPendCheck_named hcheck) (SamePend.refl s) h

theorem semPend_nodes {res : CallResult I}
    (h : acoralSemPend fuel cur n i s = some (res, s')) : PendEffect fuel s i cur res s' := by
  unfold acoralSemPend at h
  split at h
  · cases h
    exact .ret _ (SamePend.refl s)
  · rename_i j hcheck
    split at h
    · cases h
      exact .ret _ (SamePend.setIpc s j _)
    · exact ipcBlock_nodes (ipcPendCheck_named hcheck) (SamePend.setIpc s j _) h

theorem semPends_nodes {res : CallResult I}
    (h : acoralSemPends fuel cur n i s = some (res, s')) : PendEffect fuel s i cur res s' := by
  unfold acoralSemPends at h
  split at h
  · cases h
    exact .ret _ (SamePend.refl s)
  · rename_i j hcheck
    split at h
    · cases h
      exact .ret _ (SamePend.refl s)
    · exact ipcBlock_nodes (ipcPendCheck_named hcheck) (SamePend.refl s) h

theorem mutexTrypend_same (s : IpcState I T) (cur : T) (n : Nat) (i : Option I) :
    SamePend s (acoralMutexTrypend cur n i s).2 := by
  unfold acoralMutexTrypend
  split
  · exact SamePend.refl s
  · split
    · exact SamePend.setIpc s _ _
    · exact SamePend.refl s

theorem semTrypend_same (s : IpcState I T) (n : Nat) (i : Option I) :
    SamePend s (acoralSemTrypend n i s).2 := by
  unfold acoralSemTrypend
  split
  · exact SamePend.refl s
  · split
    · exact SamePend.setIpc s _ _
    · exact SamePend.refl s

/-- `acoral_mutex_post` writes `thread->ipc` of its caller. -/
theorem mutexPost_nodes {e : KernelError} {thread : Option T}
    (h : acoralMutexPost cur i s = some (e, thread, s')) :
    SamePend s s' ∨ SamePend { s with threadIpc := Function.update s.threadIpc cur none } s' := by
  unfold acoralMutexPost at h
  split at h
  · cases h
    exact Or.inl (SamePend.refl s)
  · split at h
    · cases h
      exact Or.inl (SamePend.refl s)
    · obtain ⟨u, -, he⟩ := Option.map_eq_some_iff.mp h
      obtain ⟨-, he⟩ := Prod.mk.inj he
      obtain ⟨-, rfl⟩ := Prod.mk.inj he
      exact Or.inr (SamePend.setIpc _ _ _)

theorem semPost_same {e : KernelError} (h : acoralSemPost i s = some (e, s')) : SamePend s s' := by
  unfold acoralSemPost at h
  split at h
  · cases h
    exact SamePend.refl s
  · rename_i j hcheck
    dsimp only at h
    split at h
    · split at h
      · cases h
        exact SamePend.setIpc s j _
      · obtain ⟨u, -, he⟩ := Option.map_eq_some_iff.mp h
        cases u with
        | none =>
            cases he
            exact SamePend.setIpc s j _
        | some u =>
            cases he
            exact (SamePend.setIpc s j _).trans (SamePend.rdyThread _ u)
    · cases h
      exact SamePend.refl s

/-- The loop of `acoral_sem_posts` readies threads. -/
theorem semRdyAll_same {j : I} (fuel : Nat) (tmp : IpcNode I T)
    (h : semRdyAll j fuel tmp s = some s') : SamePend s s' := by
  induction fuel generalizing tmp s with
  | zero => cases h
  | succ fuel ih =>
      cases tmp with
      | head i =>
          simp only [semRdyAll] at h
          split at h
          · cases h
            exact SamePend.refl _
          · cases h
      | pending t => exact (SamePend.rdyThread s t).trans (ih _ h)

theorem semPosts_same {e : KernelError} (h : acoralSemPosts fuel i s = some (e, s')) :
    SamePend s s' := by
  unfold acoralSemPosts at h
  split at h
  · cases h
    exact SamePend.refl s
  · rename_i j hcheck
    dsimp only at h
    split at h
    · obtain ⟨a, hall, he⟩ := Option.map_eq_some_iff.mp h
      obtain ⟨-, rfl⟩ := Prod.mk.inj he
      have hdec : SamePend s (if (s.ipc j).count.toInt ≤ 1 then decCount s j else s) := by
        split
        · exact SamePend.setIpc s j _
        · exact SamePend.refl s
      exact hdec.trans (semRdyAll_same fuel _ hall)
    · cases h
      exact SamePend.refl s

end Ipc

end ACoral
