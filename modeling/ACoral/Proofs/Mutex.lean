import ACoral.Kernel.IpcSystem

/-!
# `ACoral.Proofs.Mutex`: mutual exclusion and ownership

The threads call every operation of `ipc.c` on any objects, in any
interleaving. `holdsMutex log t i` reads off the history that `t` got
`KR_OK` from a pend or trypend of `i` and has not posted it since.

`MutexEffect` says once what a step can do to the mutexes: nothing, take
one that was free (`take`), or release one by its owner (`release`).
`ipcStep_mutexEffect` proves that for every step. The blocked half of
`acoral_mutex_pend` is a `take` like the others, because it looks at
`data` again; a thread that barged in between has left `data` set.

`MutexInv` is the invariant: the count and `data` of every mutex agree,
and `data` is the holder. It does not speak of the wait queues, so it
does not depend on what the failed half of a pend leaves linked in them.
`mutex_run` is the result for every run.
-/

set_option autoImplicit false

namespace ACoral

open Lib (run run_induct)

variable {I T : Type} [DecidableEq I] [DecidableEq T]

/-! ### The history -/

/-- The thread got the mutex and has not posted it since. -/
def holdsMutex : List (IpcEvent I T) → T → I → Bool
  | [],       _, _ => false
  | e :: log, t, i =>
      if e.thread = t ∧ e.ipc = some i ∧ e.err = .KR_OK then
        match e.call with
        | .acoral_mutex_trypend | .acoral_mutex_pend => true
        | .acoral_mutex_post => false
        | _ => holdsMutex log t i
      else holdsMutex log t i

/-- A call that failed changes no holder. -/
theorem holdsMutex_of_err {e : IpcEvent I T} (he : e.err ≠ .KR_OK) (log : List (IpcEvent I T))
    (t : T) (i : I) : holdsMutex (e :: log) t i = holdsMutex log t i := by
  simp [holdsMutex, he]

/-- A call on a semaphore changes no holder. -/
theorem holdsMutex_of_sem {e : IpcEvent I T}
    (he : e.call ≠ .acoral_mutex_trypend ∧ e.call ≠ .acoral_mutex_pend ∧
      e.call ≠ .acoral_mutex_post) (log : List (IpcEvent I T)) (t : T) (i : I) :
    holdsMutex (e :: log) t i = holdsMutex log t i := by
  obtain ⟨h1, h2, h3⟩ := he
  simp only [holdsMutex]
  split
  · cases hc : e.call with
    | acoral_mutex_trypend => exact absurd hc h1
    | acoral_mutex_pend => exact absurd hc h2
    | acoral_mutex_post => exact absurd hc h3
    | _ => rfl
  · rfl

/-- After a successful pend the caller holds the mutex. -/
theorem holdsMutex_pend {c : IpcCall} (hc : c = .acoral_mutex_trypend ∨ c = .acoral_mutex_pend)
    (log : List (IpcEvent I T)) (t u : T) (i j : I) :
    holdsMutex (⟨c, t, some i, .KR_OK⟩ :: log) u j =
      if t = u ∧ i = j then true else holdsMutex log u j := by
  rcases hc with rfl | rfl <;> simp [holdsMutex]

/-- After a successful post the caller does not. -/
theorem holdsMutex_post (log : List (IpcEvent I T)) (t u : T) (i j : I) :
    holdsMutex (⟨.acoral_mutex_post, t, some i, .KR_OK⟩ :: log) u j =
      if t = u ∧ i = j then false else holdsMutex log u j := by
  simp [holdsMutex]

/-! ### What the helpers leave alone -/

omit [DecidableEq I] in
@[simp] theorem rdyThread_ipc (s : IpcState I T) (t : T) : (s.rdyThread t).ipc = s.ipc := rfl

omit [DecidableEq I] in
@[simp] theorem suspendSelf_ipc (s : IpcState I T) (t : T) : (s.suspendSelf t).ipc = s.ipc := rfl

theorem acoralIpcWaitQueueAdd_ipc {fuel : Nat} {s s' : IpcState I T} {i : I} {t : T}
    (h : acoralIpcWaitQueueAdd fuel s i t = some s') : s'.ipc = s.ipc := by
  obtain ⟨links, -, rfl⟩ := Option.map_eq_some_iff.mp h
  rfl

theorem acoralIpcWaitQueueDel_ipc {s s' : IpcState I T} {t : T}
    (h : acoralIpcWaitQueueDel s t = some s') : s'.ipc = s.ipc := by
  obtain ⟨links, -, rfl⟩ := Option.map_eq_some_iff.mp h
  rfl

/-- Blocking leaves the objects alone. -/
theorem ipcBlock_eq_some {fuel : Nat} {s : IpcState I T} {i : I} {t : T}
    {res : CallResult I × IpcState I T} (h : ipcBlock fuel s i t = some res) :
    res.1 = .blocked i ∧ res.2.ipc = s.ipc := by
  obtain ⟨s', hs', rfl⟩ := Option.map_eq_some_iff.mp h
  exact ⟨rfl, (acoralIpcWaitQueueAdd_ipc hs').trans (suspendSelf_ipc s t)⟩

theorem semRdyAll_ipc {i : I} {fuel : Nat} {tmp : IpcNode I T} {s s' : IpcState I T}
    (h : semRdyAll i fuel tmp s = some s') : s'.ipc = s.ipc := by
  induction fuel generalizing tmp s with
  | zero => simp [semRdyAll] at h
  | succ fuel ih =>
      cases tmp with
      | head j =>
          simp only [semRdyAll, Option.ite_none_right_eq_some, Option.some.injEq] at h
          exact congrArg IpcState.ipc h.2.symm
      | pending t => exact (ih h).trans (rdyThread_ipc s t)

/-! ### What a step does to the mutexes -/

/-- The objects that are mutexes are the same and unchanged. -/
def SameMutexes (s s' : IpcState I T) : Prop :=
  ∀ j, (s'.ipc j).type = (s.ipc j).type ∧
    ((s.ipc j).type = .ACORAL_IPC_MUTEX → s'.ipc j = s.ipc j)

omit [DecidableEq I] [DecidableEq T] in
theorem SameMutexes.of_eq {s s' : IpcState I T} (h : s'.ipc = s.ipc) : SameMutexes s s' :=
  fun j => by rw [h]; exact ⟨rfl, fun _ => rfl⟩

omit [DecidableEq T] in
/-- Work on the count of a semaphore leaves the mutexes alone. -/
theorem SameMutexes.of_sem {s s' : IpcState I T} {i : I} (hi : (s.ipc i).type = .ACORAL_IPC_SEM)
    (count : BitVec 16)
    (h : s'.ipc = Function.update s.ipc i { s.ipc i with count := count }) :
    SameMutexes s s' := by
  intro j
  rw [h]
  by_cases hj : j = i
  · subst hj
    simp [hi]
  · simp [hj]

/-- The effect of a step on the mutexes and on who holds them. -/
inductive MutexEffect (r r' : IpcRun I T) : Prop where
  /-- nothing -/
  | keep (hipc : SameMutexes r.st r'.st)
      (hlog : ∀ t i, holdsMutex r'.log t i = holdsMutex r.log t i)
  /-- `t` takes the free mutex `i` -/
  | take (t : T) (i : I) (hfree : (r.st.ipc i).count = MUTEX_AVAI ∨ (r.st.ipc i).data = none)
      (hipc : r'.st.ipc = (takeMutex r.st i t).ipc)
      (hlog : ∀ u j, holdsMutex r'.log u j = if t = u ∧ i = j then true else holdsMutex r.log u j)
  /-- the owner `t` releases the mutex `i` -/
  | release (t : T) (i : I) (howner : (r.st.ipc i).data = some t)
      (hipc : r'.st.ipc = Function.update r.st.ipc i
        { r.st.ipc i with count := MUTEX_AVAI, data := none })
      (hlog : ∀ u j, holdsMutex r'.log u j = if t = u ∧ i = j then false else holdsMutex r.log u j)

omit [DecidableEq I] [DecidableEq T] in
/-- An accepted argument is an object of the right type. -/
theorem ipcCheck_ok {type : IpcType} {s : IpcState I T} {ipc : Option I} {i : I}
    (h : ipcCheck type s ipc = .ok i) : ipc = some i ∧ (s.ipc i).type = type := by
  unfold ipcCheck at h
  cases ipc with
  | none => simp at h
  | some j =>
      by_cases ht : (s.ipc j).type = type
      · simp only [ht, ne_eq, not_true_eq_false, if_false, Except.ok.injEq] at h
        exact ⟨congrArg some h, h ▸ ht⟩
      · simp [ht] at h

omit [DecidableEq I] [DecidableEq T] in
theorem ipcPendCheck_ok {type : IpcType} {n : Nat} {s : IpcState I T} {ipc : Option I} {i : I}
    (h : ipcPendCheck type n s ipc = .ok i) : ipc = some i ∧ (s.ipc i).type = type := by
  unfold ipcPendCheck at h
  split at h
  · simp at h
  · exact ipcCheck_ok h

omit [DecidableEq I] [DecidableEq T] in
/-- A refused argument is reported by an error. -/
theorem ipcCheck_error {type : IpcType} {s : IpcState I T} {ipc : Option I} {e : KernelError}
    (h : ipcCheck type s ipc = .error e) : e ≠ .KR_OK := by
  unfold ipcCheck at h
  cases ipc with
  | none =>
      obtain rfl : KernelError.KR_IPC_ERR_NULL = e := by simpa using h
      decide
  | some j =>
      by_cases ht : (s.ipc j).type = type
      · simp [ht] at h
      · obtain rfl : KernelError.KR_IPC_ERR_TYPE = e := by simpa [ht] using h
        decide

omit [DecidableEq I] [DecidableEq T] in
theorem ipcPendCheck_error {type : IpcType} {n : Nat} {s : IpcState I T} {ipc : Option I}
    {e : KernelError} (h : ipcPendCheck type n s ipc = .error e) : e ≠ .KR_OK := by
  unfold ipcPendCheck at h
  split at h
  · obtain rfl : KernelError.KR_IPC_ERR_INTR = e := by simpa using h
    decide
  · exact ipcCheck_error h

/-- `acoral_mutex_trypend`. -/
theorem mutexTrypend_effect (r : IpcRun I T) (cur : T) (n : Nat) (ipc : Option I) :
    MutexEffect r (r.ret .acoral_mutex_trypend cur ipc (acoralMutexTrypend cur n ipc r.st)) := by
  unfold acoralMutexTrypend
  split
  · rename_i e he
    exact .keep (.of_eq rfl) (holdsMutex_of_err (ipcPendCheck_error he) _)
  · rename_i i hi
    obtain ⟨rfl, -⟩ := ipcPendCheck_ok hi
    split
    · rename_i hc
      exact .take cur i (Or.inl hc) rfl (holdsMutex_pend (Or.inl rfl) _ _ · _ ·)
    · exact .keep (.of_eq rfl) (holdsMutex_of_err (by simp) _)

/-- `acoral_mutex_pend`, first half. -/
theorem mutexPend_effect {fuel : Nat} {r r' : IpcRun I T} {cur : T} {n : Nat} {ipc : Option I}
    (h : (acoralMutexPend fuel cur n ipc r.st).map
      (r.pend .acoral_mutex_pend cur ipc .mutexPend) = some r') : MutexEffect r r' := by
  obtain ⟨res, hres, rfl⟩ := Option.map_eq_some_iff.mp h
  unfold acoralMutexPend at hres
  split at hres
  · rename_i e he
    obtain rfl := Option.some.inj hres
    exact .keep (.of_eq rfl) (holdsMutex_of_err (ipcPendCheck_error he) _)
  · rename_i i hi
    obtain ⟨rfl, -⟩ := ipcPendCheck_ok hi
    split at hres
    · rename_i hc
      obtain rfl := Option.some.inj hres
      exact .take cur i (Or.inl hc) rfl (holdsMutex_pend (Or.inr rfl) _ _ · _ ·)
    · obtain ⟨hb, hipc⟩ := ipcBlock_eq_some hres
      unfold IpcRun.pend
      rw [hb]
      exact .keep (.of_eq hipc) fun _ _ => rfl

/-- `acoral_mutex_pend`, second half. -/
theorem mutexPendResume_effect {r r' : IpcRun I T} {cur : T} {i : I}
    (h : (acoralMutexPendResume cur i r.st).map
      (r.ret .acoral_mutex_pend cur (some i)) = some r') : MutexEffect r r' := by
  obtain ⟨res, hres, rfl⟩ := Option.map_eq_some_iff.mp h
  unfold acoralMutexPendResume at hres
  split at hres
  · rename_i hdata
    obtain ⟨s, hs, rfl⟩ := Option.map_eq_some_iff.mp hres
    have hipc := acoralIpcWaitQueueDel_ipc hs
    refine .take cur i (Or.inr hdata) ?_ (holdsMutex_pend (Or.inr rfl) _ _ · _ ·)
    simp [IpcRun.ret, takeMutex, IpcState.setIpc, hipc]
  · obtain rfl := Option.some.inj hres
    exact .keep (.of_eq rfl) (holdsMutex_of_err (by simp) _)

/-- `acoral_mutex_post`. -/
theorem mutexPost_effect {r r' : IpcRun I T} {cur : T} {ipc : Option I}
    (h : (acoralMutexPost cur ipc r.st).map (r.posted cur ipc) = some r') :
    MutexEffect r r' := by
  obtain ⟨res, hres, rfl⟩ := Option.map_eq_some_iff.mp h
  unfold acoralMutexPost at hres
  split at hres
  · rename_i e he
    obtain rfl := Option.some.inj hres
    have hkeep : MutexEffect r (r.ret .acoral_mutex_post cur ipc (e, r.st)) :=
      .keep (.of_eq rfl) (holdsMutex_of_err (ipcCheck_error he) _)
    cases ipc <;> exact hkeep
  · rename_i i hi
    obtain ⟨rfl, -⟩ := ipcCheck_ok hi
    split at hres
    · obtain rfl := Option.some.inj hres
      exact .keep (.of_eq rfl) (holdsMutex_of_err (by simp) _)
    · rename_i howner
      rw [ne_eq, not_not] at howner
      obtain ⟨thread, -, rfl⟩ := Option.map_eq_some_iff.mp hres
      cases thread with
      | none => exact .release cur i howner rfl (holdsMutex_post _ _ · _ ·)
      | some thread => exact .release cur i howner rfl (holdsMutex_post _ _ · _ ·)

/-- A call on a semaphore that returned is no mutex event. -/
theorem semRet_effect {r : IpcRun I T} {c : IpcCall} {cur : T} {ipc : Option I}
    {res : KernelError × IpcState I T}
    (hc : c ≠ .acoral_mutex_trypend ∧ c ≠ .acoral_mutex_pend ∧ c ≠ .acoral_mutex_post)
    (hipc : SameMutexes r.st res.2) : MutexEffect r (r.ret c cur ipc res) :=
  .keep hipc (holdsMutex_of_sem hc _)

omit [DecidableEq T] in
/-- `acoral_sem_trypend`. -/
theorem semTrypend_sameMutexes (n : Nat) (ipc : Option I) (s : IpcState I T) :
    SameMutexes s (acoralSemTrypend n ipc s).2 := by
  unfold acoralSemTrypend
  split
  · exact .of_eq rfl
  · rename_i i hi
    split
    · exact .of_sem (ipcPendCheck_ok hi).2 _ rfl
    · exact .of_eq rfl

/-- `acoral_sem_pend`, first half. -/
theorem semPend_sameMutexes {fuel : Nat} {cur : T} {n : Nat} {ipc : Option I}
    {s : IpcState I T} {res : CallResult I × IpcState I T}
    (h : acoralSemPend fuel cur n ipc s = some res) : SameMutexes s res.2 := by
  unfold acoralSemPend at h
  split at h
  · obtain rfl := Option.some.inj h
    exact .of_eq rfl
  · rename_i i hi
    split at h
    · obtain rfl := Option.some.inj h
      exact .of_sem (ipcPendCheck_ok hi).2 _ rfl
    · exact .of_sem (ipcPendCheck_ok hi).2 _ (ipcBlock_eq_some h).2

/-- `acoral_sem_pends`, first half. -/
theorem semPends_sameMutexes {fuel : Nat} {cur : T} {n : Nat} {ipc : Option I}
    {s : IpcState I T} {res : CallResult I × IpcState I T}
    (h : acoralSemPends fuel cur n ipc s = some res) : SameMutexes s res.2 := by
  unfold acoralSemPends at h
  split at h
  · obtain rfl := Option.some.inj h
    exact .of_eq rfl
  · split at h
    · obtain rfl := Option.some.inj h
      exact .of_eq rfl
    · exact .of_eq (ipcBlock_eq_some h).2

/-- `acoral_sem_post`. -/
theorem semPost_sameMutexes {ipc : Option I} {s : IpcState I T}
    {res : KernelError × IpcState I T} (h : acoralSemPost ipc s = some res) :
    SameMutexes s res.2 := by
  unfold acoralSemPost at h
  split at h
  · obtain rfl := Option.some.inj h
    exact .of_eq rfl
  · rename_i i hi
    have hsem := (ipcCheck_ok hi).2
    dsimp only at h
    split at h
    · split at h
      · obtain rfl := Option.some.inj h
        exact .of_sem hsem _ rfl
      · obtain ⟨thread, -, rfl⟩ := Option.map_eq_some_iff.mp h
        cases thread <;> exact .of_sem hsem _ rfl
    · obtain rfl := Option.some.inj h
      exact .of_eq rfl

/-- `acoral_sem_posts`. -/
theorem semPosts_sameMutexes {fuel : Nat} {ipc : Option I} {s : IpcState I T}
    {res : KernelError × IpcState I T} (h : acoralSemPosts fuel ipc s = some res) :
    SameMutexes s res.2 := by
  unfold acoralSemPosts at h
  split at h
  · obtain rfl := Option.some.inj h
    exact .of_eq rfl
  · rename_i i hi
    have hsem := (ipcCheck_ok hi).2
    dsimp only at h
    split at h
    · obtain ⟨s', hs', rfl⟩ := Option.map_eq_some_iff.mp h
      have hipc := semRdyAll_ipc hs'
      split at hipc
      · exact .of_sem hsem _ hipc
      · exact .of_eq hipc
    · obtain rfl := Option.some.inj h
      exact .of_eq rfl

/-- A blocking call on a semaphore is no mutex event. -/
theorem semPendStep_effect {r : IpcRun I T} {c : IpcCall} {cur : T} {ipc : Option I}
    {pc : I → Pc I T} {res : CallResult I × IpcState I T}
    (hc : c ≠ .acoral_mutex_trypend ∧ c ≠ .acoral_mutex_pend ∧ c ≠ .acoral_mutex_post)
    (hipc : SameMutexes r.st res.2) : MutexEffect r (r.pend c cur ipc pc res) := by
  obtain ⟨cr, s⟩ := res
  cases cr with
  | ret e => exact semRet_effect hc hipc
  | blocked i => exact .keep hipc fun _ _ => rfl

/-- The effect of every step. -/
theorem ipcStep_mutexEffect {fuel : Nat} {r r' : IpcRun I T} {op : IpcOp I T}
    (h : ipcStep fuel r op = some r') : MutexEffect r r' := by
  cases op with
  | call c cur n ipc =>
      simp only [ipcStep, Option.ite_none_right_eq_some] at h
      obtain ⟨-, h⟩ := h
      cases c with
      | acoral_mutex_trypend =>
          obtain rfl := Option.some.inj h
          exact mutexTrypend_effect r cur n ipc
      | acoral_mutex_pend => exact mutexPend_effect h
      | acoral_mutex_post => exact mutexPost_effect h
      | acoral_sem_trypend =>
          obtain rfl := Option.some.inj h
          exact semRet_effect (by decide) (semTrypend_sameMutexes n ipc r.st)
      | acoral_sem_pend =>
          obtain ⟨res, hres, rfl⟩ := Option.map_eq_some_iff.mp h
          exact semPendStep_effect (by decide) (semPend_sameMutexes hres)
      | acoral_sem_pends =>
          obtain ⟨res, hres, rfl⟩ := Option.map_eq_some_iff.mp h
          exact semPendStep_effect (by decide) (semPends_sameMutexes hres)
      | acoral_sem_post =>
          obtain ⟨res, hres, rfl⟩ := Option.map_eq_some_iff.mp h
          exact semRet_effect (by decide) (semPost_sameMutexes hres)
      | acoral_sem_posts =>
          obtain ⟨res, hres, rfl⟩ := Option.map_eq_some_iff.mp h
          exact semRet_effect (by decide) (semPosts_sameMutexes hres)
  | resume cur =>
      simp only [ipcStep, Option.ite_none_right_eq_some] at h
      obtain ⟨-, h⟩ := h
      unfold ipcResume at h
      split at h
      · simp at h
      · exact mutexPendResume_effect h
      · obtain ⟨res, hres, rfl⟩ := Option.map_eq_some_iff.mp h
        obtain ⟨s, hs, rfl⟩ := Option.map_eq_some_iff.mp hres
        exact semRet_effect (by decide) (.of_eq (acoralIpcWaitQueueDel_ipc hs))
      · obtain ⟨res, hres, rfl⟩ := Option.map_eq_some_iff.mp h
        obtain ⟨s, hs, rfl⟩ := Option.map_eq_some_iff.mp hres
        exact semRet_effect (by decide) (.of_eq (acoralIpcWaitQueueDel_ipc hs))
      · obtain rfl := Option.some.inj h
        exact .keep (.of_eq rfl) fun _ _ => rfl

/-! ### The invariant -/

/-- The mutex `i` is free or taken, and its `data` is its holder. -/
structure MutexInv (i : I) (r : IpcRun I T) : Prop where
  type : (r.st.ipc i).type = .ACORAL_IPC_MUTEX
  state : ((r.st.ipc i).count = MUTEX_AVAI ∧ (r.st.ipc i).data = none) ∨
    ((r.st.ipc i).count = MUTEX_NOAVAI ∧ (r.st.ipc i).data ≠ none)
  owner : ∀ t, (r.st.ipc i).data = some t ↔ holdsMutex r.log t i = true

namespace MutexInv

theorem avai_ne_noavai : MUTEX_AVAI ≠ MUTEX_NOAVAI := by decide

/-- A mutex that a step finds free has no holder. -/
theorem data_eq_none {i : I} {r : IpcRun I T} (h : MutexInv i r)
    (hfree : (r.st.ipc i).count = MUTEX_AVAI ∨ (r.st.ipc i).data = none) :
    (r.st.ipc i).data = none := by
  rcases hfree with hc | hd
  · rcases h.state with ⟨-, hd⟩ | ⟨hc', -⟩
    · exact hd
    · exact absurd (hc.symm.trans hc') avai_ne_noavai
  · exact hd

/-- An effect on another mutex. -/
theorem of_eq {i : I} {r r' : IpcRun I T} (h : MutexInv i r) (hipc : r'.st.ipc i = r.st.ipc i)
    (hlog : ∀ t, holdsMutex r'.log t i = holdsMutex r.log t i) : MutexInv i r' :=
  ⟨hipc ▸ h.type, hipc ▸ h.state, fun t => by rw [hipc, hlog]; exact h.owner t⟩

/-- Every step keeps the invariant. -/
theorem step {fuel : Nat} {i : I} {r r' : IpcRun I T} (h : MutexInv i r) {op : IpcOp I T}
    (hstep : ipcStep fuel r op = some r') : MutexInv i r' := by
  cases ipcStep_mutexEffect hstep with
  | keep hipc hlog => exact h.of_eq ((hipc i).2 h.type) fun t => hlog t i
  | take t j hfree hipc hlog =>
      by_cases hij : i = j
      · subst hij
        have hnone := h.data_eq_none hfree
        refine ⟨?_, ?_, fun u => ?_⟩
        · simp [hipc, takeMutex, IpcState.setIpc, h.type]
        · simp [hipc, takeMutex, IpcState.setIpc]
        · have hno : holdsMutex r.log u i = false := by
            rw [← Bool.not_eq_true, ← h.owner u, hnone]
            simp
          simp [hipc, hlog, takeMutex, IpcState.setIpc, hno]
      · refine h.of_eq ?_ fun u => ?_
        · simp [hipc, takeMutex, IpcState.setIpc, hij]
        · simp [hlog, Ne.symm hij]
  | release t j howner hipc hlog =>
      by_cases hij : i = j
      · subst hij
        refine ⟨?_, ?_, fun u => ?_⟩
        · simp [hipc, h.type]
        · simp [hipc]
        · have hu := h.owner u
          rw [howner, Option.some.injEq] at hu
          by_cases htu : t = u
          · simp [hipc, hlog, htu]
          · have hno : holdsMutex r.log u i = false := by
              rw [← Bool.not_eq_true, ← hu]
              exact htu
            simp [hipc, hlog, htu, hno]
      · refine h.of_eq ?_ fun u => ?_
        · simp [hipc, hij]
        · simp [hlog, Ne.symm hij]

/-- The invariant holds of a free mutex before the first call. -/
theorem start {s : IpcState I T} {i : I} (htype : (s.ipc i).type = .ACORAL_IPC_MUTEX)
    (hcount : (s.ipc i).count = MUTEX_AVAI) (hdata : (s.ipc i).data = none) :
    MutexInv i (IpcRun.start s) :=
  ⟨htype, Or.inl ⟨hcount, hdata⟩, fun t => by simp [IpcRun.start, holdsMutex, hdata]⟩

end MutexInv

/-- `acoral_mutex_init` leaves a free mutex. -/
theorem acoralMutexInit_free (i : I) (s : IpcState I T) :
    ((acoralMutexInit (some i) s).2.ipc i).type = .ACORAL_IPC_MUTEX ∧
    ((acoralMutexInit (some i) s).2.ipc i).count = MUTEX_AVAI ∧
    ((acoralMutexInit (some i) s).2.ipc i).data = none := by
  simp [acoralMutexInit, acoralIpcInit, IpcState.setIpc]

/-- A mutex that starts as `acoral_mutex_init` leaves it, in every state
of every run: it has at most one holder; its count is "not available"
exactly when `data` is a thread, and that thread is the holder; and a
post by anybody else returns an error and changes nothing. -/
theorem mutex_run (fuel : Nat) (s₀ : IpcState I T) (i : I) (ops : List (IpcOp I T))
    (r : IpcRun I T)
    (hrun : run (ipcStep fuel) (IpcRun.start (acoralMutexInit (some i) s₀).2) ops = some r) :
    (∀ t u, holdsMutex r.log t i = true → holdsMutex r.log u i = true → t = u) ∧
    ((r.st.ipc i).count = MUTEX_NOAVAI ↔ (r.st.ipc i).data ≠ none) ∧
    ((r.st.ipc i).count = MUTEX_AVAI ∨ (r.st.ipc i).count = MUTEX_NOAVAI) ∧
    (∀ t, (r.st.ipc i).data = some t ↔ holdsMutex r.log t i = true) ∧
    (∀ cur, holdsMutex r.log cur i = false →
      acoralMutexPost cur (some i) r.st = some (.KR_IPC_ERR_THREAD, none, r.st)) := by
  obtain ⟨htype, hcount, hdata⟩ := acoralMutexInit_free i s₀
  have h : MutexInv i r :=
    run_induct (fun _ _ _ hinv hstep => MutexInv.step hinv hstep)
      (MutexInv.start htype hcount hdata) hrun
  refine ⟨fun t u ht hu => ?_, ?_, ?_, h.owner, fun cur hcur => ?_⟩
  · have hdt := (h.owner t).mpr ht
    have hdu := (h.owner u).mpr hu
    exact Option.some.inj (hdt.symm.trans hdu)
  · rcases h.state with ⟨hc, hd⟩ | ⟨hc, hd⟩
    · simp [hc, hd, MutexInv.avai_ne_noavai]
    · simp [hc, hd]
  · exact h.state.imp And.left And.left
  · have hne : (r.st.ipc i).data ≠ some cur := fun hd => by
      simp [(h.owner cur).mp hd] at hcur
    simp [acoralMutexPost, ipcCheck, h.type, hne]

/-- Two READY threads of CPU 0, of which `false` has the higher
priority, and one object. -/
def twoReady : IpcState Unit Bool :=
  let thread (t : Bool) : Tcb :=
    { resId := 0, state := ACORAL_THREAD_STATE_SUSPEND, prio := if t then 4 else 3, cpu := 0 }
  let k := acoralSchedRdyqueueInit thread
  let k := (acoralRdyThread 0 (acoralRdyThread 0 k true).2 false).2
  { sched := k
    ipc := fun _ => { type := .ACORAL_IPC_MBOX, count := 0, number := 0, data := none }
    links := ⟨id, id⟩
    pendingValue := fun t => if t then 4 else 3
    threadIpc := fun _ => none }

/-- A run in which the second thread blocks, is readied by the post,
finds the mutex taken again by the first one, and fails. -/
theorem mutex_run_twoReady :
    ∃ r, run (ipcStep 4) (IpcRun.start (acoralMutexInit (some ()) twoReady).2)
        [.call .acoral_mutex_pend false 0 (some ()), .call .acoral_mutex_pend true 0 (some ()),
         .call .acoral_mutex_post false 0 (some ()), .resume false,
         .call .acoral_mutex_trypend false 0 (some ()), .resume true] = some r ∧
      ∀ t u, holdsMutex r.log t () = true → holdsMutex r.log u () = true → t = u := by
  have hsome : (run (ipcStep 4) (IpcRun.start (acoralMutexInit (some ()) twoReady).2)
      [.call .acoral_mutex_pend false 0 (some ()), .call .acoral_mutex_pend true 0 (some ()),
       .call .acoral_mutex_post false 0 (some ()), .resume false,
       .call .acoral_mutex_trypend false 0 (some ()), .resume true]).isSome = true := by decide
  obtain ⟨r, hr⟩ := Option.isSome_iff_exists.mp hsome
  exact ⟨r, hr, (mutex_run 4 twoReady () _ r hr).1⟩

end ACoral
