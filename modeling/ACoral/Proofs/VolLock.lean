import ACoral.Proofs.VolFree

/-!
# `ACoral.Proofs.VolLock`: the mutex of the first-fit allocator

The paths of `vol_malloc` and `vol_free` through any arena, well-formed or
not. Every path posts the mutex that it has pended, but for the two of
`vol_free` that reject an address.

* `volMalloc_mutex`, `volFree_accepted`, `volFree_rejected`: the paths.
* `lockBalanced_iff`: the calls leave the mutex as they found it, and the
  allocator to every thread, exactly if the address is not rejected.
-/

set_option autoImplicit false

namespace ACoral

/-! ### The paths -/

theorem volTake_mutex (v : VolMem) (size : BitVec 32) (tp : Nat) :
    (volTake v size tp).2.mutex = v.mutex - 1 := by
  unfold volTake
  dsimp only
  split <;> rfl

/-- Every path of `vol_malloc` posts what it has pended. -/
theorem volMalloc_mutex (size : BitVec 32) (v : VolMem) :
    (volMalloc size v).2.mutex = v.mutex := by
  have hround : v.mutex + 1 - 1 = v.mutex := Int.add_sub_cancel v.mutex 1
  unfold volMalloc volRMalloc
  dsimp only
  split
  · rfl
  · split
    · exact hround
    · exact (volTake_mutex _ _ _).trans hround
    · split
      · exact hround
      · exact (volTake_mutex _ _ _).trans hround
      · exact hround

/-- Joining with the block before ends with a post on every path. -/
theorem volMergePrev_mutex (v : VolMem) (p : Nat) (bSize size : BitVec 32) :
    (volMergePrev v p bSize size).mutex = v.mutex - 1 := by
  unfold volMergePrev
  split
  · rfl
  · split
    · rfl
    · split <;> rfl

/-- A rejected address: the mutex stays pended, and nothing else is done. -/
theorem volFree_rejected {p : Nat} {v : VolMem} (hstate : v.memState ≠ 0)
    (h : volFreeRejects p v = true) : volFree p v = v.pend := by
  unfold volFree
  rw [if_neg hstate]
  rcases Bool.or_eq_true_iff.mp h with haddr | hfree
  · exact if_pos haddr
  · dsimp only
    split
    · rfl
    · exact if_pos hfree

/-- Any other address: every path posts. -/
theorem volFree_accepted {p : Nat} {v : VolMem} (h : volFreeRejects p v = false) :
    (volFree p v).mutex = v.mutex := by
  have hround : v.mutex + 1 - 1 = v.mutex := Int.add_sub_cancel v.mutex 1
  obtain ⟨haddr, hused⟩ := Bool.or_eq_false_iff.mp h
  unfold volFree
  dsimp only
  split
  · rfl
  · split
    case isTrue hinvalid => exact absurd (haddr.symm.trans hinvalid) (by decide)
    split
    case isTrue hfree => exact absurd (hused.symm.trans hfree) (by decide)
    split
    · split
      · exact hround
      · exact (volMergePrev_mutex _ _ _ _).trans hround
    · exact (volMergePrev_mutex _ _ _ _).trans hround

/-! ### Calls with the mutex itself -/

variable {I T : Type} [DecidableEq I] [DecidableEq T]

/-- The mutex `i` is free, and nobody waits for it. -/
structure MutexFree (i : I) (s : IpcState I T) : Prop where
  type : (s.ipc i).type = .ACORAL_IPC_MUTEX
  count : (s.ipc i).count = MUTEX_AVAI
  data : (s.ipc i).data = none
  queue : s.links.next (.head i) = .head i

/-- A pend on a free mutex takes it. -/
theorem mutexPend_free {i : I} {s : IpcState I T} (h : MutexFree i s) (fuel : Nat) (cur : T) :
    acoralMutexPend fuel cur 0 (some i) s = some (.ret .KR_OK, takeMutex s i cur) := by
  simp [acoralMutexPend, ipcPendCheck, ipcCheck, h.type, h.count]

/-- The post of the thread that took a free mutex frees it again. -/
theorem mutexPostRdy_taken {i : I} {s : IpcState I T} (h : MutexFree i s) (cur : T) :
    ∃ s', mutexPostRdy cur (some i) (takeMutex s i cur) = some s' ∧ MutexFree i s' := by
  have htype : ((takeMutex s i cur).ipc i).type = .ACORAL_IPC_MUTEX := by
    simp [takeMutex, IpcState.setIpc, h.type]
  have howner : ((takeMutex s i cur).ipc i).data = some cur := by
    simp [takeMutex, IpcState.setIpc]
  have hqueue : (takeMutex s i cur).links.next (.head i) = .head i := h.queue
  let released : IpcState I T :=
    { takeMutex s i cur with
      threadIpc := Function.update (takeMutex s i cur).threadIpc cur none }
  refine ⟨released.setIpc i { released.ipc i with count := MUTEX_AVAI, data := none }, ?_, ?_⟩
  · simp [mutexPostRdy, acoralMutexPost, ipcCheck, htype, howner, acoralIpcHighThread,
      IpcState.setIpc, hqueue, released]
  constructor
  · simpa [IpcState.setIpc, released] using htype
  · simp [IpcState.setIpc]
  · simp [IpcState.setIpc]
  · exact hqueue

/-- A call whose work ends with a post leaves the mutex free. -/
theorem volLocked_posted {i : I} {s : IpcState I T} (h : MutexFree i s) (fuel : Nat) (cur : T)
    (work : VolMem → VolMem) {v : VolMem} (hwork : (work v).mutex = v.mutex) :
    ∃ s', volLocked fuel cur i work (s, v) = some (s', work v) ∧ MutexFree i s' := by
  by_cases hstate : v.memState = 0
  · exact ⟨s, if_pos hstate, h⟩
  · obtain ⟨s', hpost, hfree⟩ := mutexPostRdy_taken h cur
    refine ⟨s', ?_, hfree⟩
    unfold volLocked
    rw [if_neg hstate, mutexPend_free h]
    dsimp only
    rw [if_pos hwork, hpost, Option.map_some]

omit [DecidableEq T] in
/-- Any thread gets a free mutex at once. -/
theorem mutexTrypend_free {i : I} {s : IpcState I T} (h : MutexFree i s) (u : T) :
    (acoralMutexTrypend u 0 (some i) s).1 = .KR_OK := by
  simp [acoralMutexTrypend, ipcPendCheck, ipcCheck, h.type, h.count]

/-! ### The calls -/

/-- The calls on the arena leave the mutex as they found it: `vol_malloc` for
every size, and `vol_free` for the address `p`. If `vol_free` rejects the
address it leaves the arena as it was too, and on a free mutex every thread
can go on to use the allocator afterwards. -/
structure LockBalanced (I T : Type) [DecidableEq I] [DecidableEq T] (p : Nat) (v : VolMem) :
    Prop where
  malloc : ∀ size, (volMalloc size v).2.mutex = v.mutex
  free : (volFree p v).mutex = v.mutex
  rejected : volFreeRejects p v = true → volFree p v = v
  mallocUsable : ∀ (i : I) (s : IpcState I T), MutexFree i s → ∀ fuel cur size u, ∃ s',
    volLocked fuel cur i (fun v => (volMalloc size v).2) (s, v) = some (s', (volMalloc size v).2) ∧
      (acoralMutexTrypend u 0 (some i) s').1 = .KR_OK
  freeUsable : ∀ (i : I) (s : IpcState I T), MutexFree i s → ∀ fuel cur u, ∃ s',
    volLocked fuel cur i (volFree p) (s, v) = some (s', volFree p v) ∧
      (acoralMutexTrypend u 0 (some i) s').1 = .KR_OK

/-- For every state of the arena, whatever its headers say, and every address:
the calls leave the mutex as they found it exactly if the allocator is not set
up or `vol_free` does not reject the address. -/
theorem lockBalanced_iff (I T : Type) [DecidableEq I] [DecidableEq T] (p : Nat) (v : VolMem) :
    LockBalanced I T p v ↔ v.memState = 0 ∨ volFreeRejects p v = false := by
  constructor
  · intro h
    by_contra hbad
    obtain ⟨hstate, hrejects⟩ := not_or.mp hbad
    have hkept := h.free
    rw [volFree_rejected hstate (Bool.not_eq_false _ ▸ hrejects)] at hkept
    have hone : v.mutex + 1 = v.mutex := hkept
    omega
  · intro h
    have hfree : (volFree p v).mutex = v.mutex := by
      rcases h with hstate | haccepted
      · unfold volFree
        rw [if_pos hstate]
      · exact volFree_accepted haccepted
    refine ⟨fun size => volMalloc_mutex size v, hfree, ?_, ?_, ?_⟩
    · intro hrejects
      rcases h with hstate | haccepted
      · exact if_pos hstate
      · exact absurd (haccepted.symm.trans hrejects) (by decide)
    · intro i s hs fuel cur size u
      obtain ⟨s', hrun, hs'⟩ := volLocked_posted hs fuel cur (fun v => (volMalloc size v).2)
        (volMalloc_mutex size v)
      exact ⟨s', hrun, mutexTrypend_free hs' u⟩
    · intro i s hs fuel cur u
      obtain ⟨s', hrun, hs'⟩ := volLocked_posted hs fuel cur (volFree p) hfree
      exact ⟨s', hrun, mutexTrypend_free hs' u⟩

/-- One mutex that is free, and two threads. -/
def freeMutex : IpcState Unit (Fin 2) where
  sched := acoralSchedRdyqueueInit fun _ => { resId := 0, state := 0, prio := 3, cpu := 0 }
  ipc := fun _ =>
    { type := .ACORAL_IPC_MUTEX, count := MUTEX_AVAI, number := 0, data := none }
  links := ⟨id, id⟩
  pendingValue := fun _ => 0
  threadIpc := fun _ => none

/-- A block that is released twice. The second time the address is rejected
and the mutex stays taken, so that no thread gets it any more. -/
theorem doubleFree_keepsMutex :
    (volFree 8 (volFree 8 volMemFirstUsed)).mutex = (volFree 8 volMemFirstUsed).mutex + 1 ∧
    (volLocked 4 0 () (volFree 8) (freeMutex, volFree 8 volMemFirstUsed)).map
      (fun x => ((acoralMutexTrypend 0 0 (some ()) x.1).1,
        (acoralMutexTrypend 1 0 (some ()) x.1).1)) =
      some (.KR_IPC_ERR_TIMEOUT, .KR_IPC_ERR_TIMEOUT) ∧
    ¬ LockBalanced Unit (Fin 2) 8 (volFree 8 volMemFirstUsed) := by
  refine ⟨by decide, by decide, ?_⟩
  intro h
  exact absurd h.free (by decide)

end ACoral
