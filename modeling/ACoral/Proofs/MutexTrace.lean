import ACoral.Proofs.Mutex
import ACoral.Proofs.WaitQueue

/-!
# `ACoral.Proofs.MutexTrace`: what a failed `acoral_mutex_pend` leaves behind

Any number of threads call the operations of one mutex. A thread that was
readied by a post looks at `data` again. If somebody else has taken the
mutex by then, `acoral_mutex_pend` returns an error, and the thread stays
linked in the wait queue (`mutex_pend_trace`).

`traceGuard` excludes that, and a call in an interrupt by the owner, which
is refused while the caller goes on owning the mutex. In the runs whose
steps all meet it, the wait queue holds exactly the threads that are in the
middle of a pend (`MutexQueue`), and `mutex_noTrace` follows.
-/

set_option autoImplicit false

namespace ACoral

open Lib (run guarded guarded_induct guarded_eq_some)

variable {I T : Type} [DecidableEq I] [DecidableEq T]

/-- The operation is one of a user of the mutex `i`. -/
def usesMutex (i : I) : IpcOp I T → Bool
  | .call c _ _ ipc =>
      decide (ipc = some i ∧
        (c = .acoral_mutex_trypend ∨ c = .acoral_mutex_pend ∨ c = .acoral_mutex_post))
  | .resume _       => true

/-- A thread that goes on with `acoral_mutex_pend` finds the mutex free, and
a call of it in an interrupt is not made by the owner. -/
def traceGuard (i : I) (r : IpcRun I T) (op : IpcOp I T) : Bool :=
  usesMutex i op &&
    match op with
    | .resume cur =>
        match r.pc cur with
        | .mutexPend j => decide ((r.st.ipc j).data = none)
        | _            => true
    | .call .acoral_mutex_pend cur intrNesting _ =>
        decide (intrNesting = 0 ∨ (r.st.ipc i).data ≠ some cur)
    | .call _ _ _ _ => true

/-- The wait queue `q` of the mutex `i` holds the threads that are in the
middle of `acoral_mutex_pend`. -/
structure MutexQueue (i : I) (r : IpcRun I T) (q : List T) : Prop where
  type : (r.st.ipc i).type = .ACORAL_IPC_MUTEX
  waits : r.st.Waits i q
  mem : ∀ t, t ∈ q ↔ r.pc t = .mutexPend i
  pc : ∀ t, r.pc t = .idle ∨ r.pc t = .mutexPend i ∨ ∃ u, r.pc t = .mutexPost i u

/-- What a step leaves behind, for the pend that it ends. -/
structure NoTrace (i : I) (r r' : IpcRun I T) : Prop where
  /-- a pend that failed leaves its caller out of the queue, and not the owner -/
  failed : ∀ cur e, r'.log = ⟨.acoral_mutex_pend, cur, some i, e⟩ :: r.log → e ≠ .KR_OK →
    (r'.st.ipc i).data ≠ some cur ∧ ∃ q, r'.st.Waits i q ∧ cur ∉ q
  /-- a waiter that goes on becomes the owner, and leaves the queue -/
  resumed : ∀ cur, r.pc cur = .mutexPend i → r'.pc cur ≠ .mutexPend i →
    (r'.st.ipc i).data = some cur ∧ ∃ q, r'.st.Waits i q ∧ cur ∉ q

omit [DecidableEq I] [DecidableEq T] in
/-- A step that ends no pend leaves nothing behind. -/
theorem NoTrace.of_keep {i : I} {r r' : IpcRun I T}
    (hpc : ∀ t, r.pc t = .mutexPend i → r'.pc t = .mutexPend i)
    (hlog : ∀ cur e, r'.log = ⟨.acoral_mutex_pend, cur, some i, e⟩ :: r.log → e = .KR_OK) :
    NoTrace i r r' :=
  ⟨fun cur e he hne => absurd (hlog cur e he) hne, fun cur hcur hne => absurd (hpc cur hcur) hne⟩

omit [DecidableEq I] [DecidableEq T] in
/-- The history is not longer than itself. -/
theorem ne_cons_self {α : Type} (a : α) (l : List α) : l ≠ a :: l := fun h => by
  have := congrArg List.length h
  simp at this

namespace MutexQueue

variable {i : I} {r : IpcRun I T} {q : List T}

omit [DecidableEq I] in
theorem ret_pc {cur : T} (hidle : r.pc cur = .idle) (c : IpcCall) (ipc : Option I)
    (res : KernelError × IpcState I T) : (r.ret c cur ipc res).pc = r.pc := by
  show Function.update r.pc cur .idle = r.pc
  rw [← hidle]
  exact Function.update_eq_self cur r.pc

omit [DecidableEq I] in
/-- A call returned that left the queue alone. -/
theorem ret (h : MutexQueue i r q) {c : IpcCall} {cur : T} {res : KernelError × IpcState I T}
    (hidle : r.pc cur = .idle) (hlinks : res.2.links = r.st.links)
    (htype : (res.2.ipc i).type = (r.st.ipc i).type) :
    MutexQueue i (r.ret c cur (some i) res) q := by
  have hpc := ret_pc hidle c (some i) res
  refine ⟨htype.trans h.type, ?_, by rw [hpc]; exact h.mem, by rw [hpc]; exact h.pc⟩
  show res.2.links.IsRing _ _
  rw [hlinks]
  exact h.waits

omit [DecidableEq I] [DecidableEq T] in
/-- A thread in no call is not linked. -/
theorem notMem (h : MutexQueue i r q) {cur : T} (hidle : r.pc cur = .idle) : cur ∉ q := fun hm => by
  rw [h.mem, hidle] at hm
  cases hm

omit [DecidableEq T] in
theorem takeMutex_type (s : IpcState I T) (i : I) (t : T) :
    ((takeMutex s i t).ipc i).type = (s.ipc i).type := by
  simp [takeMutex, IpcState.setIpc]

/-- `acoral_mutex_trypend`. -/
theorem trypendStep (h : MutexQueue i r q) {cur : T} (hidle : r.pc cur = .idle) (n : Nat) :
    NoTrace i r (r.ret .acoral_mutex_trypend cur (some i) (acoralMutexTrypend cur n (some i) r.st)) ∧
      ∃ q', MutexQueue i
        (r.ret .acoral_mutex_trypend cur (some i) (acoralMutexTrypend cur n (some i) r.st)) q' := by
  constructor
  · refine .of_keep (fun t ht => by rw [ret_pc hidle]; exact ht) fun u e he => ?_
    -- the newest event is the trypend
    have := (List.cons.inj he).1
    simp at this
  · refine ⟨q, ?_⟩
    unfold acoralMutexTrypend
    split
    · exact h.ret hidle rfl rfl
    · rename_i j hj
      obtain ⟨hij, -⟩ := ipcPendCheck_ok hj
      obtain rfl := Option.some.inj hij
      split
      · exact h.ret hidle rfl (takeMutex_type r.st i cur)
      · exact h.ret hidle rfl rfl

/-- A pend that blocks: the caller joins the queue. -/
theorem block (h : MutexQueue i r q) {fuel : Nat} {cur : T} {res : CallResult I × IpcState I T}
    (hidle : r.pc cur = .idle) (hres : ipcBlock fuel r.st i cur = some res) :
    NoTrace i r (r.pend .acoral_mutex_pend cur (some i) .mutexPend res) ∧
      ∃ q', MutexQueue i (r.pend .acoral_mutex_pend cur (some i) .mutexPend res) q' := by
  obtain ⟨s', hadd, rfl⟩ := Option.map_eq_some_iff.mp hres
  have hcur := h.notMem hidle
  have hwaits : (r.st.suspendSelf cur).Waits i q := h.waits
  obtain ⟨hwaits', -, hipc⟩ := hwaits.add hcur hadd
  show NoTrace i r { r with st := s', pc := Function.update r.pc cur (.mutexPend i) } ∧
    ∃ q', MutexQueue i { r with st := s', pc := Function.update r.pc cur (.mutexPend i) } q'
  constructor
  · refine .of_keep (fun t ht => ?_) fun u e he => absurd he (ne_cons_self _ _)
    by_cases htc : t = cur
    · simp [htc]
    · simpa [htc] using ht
  · refine ⟨_, ?_, hwaits', fun t => ?_, fun t => ?_⟩
    · show (s'.ipc i).type = _
      rw [hipc]
      exact h.type
    · rw [mem_enqueue]
      by_cases htc : t = cur
      · simp [htc]
      · simp [htc, h.mem]
    · by_cases htc : t = cur
      · simp [htc]
      · simpa [htc] using h.pc t

/-- `acoral_mutex_pend`, first half. -/
theorem pendStep (h : MutexQueue i r q) {fuel n : Nat} {cur : T} {r' : IpcRun I T}
    (hidle : r.pc cur = .idle) (hguard : n = 0 ∨ (r.st.ipc i).data ≠ some cur)
    (hstep : (acoralMutexPend fuel cur n (some i) r.st).map
      (r.pend .acoral_mutex_pend cur (some i) .mutexPend) = some r') :
    NoTrace i r r' ∧ ∃ q', MutexQueue i r' q' := by
  obtain ⟨res, hres, rfl⟩ := Option.map_eq_some_iff.mp hstep
  unfold acoralMutexPend at hres
  split at hres
  · rename_i e he
    obtain rfl := Option.some.inj hres
    have hqueue : MutexQueue i (r.ret .acoral_mutex_pend cur (some i) (e, r.st)) q :=
      h.ret hidle rfl rfl
    -- only a call in an interrupt is refused
    have hn : n ≠ 0 := fun hn => by simp [ipcPendCheck, ipcCheck, hn, h.type] at he
    refine ⟨⟨fun u e' he' _ => ?_, fun t ht hne => ?_⟩, q, hqueue⟩
    · have hu := (List.cons.inj he').1
      simp only [IpcEvent.mk.injEq] at hu
      obtain ⟨-, rfl, -, -⟩ := hu
      exact ⟨hguard.resolve_left hn, q, hqueue.waits, h.notMem hidle⟩
    · exact absurd (show (r.ret .acoral_mutex_pend cur (some i) (e, r.st)).pc t = .mutexPend i by
        rw [ret_pc hidle]; exact ht) hne
  · rename_i j hj
    obtain ⟨hij, -⟩ := ipcPendCheck_ok hj
    obtain rfl := Option.some.inj hij
    split at hres
    · obtain rfl := Option.some.inj hres
      show NoTrace i r (r.ret .acoral_mutex_pend cur (some i) (.KR_OK, takeMutex r.st i cur)) ∧
        ∃ q', MutexQueue i (r.ret .acoral_mutex_pend cur (some i) (.KR_OK, takeMutex r.st i cur)) q'
      refine ⟨.of_keep (fun t ht => by rw [ret_pc hidle]; exact ht) fun u e he => ?_, q,
        h.ret hidle rfl (takeMutex_type r.st i cur)⟩
      have hu := (List.cons.inj he).1
      simp only [IpcEvent.mk.injEq] at hu
      exact hu.2.2.2.symm
    · exact h.block hidle hres

/-- `acoral_mutex_pend`, second half, on a free mutex: the waiter leaves the
queue and is the owner. -/
theorem resumeStep (h : MutexQueue i r q) {cur : T} {r' : IpcRun I T}
    (hcur : r.pc cur = .mutexPend i) (hdata : (r.st.ipc i).data = none)
    (hstep : (acoralMutexPendResume cur i r.st).map
      (r.ret .acoral_mutex_pend cur (some i)) = some r') :
    NoTrace i r r' ∧ ∃ q', MutexQueue i r' q' := by
  obtain ⟨res, hres, rfl⟩ := Option.map_eq_some_iff.mp hstep
  unfold acoralMutexPendResume at hres
  rw [if_pos hdata] at hres
  obtain ⟨s', hdel, rfl⟩ := Option.map_eq_some_iff.mp hres
  obtain ⟨l₁, l₂, hq⟩ := List.append_of_mem ((h.mem cur).mpr hcur)
  have hwaits : r.st.Waits i (l₁ ++ cur :: l₂) := hq ▸ h.waits
  have hnot : cur ∉ l₁ ++ l₂ := (List.nodup_middle.mp hwaits.nodup).notMem
  obtain ⟨hwaits', -, hipc⟩ := hwaits.del hdel
  set r' := r.ret .acoral_mutex_pend cur (some i) (.KR_OK, takeMutex s' i cur) with hr'
  have hpc' : r'.pc = Function.update r.pc cur .idle := rfl
  constructor
  · refine ⟨fun u e he hne => ?_, fun t ht hne => ?_⟩
    · have hu := (List.cons.inj he).1
      simp only [IpcEvent.mk.injEq] at hu
      exact absurd hu.2.2.2.symm hne
    · -- only the waiter itself left its call
      have htc : t = cur := by
        by_contra htc
        rw [hpc', Function.update_of_ne htc] at hne
        exact hne ht
      subst htc
      exact ⟨by simp [hr', IpcRun.ret, takeMutex, IpcState.setIpc], l₁ ++ l₂, hwaits', hnot⟩
  · refine ⟨l₁ ++ l₂, ?_, hwaits', fun t => ?_, fun t => ?_⟩
    · show ((takeMutex s' i cur).ipc i).type = _
      rw [takeMutex_type, hipc]
      exact h.type
    · have ht := h.mem t
      rw [hq] at ht
      by_cases htc : t = cur
      · subst htc
        simp [hpc', hnot]
      · rw [hpc', Function.update_of_ne htc, ← ht]
        simp [htc]
    · by_cases htc : t = cur
      · simp [hpc', htc]
      · simpa [hpc', htc] using h.pc t

/-- `acoral_mutex_post`. -/
theorem postStep (h : MutexQueue i r q) {cur : T} {r' : IpcRun I T} (hidle : r.pc cur = .idle)
    (hstep : (acoralMutexPost cur (some i) r.st).map (r.posted cur (some i)) = some r') :
    NoTrace i r r' ∧ ∃ q', MutexQueue i r' q' := by
  obtain ⟨res, hres, rfl⟩ := Option.map_eq_some_iff.mp hstep
  have hret : ∀ (e : KernelError) (s : IpcState I T), s.links = r.st.links →
      (s.ipc i).type = (r.st.ipc i).type →
      NoTrace i r (r.ret .acoral_mutex_post cur (some i) (e, s)) ∧
        ∃ q', MutexQueue i (r.ret .acoral_mutex_post cur (some i) (e, s)) q' :=
    fun e s hlinks htype => by
      refine ⟨.of_keep (fun t ht => by rw [ret_pc hidle]; exact ht) fun u e' he => ?_, q,
        h.ret hidle hlinks htype⟩
      have := (List.cons.inj he).1
      simp at this
  unfold acoralMutexPost at hres
  split at hres
  · obtain rfl := Option.some.inj hres
    exact hret _ _ rfl rfl
  · rename_i j hj
    obtain ⟨hij, -⟩ := ipcCheck_ok hj
    obtain rfl := Option.some.inj hij
    split at hres
    · obtain rfl := Option.some.inj hres
      exact hret _ _ rfl rfl
    · obtain ⟨thread, -, rfl⟩ := Option.map_eq_some_iff.mp hres
      cases thread with
      | none => exact hret _ _ rfl (by simp [IpcState.setIpc])
      | some u =>
          -- the poster goes on to ready the thread
          refine ⟨.of_keep (fun t ht => ?_) fun t e he => ?_, q, ?_, h.waits, fun t => ?_,
            fun t => ?_⟩
          · have htc : t ≠ cur := fun htc => by
              rw [htc, hidle] at ht
              cases ht
            simpa [IpcRun.posted, htc] using ht
          · have := (List.cons.inj he).1
            simp at this
          · simpa [IpcRun.posted, IpcState.setIpc] using h.type
          · rw [h.mem]
            by_cases htc : t = cur
            · simp [IpcRun.posted, htc, hidle]
            · simp [IpcRun.posted, htc]
          · by_cases htc : t = cur
            · simp [IpcRun.posted, htc]
            · simpa [IpcRun.posted, htc] using h.pc t

omit [DecidableEq I] in
/-- The rest of `acoral_mutex_post`: it readies a thread. -/
theorem rdyStep (h : MutexQueue i r q) {cur u : T} (hcur : r.pc cur = .mutexPost i u) :
    NoTrace i r { r with st := r.st.rdyThread u, pc := Function.update r.pc cur .idle } ∧
      ∃ q', MutexQueue i
        { r with st := r.st.rdyThread u, pc := Function.update r.pc cur .idle } q' := by
  have hkeep : ∀ t, Function.update r.pc cur .idle t = .mutexPend i ↔ r.pc t = .mutexPend i :=
    fun t => by
      by_cases htc : t = cur
      · simp [htc, hcur]
      · simp [htc]
  refine ⟨.of_keep (fun t ht => (hkeep t).mpr ht) fun t e he => absurd he (ne_cons_self _ _), q,
    h.type, h.waits, fun t => (h.mem t).trans (hkeep t).symm, fun t => ?_⟩
  by_cases htc : t = cur
  · simp [htc]
  · simpa [htc] using h.pc t

/-- Every step that meets the guard. -/
theorem step (h : MutexQueue i r q) {fuel : Nat} {op : IpcOp I T} {r' : IpcRun I T}
    (hguard : traceGuard i r op = true) (hstep : ipcStep fuel r op = some r') :
    NoTrace i r r' ∧ ∃ q', MutexQueue i r' q' := by
  obtain ⟨huse, hguard⟩ := Bool.and_eq_true_iff.mp hguard
  cases op with
  | call c cur n ipc =>
      simp only [ipcStep, Option.ite_none_right_eq_some] at hstep
      obtain ⟨⟨-, hidle⟩, hstep⟩ := hstep
      obtain ⟨rfl, hc⟩ := of_decide_eq_true huse
      rcases hc with rfl | rfl | rfl
      · obtain rfl := Option.some.inj hstep
        exact h.trypendStep hidle n
      · exact h.pendStep hidle (of_decide_eq_true hguard) hstep
      · exact h.postStep hidle hstep
  | resume cur =>
      simp only [ipcStep, Option.ite_none_right_eq_some] at hstep
      obtain ⟨-, hstep⟩ := hstep
      rcases h.pc cur with hcur | hcur | ⟨u, hcur⟩
      · simp [ipcResume, hcur] at hstep
      · simp only [hcur, decide_eq_true_eq] at hguard
        simp only [ipcResume, hcur] at hstep
        exact h.resumeStep hcur hguard hstep
      · simp only [ipcResume, hcur] at hstep
        obtain rfl := Option.some.inj hstep
        exact h.rdyStep hcur

/-- The invariant holds of an initialised mutex. -/
theorem start (s : IpcState I T) (i : I) :
    MutexQueue i (IpcRun.start (acoralMutexInit (some i) s).2) [] := by
  refine ⟨(acoralMutexInit_free i s).1, ?_, fun t => ?_, fun t => Or.inl rfl⟩
  · unfold IpcState.Waits
    refine Lib.Links.isRing_nil ?_ ?_ <;>
      simp [IpcRun.start, acoralMutexInit, acoralIpcInit, IpcState.setIpc, acoralListInit,
        Lib.Links.setNext, Lib.Links.setPrev]
  · simp [IpcRun.start]

end MutexQueue

/-- Every run of a mutex, of any number of threads, whose steps meet the
guard. In every state of it the wait queue holds exactly the threads in the
middle of `acoral_mutex_pend`; and every further step leaves no trace: a
pend that fails leaves its caller neither the owner nor in the queue, and a
waiter that goes on is the owner and has left the queue. -/
theorem mutex_noTrace (fuel : Nat) (s : IpcState I T) (i : I) (ops : List (IpcOp I T))
    (r : IpcRun I T)
    (hrun : run (guarded (traceGuard i) (ipcStep fuel))
      (IpcRun.start (acoralMutexInit (some i) s).2) ops = some r) :
    (∃ q, r.st.Waits i q ∧ ∀ t, t ∈ q ↔ r.pc t = .mutexPend i) ∧
    ∀ op r', guarded (traceGuard i) (ipcStep fuel) r op = some r' → NoTrace i r r' := by
  obtain ⟨q, h⟩ := guarded_induct (P := fun r => ∃ q, MutexQueue i r q)
    (fun _ _ _ ⟨_, hinv⟩ hguard hstep => (hinv.step hguard hstep).2)
    ⟨[], MutexQueue.start s i⟩ hrun
  refine ⟨⟨q, h.waits, h.mem⟩, fun op r' hstep => ?_⟩
  obtain ⟨hguard, hstep⟩ := guarded_eq_some.mp hstep
  exact (h.step hguard hstep).1

/-- A waiter is readied by a post and takes the mutex. -/
theorem mutex_noTrace_twoReady :
    ∃ r, run (guarded (traceGuard ()) (ipcStep 4))
        (IpcRun.start (acoralMutexInit (some ()) twoReady).2)
        [.call .acoral_mutex_pend false 0 (some ()), .call .acoral_mutex_pend true 0 (some ()),
         .call .acoral_mutex_post false 0 (some ()), .resume false] = some r ∧
      ∀ op r', guarded (traceGuard ()) (ipcStep 4) r op = some r' → NoTrace () r r' := by
  have hsome : (run (guarded (traceGuard ()) (ipcStep 4))
      (IpcRun.start (acoralMutexInit (some ()) twoReady).2)
      [.call .acoral_mutex_pend false 0 (some ()), .call .acoral_mutex_pend true 0 (some ()),
       .call .acoral_mutex_post false 0 (some ()), .resume false]).isSome = true := by decide
  obtain ⟨r, hr⟩ := Option.isSome_iff_exists.mp hsome
  exact ⟨r, hr, (mutex_noTrace 4 twoReady () _ r hr).2⟩

/-- The poster takes the mutex again before the waiter that it readied goes
on. The pend of the waiter returns an error, and the waiter is in no call,
READY, and still the first in the wait queue. -/
theorem mutex_pend_trace :
    (run (ipcStep 4) (IpcRun.start (acoralMutexInit (some ()) twoReady).2)
      [.call .acoral_mutex_pend false 0 (some ()), .call .acoral_mutex_pend true 0 (some ()),
       .call .acoral_mutex_post false 0 (some ()), .resume false,
       .call .acoral_mutex_trypend false 0 (some ()), .resume true]).map
      (fun r => (r.log.head?.map fun e => (e.call, e.thread, e.err), r.pc true, r.st.isReady true,
        acoralIpcHighThread r.st ())) =
    some (some (.acoral_mutex_pend, true, .KR_IPC_ERR_UNDEF), .idle, true, some (some true)) := by
  decide

end ACoral
