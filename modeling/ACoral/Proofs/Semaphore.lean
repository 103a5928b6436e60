import Mathlib.Data.Fintype.Card
import ACoral.Proofs.WaitQueue

/-!
# `ACoral.Proofs.Semaphore`: when a post wakes a waiter

Any number of threads call `acoral_sem_pend` and `acoral_sem_post` on one
semaphore. `acoral_sem_post` readies the head of the wait queue, but the
head leaves the queue only when it runs again. A second post before that
picks the same thread, and its wake-up is lost (`sem_lostWakeup`).

`semGuard` is the condition under which a step loses nothing:

* a post is made while a thread is suspended in the queue only if the
  head of the queue is suspended;
* a pend reads the low byte of the count, so where the count says that
  a unit is available the low byte has to say so too;
* a pend at the largest count, which wraps around, is made only if no
  thread is suspended.

`SemInv` is the invariant of the runs whose steps all meet it. It ties
the ring of the wait queue to the program points, and bounds the
suspended threads by the count. `semStep_spec` is the step lemma, with
`SemEffect` for what the step does to the number of suspended and of
readied waiters. `sem_run` is the result for every such run.
-/

set_option autoImplicit false

namespace ACoral

open Lib (run run_cons_eq_some guarded guarded_induct guarded_eq_some)

/-! ### The operations on one semaphore -/

/-- What the users of the semaphore do. -/
inductive SemOp (T : Type) where
  | pend (cur : T) (intrNesting : Nat)
  | post (cur : T)
  | resume (cur : T)

/-- The operation is a post. -/
def SemOp.isPost {T : Type} : SemOp T → Bool
  | .post _ => true
  | _       => false

/-- The operation is a resumption. -/
def SemOp.isResume {T : Type} : SemOp T → Bool
  | .resume _ => true
  | _         => false

variable {I T : Type} [DecidableEq I] [DecidableEq T]

/-- The operation on the semaphore `i`, as a step of the system. -/
def SemOp.toIpc (i : I) : SemOp T → IpcOp I T
  | .pend cur n => .call .acoral_sem_pend cur n (some i)
  | .post cur   => .call .acoral_sem_post cur 0 (some i)
  | .resume cur => .resume cur

/-- One step of a user of the semaphore `i`. -/
def semStep (fuel : Nat) (i : I) (r : IpcRun I T) (op : SemOp T) : Option (IpcRun I T) :=
  ipcStep fuel r (op.toIpc i)

variable [Fintype T]

/-- The threads that are blocked on `i` and not readied yet. -/
def suspended (i : I) (r : IpcRun I T) : Finset T :=
  Finset.univ.filter fun t => r.pc t = .semPend i ∧ r.st.isSuspended t = true

/-- The threads that are blocked on `i`, readied, and not resumed yet. -/
def readied (i : I) (r : IpcRun I T) : Finset T :=
  Finset.univ.filter fun t => r.pc t = .semPend i ∧ r.st.isReady t = true

/-- The condition under which a step loses no wake-up. -/
def semGuard (i : I) (r : IpcRun I T) : SemOp T → Bool
  | .pend _ intrNesting =>
      decide (intrNesting > 0 ∨
        (((r.st.ipc i).count.toInt ≤ 0 → semAvailable (r.st.ipc i).count = true) ∧
         ((r.st.ipc i).count.toInt = 32767 → (suspended i r).card = 0)))
  | .post _ =>
      decide ((suspended i r).card ≠ 0 →
        ∃ t, acoralIpcHighThread r.st i = some (some t) ∧ r.st.isSuspended t = true)
  | .resume _ => true

/-! ### Counting -/

/-- The count goes up, below its largest value. -/
theorem toInt_add_one {count : BitVec 16} (h : count.toInt ≠ 32767) :
    (count + 1).toInt = count.toInt + 1 := by
  have hlt := BitVec.toInt_lt (x := count)
  have hle := BitVec.le_toInt (x := count)
  rw [BitVec.toInt_add, show (1 : BitVec 16).toInt = 1 by decide]
  apply Int.bmod_eq_of_le <;> omega

/-- The count goes down, above its smallest value. -/
theorem toInt_sub_one {count : BitVec 16} (h : count.toInt ≠ -32768) :
    (count - 1).toInt = count.toInt - 1 := by
  have hlt := BitVec.toInt_lt (x := count)
  have hle := BitVec.le_toInt (x := count)
  rw [BitVec.toInt_sub, show (1 : BitVec 16).toInt = 1 by decide]
  apply Int.bmod_eq_of_le <;> omega

theorem mem_suspended {i : I} {r : IpcRun I T} {t : T} :
    t ∈ suspended i r ↔ r.pc t = .semPend i ∧ r.st.isSuspended t = true := by
  simp [suspended]

theorem mem_readied {i : I} {r : IpcRun I T} {t : T} :
    t ∈ readied i r ↔ r.pc t = .semPend i ∧ r.st.isReady t = true := by
  simp [readied]

/-- The waiters only depend on the program points and the flags. -/
theorem waiters_congr {i : I} {r r' : IpcRun I T} (hpc : r'.pc = r.pc)
    (hsched : r'.st.sched = r.st.sched) :
    suspended i r' = suspended i r ∧ readied i r' = readied i r := by
  unfold suspended readied IpcState.isSuspended IpcState.isReady
  rw [hpc, hsched]
  exact ⟨rfl, rfl⟩

/-! ### The invariant -/

/-- The invariant of the semaphore `i`: its wait queue `q` is a ring of
exactly the threads blocked on it, each of them READY or SUSPEND, and
there are no more suspended ones than the count owes. -/
structure SemInv (i : I) (r : IpcRun I T) (q : List T) : Prop where
  type : (r.st.ipc i).type = .ACORAL_IPC_SEM
  waits : r.st.Waits i q
  mem : ∀ t, t ∈ q ↔ r.pc t = .semPend i
  pc : ∀ t, r.pc t = .idle ∨ r.pc t = .semPend i
  flags : ∀ t ∈ q, r.st.isSuspended t = !r.st.isReady t
  bound : (suspended i r).card = 0 ∨
    ((suspended i r).card : Int) ≤ (r.st.ipc i).count.toInt - 1

/-- What a step does to the number of suspended and of readied waiters. -/
def SemEffect (i : I) (r : IpcRun I T) (r' : IpcRun I T) : SemOp T → Prop
  | .pend _ _ => (suspended i r).card ≤ (suspended i r').card ∧
      (readied i r').card = (readied i r).card
  | .post _   =>
      ((suspended i r).card ≠ 0 → (suspended i r').card + 1 = (suspended i r).card ∧
        (readied i r').card = (readied i r).card + 1) ∧
      ((suspended i r).card = 0 → (suspended i r').card = 0 ∧
        (readied i r').card = (readied i r).card)
  | .resume _ => (suspended i r').card = (suspended i r).card ∧
      (readied i r').card + 1 = (readied i r).card

namespace SemInv

variable {i : I} {r : IpcRun I T} {q : List T}

/-- A step that only works on the count. -/
theorem of_count (h : SemInv i r q) {r' : IpcRun I T} (hpc : r'.pc = r.pc)
    (hsched : r'.st.sched = r.st.sched) (hlinks : r'.st.links = r.st.links)
    (htype : (r'.st.ipc i).type = (r.st.ipc i).type)
    (hbound : (suspended i r).card = 0 ∨
      ((suspended i r).card : Int) ≤ (r'.st.ipc i).count.toInt - 1) : SemInv i r' q := by
  have hflag : ∀ t, r'.st.isSuspended t = r.st.isSuspended t ∧
      r'.st.isReady t = r.st.isReady t := by
    intro t
    unfold IpcState.isSuspended IpcState.isReady
    rw [hsched]
    exact ⟨rfl, rfl⟩
  refine ⟨htype.trans h.type, ?_, ?_, ?_, ?_, ?_⟩
  · unfold IpcState.Waits
    rw [hlinks]
    exact h.waits
  · rw [hpc]
    exact h.mem
  · rw [hpc]
    exact h.pc
  · intro t ht
    rw [(hflag t).1, (hflag t).2]
    exact h.flags t ht
  · rwa [(waiters_congr hpc hsched).1]

omit [DecidableEq I] [Fintype T] in
/-- A returned call leaves the caller where it was. -/
theorem ret_pc {r : IpcRun I T} {cur : T} (hidle : r.pc cur = .idle) (c : IpcCall)
    (ipc : Option I) (res : KernelError × IpcState I T) : (r.ret c cur ipc res).pc = r.pc := by
  unfold IpcRun.ret
  simp only
  rw [← hidle]
  exact Function.update_eq_self cur r.pc

/-- A thread that is suspended in the queue is not READY. -/
theorem not_ready (h : SemInv i r q) {t : T} (ht : r.pc t = .semPend i)
    (hs : r.st.isSuspended t = true) : r.st.isReady t = false := by
  have hf := h.flags t ((h.mem t).mpr ht)
  rw [hs] at hf
  simpa using hf.symm

/-- A pend that blocks: the caller joins the queue and is suspended. -/
theorem block (h : SemInv i r q) {fuel : Nat} {cur : T} {res : CallResult I × IpcState I T}
    (hready : r.st.isReady cur = true) (hidle : r.pc cur = .idle)
    (hcount : 0 < (r.st.ipc i).count.toInt) (hmax : (r.st.ipc i).count.toInt ≠ 32767)
    (hres : ipcBlock fuel (incCount r.st i) i cur = some res) :
    (∃ q', SemInv i (r.pend .acoral_sem_pend cur (some i) .semPend res) q') ∧
    SemEffect i r (r.pend .acoral_sem_pend cur (some i) .semPend res) (.pend cur 0) := by
  obtain ⟨s', hadd, rfl⟩ := Option.map_eq_some_iff.mp hres
  have hcur : cur ∉ q := fun hm => by simp [(h.mem cur).mp hm] at hidle
  have hwaits : ((incCount r.st i).suspendSelf cur).Waits i q := h.waits
  obtain ⟨hwaits', hsched, hipc⟩ := hwaits.add hcur hadd
  have hflag : ∀ u, s'.isReady u = (if u = cur then false else r.st.isReady u) ∧
      s'.isSuspended u = (if u = cur then true else r.st.isSuspended u) := by
    intro u
    have := suspendSelf_flags (s := incCount r.st i) hready u
    unfold IpcState.isReady IpcState.isSuspended at this ⊢
    rw [hsched]
    exact this
  set r' : IpcRun I T := { r with st := s', pc := Function.update r.pc cur (.semPend i) } with hr'
  have hsusp : suspended i r' = insert cur (suspended i r) := by
    ext u
    rw [mem_suspended, Finset.mem_insert, mem_suspended]
    by_cases hu : u = cur <;> simp [hr', hu, hflag]
  have hrdy : readied i r' = readied i r := by
    ext u
    rw [mem_readied, mem_readied]
    by_cases hu : u = cur <;> simp [hr', hu, hflag, hidle]
  have hnot : cur ∉ suspended i r := fun hm => by
    simp [(mem_suspended.mp hm).1] at hidle
  have hcard : (suspended i r').card = (suspended i r).card + 1 := by
    rw [hsusp, Finset.card_insert_of_notMem hnot]
  have hcnt : (s'.ipc i).count.toInt = (r.st.ipc i).count.toInt + 1 := by
    rw [hipc]
    simp only [IpcState.suspendSelf, incCount, IpcState.setIpc, Function.update_self]
    exact toInt_add_one hmax
  refine ⟨⟨_, ?_, hwaits', ?_, ?_, ?_, ?_⟩, ?_⟩
  · show (s'.ipc i).type = _
    rw [hipc]
    simpa [IpcState.suspendSelf, incCount, IpcState.setIpc] using h.type
  · intro u
    rw [mem_enqueue]
    by_cases hu : u = cur
    · simp [IpcRun.pend, hu]
    · simp [IpcRun.pend, hu, h.mem]
  · intro u
    by_cases hu : u = cur
    · simp [IpcRun.pend, hu]
    · simpa [IpcRun.pend, hu] using h.pc u
  · intro u hu
    show s'.isSuspended u = !s'.isReady u
    rw [(hflag u).1, (hflag u).2]
    by_cases huc : u = cur
    · simp [huc]
    · simpa [huc] using h.flags u ((mem_enqueue.mp hu).resolve_left huc)
  · show (suspended i r').card = 0 ∨ ((suspended i r').card : Int) ≤ (s'.ipc i).count.toInt - 1
    have hb := h.bound
    omega
  · show (suspended i r).card ≤ (suspended i r').card ∧ (readied i r').card = _
    exact ⟨by omega, by rw [hrdy]⟩

/-- `acoral_sem_pend`. -/
theorem pendStep (h : SemInv i r q) {fuel n : Nat} {cur : T} {r' : IpcRun I T}
    (hready : r.st.isReady cur = true) (hidle : r.pc cur = .idle)
    (hguard : semGuard i r (.pend cur n) = true)
    (hstep : (acoralSemPend fuel cur n (some i) r.st).map
      (r.pend .acoral_sem_pend cur (some i) .semPend) = some r') :
    (∃ q', SemInv i r' q') ∧ SemEffect i r r' (.pend cur n) := by
  obtain ⟨res, hres, rfl⟩ := Option.map_eq_some_iff.mp hstep
  unfold acoralSemPend ipcPendCheck ipcCheck at hres
  by_cases hn : n > 0
  · simp only [hn, if_true, Option.some.injEq] at hres
    subst hres
    have hpc := ret_pc hidle .acoral_sem_pend (some i) (.KR_IPC_ERR_INTR, r.st)
    refine ⟨⟨q, h.of_count hpc rfl rfl rfl h.bound⟩, ?_⟩
    obtain ⟨hs, hr⟩ := waiters_congr (i := i) hpc (by rfl)
    exact ⟨(congrArg Finset.card hs).ge, congrArg Finset.card hr⟩
  · simp only [semGuard, hn, false_or, decide_eq_true_eq] at hguard
    obtain ⟨hlow, hmax⟩ := hguard
    simp only [hn, if_false, h.type, ne_eq, not_true_eq_false] at hres
    by_cases hav : semAvailable (r.st.ipc i).count = true
    · rw [if_pos hav, Option.some.injEq] at hres
      subst hres
      have hpc := ret_pc hidle .acoral_sem_pend (some i) (.KR_OK, incCount r.st i)
      refine ⟨⟨q, h.of_count hpc rfl rfl ?_ ?_⟩, ?_⟩
      · simp [IpcRun.ret, IpcRun.pend, incCount, IpcState.setIpc]
      · by_cases hm : (r.st.ipc i).count.toInt = 32767
        · exact Or.inl (hmax hm)
        · have hb := h.bound
          have hc := toInt_add_one hm
          simp only [IpcRun.ret, IpcRun.pend, incCount, IpcState.setIpc, Function.update_self]
          omega
      · obtain ⟨hs, hr⟩ := waiters_congr (i := i) hpc (by rfl)
        exact ⟨(congrArg Finset.card hs).ge, congrArg Finset.card hr⟩
    · rw [if_neg hav] at hres
      have hpos : 0 < (r.st.ipc i).count.toInt := by
        by_contra hle
        exact hav (hlow (by omega))
      have hne : (r.st.ipc i).count.toInt ≠ 32767 := by
        intro hm
        have hc : (r.st.ipc i).count = 32767#16 := BitVec.eq_of_toInt_eq (by rw [hm]; decide)
        rw [hc] at hav
        exact hav (by decide)
      exact h.block hready hidle hpos hne hres

/-- `acoral_sem_post`. -/
theorem postStep (h : SemInv i r q) {cur : T} {r' : IpcRun I T} (hidle : r.pc cur = .idle)
    (hguard : semGuard i r (.post cur) = true)
    (hstep : (acoralSemPost (some i) r.st).map
      (r.ret .acoral_sem_post cur (some i)) = some r') :
    (∃ q', SemInv i r' q') ∧ SemEffect i r r' (.post cur) := by
  obtain ⟨res, hres, rfl⟩ := Option.map_eq_some_iff.mp hstep
  have hmin := BitVec.le_toInt (x := (r.st.ipc i).count)
  have hb := h.bound
  simp only [semGuard, ne_eq, decide_eq_true_eq] at hguard
  unfold acoralSemPost ipcCheck at hres
  simp only [h.type, ne_eq, not_true_eq_false, if_false] at hres
  rw [if_pos (by simpa using hmin)] at hres
  have hpc := fun res => ret_pc (r := r) hidle .acoral_sem_post (some i) res
  have hhigh : acoralIpcHighThread (decCount r.st i) i = some q.head? :=
    IpcState.Waits.high (s := decCount r.st i) h.waits
  rw [IpcState.Waits.high h.waits] at hguard
  by_cases hone : (r.st.ipc i).count.toInt ≤ 1
  · -- nobody is suspended
    have hzero : (suspended i r).card = 0 := by omega
    rw [if_pos hone, Option.some.injEq] at hres
    subst hres
    refine ⟨⟨q, h.of_count (hpc _) rfl rfl ?_ (Or.inl hzero)⟩, ?_⟩
    · simp [IpcRun.ret, decCount, IpcState.setIpc]
    · obtain ⟨hs, hr⟩ := waiters_congr (i := i) (hpc (.KR_OK, decCount r.st i)) (by rfl)
      exact ⟨fun hne => absurd hzero hne, fun _ => ⟨hs ▸ hzero, congrArg Finset.card hr⟩⟩
  · rw [if_neg hone, hhigh, Option.map_some] at hres
    have hcnt : ((decCount r.st i).ipc i).count.toInt = (r.st.ipc i).count.toInt - 1 := by
      simp only [decCount, IpcState.setIpc, Function.update_self]
      exact toInt_sub_one (by omega)
    cases hq : q.head? with
    | none =>
        -- the queue is empty
        have hzero : (suspended i r).card = 0 := by
          by_contra hne
          obtain ⟨t, ht, -⟩ := hguard hne
          simp [hq] at ht
        rw [hq, Option.some.injEq] at hres
        subst hres
        refine ⟨⟨q, h.of_count (hpc _) rfl rfl ?_ (Or.inl hzero)⟩, ?_⟩
        · simp [IpcRun.ret, decCount, IpcState.setIpc]
        · obtain ⟨hs, hr⟩ := waiters_congr (i := i) (hpc (.KR_IPC_ERR_UNDEF, decCount r.st i))
            (by rfl)
          exact ⟨fun hne => absurd hzero hne, fun _ => ⟨hs ▸ hzero, congrArg Finset.card hr⟩⟩
    | some t =>
        rw [hq, Option.some.injEq] at hres
        subst hres
        have htq : t ∈ q := List.mem_of_mem_head? (by simp [hq])
        have htpc := (h.mem t).mp htq
        set r' := r.ret .acoral_sem_post cur (some i) (.KR_OK, (decCount r.st i).rdyThread t)
          with hr'
        have hst : r'.st = (decCount r.st i).rdyThread t := rfl
        have hpc' : r'.pc = r.pc := hpc _
        have hflag : ∀ u, r'.st.isReady u =
              (if u = t ∧ r.st.isSuspended t = true then true else r.st.isReady u) ∧
            r'.st.isSuspended u = (if u = t then false else r.st.isSuspended u) :=
          fun u => rdyThread_flags (decCount r.st i) t u
        have hsusp : suspended i r' = (suspended i r).erase t := by
          ext u
          rw [mem_suspended, Finset.mem_erase, mem_suspended, hpc', (hflag u).2]
          by_cases hu : u = t <;> simp [hu]
        have hflags' : ∀ u ∈ q, r'.st.isSuspended u = !r'.st.isReady u := by
          intro u hu
          rw [(hflag u).1, (hflag u).2]
          by_cases hut : u = t
          · have hf := h.flags t htq
            cases hs : r.st.isSuspended t <;> simp_all
          · simpa [hut] using h.flags u hu
        have hcnt' : (r'.st.ipc i).count.toInt = (r.st.ipc i).count.toInt - 1 := hcnt
        by_cases hs : r.st.isSuspended t = true
        · -- the head is suspended: it becomes ready
          have htin : t ∈ suspended i r := mem_suspended.mpr ⟨htpc, hs⟩
          have hrdy : readied i r' = insert t (readied i r) := by
            ext u
            rw [mem_readied, Finset.mem_insert, mem_readied, hpc', (hflag u).1]
            by_cases hu : u = t
            · simp [hu, hs, htpc]
            · simp [hu]
          have htout : t ∉ readied i r := fun hm => by
            simpa [h.not_ready htpc hs] using (mem_readied.mp hm).2
          have hc1 : (suspended i r').card + 1 = (suspended i r).card := by
            rw [hsusp]
            exact Finset.card_erase_add_one htin
          have hc2 : (readied i r').card = (readied i r).card + 1 := by
            rw [hrdy, Finset.card_insert_of_notMem htout]
          refine ⟨⟨q, ?_, h.waits, ?_, ?_, hflags', ?_⟩, fun _ => ⟨hc1, hc2⟩, fun hz => ?_⟩
          · simpa [hst, IpcState.rdyThread, decCount, IpcState.setIpc] using h.type
          · rw [hpc']; exact h.mem
          · rw [hpc']; exact h.pc
          · omega
          · exact absurd hz (Finset.card_ne_zero_of_mem htin)
        · -- the head runs already, so by the guard nobody is suspended
          have hzero : (suspended i r).card = 0 := by
            by_contra hne
            obtain ⟨u, hu, hus⟩ := hguard hne
            rw [hq, Option.some.injEq, Option.some.injEq] at hu
            exact hs (hu ▸ hus)
          have hrdy : readied i r' = readied i r := by
            ext u
            rw [mem_readied, mem_readied, hpc', (hflag u).1]
            simp [hs]
          have hzero' : (suspended i r').card = 0 := by
            rw [hsusp, Finset.card_eq_zero.mp hzero]
            rfl
          refine ⟨⟨q, ?_, h.waits, ?_, ?_, hflags', Or.inl hzero'⟩,
            fun hne => absurd hzero hne, fun _ => ⟨hzero', by rw [hrdy]⟩⟩
          · simpa [hst, IpcState.rdyThread, decCount, IpcState.setIpc] using h.type
          · rw [hpc']; exact h.mem
          · rw [hpc']; exact h.pc

/-- The second half of `acoral_sem_pend`: the thread leaves the queue. -/
theorem resumeStep (h : SemInv i r q) {cur : T} {r' : IpcRun I T}
    (hready : r.st.isReady cur = true) (hstep : ipcResume r cur = some r') :
    (∃ q', SemInv i r' q') ∧ SemEffect i r r' (.resume cur) := by
  have hcur : r.pc cur = .semPend i := by
    rcases h.pc cur with hi | hi
    · simp [ipcResume, hi] at hstep
    · exact hi
  simp only [ipcResume, hcur] at hstep
  obtain ⟨res, hres, rfl⟩ := Option.map_eq_some_iff.mp hstep
  obtain ⟨s', hdel, rfl⟩ := Option.map_eq_some_iff.mp hres
  obtain ⟨l₁, l₂, hq⟩ := List.append_of_mem ((h.mem cur).mpr hcur)
  have hwaits : r.st.Waits i (l₁ ++ cur :: l₂) := hq ▸ h.waits
  have hnd := hwaits.nodup
  obtain ⟨hwaits', hsched, hipc⟩ := hwaits.del hdel
  set r' := r.ret .acoral_sem_pend cur (some i) (.KR_OK, s') with hr'
  have hpc' : r'.pc = Function.update r.pc cur .idle := rfl
  have hflag : ∀ u, r'.st.isReady u = r.st.isReady u ∧
      r'.st.isSuspended u = r.st.isSuspended u := by
    intro u
    show s'.isReady u = _ ∧ s'.isSuspended u = _
    unfold IpcState.isReady IpcState.isSuspended
    rw [hsched]
    exact ⟨rfl, rfl⟩
  have hns : r.st.isSuspended cur = false := by
    have hf := h.flags cur ((h.mem cur).mpr hcur)
    rw [hready] at hf
    simpa using hf
  have hsusp : suspended i r' = suspended i r := by
    ext u
    rw [mem_suspended, mem_suspended, hpc', (hflag u).2]
    by_cases hu : u = cur <;> simp [hu, hns]
  have hrdy : readied i r' = (readied i r).erase cur := by
    ext u
    rw [mem_readied, Finset.mem_erase, mem_readied, hpc', (hflag u).1]
    by_cases hu : u = cur <;> simp [hu]
  have hin : cur ∈ readied i r := mem_readied.mpr ⟨hcur, hready⟩
  have hmem : ∀ u, u ∈ l₁ ++ l₂ ↔ r'.pc u = .semPend i := by
    intro u
    have hu := h.mem u
    have hnot : cur ∉ l₁ ++ l₂ := (List.nodup_middle.mp hnd).notMem
    rw [hq] at hu
    by_cases huc : u = cur
    · subst huc
      simp [hpc', hnot]
    · rw [hpc', Function.update_of_ne huc, ← hu]
      simp [huc]
  refine ⟨⟨l₁ ++ l₂, ?_, hwaits', hmem, ?_, ?_, ?_⟩, ?_⟩
  · show (s'.ipc i).type = _
    rw [hipc]
    exact h.type
  · intro u
    by_cases hu : u = cur
    · simp [hpc', hu]
    · simpa [hpc', hu] using h.pc u
  · intro u hu
    rw [(hflag u).1, (hflag u).2]
    refine h.flags u (hq ▸ ?_)
    rcases List.mem_append.mp hu with hm | hm <;> simp [hm]
  · rw [hsusp]
    show _ ∨ _ ≤ (s'.ipc i).count.toInt - 1
    rw [hipc]
    exact h.bound
  · refine ⟨by rw [hsusp], ?_⟩
    rw [hrdy]
    exact Finset.card_erase_add_one hin

/-- Every step that meets the guard. -/
theorem step (h : SemInv i r q) {fuel : Nat} {op : SemOp T} {r' : IpcRun I T}
    (hguard : semGuard i r op = true) (hstep : semStep fuel i r op = some r') :
    (∃ q', SemInv i r' q') ∧ SemEffect i r r' op := by
  cases op with
  | pend cur n =>
      simp only [semStep, SemOp.toIpc, ipcStep, Option.ite_none_right_eq_some] at hstep
      obtain ⟨⟨hready, hidle⟩, hstep⟩ := hstep
      exact h.pendStep hready hidle hguard hstep
  | post cur =>
      simp only [semStep, SemOp.toIpc, ipcStep, Option.ite_none_right_eq_some] at hstep
      obtain ⟨⟨-, hidle⟩, hstep⟩ := hstep
      exact h.postStep hidle hguard hstep
  | resume cur =>
      simp only [semStep, SemOp.toIpc, ipcStep, Option.ite_none_right_eq_some] at hstep
      exact h.resumeStep hstep.1 hstep.2

/-- The invariant holds of an initialised semaphore. -/
theorem start (s : IpcState I T) (i : I) (semNum : BitVec 32) :
    SemInv i (IpcRun.start (acoralSemInit (some i) semNum s).2) [] := by
  have hzero : suspended i (IpcRun.start (acoralSemInit (some i) semNum s).2) = ∅ := by
    ext t
    simp [mem_suspended, IpcRun.start]
  refine ⟨?_, ?_, ?_, ?_, ?_, Or.inl ?_⟩
  · simp [IpcRun.start, acoralSemInit, acoralIpcInit, IpcState.setIpc]
  · unfold IpcState.Waits
    refine Lib.Links.isRing_nil ?_ ?_ <;>
      simp [IpcRun.start, acoralSemInit, acoralIpcInit, IpcState.setIpc, acoralListInit,
        Lib.Links.setNext, Lib.Links.setPrev]
  · simp [IpcRun.start]
  · simp [IpcRun.start]
  · simp
  · rw [hzero, Finset.card_empty]

/-- Every state of a run whose steps meet the guard. -/
theorem run_inv (h : SemInv i r q) {fuel : Nat} {ops : List (SemOp T)} {r' : IpcRun I T}
    (hrun : run (guarded (semGuard i) (semStep fuel i)) r ops = some r') :
    ∃ q', SemInv i r' q' :=
  guarded_induct (P := fun r => ∃ q, SemInv i r q)
    (fun _ _ _ ⟨_, hinv⟩ hguard hstep => (hinv.step hguard hstep).1) ⟨q, h⟩ hrun

/-- A stretch of a run in which nobody resumes: each post readies one
more waiter as long as one is suspended. -/
theorem readied_ge (h : SemInv i r q) {fuel : Nat} {ops : List (SemOp T)} {r' : IpcRun I T}
    (hrun : run (guarded (semGuard i) (semStep fuel i)) r ops = some r')
    (hno : ∀ op ∈ ops, op.isResume = false) :
    (readied i r).card + min (ops.countP SemOp.isPost) (suspended i r).card ≤
      (readied i r').card := by
  induction ops generalizing r q with
  | nil =>
      obtain rfl := Option.some.inj hrun
      simp
  | cons op ops ih =>
      obtain ⟨r₁, hstep, hrest⟩ := run_cons_eq_some.mp hrun
      obtain ⟨hguard, hstep⟩ := guarded_eq_some.mp hstep
      obtain ⟨⟨q₁, h₁⟩, heffect⟩ := h.step hguard hstep
      have hrec := ih h₁ hrest fun o ho => hno o (List.mem_cons_of_mem _ ho)
      cases op with
      | pend cur n =>
          obtain ⟨hs, hr⟩ := heffect
          rw [List.countP_cons_of_neg (by simp [SemOp.isPost])]
          omega
      | post cur =>
          obtain ⟨hpos, hzero⟩ := heffect
          rw [List.countP_cons_of_pos (by simp [SemOp.isPost])]
          by_cases hs : (suspended i r).card = 0
          · have := hzero hs
            omega
          · have := hpos hs
            omega
      | resume cur => simpa [SemOp.isResume] using hno _ List.mem_cons_self

/-- A stretch of posts: it readies exactly as many waiters as it can. -/
theorem readied_eq (h : SemInv i r q) {fuel : Nat} {ops : List (SemOp T)} {r' : IpcRun I T}
    (hrun : run (guarded (semGuard i) (semStep fuel i)) r ops = some r')
    (hposts : ∀ op ∈ ops, op.isPost = true) :
    (readied i r').card = (readied i r).card + min ops.length (suspended i r).card := by
  induction ops generalizing r q with
  | nil =>
      obtain rfl := Option.some.inj hrun
      simp
  | cons op ops ih =>
      obtain ⟨r₁, hstep, hrest⟩ := run_cons_eq_some.mp hrun
      obtain ⟨hguard, hstep⟩ := guarded_eq_some.mp hstep
      obtain ⟨⟨q₁, h₁⟩, heffect⟩ := h.step hguard hstep
      have hrec := ih h₁ hrest fun o ho => hposts o (List.mem_cons_of_mem _ ho)
      cases op with
      | post cur =>
          obtain ⟨hpos, hzero⟩ := heffect
          rw [List.length_cons]
          by_cases hs : (suspended i r).card = 0
          · have := hzero hs
            omega
          · have := hpos hs
            omega
      | pend cur n => simpa [SemOp.isPost] using hposts _ List.mem_cons_self
      | resume cur => simpa [SemOp.isPost] using hposts _ List.mem_cons_self

end SemInv

/-! ### Lost wake-ups -/

/-- Every run of a semaphore, of any initial number of units, whose
steps meet the guard. In every state of it, a thread that is suspended
in the wait queue finds the count positive: no unit is available. From
every state on, `k` posts while nobody resumes ready at least
`min k w` of the blocked threads, where `w` are suspended at first, and
exactly so many if nobody pends in between. -/
theorem sem_run (fuel : Nat) (s : IpcState I T) (i : I) (semNum : BitVec 32)
    (ops : List (SemOp T)) (r : IpcRun I T)
    (hrun : run (guarded (semGuard i) (semStep fuel i))
      (IpcRun.start (acoralSemInit (some i) semNum s).2) ops = some r) :
    ((r.st.ipc i).count.toInt ≤ 0 → suspended i r = ∅) ∧
    ∀ (ops' : List (SemOp T)) (r' : IpcRun I T),
      run (guarded (semGuard i) (semStep fuel i)) r ops' = some r' →
      (∀ op ∈ ops', op.isResume = false) →
      (readied i r).card + min (ops'.countP SemOp.isPost) (suspended i r).card ≤
          (readied i r').card ∧
        ((∀ op ∈ ops', op.isPost = true) →
          (readied i r').card = (readied i r).card + min ops'.length (suspended i r).card) := by
  obtain ⟨q, h⟩ := (SemInv.start s i semNum).run_inv hrun
  refine ⟨fun hcount => ?_, fun ops' r' hrun' hno => ⟨h.readied_ge hrun' hno, ?_⟩⟩
  · have hb := h.bound
    exact Finset.card_eq_zero.mp (by omega)
  · exact fun hposts => h.readied_eq hrun' hposts

/-- Three READY threads of CPU 0 and one object. -/
def threeReady : IpcState Unit (Fin 3) :=
  let thread (t : Fin 3) : Tcb :=
    { resId := 0, state := ACORAL_THREAD_STATE_SUSPEND, prio := t.val + 3, cpu := 0 }
  let k := acoralSchedRdyqueueInit thread
  { sched := (List.finRange 3).foldl (fun k t => (acoralRdyThread 0 k t).2) k
    ipc := fun _ => { type := .ACORAL_IPC_MBOX, count := 0, number := 0, data := none }
    links := ⟨id, id⟩
    pendingValue := fun t => t.val + 3
    threadIpc := fun _ => none }

/-- Two threads block; each post is followed by the resumption of the
thread it readied. -/
theorem sem_run_threeReady :
    ∃ r, run (guarded (semGuard ()) (semStep 4 ()))
        (IpcRun.start (acoralSemInit (some ()) 0 threeReady).2)
        [.pend 0 0, .pend 1 0, .post 2, .resume 0] = some r ∧
      ∃ r', run (guarded (semGuard ()) (semStep 4 ())) r [.post 2] = some r' ∧
        (readied () r').card = (readied () r).card + min 1 (suspended () r).card := by
  have hsome : (run (guarded (semGuard ()) (semStep 4 ()))
      (IpcRun.start (acoralSemInit (some ()) 0 threeReady).2)
      ([.pend 0 0, .pend 1 0, .post 2, .resume 0] ++ [.post 2])).isSome = true := by decide
  obtain ⟨r', hr'⟩ := Option.isSome_iff_exists.mp hsome
  obtain ⟨r, hr, hpost⟩ := Lib.run_append.mp hr'
  exact ⟨r, hr, r', hpost,
    ((sem_run 4 threeReady () 0 _ r hr).2 [.post 2] r' hpost (by decide)).2 (by decide)⟩

/-- The lost wake-up. Two threads block on a semaphore of no units, and
a third posts twice before the first one runs: one of them is readied.
After one more post the count says that a unit is available, and the
other one is still suspended in the queue. -/
theorem sem_lostWakeup :
    (run (semStep 4 ()) (IpcRun.start (acoralSemInit (some ()) 0 threeReady).2)
      [.pend 0 0, .pend 1 0]).map (fun r => ((suspended () r).card, (readied () r).card)) =
        some (2, 0) ∧
    (run (semStep 4 ()) (IpcRun.start (acoralSemInit (some ()) 0 threeReady).2)
      ([.pend 0 0, .pend 1 0] ++ [.post 2, .post 2])).map
        (fun r => ((suspended () r).card, (readied () r).card)) = some (1, 1) ∧
    (run (semStep 4 ()) (IpcRun.start (acoralSemInit (some ()) 0 threeReady).2)
      ([.pend 0 0, .pend 1 0] ++ [.post 2, .post 2, .post 2])).map
        (fun r => ((suspended () r).card, (r.st.ipc ()).count.toInt)) = some (1, 0) := by
  decide

end ACoral
