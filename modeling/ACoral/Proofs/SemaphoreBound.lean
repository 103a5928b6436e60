import ACoral.Proofs.Mutex
import ACoral.Proofs.Semaphore
import Mathlib.Tactic.Ring

/-!
# `ACoral.Proofs.SemaphoreBound`: no more units than there are

At most `CFG_MAX_THREAD` threads call `acoral_sem_trypend`,
`acoral_sem_pend` and `acoral_sem_post` on one semaphore, in any
interleaving. The calls that got a unit are never more than the initial
units and the posts together (`sem_bound`).

The count of the semaphore encodes the free units and the waiters. Its
value without the wrap-around is `level`: one less the initial units, plus
the calls that got a unit, plus the waiters, less the posts. `SemBound` is
the invariant: the count is the level modulo 2^16, and the level exceeds 1
only by as many as are suspended. So the level of a semaphore with a unit
in its low byte is 0 or less, and nobody gets a unit beyond the level 1.
A wake-up that is lost (`sem_lostWakeup`) lowers the level, never raises it.
-/

set_option autoImplicit false

namespace ACoral

open Lib (run guarded guarded_induct)

variable {I T : Type} [DecidableEq I] [DecidableEq T]

/-! ### The history -/

/-- The operation is one of a user of the semaphore `i`. -/
def usesSem (i : I) : IpcOp I T → Bool
  | .call c _ _ ipc =>
      decide (ipc = some i ∧
        (c = .acoral_sem_trypend ∨ c = .acoral_sem_pend ∨ c = .acoral_sem_post))
  | .resume _       => true

/-- The calls that got a unit of `i`. -/
def acquired (log : List (IpcEvent I T)) (i : I) : Nat :=
  log.countP fun e => decide (e.ipc = some i ∧ e.err = .KR_OK ∧
    (e.call = .acoral_sem_trypend ∨ e.call = .acoral_sem_pend))

/-- The posts of `i`. -/
def posts (log : List (IpcEvent I T)) (i : I) : Nat :=
  log.countP fun e => decide (e.ipc = some i ∧ e.call = .acoral_sem_post)

omit [DecidableEq T] in
theorem acquired_pend {c : IpcCall} (hc : c = .acoral_sem_trypend ∨ c = .acoral_sem_pend)
    (log : List (IpcEvent I T)) (t : T) (i : I) (e : KernelError) :
    acquired (⟨c, t, some i, e⟩ :: log) i =
        acquired log i + (if e = .KR_OK then 1 else 0) ∧
      posts (⟨c, t, some i, e⟩ :: log) i = posts log i := by
  unfold acquired posts
  rcases hc with rfl | rfl <;> simp [List.countP_cons]

omit [DecidableEq T] in
theorem acquired_post (log : List (IpcEvent I T)) (t : T) (i : I) (e : KernelError) :
    acquired (⟨.acoral_sem_post, t, some i, e⟩ :: log) i = acquired log i ∧
      posts (⟨.acoral_sem_post, t, some i, e⟩ :: log) i = posts log i + 1 := by
  unfold acquired posts
  simp

/-! ### The level -/

variable [Fintype T]

/-- The threads in the middle of `acoral_sem_pend`. -/
def blocked (i : I) (r : IpcRun I T) : Finset T :=
  Finset.univ.filter fun t => r.pc t = .semPend i

/-- The value of the count, without the wrap-around. -/
def semLevel (i : I) (semNum : BitVec 32) (r : IpcRun I T) : Int :=
  1 - semNum.toNat + acquired r.log i + (blocked i r).card - posts r.log i

theorem mem_blocked {i : I} {r : IpcRun I T} {t : T} : t ∈ blocked i r ↔ r.pc t = .semPend i := by
  simp [blocked]

theorem suspended_subset_blocked (i : I) (r : IpcRun I T) : suspended i r ⊆ blocked i r :=
  fun _ ht => mem_blocked.mpr (mem_suspended.mp ht).1

/-- The low byte of a small positive count is positive. -/
theorem semAvailable_ofInt {level : Int} (hlow : 1 ≤ level) (hhigh : level ≤ 127) :
    semAvailable (BitVec.ofInt 16 level) = false := by
  obtain ⟨n, rfl⟩ := Int.eq_ofNat_of_zero_le (by omega : 0 ≤ level)
  have hbyte : (BitVec.ofInt 16 (n : Int)).setWidth 8 = BitVec.ofNat 8 n := by
    rw [BitVec.ofInt_natCast]
    apply BitVec.eq_of_toNat_eq
    simp
  have hvalue : (BitVec.ofNat 8 n).toInt = n := by
    rw [BitVec.toInt_eq_toNat_bmod, BitVec.toNat_ofNat, Nat.mod_eq_of_lt (by omega)]
    apply Int.bmod_eq_of_le <;> omega
  unfold semAvailable
  rw [hbyte, hvalue]
  exact decide_eq_false (by omega)

theorem ofInt_add_one (level : Int) :
    BitVec.ofInt 16 level + 1 = BitVec.ofInt 16 (level + 1) := by
  rw [BitVec.ofInt_add]
  rfl

theorem ofInt_sub_one (level : Int) :
    BitVec.ofInt 16 level - 1 = BitVec.ofInt 16 (level - 1) := by
  rw [sub_eq_add_neg level 1, BitVec.ofInt_add, BitVec.sub_eq_add_neg]
  rfl

/-- The count that `acoral_sem_init` stores. -/
theorem semInit_count (semNum : BitVec 32) :
    (1#32 - semNum).setWidth 16 = BitVec.ofInt 16 (1 - semNum.toNat) := by
  apply BitVec.eq_of_toNat_eq
  have hlt := semNum.isLt
  rw [BitVec.toNat_setWidth, BitVec.toNat_sub, BitVec.toNat_ofInt,
    show (1#32).toNat = 1 from rfl]
  omega

/-! ### The invariant -/

/-- The count is the level, and the level is above 1 only by as many as are
suspended. -/
structure SemBound (i : I) (semNum : BitVec 32) (r : IpcRun I T) : Prop where
  type : (r.st.ipc i).type = .ACORAL_IPC_SEM
  pc : ∀ t, r.pc t = .idle ∨ r.pc t = .semPend i
  flags : ∀ t, r.pc t = .semPend i → r.st.isSuspended t = !r.st.isReady t
  count : (r.st.ipc i).count = BitVec.ofInt 16 (semLevel i semNum r)
  bound : semLevel i semNum r ≤ 1 + (suspended i r).card

namespace SemBound

variable {i : I} {semNum : BitVec 32} {r : IpcRun I T}

/-- The level is small: there are not many threads. -/
theorem level_le (h : SemBound i semNum r) (hcard : Fintype.card T ≤ CFG_MAX_THREAD) :
    semLevel i semNum r ≤ 61 := by
  have hbound := h.bound
  have hle := Finset.card_le_univ (suspended i r)
  unfold CFG_MAX_THREAD at hcard
  omega

/-- A unit is available only at the level 0 or below. -/
theorem level_nonpos (h : SemBound i semNum r) (hcard : Fintype.card T ≤ CFG_MAX_THREAD)
    (hav : semAvailable (r.st.ipc i).count = true) : semLevel i semNum r ≤ 0 := by
  by_contra hpos
  have hle := h.level_le hcard
  rw [h.count, semAvailable_ofInt (by omega) (by omega)] at hav
  exact absurd hav (by decide)

/-- A call returned that readied nobody and blocked nobody. -/
theorem ret (h : SemBound i semNum r) {c : IpcCall} {cur : T} {res : KernelError × IpcState I T}
    (hidle : r.pc cur = .idle) (hsched : res.2.sched = r.st.sched)
    (htype : (res.2.ipc i).type = (r.st.ipc i).type)
    (hcount : (res.2.ipc i).count = BitVec.ofInt 16 (semLevel i semNum (r.ret c cur (some i) res)))
    (hbound : semLevel i semNum (r.ret c cur (some i) res) ≤ 1 + (suspended i r).card) :
    SemBound i semNum (r.ret c cur (some i) res) := by
  have hpc := SemInv.ret_pc hidle c (some i) res
  have hflags : ∀ t, (r.ret c cur (some i) res).st.isSuspended t = r.st.isSuspended t ∧
      (r.ret c cur (some i) res).st.isReady t = r.st.isReady t := fun t => by
    unfold IpcState.isSuspended IpcState.isReady IpcRun.ret
    rw [hsched]
    exact ⟨rfl, rfl⟩
  refine ⟨htype.trans h.type, by rw [hpc]; exact h.pc, fun t ht => ?_, hcount, ?_⟩
  · rw [hpc] at ht
    rw [(hflags t).1, (hflags t).2]
    exact h.flags t ht
  · rwa [(waiters_congr hpc (show (r.ret c cur (some i) res).st.sched = _ from hsched)).1]

/-- What a returned pend does to the level. -/
theorem semLevel_pend (i : I) (semNum : BitVec 32) {r : IpcRun I T} {c : IpcCall}
    (hc : c = .acoral_sem_trypend ∨ c = .acoral_sem_pend)
    {cur : T} (hidle : r.pc cur = .idle) (res : KernelError × IpcState I T) :
    semLevel i semNum (r.ret c cur (some i) res) =
      semLevel i semNum r + (if res.1 = .KR_OK then 1 else 0) := by
  obtain ⟨hacq, hpost⟩ := acquired_pend hc r.log cur i res.1
  have hblocked : blocked i (r.ret c cur (some i) res) = blocked i r := by
    unfold blocked
    rw [SemInv.ret_pc hidle]
  unfold semLevel
  rw [hblocked, show (r.ret c cur (some i) res).log = ⟨c, cur, some i, res.1⟩ :: r.log from rfl,
    hacq, hpost]
  push_cast
  ring

/-- A refused call. -/
theorem refused (h : SemBound i semNum r) {c : IpcCall}
    (hc : c = .acoral_sem_trypend ∨ c = .acoral_sem_pend) {cur : T} (hidle : r.pc cur = .idle)
    {e : KernelError} (he : e ≠ .KR_OK) : SemBound i semNum (r.ret c cur (some i) (e, r.st)) := by
  have hlevel := semLevel_pend i semNum hc hidle (e, r.st)
  rw [if_neg he, Int.add_zero] at hlevel
  refine h.ret hidle rfl rfl ?_ ?_
  · rw [hlevel]
    exact h.count
  · rw [hlevel]
    exact h.bound

/-- A call that got a unit at once. -/
theorem got (h : SemBound i semNum r) (hcard : Fintype.card T ≤ CFG_MAX_THREAD) {c : IpcCall}
    (hc : c = .acoral_sem_trypend ∨ c = .acoral_sem_pend) {cur : T} (hidle : r.pc cur = .idle)
    (hav : semAvailable (r.st.ipc i).count = true) :
    SemBound i semNum (r.ret c cur (some i) (.KR_OK, incCount r.st i)) := by
  have hlevel := semLevel_pend i semNum hc hidle (.KR_OK, incCount r.st i)
  rw [if_pos rfl] at hlevel
  have hnonpos := h.level_nonpos hcard hav
  refine h.ret hidle rfl ?_ ?_ ?_
  · simp [incCount, IpcState.setIpc]
  · rw [hlevel, ← ofInt_add_one, ← h.count]
    simp [incCount, IpcState.setIpc]
  · rw [hlevel]
    omega

/-- A pend that blocks. -/
theorem block (h : SemBound i semNum r) {fuel : Nat} {cur : T}
    {res : CallResult I × IpcState I T} (hready : r.st.isReady cur = true)
    (hidle : r.pc cur = .idle) (hres : ipcBlock fuel (incCount r.st i) i cur = some res) :
    SemBound i semNum (r.pend .acoral_sem_pend cur (some i) .semPend res) := by
  obtain ⟨s', hadd, rfl⟩ := Option.map_eq_some_iff.mp hres
  obtain ⟨links, -, rfl⟩ := Option.map_eq_some_iff.mp hadd
  set s' : IpcState I T := { (incCount r.st i).suspendSelf cur with
    threadIpc := Function.update ((incCount r.st i).suspendSelf cur).threadIpc cur (some i)
    links := links } with hs'
  show SemBound i semNum { r with st := s', pc := Function.update r.pc cur (.semPend i) }
  set r' : IpcRun I T := { r with st := s', pc := Function.update r.pc cur (.semPend i) } with hr'
  have hflag : ∀ u, s'.isReady u = (if u = cur then false else r.st.isReady u) ∧
      s'.isSuspended u = (if u = cur then true else r.st.isSuspended u) :=
    fun u => suspendSelf_flags (s := incCount r.st i) hready u
  have hblocked : blocked i r' = insert cur (blocked i r) := by
    ext u
    rw [mem_blocked, Finset.mem_insert, mem_blocked]
    by_cases hu : u = cur <;> simp [hr', hu]
  have hsusp : suspended i r' = insert cur (suspended i r) := by
    ext u
    rw [mem_suspended, Finset.mem_insert, mem_suspended]
    by_cases hu : u = cur <;> simp [hr', hu, hflag]
  have hout : cur ∉ blocked i r := fun hm => by simp [mem_blocked.mp hm] at hidle
  have hout' : cur ∉ suspended i r := fun hm => hout (suspended_subset_blocked i r hm)
  have hlevel : semLevel i semNum r' = semLevel i semNum r + 1 := by
    unfold semLevel
    rw [hblocked, Finset.card_insert_of_notMem hout]
    push_cast
    ring
  refine ⟨?_, fun u => ?_, fun u hu => ?_, ?_, ?_⟩
  · show ((incCount r.st i).ipc i).type = _
    simpa [incCount, IpcState.setIpc] using h.type
  · by_cases hu : u = cur
    · simp [hr', hu]
    · simpa [hr', hu] using h.pc u
  · show s'.isSuspended u = !s'.isReady u
    rw [(hflag u).1, (hflag u).2]
    by_cases huc : u = cur
    · simp [huc]
    · rw [if_neg huc, if_neg huc]
      exact h.flags u (by simpa [hr', huc] using hu)
  · rw [hlevel, ← ofInt_add_one, ← h.count]
    show ((incCount r.st i).ipc i).count = _
    simp [incCount, IpcState.setIpc]
  · have hbound := h.bound
    rw [hlevel, hsusp, Finset.card_insert_of_notMem hout']
    push_cast
    omega

/-- A blocked thread goes on: its call gets the unit that it waited
for. -/
theorem resumed (h : SemBound i semNum r) {cur : T} {s' : IpcState I T}
    (hready : r.st.isReady cur = true) (hcur : r.pc cur = .semPend i)
    (hdel : acoralIpcWaitQueueDel r.st cur = some s') :
    SemBound i semNum (r.ret .acoral_sem_pend cur (some i) (.KR_OK, s')) := by
  obtain ⟨links, -, rfl⟩ := Option.map_eq_some_iff.mp hdel
  set s' : IpcState I T := { r.st with
    links := links, threadIpc := Function.update r.st.threadIpc cur none }
  set r' := r.ret .acoral_sem_pend cur (some i) (.KR_OK, s') with hr'
  have hpc' : r'.pc = Function.update r.pc cur .idle := rfl
  have hns : r.st.isSuspended cur = false := by rw [h.flags cur hcur, hready]; rfl
  have hblocked : blocked i r' = (blocked i r).erase cur := by
    ext u
    rw [mem_blocked, Finset.mem_erase, mem_blocked, hpc']
    by_cases hu : u = cur <;> simp [hu]
  have hsusp : suspended i r' = suspended i r := by
    ext u
    rw [mem_suspended, mem_suspended, hpc', show r'.st.isSuspended u = r.st.isSuspended u from rfl]
    by_cases hu : u = cur <;> simp [hu, hns]
  have hin : cur ∈ blocked i r := mem_blocked.mpr hcur
  have hlevel : semLevel i semNum r' = semLevel i semNum r := by
    obtain ⟨hacq, hpost⟩ := acquired_pend (Or.inr rfl) r.log cur i .KR_OK
    have hcard := Finset.card_erase_add_one hin
    rw [if_pos rfl] at hacq
    unfold semLevel
    rw [hblocked, show r'.log = ⟨.acoral_sem_pend, cur, some i, .KR_OK⟩ :: r.log from rfl, hacq,
      hpost]
    omega
  refine ⟨h.type, fun u => ?_, fun u hu => ?_, ?_, ?_⟩
  · by_cases hu : u = cur
    · simp [hpc', hu]
    · simpa [hpc', hu] using h.pc u
  · refine h.flags u ?_
    by_cases huc : u = cur
    · simp [hpc', huc] at hu
    · simpa [hpc', huc] using hu
  · rw [hlevel]
    exact h.count
  · rw [hlevel, hsusp]
    exact h.bound

/-- What a post does to the level. -/
theorem semLevel_post (i : I) (semNum : BitVec 32) {r : IpcRun I T} {cur : T}
    (hidle : r.pc cur = .idle) (res : KernelError × IpcState I T) :
    semLevel i semNum (r.ret .acoral_sem_post cur (some i) res) = semLevel i semNum r - 1 := by
  obtain ⟨hacq, hpost⟩ := acquired_post r.log cur i res.1
  have hblocked : blocked i (r.ret .acoral_sem_post cur (some i) res) = blocked i r := by
    unfold blocked
    rw [SemInv.ret_pc hidle]
  unfold semLevel
  rw [hblocked,
    show (r.ret .acoral_sem_post cur (some i) res).log = ⟨.acoral_sem_post, cur, some i, res.1⟩ :: r.log
      from rfl, hacq, hpost]
  push_cast
  ring

/-- A post that readies nobody. -/
theorem posted (h : SemBound i semNum r) {cur : T} (hidle : r.pc cur = .idle) (e : KernelError) :
    SemBound i semNum (r.ret .acoral_sem_post cur (some i) (e, decCount r.st i)) := by
  have hlevel := semLevel_post i semNum hidle (e, decCount r.st i)
  have hbound := h.bound
  refine h.ret hidle rfl ?_ ?_ ?_
  · simp [decCount, IpcState.setIpc]
  · rw [hlevel, ← ofInt_sub_one, ← h.count]
    simp [decCount, IpcState.setIpc]
  · rw [hlevel]
    omega

/-- A post that readies a thread: at most one is suspended no more. -/
theorem postedRdy (h : SemBound i semNum r) {cur : T} (hidle : r.pc cur = .idle) (t : T) :
    SemBound i semNum
      (r.ret .acoral_sem_post cur (some i) (.KR_OK, (decCount r.st i).rdyThread t)) := by
  have hlevel := semLevel_post i semNum hidle
    (.KR_OK, (decCount r.st i).rdyThread t)
  set r' := r.ret .acoral_sem_post cur (some i) (.KR_OK, (decCount r.st i).rdyThread t) with hr'
  have hpc' : r'.pc = r.pc := SemInv.ret_pc hidle _ _ _
  have hflag : ∀ u, r'.st.isReady u =
        (if u = t ∧ r.st.isSuspended t = true then true else r.st.isReady u) ∧
      r'.st.isSuspended u = (if u = t then false else r.st.isSuspended u) :=
    fun u => rdyThread_flags (decCount r.st i) t u
  have hsusp : suspended i r' = (suspended i r).erase t := by
    ext u
    rw [mem_suspended, Finset.mem_erase, mem_suspended, hpc', (hflag u).2]
    by_cases hu : u = t <;> simp [hu]
  refine ⟨?_, by rw [hpc']; exact h.pc, fun u hu => ?_, ?_, ?_⟩
  · show ((decCount r.st i).ipc i).type = _
    simpa [decCount, IpcState.setIpc] using h.type
  · rw [hpc'] at hu
    rw [(hflag u).1, (hflag u).2]
    by_cases hut : u = t
    · subst hut
      have hf := h.flags u hu
      cases hs : r.st.isSuspended u <;> simp_all
    · simpa [hut] using h.flags u hu
  · rw [hlevel, ← ofInt_sub_one, ← h.count]
    show ((decCount r.st i).ipc i).count = _
    simp [decCount, IpcState.setIpc]
  · have hbound := h.bound
    have hcard := Finset.pred_card_le_card_erase (s := suspended i r) (a := t)
    rw [hlevel, hsusp]
    omega

/-! ### Steps -/

/-- `acoral_sem_trypend`. -/
theorem trypendStep (h : SemBound i semNum r) (hcard : Fintype.card T ≤ CFG_MAX_THREAD)
    {cur : T} (hidle : r.pc cur = .idle) (n : Nat) :
    SemBound i semNum
      (r.ret .acoral_sem_trypend cur (some i) (acoralSemTrypend n (some i) r.st)) := by
  unfold acoralSemTrypend
  split
  · rename_i e he
    exact h.refused (Or.inl rfl) hidle (ipcPendCheck_error he)
  · rename_i j hj
    obtain ⟨hij, -⟩ := ipcPendCheck_ok hj
    obtain rfl := Option.some.inj hij
    split
    · rename_i hav
      exact h.got hcard (Or.inl rfl) hidle hav
    · exact h.refused (Or.inl rfl) hidle (by decide)

/-- `acoral_sem_pend`, first half. -/
theorem pendStep (h : SemBound i semNum r) (hcard : Fintype.card T ≤ CFG_MAX_THREAD)
    {fuel n : Nat} {cur : T} {r' : IpcRun I T} (hready : r.st.isReady cur = true)
    (hidle : r.pc cur = .idle)
    (hstep : (acoralSemPend fuel cur n (some i) r.st).map
      (r.pend .acoral_sem_pend cur (some i) .semPend) = some r') : SemBound i semNum r' := by
  obtain ⟨res, hres, rfl⟩ := Option.map_eq_some_iff.mp hstep
  unfold acoralSemPend at hres
  split at hres
  · rename_i e he
    obtain rfl := Option.some.inj hres
    exact h.refused (Or.inr rfl) hidle (ipcPendCheck_error he)
  · rename_i j hj
    obtain ⟨hij, -⟩ := ipcPendCheck_ok hj
    obtain rfl := Option.some.inj hij
    split at hres
    · rename_i hav
      obtain rfl := Option.some.inj hres
      exact h.got hcard (Or.inr rfl) hidle hav
    · exact h.block hready hidle hres

/-- `acoral_sem_post`. -/
theorem postStep (h : SemBound i semNum r) {cur : T} {r' : IpcRun I T} (hidle : r.pc cur = .idle)
    (hstep : (acoralSemPost (some i) r.st).map (r.ret .acoral_sem_post cur (some i)) = some r') :
    SemBound i semNum r' := by
  obtain ⟨res, hres, rfl⟩ := Option.map_eq_some_iff.mp hstep
  have hmin := BitVec.le_toInt (x := (r.st.ipc i).count)
  unfold acoralSemPost ipcCheck at hres
  simp only [h.type, ne_eq, not_true_eq_false, if_false] at hres
  -- the count is never below the smallest value of its type
  rw [if_pos (by simpa using hmin)] at hres
  split at hres
  · obtain rfl := Option.some.inj hres
    exact h.posted hidle _
  · obtain ⟨thread, -, rfl⟩ := Option.map_eq_some_iff.mp hres
    cases thread with
    | none => exact h.posted hidle _
    | some t => exact h.postedRdy hidle t

/-- Every step of a user of the semaphore. -/
theorem step (h : SemBound i semNum r) (hcard : Fintype.card T ≤ CFG_MAX_THREAD) {fuel : Nat}
    {op : IpcOp I T} {r' : IpcRun I T} (huse : usesSem i op = true)
    (hstep : ipcStep fuel r op = some r') : SemBound i semNum r' := by
  cases op with
  | call c cur n ipc =>
      simp only [ipcStep, Option.ite_none_right_eq_some] at hstep
      obtain ⟨⟨hready, hidle⟩, hstep⟩ := hstep
      obtain ⟨rfl, hc⟩ := of_decide_eq_true huse
      rcases hc with rfl | rfl | rfl
      · obtain rfl := Option.some.inj hstep
        exact h.trypendStep hcard hidle n
      · exact h.pendStep hcard hready hidle hstep
      · exact h.postStep hidle hstep
  | resume cur =>
      simp only [ipcStep, Option.ite_none_right_eq_some] at hstep
      obtain ⟨hready, hstep⟩ := hstep
      rcases h.pc cur with hcur | hcur
      · simp [ipcResume, hcur] at hstep
      · simp only [ipcResume, hcur] at hstep
        obtain ⟨res, hres, rfl⟩ := Option.map_eq_some_iff.mp hstep
        obtain ⟨s', hdel, rfl⟩ := Option.map_eq_some_iff.mp hres
        exact h.resumed hready hcur hdel

/-- The invariant holds of an initialised semaphore. -/
theorem start (s : IpcState I T) (i : I) (semNum : BitVec 32) :
    SemBound i semNum (IpcRun.start (acoralSemInit (some i) semNum s).2) := by
  have hlevel : semLevel i semNum (IpcRun.start (acoralSemInit (some i) semNum s).2) =
      1 - semNum.toNat := by
    simp [semLevel, IpcRun.start, acquired, posts, blocked]
  refine ⟨?_, fun t => Or.inl rfl, fun t ht => ?_, ?_, ?_⟩
  · simp [IpcRun.start, acoralSemInit, acoralIpcInit, IpcState.setIpc]
  · simp [IpcRun.start] at ht
  · rw [hlevel, ← semInit_count]
    simp [IpcRun.start, acoralSemInit, acoralIpcInit, IpcState.setIpc]
  · rw [hlevel]
    omega

end SemBound

/-- At most 60 threads that use a semaphore of any initial number of units,
in any interleaving: the calls that got a unit are at most as many as the
initial units and the posts. -/
theorem sem_bound (hcard : Fintype.card T ≤ CFG_MAX_THREAD) (fuel : Nat) (s : IpcState I T)
    (i : I) (semNum : BitVec 32) (ops : List (IpcOp I T)) (r : IpcRun I T)
    (hrun : run (guarded (fun _ op => usesSem i op) (ipcStep fuel))
      (IpcRun.start (acoralSemInit (some i) semNum s).2) ops = some r) :
    acquired r.log i ≤ semNum.toNat + posts r.log i := by
  have h : SemBound i semNum r :=
    guarded_induct (fun _ _ _ hinv huse hstep => SemBound.step hinv hcard huse hstep)
      (SemBound.start s i semNum) hrun
  have hbound := h.bound
  have hle := Finset.card_le_card (suspended_subset_blocked i r)
  unfold semLevel at hbound
  omega

/-- Two of three threads get a unit of a semaphore that started with one. -/
theorem sem_bound_threeReady :
    ∃ r, run (guarded (fun _ op => usesSem () op) (ipcStep 4))
        (IpcRun.start (acoralSemInit (some ()) 1 threeReady).2)
        [.call .acoral_sem_trypend 0 0 (some ()), .call .acoral_sem_pend 1 0 (some ()),
         .call .acoral_sem_post 0 0 (some ()), .resume 1] = some r ∧
      acquired r.log () = 2 ∧ acquired r.log () ≤ 1 + posts r.log () := by
  have hrun : (run (guarded (fun _ op => usesSem () op) (ipcStep 4))
      (IpcRun.start (acoralSemInit (some ()) 1 threeReady).2)
      [.call .acoral_sem_trypend 0 0 (some ()), .call .acoral_sem_pend 1 0 (some ()),
       .call .acoral_sem_post 0 0 (some ()), .resume 1]).map
        (fun r => acquired r.log ()) = some 2 := by decide
  obtain ⟨r, hr, hacq⟩ := Option.map_eq_some_iff.mp hrun
  exact ⟨r, hr, hacq, sem_bound (by decide) 4 threeReady () 1 _ r hr⟩

end ACoral
