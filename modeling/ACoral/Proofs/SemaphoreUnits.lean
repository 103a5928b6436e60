import ACoral.Proofs.Mutex
import ACoral.Proofs.Semaphore

/-!
# `ACoral.Proofs.SemaphoreUnits`: available, and how many units

`acoral_sem_getnum` reads all of the count, the pend operations test its low
byte. The two agree as long as the units fit that byte, and again at every
round of 256 of them (`UnitsInByte`).

* `semAvailable_iff`, `semAvailable_sub_one`: the test, and the test after a
  post, as arithmetic on the units.
* `semConsistent_iff`: the operations agree on one state of a semaphore
  exactly when its units fit.
* `semUnits_run`: the same in every state of every run.
-/

set_option autoImplicit false

namespace ACoral

open Lib (run run_induct)

variable {I T : Type} [DecidableEq I] [DecidableEq T]

/-- The operations agree on whether `i` is available: each of the three pends
goes on exactly when `acoral_sem_getnum` reports a unit, and a post to a
semaphore that is available leaves it so. -/
structure SemConsistent (i : I) (s : IpcState I T) : Prop where
  trypend : (acoralSemTrypend 0 (some i) s).1 = .KR_OK ↔ 1 ≤ acoralSemGetnum (some i) s
  pend : ∀ fuel cur, (∃ s', acoralSemPend fuel cur 0 (some i) s = some (.ret .KR_OK, s')) ↔
    1 ≤ acoralSemGetnum (some i) s
  pends : ∀ fuel cur, (∃ s', acoralSemPends fuel cur 0 (some i) s = some (.ret .KR_OK, s')) ↔
    1 ≤ acoralSemGetnum (some i) s
  post : (acoralSemTrypend 0 (some i) s).1 = .KR_OK → ∃ s',
    acoralSemPost (some i) s = some (.KR_OK, s') ∧ (acoralSemTrypend 0 (some i) s').1 = .KR_OK

/-- The units beyond the first one, or else the waiters beyond the first one,
fit the low byte of the count up to a multiple of 256. -/
def UnitsInByte (units : Int) : Prop :=
  if 1 ≤ units then (units - 1) % 256 < 128 else -units % 256 < 127

/-! ### The test of the low byte -/

/-- The low byte of a count, read as signed. -/
theorem toInt_lowByte (count : BitVec 16) :
    (count.setWidth 8).toInt = (count.toInt + 128) % 256 - 128 := by
  have hlt := count.isLt
  rw [BitVec.toInt_eq_toNat_bmod, BitVec.toInt_eq_toNat_bmod, BitVec.toNat_setWidth,
    Int.bmod_eq_emod, Int.bmod_eq_emod]
  split <;> split <;> omega

/-- The test of the pend operations. -/
theorem semAvailable_iff (count : BitVec 16) :
    semAvailable count = true ↔ -count.toInt % 256 ≤ 128 := by
  unfold semAvailable
  rw [decide_eq_true_eq, toInt_lowByte]
  omega

/-- The test after one more post. -/
theorem semAvailable_sub_one (count : BitVec 16) :
    semAvailable (count - 1) = true ↔ (1 - count.toInt) % 256 ≤ 128 := by
  have hlt := count.isLt
  rw [semAvailable_iff, BitVec.toInt_sub, show (1 : BitVec 16).toInt = 1 by rfl,
    Int.bmod_eq_emod]
  split <;> omega

/-! ### The operations on one state -/

omit [DecidableEq T] in
/-- What the three pends test. -/
theorem semTrypend_ok_iff {i : I} {s : IpcState I T} (htype : (s.ipc i).type = .ACORAL_IPC_SEM) :
    (acoralSemTrypend 0 (some i) s).1 = .KR_OK ↔ semAvailable (s.ipc i).count = true := by
  cases hav : semAvailable (s.ipc i).count <;>
    simp [acoralSemTrypend, ipcPendCheck, ipcCheck, htype, hav]

theorem semPend_ok_iff {i : I} {s : IpcState I T} (htype : (s.ipc i).type = .ACORAL_IPC_SEM)
    (fuel : Nat) (cur : T) :
    (∃ s', acoralSemPend fuel cur 0 (some i) s = some (.ret .KR_OK, s')) ↔
      semAvailable (s.ipc i).count = true := by
  cases hav : semAvailable (s.ipc i).count <;>
    simp [acoralSemPend, ipcPendCheck, ipcCheck, htype, hav, ipcBlock]

theorem semPends_ok_iff {i : I} {s : IpcState I T} (htype : (s.ipc i).type = .ACORAL_IPC_SEM)
    (fuel : Nat) (cur : T) :
    (∃ s', acoralSemPends fuel cur 0 (some i) s = some (.ret .KR_OK, s')) ↔
      semAvailable (s.ipc i).count = true := by
  cases hav : semAvailable (s.ipc i).count <;>
    simp [acoralSemPends, ipcPendCheck, ipcCheck, htype, hav, ipcBlock]

/-- A post to a semaphore that nobody waits for takes one from the count. -/
theorem semPost_eq {i : I} {s : IpcState I T} (htype : (s.ipc i).type = .ACORAL_IPC_SEM)
    (hcount : (s.ipc i).count.toInt ≤ 1) :
    acoralSemPost (some i) s = some (.KR_OK, decCount s i) := by
  have hlow : -32768 ≤ (s.ipc i).count.toInt := BitVec.le_toInt _
  simp [acoralSemPost, ipcCheck, htype, hcount, hlow]

omit [DecidableEq T] in
/-- The test after that post. -/
theorem semTrypend_decCount {i : I} {s : IpcState I T} (htype : (s.ipc i).type = .ACORAL_IPC_SEM) :
    (acoralSemTrypend 0 (some i) (decCount s i)).1 = .KR_OK ↔
      (1 - (s.ipc i).count.toInt) % 256 ≤ 128 := by
  have htype' : ((decCount s i).ipc i).type = .ACORAL_IPC_SEM := by
    simpa [decCount, IpcState.setIpc] using htype
  have hcount : ((decCount s i).ipc i).count = (s.ipc i).count - 1 := by
    simp [decCount, IpcState.setIpc]
  rw [semTrypend_ok_iff htype', hcount, semAvailable_sub_one]

/-- The operations agree on a semaphore exactly when its units fit. -/
theorem semConsistent_iff {i : I} {s : IpcState I T} (htype : (s.ipc i).type = .ACORAL_IPC_SEM) :
    SemConsistent i s ↔ UnitsInByte (acoralSemGetnum (some i) s) := by
  have hunits : acoralSemGetnum (some i) s = 1 - (s.ipc i).count.toInt := rfl
  have htest := semAvailable_iff (s.ipc i).count
  constructor
  · intro h
    have hagree := htest.symm.trans ((semTrypend_ok_iff htype).symm.trans h.trypend)
    unfold UnitsInByte
    split
    case isTrue hpos =>
        -- a post to the lower end of the byte comes out at its upper end
        obtain ⟨s', hpost, hav⟩ := h.post (h.trypend.mpr hpos)
        rw [semPost_eq htype (by omega)] at hpost
        obtain rfl := congrArg Prod.snd (Option.some.inj hpost)
        have hnext := (semTrypend_decCount htype).mp hav
        omega
    case isFalse hneg => omega
  · intro h
    have hagree : semAvailable (s.ipc i).count = true ↔ 1 ≤ acoralSemGetnum (some i) s := by
      rw [htest]
      unfold UnitsInByte at h
      split at h <;> omega
    refine ⟨(semTrypend_ok_iff htype).trans hagree,
      fun fuel cur => (semPend_ok_iff htype fuel cur).trans hagree,
      fun fuel cur => (semPends_ok_iff htype fuel cur).trans hagree, ?_⟩
    intro hok
    have hpos := hagree.mp ((semTrypend_ok_iff htype).mp hok)
    refine ⟨_, semPost_eq htype (by omega), (semTrypend_decCount htype).mpr ?_⟩
    unfold UnitsInByte at h
    rw [if_pos hpos] at h
    omega

/-! ### Runs -/

/-- No step changes the type of an object. -/
theorem MutexEffect.type_eq {r r' : IpcRun I T} (h : MutexEffect r r') (i : I) :
    (r'.st.ipc i).type = (r.st.ipc i).type := by
  cases h with
  | keep hipc hlog => exact (hipc i).1
  | take t j hfree hipc hlog =>
      rw [hipc]
      by_cases hij : i = j <;> simp [takeMutex, IpcState.setIpc, hij]
  | release t j howner hipc hlog =>
      rw [hipc]
      by_cases hij : i = j <;> simp [hij]

/-- For every number of units that a semaphore starts with, the operations
agree on it in a state of a run exactly when its units fit there. -/
theorem semUnits_run (fuel : Nat) (s : IpcState I T) (i : I) (semNum : BitVec 32)
    (ops : List (IpcOp I T)) (r : IpcRun I T)
    (hrun : run (ipcStep fuel) (IpcRun.start (acoralSemInit (some i) semNum s).2) ops = some r) :
    SemConsistent i r.st ↔ UnitsInByte (acoralSemGetnum (some i) r.st) := by
  have hstart : ((IpcRun.start (acoralSemInit (some i) semNum s).2).st.ipc i).type =
      .ACORAL_IPC_SEM := by
    simp [IpcRun.start, acoralSemInit, acoralIpcInit, IpcState.setIpc]
  have htype : (r.st.ipc i).type = .ACORAL_IPC_SEM := by
    refine run_induct (P := fun r => (r.st.ipc i).type = .ACORAL_IPC_SEM) ?_ hstart hrun
    intro r op r' htype hstep
    exact ((ipcStep_mutexEffect hstep).type_eq i).trans htype
  exact semConsistent_iff htype

/-- Three units, one of them taken. -/
theorem semUnits_run_threeReady :
    ∃ r, run (ipcStep 4) (IpcRun.start (acoralSemInit (some ()) 3 threeReady).2)
        [.call .acoral_sem_pend 0 0 (some ())] = some r ∧ acoralSemGetnum (some ()) r.st = 2 ∧
      (SemConsistent () r.st ↔ UnitsInByte (acoralSemGetnum (some ()) r.st)) := by
  have hrun : (run (ipcStep 4) (IpcRun.start (acoralSemInit (some ()) 3 threeReady).2)
      [.call .acoral_sem_pend 0 0 (some ())]).map (fun r => acoralSemGetnum (some ()) r.st) =
        some 2 := by decide
  obtain ⟨r, hr, hunits⟩ := Option.map_eq_some_iff.mp hrun
  exact ⟨r, hr, hunits, semUnits_run 4 threeReady () 3 _ r hr⟩

/-- The post that takes 129 units away. It is reported, and the next
`acoral_sem_trypend` times out. -/
theorem sem_postUnavailable :
    (run (ipcStep 4) (IpcRun.start (acoralSemInit (some ()) 129 threeReady).2)
      []).map (fun r => (acoralSemGetnum (some ()) r.st, (acoralSemTrypend 0 (some ()) r.st).1)) =
        some (129, .KR_OK) ∧
    (run (ipcStep 4) (IpcRun.start (acoralSemInit (some ()) 129 threeReady).2)
      [.call .acoral_sem_post 0 0 (some ())]).map
        (fun r => (acoralSemGetnum (some ()) r.st, (acoralSemTrypend 0 (some ()) r.st).1)) =
        some (130, .KR_IPC_ERR_TIMEOUT) := by
  decide

end ACoral
