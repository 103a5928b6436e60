import ACoral.Kernel.Critical
import ACoral.Proofs.Thread

/-!
# `ACoral.Proofs.Critical.Alone`: the two models of `ipc.c`

`ACoral.Kernel.Ipc` and `ACoral.Kernel.Thread` take an operation in one step, and
`ACoral.Kernel.CriticalCalls` takes it instruction by instruction. Where nobody else comes
between two instructions (`Prog.alone`) the instructions compute what the step does. A call
that blocks goes on behind its schedule point at once (`goOn`).

The steps ready a thread on its own CPU. So the posts of a semaphore are compared where all
threads are on the CPU of the call, and the pends where their caller is.
-/

set_option autoImplicit false

namespace ACoral.Critical

open Lib (Prog)
open Lib.Prog (alone_bind)

variable {R T : Type} (cpu : Nat) (s : CeilingState R PendQueue T)

/-! ### Threads -/

section Threads
variable [DecidableEq T]

theorem acoralRdyThread_alone (thread : T) :
    (acoralRdyThread thread : Code R T Unit).alone cpu s =
      some ((), setSched s (ACoral.acoralRdyThread cpu s.ipc.sched thread).2) := by
  simp only [acoralRdyThread, ACoral.acoralRdyThread, CeilingState.cpu]
  by_cases hsuspended : hasFlag (s.ipc.sched.thread thread).state ACORAL_THREAD_STATE_SUSPEND = false
  · simp [alone_bind, hsuspended, setSched]
  by_cases hcpu : (s.ipc.sched.thread thread).cpu = cpu
  · simp [alone_bind, hsuspended, hcpu]
  · simp [alone_bind, hsuspended, hcpu]

theorem acoralSuspendThread_alone (thread : T) :
    (acoralSuspendThread thread : Code R T Unit).alone cpu s =
      some ((), setSched s (ACoral.acoralSuspendThread cpu s.ipc.sched thread).2) := by
  simp only [acoralSuspendThread, ACoral.acoralSuspendThread, CeilingState.cpu]
  by_cases hready : hasFlag (s.ipc.sched.thread thread).state ACORAL_THREAD_STATE_READY = false
  · simp [alone_bind, hready, setSched]
  by_cases hcpu : (s.ipc.sched.thread thread).cpu = cpu
  · simp [alone_bind, hready, hcpu]
  · simp [alone_bind, hready, hcpu]

theorem acoralThreadChangePrio_alone (thread : T) (prio : Nat) :
    (acoralThreadChangePrio thread prio : Code R T Unit).alone cpu s =
      some ((), setSched s (ACoral.acoralThreadChangePrio cpu s.ipc.sched thread prio)) := by
  simp only [acoralThreadChangePrio, ACoral.acoralThreadChangePrio, CeilingState.cpu]
  by_cases hcpu : (s.ipc.sched.thread thread).cpu = cpu
  · simp [alone_bind, hcpu]
  · simp [alone_bind, hcpu]

end Threads

/-! ### Objects -/

/-- The data with other objects. -/
def setIpcState (s : CeilingState R PendQueue T) (ipc : IpcState (CeilingObj R PendQueue) T) :
    CeilingState R PendQueue T :=
  { s with ipc := ipc }

@[simp] theorem setIpcState_ipc (ipc : IpcState (CeilingObj R PendQueue) T) :
    (setIpcState s ipc).ipc = ipc := rfl

@[simp] theorem setIpcState_self : setIpcState s s.ipc = s := rfl

@[simp] theorem setIpcState_setIpcState (ipc ipc' : IpcState (CeilingObj R PendQueue) T) :
    setIpcState (setIpcState s ipc) ipc' = setIpcState s ipc' := rfl

/-- A thread of the own CPU is readied. -/
theorem acoralRdyThread_alone_own [DecidableEq T] {thread : T} (hcpu : s.cpu thread = cpu) :
    (acoralRdyThread thread : Code R T Unit).alone cpu s =
      some ((), setIpcState s (s.ipc.rdyThread thread)) := by
  subst hcpu
  exact acoralRdyThread_alone _ s thread

/-- The caller suspends itself. -/
theorem acoralSuspendThread_alone_own [DecidableEq T] {cur : T} (hcpu : s.cpu cur = cpu) :
    (acoralSuspendThread cur : Code R T Unit).alone cpu s =
      some ((), setIpcState s (s.ipc.suspendSelf cur)) := by
  subst hcpu
  exact acoralSuspendThread_alone _ s cur

section Objects
variable {cpu s} {i : CeilingObj R PendQueue}

@[simp] theorem ipcEnter_alone : (ipcEnter i : Code R T Unit).alone cpu s = some ((), s) := rfl

@[simp] theorem ipcExit_alone : (ipcExit i : Code R T Unit).alone cpu s = some ((), s) := rfl

@[simp] theorem ipcReturn_alone {A : Type} (a : A) :
    (ipcReturn i a : Code R T A).alone cpu s = some (a, s) := rfl

@[simp] theorem ipcModify_alone
    (f : IpcState (CeilingObj R PendQueue) T → IpcState (CeilingObj R PendQueue) T) :
    (ipcModify f).alone cpu s = some ((), setIpcState s (f s.ipc)) := rfl

@[simp] theorem ipcUpdate_alone
    (f : IpcState (CeilingObj R PendQueue) T → Option (IpcState (CeilingObj R PendQueue) T)) :
    (ipcUpdate f).alone cpu s = (f s.ipc).map fun ipc => ((), setIpcState s ipc) := by
  rw [ipcUpdate, Prog.alone_update, Option.map_map]
  rfl

@[simp] theorem acoralIpcHighThread_alone [DecidableEq R] :
    (acoralIpcHighThread i : Code R T (Option T)).alone cpu s =
      (ACoral.acoralIpcHighThread s.ipc i).map fun thread => (thread, s) := by
  rw [acoralIpcHighThread, alone_bind, Prog.alone_get, Option.bind_some]
  cases ACoral.acoralIpcHighThread s.ipc i with
  | none => rfl
  | some thread => rfl

/-- The checks read the objects, and the rest of the operation follows. -/
theorem ipcChecked_alone {A : Type}
    (check : IpcState (CeilingObj R PendQueue) T → Except KernelError (CeilingObj R PendQueue))
    (error : KernelError → A) (body : CeilingObj R PendQueue → Code R T A) :
    (ipcChecked check error body).alone cpu s =
      match check s.ipc with
      | .error e => some (error e, s)
      | .ok i    => (body i).alone cpu s := by
  rw [ipcChecked, alone_bind, Prog.alone_get, Option.bind_some]
  cases check s.ipc with
  | error e => rfl
  | ok i => rfl

end Objects

/-! ### The calls that do not block -/

section Calls
variable (cur : T) (n : Nat) (ipc : Option (CeilingObj R PendQueue))

theorem acoralSemGetnum_alone :
    (acoralSemGetnum ipc : Code R T Int).alone cpu s =
      some (ACoral.acoralSemGetnum ipc s.ipc, s) := by
  cases ipc with
  | none => rfl
  | some i => rfl

variable [DecidableEq R]

theorem acoralMutexTrypend_alone :
    (acoralMutexTrypend cur n ipc).alone cpu s =
      let res := ACoral.acoralMutexTrypend cur n ipc s.ipc
      some (res.1, setIpcState s res.2) := by
  rw [acoralMutexTrypend, ipcChecked_alone, ACoral.acoralMutexTrypend]
  cases ipcPendCheck .ACORAL_IPC_MUTEX n s.ipc ipc with
  | error e => rfl
  | ok i =>
      by_cases havail : (s.ipc.ipc i).count = MUTEX_AVAI
      · simp [alone_bind, havail]
      · simp [alone_bind, havail]

theorem acoralSemTrypend_alone :
    (acoralSemTrypend n ipc : Code R T KernelError).alone cpu s =
      let res := ACoral.acoralSemTrypend n ipc s.ipc
      some (res.1, setIpcState s res.2) := by
  rw [acoralSemTrypend, ipcChecked_alone, ACoral.acoralSemTrypend]
  cases ipcPendCheck .ACORAL_IPC_SEM n s.ipc ipc with
  | error e => rfl
  | ok i =>
      by_cases havail : semAvailable (s.ipc.ipc i).count = true
      · simp [alone_bind, havail]
      · simp [alone_bind, havail]

variable [DecidableEq T]

/-- The mutex is posted in the critical section, and the thread readied behind it. -/
theorem acoralMutexPost_alone :
    (acoralMutexPost cur ipc).alone cpu s =
      (ACoral.acoralMutexPost cur ipc s.ipc).bind fun (e, thread, ipc) =>
        match thread with
        | none        => some (e, setIpcState s ipc)
        | some thread =>
            some (e, setSched (setIpcState s ipc)
              (ACoral.acoralRdyThread cpu ipc.sched thread).2) := by
  rw [acoralMutexPost, ipcChecked_alone, ACoral.acoralMutexPost]
  cases ipcCheck .ACORAL_IPC_MUTEX s.ipc ipc with
  | error e => rfl
  | ok i =>
      by_cases howner : (s.ipc.ipc i).data = some cur
      · simp only [alone_bind, howner, not_true, ne_eq, if_false, Prog.alone_get, Option.bind_some,
          ipcModify_alone, ipcEnter_alone, setIpcState_ipc, setIpcState_setIpcState,
          acoralIpcHighThread_alone, Option.bind_map]
        refine Option.bind_congr fun thread _ => ?_
        cases thread with
        | none => rfl
        | some thread => simp [alone_bind, acoralRdyThread_alone]
      · simp [alone_bind, howner]

/-- A post, where all threads are on the own CPU. -/
theorem acoralSemPost_alone (hcpu : ∀ t, s.cpu t = cpu) :
    (acoralSemPost ipc : Code R T KernelError).alone cpu s =
      (ACoral.acoralSemPost ipc s.ipc).map fun (e, ipc) => (e, setIpcState s ipc) := by
  rw [acoralSemPost, ipcChecked_alone, ACoral.acoralSemPost]
  cases ipcCheck .ACORAL_IPC_SEM s.ipc ipc with
  | error e => rfl
  | ok i =>
      by_cases hrange : (s.ipc.ipc i).count.toInt ≥ -32768
      · by_cases hfree : (s.ipc.ipc i).count.toInt ≤ 1
        · simp [alone_bind, hrange, hfree]
        · simp only [alone_bind, Prog.alone_get, Option.bind_some, ipcEnter_alone, hrange, hfree,
            if_true, if_false, ipcModify_alone, acoralIpcHighThread_alone, setIpcState_ipc,
            Option.bind_map, Option.map_map]
          cases ACoral.acoralIpcHighThread (decCount s.ipc i) i with
          | none => rfl
          | some high =>
              cases high with
              | none => rfl
              | some thread =>
                  simp only [Option.bind_some, Option.map_some, Function.comp_apply, alone_bind]
                  rw [acoralRdyThread_alone_own cpu (setIpcState s (decCount s.ipc i))
                    (hcpu thread)]
                  rfl
      · simp [alone_bind, hrange]

/-- The loop of `acoral_sem_posts`. The threads stay on their CPUs. -/
theorem semRdyAll_alone (i : CeilingObj R PendQueue) (fuel : Nat)
    (tmp : IpcNode (CeilingObj R PendQueue) T) (hcpu : ∀ t, s.cpu t = cpu) :
    (semRdyAll i fuel tmp).alone cpu s =
      (ACoral.semRdyAll i fuel tmp s.ipc).map fun ipc => ((), setIpcState s ipc) := by
  induction fuel generalizing s tmp with
  | zero => rfl
  | succ fuel ih =>
      cases tmp with
      | head j =>
          by_cases hj : j = i
          · simp [semRdyAll, ACoral.semRdyAll, hj]
          · simp [semRdyAll, ACoral.semRdyAll, hj, Prog.hang]
      | pending t =>
          have hrdy := acoralRdyThread_alone_own cpu s (hcpu t)
          have hcpu' : ∀ u, (setIpcState s (s.ipc.rdyThread t)).cpu u = cpu := fun u =>
            (acoralRdyThread_attr s.ipc.sched t u).2.trans (hcpu u)
          simp only [semRdyAll, ACoral.semRdyAll, alone_bind, hrdy, Option.bind_some, Prog.alone_get]
          exact ih (setIpcState s (s.ipc.rdyThread t)) _ hcpu'

theorem acoralSemPosts_alone (fuel : Nat) (hcpu : ∀ t, s.cpu t = cpu) :
    (acoralSemPosts fuel ipc : Code R T KernelError).alone cpu s =
      (ACoral.acoralSemPosts fuel ipc s.ipc).map fun (e, ipc) => (e, setIpcState s ipc) := by
  rw [acoralSemPosts, ipcChecked_alone, ACoral.acoralSemPosts]
  cases ipcCheck .ACORAL_IPC_SEM s.ipc ipc with
  | error e => rfl
  | ok i =>
      by_cases hrange : (s.ipc.ipc i).count.toInt ≥ -32768
      · simp only [alone_bind, Prog.alone_get, Option.bind_some, ipcEnter_alone, hrange, if_true,
          ipcModify_alone, setIpcState_ipc]
        have hcpu' : ∀ t, (setIpcState s
            (if (s.ipc.ipc i).count.toInt ≤ 1 then decCount s.ipc i else s.ipc)).cpu t = cpu := by
          intro t
          split
          · exact hcpu t
          · exact hcpu t
        rw [semRdyAll_alone cpu _ i fuel _ hcpu']
        simp only [Option.bind_map, Option.map_map, setIpcState_ipc]
        exact Option.map_eq_bind.symm
      · simp [alone_bind, hrange]

/-! ### The calls that block -/

/-- The call goes on behind the schedule point as soon as it gets there. -/
def goOn (resume : CeilingObj R PendQueue → IpcState (CeilingObj R PendQueue) T →
      Option (KernelError × IpcState (CeilingObj R PendQueue) T)) :
    CallResult (CeilingObj R PendQueue) × IpcState (CeilingObj R PendQueue) T →
      Option (KernelError × CeilingState R PendQueue T)
  | (.ret e, ipc)     => some (e, setIpcState s ipc)
  | (.blocked i, ipc) => (resume i ipc).map fun (e, ipc) => (e, setIpcState s ipc)

variable (fuel : Nat)

theorem semWait_alone (hcpu : s.cpu cur = cpu) (i : CeilingObj R PendQueue) :
    (semWait fuel cur i).alone cpu s =
      (ipcBlock fuel s.ipc i cur).bind (goOn s fun _ => ACoral.acoralSemPendResume cur) := by
  simp only [semWait, alone_bind, acoralSuspendThread_alone_own cpu s hcpu, Option.bind_some,
    ipcUpdate_alone, setIpcState_ipc, ipcBlock, Option.bind_map]
  refine Option.bind_congr fun ipc _ => ?_
  simp only [Function.comp_apply, ipcExit_alone, ipcEnter_alone, Option.bind_some, goOn,
    ACoral.acoralSemPendResume, Option.map_map, setIpcState_ipc, setIpcState_setIpcState]
  cases acoralIpcWaitQueueDel ipc cur with
  | none => rfl
  | some ipc' => rfl

theorem acoralSemPends_alone (hcpu : s.cpu cur = cpu) :
    (acoralSemPends fuel cur n ipc).alone cpu s =
      (ACoral.acoralSemPends fuel cur n ipc s.ipc).bind
        (goOn s fun _ => ACoral.acoralSemPendResume cur) := by
  rw [acoralSemPends, ipcChecked_alone, ACoral.acoralSemPends]
  cases ipcPendCheck .ACORAL_IPC_SEM n s.ipc ipc with
  | error e => rfl
  | ok i =>
      by_cases havail : semAvailable (s.ipc.ipc i).count = true
      · simp [alone_bind, havail, goOn]
      · simp [alone_bind, havail, semWait_alone cpu s cur fuel hcpu]

theorem acoralSemPend_alone (hcpu : s.cpu cur = cpu) :
    (acoralSemPend fuel cur n ipc).alone cpu s =
      (ACoral.acoralSemPend fuel cur n ipc s.ipc).bind
        (goOn s fun _ => ACoral.acoralSemPendResume cur) := by
  rw [acoralSemPend, ipcChecked_alone, ACoral.acoralSemPend]
  cases ipcPendCheck .ACORAL_IPC_SEM n s.ipc ipc with
  | error e => rfl
  | ok i =>
      by_cases havail : semAvailable (s.ipc.ipc i).count = true
      · simp [alone_bind, havail, goOn]
      · simp only [alone_bind, Prog.alone_get, Option.bind_some, ipcEnter_alone, havail, if_false,
          Bool.false_eq_true]
        exact semWait_alone cpu (setIpcState s (incCount s.ipc i)) cur fuel hcpu i

theorem acoralMutexPend_alone (hcpu : s.cpu cur = cpu) :
    (acoralMutexPend fuel cur n ipc).alone cpu s =
      (ACoral.acoralMutexPend fuel cur n ipc s.ipc).bind
        (goOn s (ACoral.acoralMutexPendResume cur)) := by
  rw [acoralMutexPend, ipcChecked_alone, ACoral.acoralMutexPend]
  cases ipcPendCheck .ACORAL_IPC_MUTEX n s.ipc ipc with
  | error e => rfl
  | ok i =>
      by_cases havail : (s.ipc.ipc i).count = MUTEX_AVAI
      · simp [alone_bind, havail, goOn]
      · simp only [alone_bind, Prog.alone_get, Option.bind_some, ipcEnter_alone, havail, if_false,
          acoralSuspendThread_alone_own cpu s hcpu, ipcUpdate_alone, setIpcState_ipc, ipcBlock,
          Option.bind_map]
        refine Option.bind_congr fun ipc _ => ?_
        simp only [Function.comp_apply, ipcExit_alone, Option.bind_some, goOn,
          ACoral.acoralMutexPendResume, setIpcState_setIpcState, setIpcState_ipc]
        by_cases hdata : (ipc.ipc i).data = none
        · simp only [hdata, if_true, alone_bind, ipcUpdate_alone, setIpcState_ipc, Option.bind_map,
            Option.map_map]
          cases acoralIpcWaitQueueDel ipc cur with
          | none => rfl
          | some ipc' => rfl
        · simp [hdata]

end Calls

end ACoral.Critical
