import ACoral.Kernel.IpcObjects
import ACoral.Kernel.TimedThrd

/-!
# `ACoral.Kernel.ThreadCreate`: creating threads

`create_thread_by_policy` takes a control block from the pools of
`acoral_thread_pool_ctrl` and passes it to the policy. The policies take memory
for their private data, the timed one also a table of semaphores, and
`acoral_thread_init` takes the stack, if the caller gives none.

* A thread is the address of its control block. Its `private_data` and the
  table `ipc` are named by the addresses that `acoral_vol_malloc` returned.
* The answers of the allocators are the argument `Answers`. What they have handed
  out is the state: `volHeld` the blocks of `acoral_vol_malloc`, `heapHeld` the
  stacks from `acoral_malloc`. The other blocks of `acoral_malloc` are the pools'.
* An error code is `Except.error`, and `none` a call that does not return or
  writes through `NULL`. Nobody else runs meanwhile.
* `CFG_TRACE_THREADS_SWITCH_ENABLE` is not set. The functions of the thread, its
  name, its hooks and its console are left out.
-/

set_option autoImplicit false

namespace ACoral.Creation

/-! ### The arguments -/

/-- `acoral_comm_policy_data_t` -/
structure CommPolicyData where
  cpu : BitVec 32
  prio : BitVec 8

/-- `acoral_period_policy_data_t` -/
structure PeriodPolicyData where
  cpu : BitVec 32
  prio : BitVec 8
  time : BitVec 32

/-- `p_data`, as each policy reads it. -/
structure PolicyData where
  comm : CommPolicyData
  period : PeriodPolicyData
  timed : TimedPolicyData

/-- The arguments of `create_thread_by_policy`. -/
structure CreateCall where
  stackSize : BitVec 32
  /-- `stack`, `none` for `NULL` -/
  stack : Option Nat
  policyType : BitVec 32
  pData : PolicyData

/-- What the allocators answer, where they are asked. -/
structure Answers where
  /-- `acoral_malloc`, for another pool of control blocks -/
  threadPool : Option Nat
  /-- `acoral_vol_malloc`, for `private_data` -/
  privateData : Option Nat
  /-- `acoral_vol_malloc`, for `private_data->ipc` -/
  ipcTable : Option Nat
  /-- `acoral_malloc`, for another pool of semaphores -/
  ipcPool : Nat → Option Nat
  /-- `acoral_malloc`, for the stack -/
  stack : Option Nat

/-- The registered policies. -/
inductive SchedPolicy where
  | comm
  | period
  | timed
deriving DecidableEq, Repr

/-- `policy_ctrl->type` -/
def SchedPolicy.type : SchedPolicy → BitVec 8
  | .comm   => 21
  | .period => 22
  | .timed  => 23

/-- `acoral_get_policy_ctrl`, on the queue that `acoral_sched_policy_init` leaves. -/
def acoralGetPolicyCtrl (type : BitVec 8) : Option SchedPolicy :=
  [SchedPolicy.comm, .period, .timed].find? fun policy => policy.type = type

/-! ### The state -/

/-- The fields of a control block that its creation reads and writes, beside those of
the scheduler. -/
structure NewThread where
  stackSize : BitVec 32
  /-- `stack_buttom` -/
  stackButtom : Option Nat
  policy : BitVec 8
  privateData : Option Nat
  time : BitVec 32

/-- What a creation reads and writes. -/
structure CreateState where
  /-- the pools, the semaphores and the scheduler -/
  objs : IpcObjects Nat
  heapHeld : List Nat
  volHeld : List Nat
  thread : Nat → NewThread
  /-- `time` of a periodic thread's private data -/
  periodTime : Nat → BitVec 32
  /-- the private data of a timed thread -/
  timedData : Nat → TimedPrivateData
  /-- `private_data->ipc`, the address and the semaphores -/
  ipcTable : Nat → Option Nat × List (Option Nat)
  /-- `acoral_threads_queue` -/
  threadsQueue : List Nat
  /-- `period_time_queue` -/
  periodTimeQueue : List (Nat × Int)
  /-- `timed_time_queue` -/
  timedTimeQueue : Nat → List (Nat × Int)

namespace CreateState

/-- `acoral_thread_pool_ctrl` and `acoral_ipc_pool_ctrl` with their pools. -/
def pools (s : CreateState) : ResPools KernelPool := s.objs.pools

def setPools (s : CreateState) (pools : ResPools KernelPool) : CreateState :=
  { s with objs := { s.objs with pools := pools } }

def setThread (s : CreateState) (thread : Nat) (t : NewThread) : CreateState :=
  { s with thread := Function.update s.thread thread t }

/-- Write the fields of the scheduler. -/
def setTcb (s : CreateState) (thread : Nat) (t : Tcb) : CreateState :=
  { s with
    objs := { s.objs with
      ipc := { s.objs.ipc with
        sched := { s.objs.ipc.sched with
          thread := Function.update s.objs.ipc.sched.thread thread t } } } }

def tcb (s : CreateState) (thread : Nat) : Tcb := s.objs.ipc.sched.thread thread

end CreateState

/-- What a call returns, with the state it leaves. -/
abbrev Outcome : Type := Option (Except KernelError (BitVec 32) × CreateState)

/-! ### `thread.c` -/

/-- `acoral_alloc_thread`. The first word of the control block is its id. -/
def acoralAllocThread (s : CreateState) (malloc : Option Nat) :
    Option (CreateState × Option Nat) :=
  (acoralGetRes s.pools .acoral_thread_pool_ctrl malloc).map fun
    | (pools, none)        => (s.setPools pools, none)
    | (pools, some thread) =>
        ((s.setPools pools).setTcb thread { s.tcb thread with resId := pools.word thread },
          some thread)

/-- `acoral_release_res((acoral_res_t *)thread)`, and the error that is returned. -/
def releaseThread (s : CreateState) (thread : Nat) (err : KernelError) : Outcome :=
  (acoralReleaseRes s.pools thread).map fun pools => (.error err, s.setPools pools)

def ACORAL_MIN_STACK_SIZE : BitVec 32 := 128

/-- `ACORAL_TIMED_PRIO`, which is `ACORAL_MAX_PRIO`. -/
def ACORAL_TIMED_PRIO : Nat := 1

/-- The part of `acoral_thread_init` behind the stack. -/
def initThread (s : CreateState) (thread : Nat) : CreateState :=
  let t := s.tcb thread
  let s := s.setTcb thread
    { t with state := ACORAL_THREAD_STATE_SUSPEND, cpu := min t.cpu (CFG_MAX_CPU - 1) }
  let s := s.setThread thread { s.thread thread with time := 0 }
  { s with
    objs := { s.objs with
      ipc := { s.objs.ipc with
        links := acoralListInit s.objs.ipc.links (.pending thread)
        pendingValue := Function.update s.objs.ipc.pendingValue thread (t.prio : Int)
        threadIpc := Function.update s.objs.ipc.threadIpc thread none } }
    threadsQueue := s.threadsQueue ++ [thread] }

/-- `acoral_thread_init`. -/
def acoralThreadInit (s : CreateState) (thread : Nat) (malloc : Option Nat) :
    KernelError × CreateState :=
  let t := s.thread thread
  match t.stackButtom with
  | some _ => (.KR_OK, initThread s thread)
  | none   =>
      let stackSize := if t.stackSize < ACORAL_MIN_STACK_SIZE then ACORAL_MIN_STACK_SIZE else t.stackSize
      match malloc with
      | none       => (.KR_THREAD_ERR_NO_STACK, s)
      | some stack =>
          let s := s.setThread thread { t with stackButtom := some stack, stackSize := stackSize }
          (.KR_OK, initThread { s with heapHeld := stack :: s.heapHeld } thread)

/-- `acoral_rdy_thread` and the id of the thread. -/
def rdyNewThread (s : CreateState) (thread : Nat) : Except KernelError (BitVec 32) × CreateState :=
  (.ok (s.tcb thread).resId,
    { s with objs := { s.objs with ipc := s.objs.ipc.rdyThread thread } })

/-- `acoral_thread_init` in a policy. When it fails, the control block is released and
the error returned; else the policy goes on. -/
def initOrRelease (s : CreateState) (thread : Nat) (malloc : Option Nat)
    (next : CreateState → Outcome) : Outcome :=
  match acoralThreadInit s thread malloc with
  | (.KR_OK, s) => next s
  | (err, s)    => releaseThread s thread err

/-! ### The policies -/

/-- `comm_policy_thread_init` -/
def commPolicyThreadInit (s : CreateState) (thread : Nat) (pData : CommPolicyData) (a : Answers) :
    Outcome :=
  let s := s.setTcb thread
    { s.tcb thread with cpu := pData.cpu.toNat, prio := pData.prio.toNat }
  initOrRelease s thread a.stack fun s => some (rdyNewThread s thread)

/-- `period_policy_thread_init` -/
def periodPolicyThreadInit (s : CreateState) (thread : Nat) (pData : PeriodPolicyData) (a : Answers) :
    Outcome :=
  let s := s.setTcb thread
    { s.tcb thread with cpu := pData.cpu.toNat, prio := pData.prio.toNat }
  match a.privateData with
  | none             => releaseThread s thread .KR_MEM_ERR_MALLOC
  | some privateData =>
      let s := { s with
        volHeld := privateData :: s.volHeld
        periodTime := Function.update s.periodTime privateData pData.time }
      let s := s.setThread thread { s.thread thread with privateData := some privateData }
      initOrRelease s thread a.stack fun s =>
        -- period_thread_reload
        let time := timeToTicks pData.time
        let s := s.setThread thread { s.thread thread with time := time }
        some (rdyNewThread
          { s with periodTimeQueue := acoralTickQueueAdd s.periodTimeQueue thread time.toInt } thread)

/-- The loop of `timed_policy_thread_init` over the semaphores, from `i` on. -/
def createSems (malloc : Nat → Option Nat) :
    (left i : Nat) → IpcObjects Nat → Option (IpcObjects Nat × List (Option Nat))
  | 0,        _, objs => some (objs, [])
  | left + 1, i, objs =>
      (acoralSemCreate 0 (malloc i) objs).bind fun (objs, sem) =>
        (createSems malloc left (i + 1) objs).map fun (objs, sems) => (objs, sem :: sems)

/-- The loop with what it writes. It does not test the table, and with a semaphore to
write it does not get past `NULL`. -/
def fillIpcTable (s : CreateState) (privateData : Nat) (sectionNum : Nat) (a : Answers) :
    Option CreateState :=
  if a.ipcTable = none ∧ 0 < sectionNum then none
  else
    (createSems a.ipcPool sectionNum 0 s.objs).map fun (objs, sems) =>
      { s with
        objs := objs
        volHeld := a.ipcTable.toList ++ s.volHeld
        ipcTable := Function.update s.ipcTable privateData (a.ipcTable, sems) }

/-- `timed_policy_thread_init` -/
def timedPolicyThreadInit (s : CreateState) (thread : Nat) (pData : TimedPolicyData) (a : Answers) :
    Outcome :=
  let s := s.setTcb thread { s.tcb thread with cpu := pData.cpu, prio := ACORAL_TIMED_PRIO }
  match a.privateData with
  | none             => releaseThread s thread .KR_MEM_ERR_MALLOC
  | some privateData =>
      let data : TimedPrivateData :=
        { startTime := pData.startTime
          sectionNum := pData.sectionNum
          frequency := pData.frequency
          sectn := 1
          runNum := 1 }
      let s := { s with
        volHeld := privateData :: s.volHeld
        timedData := Function.update s.timedData privateData data }
      (fillIpcTable s privateData pData.sectionNum.toNat a).bind fun s =>
        let s := s.setThread thread { s.thread thread with privateData := some privateData }
        initOrRelease s thread a.stack fun s =>
          (timedStartTimeReload data (s.thread thread).time).map fun (time, tick) =>
            let s := s.setThread thread { s.thread thread with time := time }
            let cpu := (s.tcb thread).cpu
            rdyNewThread
              { s with
                timedTimeQueue := Function.update s.timedTimeQueue cpu
                  (acoralTickQueueAdd (s.timedTimeQueue cpu) thread tick) } thread

/-! ### `policy.c` -/

/-- `acoral_policy_thread_init` -/
def acoralPolicyThreadInit (s : CreateState) (thread : Nat) (call : CreateCall) (a : Answers) :
    Outcome :=
  match acoralGetPolicyCtrl (call.policyType.setWidth 8) with
  | none         => releaseThread s thread .KR_POLICY_ERR_NULL
  | some .comm   => commPolicyThreadInit s thread call.pData.comm a
  | some .period => periodPolicyThreadInit s thread call.pData.period a
  | some .timed  => timedPolicyThreadInit s thread call.pData.timed a

/-- `create_thread_by_policy` -/
def createThreadByPolicy (s : CreateState) (call : CreateCall) (a : Answers) : Outcome :=
  (acoralAllocThread s a.threadPool).bind fun
    | (s, none)        => some (.error .KR_POLICY_ERR_THREAD, s)
    | (s, some thread) =>
        let s := s.setThread thread
          { s.thread thread with
            stackSize := call.stackSize &&& ~~~3#32
            stackButtom := call.stack
            policy := call.policyType.setWidth 8 }
        acoralPolicyThreadInit s thread call a

end ACoral.Creation
