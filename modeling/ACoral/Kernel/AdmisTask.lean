import ACoral.Kernel.AdmisCtl
import ACoral.Kernel.IpcObjects
import ACoral.Kernel.Thread
import Mathlib

/-!
# `ACoral.Kernel.AdmisTask`: the admission task of `admis_ctl.c`

The task walks down the queue from its end. It tries each new thread on the
CPUs in the order of their loads: it gives the thread a CPU and a priority,
changes the caches of its resources, and asks `schedule_ansys`. Then
`admis_ctl_create` makes what was tried real, or `admis_ctl_restore` takes it
back. A thread that is still new after all CPUs is removed.

`schedule_ansys` is a parameter `ansys`, a function on the tables; the one of
the source is `AdmisTables.scheduleAnsys`. The loads are of a type `F` with
the operations of `acoral_fl`, of which nothing is assumed. `R` names the
variables that a `dpcp` of a resource table points to.

The queues of the resources and their stacks are lists. `acoral_lifo_queue_del`
on a node that is in no queue takes its lock twice and does not come back;
this is `none`, and so is a read through a null pointer or past the ends of
an array or of a queue.

`AdmisLog` is what a run does beside the tables: the answers of
`schedule_ansys` that it reports, the threads it creates, what it sends to
the current CPU or to another, and the memory it frees.
-/

set_option autoImplicit false

namespace ACoral

/-- `ACORAL_MINI_PRIO`. -/
def ACORAL_MINI_PRIO : Nat := ACORAL_MAX_PRIO_NUM - 1

/-- `ACORAL_MAX_PRIO`. -/
def ACORAL_MAX_PRIO : Nat := 1

/-- `FIRST_PRIO`. -/
def FIRST_PRIO : Nat := (ACORAL_MAX_PRIO_NUM - 1 + ACORAL_MAX_PRIO + 1) / 2

/-! ### The state -/

/-- A change of a thread or a resource that exists, on the current CPU or by
`acoral_ipi_cmd_send`. -/
inductive AdmisRequest (K R : Type) where
  /-- `acoral_admis_ctl_change_prio` -/
  | changePrio (k : K) (prio : Nat)
  /-- `acoral_admis_ctl_change_res` -/
  | changeRes (r : R) (type : CeilingType) (ceiling : Nat)
  /-- `ACORAL_IPI_ADMIS_CHG_PRIO` -/
  | ipiPrio (cpu : Nat) (k : K)
  /-- `ACORAL_IPI_ADMIS_CHG_RES` -/
  | ipiRes (cpu : Nat) (r : R)

/-- What a run does beside the tables. -/
structure AdmisLog (K R : Type) where
  /-- thread, CPU, and whether it "can be added" -/
  reports : List (K × Nat × Bool)
  /-- `acoral_create_thread` -/
  created : List K
  requests : List (AdmisRequest K R)
  /-- the tables of threads that are freed -/
  freed : List K
  /-- the tables of resources that are freed, each with its thread -/
  freedRes : List (K × R)

/-- The log of a run that starts. -/
def AdmisLog.empty {K R : Type} : AdmisLog K R := ⟨[], [], [], [], []⟩

/-- The data of the admission task. -/
structure AdmisState (K R F : Type) extends AdmisTables K R where
  /-- `cpu_load[CPU_LOAD_LAST]` -/
  cpuLoadLast : Nat → F
  /-- `cpu_load[CPU_LOAD_THIS]` -/
  cpuLoadThis : Nat → F
  /-- `task_cnt` -/
  taskCnt : BitVec 8
  /-- `acoral_have_new_thread` -/
  haveNewThread : Bool
  /-- `first_thread` -/
  firstThread : Bool
  /-- `this_is_first` -/
  thisIsFirst : Bool
  /-- the variable points to a resource -/
  live : R → Bool
  /-- `stack` of each `acoral_dpcp_system`, from `head.next` on -/
  dpcpStack : CeilingType → Nat → List R
  /-- `acoral_current_cpu` -/
  currentCpu : Nat
  log : AdmisLog K R

variable {K R F : Type} [DecidableEq K] [DecidableEq R]
variable [Zero F] [Add F] [Sub F] [Div F] [NatCast F] [LT F] [DecidableLT F]

/-! ### The order of the CPUs -/

/-- The two loops of `cpu_load_list_update`; an element is a load and its CPU. -/
def cpuLoadSort (load : Nat → F) : Nat → F × Nat :=
  (List.range CFG_MAX_CPU).foldl (fun a i =>
    (List.range' 1 (CFG_MAX_CPU - 1 - i)).foldl (fun a j =>
      if (a i).1 > (a (i + j)).1 then a ∘ Equiv.swap i (i + j) else a) a) fun i => (load i, i)

/-- `cpu_load_list_update`: the new `cpu_load_list`. -/
def cpuLoadListUpdate (load : Nat → F) : List Nat :=
  (List.range CFG_MAX_CPU).map fun i => (cpuLoadSort load i).2

/-! ### Queues of resources -/

section
variable {R : Type} [DecidableEq R]

/-- The node of `r` is in a queue. -/
def lifoMem (q : CeilingType → Nat → List R) (r : R) : Bool :=
  (List.range CFG_MAX_CPU).any fun cpu => decide (r ∈ q .LOCAL cpu) || decide (r ∈ q .GLOBAL cpu)

/-- What `acoral_lifo_queue_del` leaves. The queue it is called with has no
say, as only the neighbours of the node are written. -/
def lifoDel (q : CeilingType → Nat → List R) (r : R) : CeilingType → Nat → List R :=
  fun t c => (q t c).filter (· ≠ r)

/-- What `acoral_lifo_queue_add` leaves. -/
def lifoAdd (q : CeilingType → Nat → List R) (type : CeilingType) (cpu : Nat) (r : R) :
    CeilingType → Nat → List R :=
  fun t c => if t = type ∧ c = cpu then r :: q t c else q t c

end

namespace AdmisState

variable (s : AdmisState K R F)

/-- Write the table of a thread. -/
def setCtl (k : K) (d : AdmisCtlData R) : AdmisState K R F :=
  { s with ctl := Function.update s.ctl k d }

/-- Write a resource. -/
def setDpcp (r : R) (d : AdmisDpcp) : AdmisState K R F :=
  { s with dpcp := Function.update s.dpcp r d }

/-- Add to `cpu_load[CPU_LOAD_THIS][cpu]`, by the operation `op`. -/
def addLoad (cpu : Nat) (op : F → F) : AdmisState K R F :=
  { s with cpuLoadThis := Function.update s.cpuLoadThis cpu (op (s.cpuLoadThis cpu)) }

/-! ### Resources -/

/-- `acoral_lifo_queue_del` on a queue of `acoral_dpcp_queue` of `cpu`. -/
def lifoQueueDel (cpu : Nat) (r : R) : Option (AdmisState K R F) :=
  if cpu < CFG_MAX_CPU ∧ lifoMem s.dpcpQueue r = true then
    some { s with dpcpQueue := lifoDel s.dpcpQueue r }
  else none

/-- `acoral_lifo_queue_add` on `acoral_dpcp_queue[type][cpu]`. -/
def lifoQueueAdd (type : CeilingType) (cpu : Nat) (r : R) : Option (AdmisState K R F) :=
  if cpu < CFG_MAX_CPU ∧ lifoMem s.dpcpQueue r = false then
    some { s with dpcpQueue := lifoAdd s.dpcpQueue type cpu r }
  else none

/-- `acoral_dpcp_set`, on the tables. -/
def dpcpSet (r : R) (type : CeilingType) (prioCeiling : Nat) : Option (AdmisState K R F) :=
  let d := s.dpcp r
  (if (s.dpcpStack d.type d.cpu).head? = some r ∧ d.type ≠ type then
    let s := { s with dpcpStack := lifoAdd (lifoDel s.dpcpStack r) type d.cpu r }
    (s.lifoQueueDel d.cpu r).bind fun s => s.lifoQueueAdd type d.cpu r
  else some s).map fun s => s.setDpcp r { d with type := type, prioCeiling := prioCeiling }

/-- `acoral_dpcp_del`. -/
def dpcpDel (r : R) : Option (AdmisState K R F) :=
  let s' := { s with live := Function.update s.live r false }
  if lifoMem s.dpcpStack r = false then some s'
  else if (s.dpcp r).cpu < CFG_MAX_CPU then some { s' with dpcpStack := lifoDel s.dpcpStack r }
  else none

/-! ### Trying a CPU -/

/-- `u_g_time`. -/
def uGTime (r : R) : F :=
  s.queue.reverse.foldl (fun ret k =>
    match (s.ctl k).resQueue.find? fun x => decide (x.dpcp = r) with
    | some x => ret + (x.criticalTime : F) / ((s.ctl k).periodTime : F)
    | none   => ret) 0

/-- The node before `k`. -/
def prevOf (k : K) : Option K := (s.queue.takeWhile (· ≠ k)).getLast?

/-- The node after `k`. -/
def nextOf (k : K) : Option K := (s.queue.dropWhile (· ≠ k)).tail.head?

/-- The priority between the neighbours of `k`. -/
def midPrio (k : K) : Option Nat :=
  match s.prevOf k, s.nextOf k with
  | none,      none      => none
  | none,      some next => some (( ACORAL_MAX_PRIO + 1 + (s.ctl next).prio) / 2)
  | some prev, none      => some (((s.ctl prev).prio + ACORAL_MINI_PRIO) / 2)
  | some prev, some next => some (((s.ctl prev).prio + (s.ctl next).prio) / 2)

/-- The thread `k` gets `cpu` and a priority. -/
def assign (k : K) (cpu : Nat) : Option (AdmisState K R F) :=
  let d := s.ctl k
  let s' := s.addLoad cpu (· + (d.wcet : F) / (d.periodTime : F))
  if s.firstThread = true then
    some { s'.setCtl k { d with cpu := cpu, prio := FIRST_PRIO } with
      thisIsFirst := true, firstThread := false }
  else (s.midPrio k).map fun prio => s'.setCtl k { d with cpu := cpu, prio := prio }

/-- A resource without a CPU gets `cpu`; one of another CPU becomes global. -/
def bindRes (cpu : Nat) (r : R) : Option (AdmisState K R F) :=
  let d := s.dpcp r
  if d.cpu = UNBIND_CPU then (s.setDpcp r { d with cpu := cpu }).lifoQueueAdd .LOCAL cpu r
  else if cpu ≠ d.cpu then
    let s := (s.setDpcp r { d with typeCache := .GLOBAL }).addLoad d.cpu (· + s.uGTime r)
    (s.lifoQueueDel d.cpu r).bind fun s => s.lifoQueueAdd .GLOBAL d.cpu r
  else some s

/-- The ceiling of a resource and the load follow. -/
def cacheRes (k : K) (x : AdmisResData R) : AdmisState K R F :=
  let d := s.dpcp x.dpcp
  let data := s.ctl k
  let s := s.setDpcp x.dpcp { d with
    ceilingCache := if data.prio < d.ceilingCache then data.prio else d.ceilingCache }
  if d.typeCache = .GLOBAL then
    s.addLoad data.cpu (· - (x.criticalTime : F) / (data.periodTime : F))
  else s

/-- The loop over the resources of `k`, for one of them. -/
def tryRes (k : K) (s : AdmisState K R F) (x : AdmisResData R) : Option (AdmisState K R F) :=
  if s.live x.dpcp = false then none
  else (s.bindRes (s.ctl k).cpu x.dpcp).map (cacheRes · k x)

/-! ### `admis_ctl_create` -/

/-- Record a request. -/
def request (q : AdmisRequest K R) : AdmisState K R F :=
  { s with log := { s.log with requests := s.log.requests ++ [q] } }

/-- What becomes of one resource of a thread whose priority has changed. -/
def createRes (s : AdmisState K R F) (x : AdmisResData R) : Option (AdmisState K R F) :=
  let r := x.dpcp
  if s.live r = false then none
  else
    let s := s.setDpcp r { s.dpcp r with cpuIsBind := true }
    let d := s.dpcp r
    if d.ceilingCache ≠ d.prioCeiling ∨ d.typeCache ≠ d.type then
      if d.cpu = s.currentCpu then
        (s.request (.changeRes r d.typeCache d.ceilingCache)).dpcpSet r d.typeCache d.ceilingCache
      else some (s.request (.ipiRes d.cpu r))
    else some s

/-- The loop of `admis_ctl_create`, for one thread. -/
def createThread (s : AdmisState K R F) (k : K) : Option (AdmisState K R F) :=
  let d := s.ctl k
  if d.prio = d.prioOrigin then some s
  else
    let s :=
      if d.isNew = true then
        { s.setCtl k { d with prioOrigin := d.prio, isNew := false } with
          log := { s.log with created := s.log.created ++ [k] } }
      else
        (s.setCtl k { d with prioOrigin := d.prio }).request
          (if d.cpu = s.currentCpu then .changePrio k d.prio else .ipiPrio d.cpu k)
    d.resQueue.foldlM createRes s

/-- `admis_ctl_create`. -/
def admisCtlCreate : Option (AdmisState K R F) :=
  (s.queue.reverse.foldlM createThread s).map fun s =>
    { s with cpuLoadLast := fun i => if i < CFG_MAX_CPU then s.cpuLoadThis i else s.cpuLoadLast i }

/-! ### `admis_ctl_restore` -/

/-- A resource that was not bound before loses its CPU. -/
def unbindRes (r : R) : Option (AdmisState K R F) :=
  let d := s.dpcp r
  if d.cpuIsBind = false then
    (s.lifoQueueDel d.cpu r).map fun s => s.setDpcp r { d with cpu := UNBIND_CPU }
  else some s

/-- The caches of a resource get the values that its users see. -/
def uncacheRes (r : R) : Option (AdmisState K R F) :=
  let s := s.setDpcp r { s.dpcp r with ceilingCache := (s.dpcp r).prioCeiling }
  let d := s.dpcp r
  if d.typeCache ≠ d.type then
    let s := s.setDpcp r { d with typeCache := d.type }
    (s.lifoQueueDel d.cpu r).bind fun s => s.lifoQueueAdd d.type d.cpu r
  else some s

/-- The loop over the resources of a thread, for one of them. -/
def restoreRes (s : AdmisState K R F) (x : AdmisResData R) : Option (AdmisState K R F) :=
  let r := x.dpcp
  if s.live r = false then none
  else (s.unbindRes r).bind fun s => if (s.dpcp r).bindCnt > 0 then s.uncacheRes r else some s

/-- The loop of `admis_ctl_restore`, for one thread. -/
def restoreThread (s : AdmisState K R F) (k : K) : Option (AdmisState K R F) :=
  let d := s.ctl k
  if d.prio = d.prioOrigin then some s
  else d.resQueue.foldlM restoreRes (s.setCtl k { d with prio := d.prioOrigin })

/-- `admis_ctl_restore`. -/
def admisCtlRestore : Option (AdmisState K R F) :=
  (s.queue.reverse.foldlM restoreThread s).map fun s =>
    { s with cpuLoadThis := fun i => if i < CFG_MAX_CPU then s.cpuLoadLast i else s.cpuLoadThis i }

/-! ### `acoral_admis_ctl_task` -/

/-- Report what `schedule_ansys` answered for `k` on its CPU. -/
def report (k : K) (ok : Bool) : AdmisState K R F :=
  { s with log := { s.log with reports := s.log.reports ++ [(k, (s.ctl k).cpu, ok)] } }

/-- `k` is tried on `cpu`, up to the answer of `schedule_ansys`. -/
def tryCpu (ansys : AdmisTables K R → Option (Bool × AdmisTables K R)) (k : K) (cpu : Nat) :
    Option (Bool × AdmisState K R F) :=
  (s.assign k cpu).bind fun s =>
    ((s.ctl k).resQueue.foldlM (tryRes k) s).bind fun s =>
      (ansys (s.setCtl k { s.ctl k with isNew := false }).toAdmisTables).map fun (admisOk, tables) =>
        let s := { s with toAdmisTables := tables }
        (admisOk, s.setCtl k { s.ctl k with isNew := true })

/-- `first_thread` is 1 again when the attempt had taken it. -/
def forgetFirst : AdmisState K R F :=
  if s.thisIsFirst = true then { s with thisIsFirst := false, firstThread := true } else s

/-- The loop over the CPUs. -/
def tryCpus (ansys : AdmisTables K R → Option (Bool × AdmisTables K R)) (k : K) :
    (cpus : List Nat) → AdmisState K R F → Option (AdmisState K R F)
  | [],          s => some s
  | cpu :: cpus, s =>
      (s.tryCpu ansys k cpu).bind fun (admisOk, s) =>
        if admisOk = true then
          ({ s with thisIsFirst := false }).admisCtlCreate.map (report · k true)
        else (s.forgetFirst.report k false).admisCtlRestore.bind (tryCpus ansys k cpus)

/-- A resource that no thread uses any more is deleted. -/
def deleteRes (r : R) : Option (AdmisState K R F) :=
  let d := s.dpcp r
  (if d.cpuIsBind = true then
    (s.lifoQueueDel d.cpu r).map fun s => s.setDpcp r { d with cpu := UNBIND_CPU }
  else some s).bind fun s => s.dpcpDel r

/-- One resource of a removed thread is given back. -/
def releaseRes (k : K) (s : AdmisState K R F) (x : AdmisResData R) : Option (AdmisState K R F) :=
  let r := x.dpcp
  if s.live r = false then none
  else
    let s := s.setDpcp r { s.dpcp r with bindCnt := (s.dpcp r).bindCnt - 1 }
    (if (s.dpcp r).bindCnt = 0 then s.deleteRes r else some s).map fun s =>
      { s with log := { s.log with freedRes := s.log.freedRes ++ [(k, r)] } }

/-- The new thread `k` is removed. -/
def removeThread (k : K) : Option (AdmisState K R F) :=
  ((s.ctl k).resQueue.foldlM (releaseRes k) { s with taskCnt := s.taskCnt - 1 }).map fun s =>
    { s.setCtl k { s.ctl k with resQueue := [] } with
      queue := s.queue.filter (· ≠ k)
      log := { s.log with freed := s.log.freed ++ [k] } }

/-- The turn of the new thread `k`. -/
def newThread (ansys : AdmisTables K R → Option (Bool × AdmisTables K R)) (k : K) :
    Option (AdmisState K R F) :=
  (tryCpus ansys k (cpuLoadListUpdate s.cpuLoadThis)
      { s with taskCnt := s.taskCnt + 1 }).bind fun s =>
    if (s.ctl k).isNew = true then s.removeThread k else some s

/-- The loop over the queue, from its end on. A removed node is replaced by
the one after it, so that the loop goes on with the one before it. -/
def taskLoop (ansys : AdmisTables K R → Option (Bool × AdmisTables K R)) :
    List K → AdmisState K R F → Option (AdmisState K R F)
  | [],      s => some s
  | k :: ks, s =>
      if (s.ctl k).isNew = true then (s.newThread ansys k).bind (taskLoop ansys ks)
      else taskLoop ansys ks s

/-- `acoral_admis_ctl_task`. -/
def acoralAdmisCtlTask (ansys : AdmisTables K R → Option (Bool × AdmisTables K R)) :
    Option (AdmisState K R F) :=
  let s := { s with log := .empty }
  if s.haveNewThread = true then
    (taskLoop ansys s.queue.reverse s).map fun s => { s with haveNewThread := false }
  else some s

end AdmisState

end ACoral
