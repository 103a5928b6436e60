import ACoral.Kernel.TimedDecode

/-!
# `ACoral.Kernel.TimedTable`: the accesses to the start times

The decoders write a table of start times, and `timed_start_time_reload` reads
it, when a thread is created and when the tick handler has taken it.
`tableAccesses` lists the places with the number of entries that are allocated.

* Threads are created by the decoders. The step of the tick handler is the one
  of `ACoral.Kernel.TimedThrd`, with any number of rounds for its loops.
-/

set_option autoImplicit false

namespace ACoral

variable {T : Type} [DecidableEq T]

/-- A place in a table that is written or read, and its entries. -/
structure TableAccess where
  place : Nat
  entries : Nat
deriving DecidableEq, Repr

def TableAccess.Inside (access : TableAccess) : Prop := access.place < access.entries

instance (access : TableAccess) : Decidable access.Inside :=
  inferInstanceAs (Decidable (_ < _))

/-! ### The tick handler -/

/-- What `timed_start_time_reload` reads. -/
def reloadAccess (data : TimedPrivateData) : TableAccess :=
  ⟨data.offset.toNat, data.startTime.length⟩

/-- What the body of the loop reads for the thread that is due. -/
def popAccesses (cpu : Nat) (d : TimedDeal T) (thread : T) : List TableAccess :=
  let data := (timedDue ((timedStop cpu d).setLast cpu thread) thread).state.privateData thread
  if data.runNum ≤ data.frequency then [reloadAccess data] else []

/-- What the loop over the queue of a CPU reads. -/
def loopAccesses (cpu : Nat) :
    (fuel : Nat) → TimedDeal T → List (T × Int) → (tmp : Option T) → List TableAccess
  | 0,        _, _,     _      => []
  | _ + 1,    _, _,     none   => []
  | fuel + 1, d, queue, some t =>
      if nodeValue queue t > 0 then []
      else
        popAccesses cpu d t ++ (timedPop cpu d t).elim [] fun (d, rearm) =>
          loopAccesses cpu fuel d (timedRequeue queue t rearm) (nodeNext queue t)

/-- `timed_time_deal` for one CPU, with `fuel` rounds. -/
def timedCpuDealIn (fuel : Nat) (d : TimedDeal T) (cpu : Nat) : Option (TimedDeal T) :=
  let queue := tickCountDown (d.state.timedTimeQueue cpu)
  (timedPopLoop cpu fuel d queue (queue.head?.map Prod.fst)).map fun (d, queue) =>
    { d with
      state := { d.state with
        timedTimeQueue := Function.update d.state.timedTimeQueue cpu queue } }

/-- What `timed_time_deal` reads for some CPUs. -/
def cpusAccesses (fuel : Nat) : List Nat → TimedDeal T → List TableAccess
  | [],          _ => []
  | cpu :: cpus, d =>
      let queue := tickCountDown (d.state.timedTimeQueue cpu)
      loopAccesses cpu fuel d queue (queue.head?.map Prod.fst) ++
        (timedCpuDealIn fuel d cpu).elim [] (cpusAccesses fuel cpus)

/-! ### Steps -/

/-- A step of the system. -/
inductive TableOp (T : Type) where
  /-- `timed_decode_without_fs` for one thread -/
  | decodeWithoutFs (thread : T) (cfg : TimedThreadConfig) (memory : Nat → BitVec 32)
  /-- `timed_decode` for one thread -/
  | decode (thread : T) (file : TimedFileThread) (memory : Nat → BitVec 32)
  /-- `timed_time_deal`, with `fuel` rounds for each queue -/
  | tick (fuel : Nat)
  /-- the threads and the scheduler go on -/
  | env (sched : Sched T) (ipc : T → Option TimedWait) (runningThread : Nat → T)

def tableStep (x : TimedState T) : TableOp T → Option (TimedState T)
  | .decodeWithoutFs thread cfg memory =>
      timedStep x (.create thread (configPolicyData cfg memory))
  | .decode thread file memory         => timedStep x (.create thread (filePolicyData file memory))
  | .tick fuel                         =>
      ((List.range CFG_MAX_CPU).foldlM (timedCpuDealIn fuel) ⟨x, false, []⟩).map fun d =>
        { d.state with now := x.now + 1, log := (x.now + 1, d.events) :: x.log }
  | .env sched ipc runningThread       => timedStep x (.env sched ipc runningThread)

/-- What a decoder writes, and what the creation reads after it. -/
def decodeAccesses (table : StartTable) (policyData : TimedPolicyData) : List TableAccess :=
  table.written.map
      (fun i => ⟨i, (startTimeCnt policyData.frequency policyData.sectionNum).toNat⟩) ++
    [reloadAccess
      { startTime := policyData.startTime
        sectionNum := policyData.sectionNum
        frequency := policyData.frequency
        sectn := 1
        runNum := 1 }]

/-- The accesses of a step. -/
def tableAccesses (x : TimedState T) : TableOp T → List TableAccess
  | .decodeWithoutFs _ cfg memory =>
      decodeAccesses (startTable cfg memory cfg.frequency.toNat) (configPolicyData cfg memory)
  | .decode _ file memory         =>
      decodeAccesses (fileStartTable file memory file.frequency.toNat) (filePolicyData file memory)
  | .tick fuel                    => cpusAccesses fuel (List.range CFG_MAX_CPU) ⟨x, false, []⟩
  | .env _ _ _                    => []

end ACoral
