import ACoral.Kernel.Ceiling
import Mathlib.Algebra.Order.Floor.Div

/-!
# `ACoral.Kernel.AdmisCtl`: the schedulability analysis of `admis_ctl.c`

The admission controller keeps a table for each periodic thread, in a queue
that is in the order of the deadlines, and caches for each resource. The
response time of a thread is found by iteration: a time is put into the
latencies that other threads and resources cause, until it comes back.

A queue is the list of its nodes from `head.next` on, and a table is named
by its pointer. The queue of busy times of a CPU is the list of its
intervals, each a start and a length. Numbers are natural numbers: nothing
here overflows 32 bits, and the quotients are exact. The two loops that
iterate a time are given `fuel` rounds, and `none` says that they have not
ended after that many.
-/

set_option autoImplicit false

namespace ACoral

/-! ### The tables -/

/-- `acoral_admis_res_data`. -/
structure AdmisResData (R : Type) where
  dpcp : R
  /-- `critical_cnt` -/
  criticalCnt : Nat
  /-- `length_max` -/
  lengthMax : Nat

/-- `critical_cnt*length_max`. -/
def AdmisResData.criticalTime {R : Type} (x : AdmisResData R) : Nat := x.criticalCnt * x.lengthMax

/-- `acoral_admis_ctl_data`. -/
structure AdmisCtlData (R : Type) where
  cpu : Nat
  /-- `dl_time` -/
  dlTime : Nat
  wcet : Nat
  wcrt : Nat
  /-- `period_time` -/
  periodTime : Nat
  /-- `res_queue` -/
  resQueue : List (AdmisResData R)
  prio : Nat
  /-- `prio_origin` -/
  prioOrigin : Nat
  /-- `is_new` -/
  isNew : Bool

/-- `acoral_dpcp_t` with the `admis_res_cache` that its `data` points to. -/
structure AdmisDpcp where
  cpu : Nat
  type : CeilingType
  /-- `prio_ceiling` -/
  prioCeiling : Nat
  /-- `cpu_is_bind` -/
  cpuIsBind : Bool
  /-- `ceiling_cache` -/
  ceilingCache : Nat
  /-- `type_cache` -/
  typeCache : CeilingType
  /-- `bind_cnt` -/
  bindCnt : Nat

/-- What the analysis reads. -/
structure AdmisTables (K R : Type) where
  /-- `acoral_admis_ctl_queue` -/
  queue : List K
  ctl : K → AdmisCtlData R
  dpcp : R → AdmisDpcp
  /-- `acoral_dpcp_queue` -/
  dpcpQueue : CeilingType → Nat → List R
  /-- `acoral_timed_time`: start and length -/
  timedTime : Nat → List (Nat × Nat)
  /-- `timed_time_sum` -/
  timedTimeSum : Nat → Nat
  /-- `acoral_timed_h_period` -/
  timedHPeriod : Nat → Nat

variable {K R : Type} [DecidableEq K] [DecidableEq R]

/-! ### Latencies -/

/-- `ceil((acoral_fl)(t + wcrt - c)/(acoral_fl)period_time)*c`: what the jobs
of a thread take of `c` within `t`. -/
def AdmisCtlData.demand (d : AdmisCtlData R) (t c : Nat) : Nat :=
  (t + d.wcrt - c) ⌈/⌉ d.periodTime * c

namespace AdmisTables

variable (s : AdmisTables K R)

/-- The loop of `latency_b_time` that counts the requests of global resources;
`global_n` is an `acoral_u8`. -/
def globalN (d : AdmisCtlData R) : Nat :=
  d.resQueue.foldl (fun n x =>
    if (s.dpcp x.dpcp).typeCache = .GLOBAL then (n + x.criticalCnt) % 256 else n) 0

/-- The loop of `latency_b_time` over the queue, from its end on. -/
def localLMax (data : AdmisCtlData R) : List K → Nat → Nat
  | [],      longest => longest
  | k :: ks, longest =>
      let d := s.ctl k
      if d.cpu = data.cpu ∧ d.prio > data.prio then
        localLMax data ks (d.resQueue.foldl (fun longest x =>
          let cache := s.dpcp x.dpcp
          if cache.typeCache = .LOCAL ∧ cache.ceilingCache < data.prio then
            if x.lengthMax > longest then x.lengthMax else longest
          else longest) longest)
      else if d.prio ≤ data.prio then longest
      else localLMax data ks longest

/-- `latency_b_time`. -/
def latencyBTime (data : K) : Nat :=
  (s.globalN (s.ctl data) + 1) * s.localLMax (s.ctl data) s.queue.reverse 0

/-- `c_ng` of `latency_ng_time`. -/
def cNg (d : AdmisCtlData R) : Nat :=
  d.resQueue.foldl (fun c x =>
    if (s.dpcp x.dpcp).typeCache = .GLOBAL then c - x.criticalTime else c) d.wcet

/-- The loop of `latency_ng_time`. -/
def latencyNgLoop (t : Nat) (data : AdmisCtlData R) : List K → Nat → Nat
  | [],      ret => ret
  | k :: ks, ret =>
      let d := s.ctl k
      if d.cpu = data.cpu ∧ d.prio < data.prio then
        latencyNgLoop t data ks (ret + d.demand t (s.cNg d))
      else if d.prio ≥ data.prio then ret
      else latencyNgLoop t data ks ret

/-- `latency_ng_time`. -/
def latencyNgTime (t : Nat) (data : K) : Nat := s.latencyNgLoop t (s.ctl data) s.queue 0

end AdmisTables

/-- `epsilon` on the intervals of a CPU. -/
def epsilon (t : Nat) : List (Nat × Nat) → Nat
  | []     => 0
  | p :: l => if p.1 < t then p.2 + epsilon t l else 0

namespace AdmisTables

variable (s : AdmisTables K R)

/-- `latency_t_time`. -/
def latencyTTime (t cpu : Nat) : Nat :=
  (s.timedTime cpu).foldl (fun latencyTMax p =>
    let latencyTTime := s.timedTimeSum cpu * ((p.1 + t) / s.timedHPeriod cpu) +
      epsilon ((p.1 + t) % s.timedHPeriod cpu) (s.timedTime cpu) - epsilon p.1 (s.timedTime cpu)
    if latencyTTime > latencyTMax then latencyTTime else latencyTMax) 0

/-- What the jobs of a thread take of the resource `r` within `t`, added to
`ret`. -/
def resDemand (t : Nat) (r : R) (d : AdmisCtlData R) (ret : Nat) : Nat :=
  d.resQueue.foldl (fun ret x => if x.dpcp = r then ret + d.demand t x.criticalTime else ret) ret

/-- The loop of `h_g_time` over the threads, for one resource. -/
def higherDemand (t : Nat) (r : R) (data : AdmisCtlData R) : List K → Nat → Nat
  | [],      ret => ret
  | k :: ks, ret =>
      let d := s.ctl k
      if d.prio < data.prio then higherDemand t r data ks (resDemand t r d ret) else ret

/-- One round of the loop of `h_g_time`. -/
def hGRound (start cpu : Nat) (data : K) (h : Nat) : Nat :=
  (s.dpcpQueue .GLOBAL cpu).foldl (fun ret r => s.higherDemand h r (s.ctl data) s.queue ret) start +
    s.latencyTTime h cpu

/-- The loop of `h_g_time`. -/
def hGLoop (start cpu : Nat) (data : K) : (fuel : Nat) → (h : Nat) → Option Nat
  | 0,        _ => none
  | fuel + 1, h =>
      let testEnd := (s.ctl data).dlTime
      if h ≤ testEnd then
        let hTemp := s.hGRound start cpu data h
        if h = hTemp then some h else hGLoop start cpu data fuel hTemp
      else some (testEnd + 100)

/-- `h_g_time`. -/
def hGTime (fuel start cpu : Nat) (data : K) : Option Nat := s.hGLoop start cpu data fuel start

end AdmisTables

/-! ### Global resources -/

/-- The variables that `latency_g_time` carries from one CPU to the next. -/
structure GlobalLatency where
  flag : Bool
  /-- `N_this` -/
  nThis : Nat
  /-- `L_this` -/
  lThis : Nat
  /-- `PD_g` -/
  pdG : Nat
  /-- `DD_g` -/
  ddG : Nat
  /-- `global_l_max` -/
  globalLMax : Nat
  ret : Nat

namespace AdmisTables

variable (s : AdmisTables K R)

/-- The branch for the CPU of the thread: what the other threads take of its
global resources. -/
def ownCpuDemand (t cpu : Nat) (data : K) (ret : Nat) : Nat :=
  (s.dpcpQueue .GLOBAL cpu).foldl (fun ret r =>
    s.queue.foldl (fun ret k => if k ≠ data then resDemand t r (s.ctl k) ret else ret) ret) ret

/-- The thread uses a global resource of the CPU. -/
def usesGlobal (cpu : Nat) (data : K) : Bool :=
  (s.dpcpQueue .GLOBAL cpu).any fun r => (s.ctl data).resQueue.any fun x => x.dpcp = r

/-- The loop that adds up `PD_g`. -/
def pdGDemand (t cpu : Nat) (data : K) (pdG : Nat) : Nat :=
  (s.dpcpQueue .GLOBAL cpu).foldl (fun pdG r =>
    s.queue.foldl (fun pdG k =>
      if k = data then
        (s.ctl k).resQueue.foldl (fun pdG x => if x.dpcp = r then pdG + x.criticalTime else pdG) pdG
      else resDemand t r (s.ctl k) pdG) pdG) pdG

/-- The loop that finds `N_this` and `L_this`; they keep their values when the
thread does not use the resource. -/
def ownUse (r : R) (data : K) (acc : GlobalLatency) : GlobalLatency :=
  (s.ctl data).resQueue.foldl (fun acc x =>
    if x.dpcp = r then { acc with nThis := x.criticalCnt, lThis := x.lengthMax } else acc) acc

/-- The loop that finds `global_l_max`. -/
def longestLower (r : R) (cpu : Nat) (data : K) (longest : Nat) : Nat :=
  (s.dpcpQueue .GLOBAL cpu).foldl (fun longest r' =>
    if (s.dpcp r').cpu = (s.dpcp r).cpu then
      s.queue.foldl (fun longest k =>
        if (s.ctl k).prio > (s.ctl data).prio then
          (s.ctl k).resQueue.foldl (fun longest x =>
            if x.dpcp = r' ∧ (s.dpcp x.dpcp).ceilingCache < (s.ctl data).prio then
              if x.lengthMax > longest then x.lengthMax else longest
            else longest) longest
        else longest) longest
    else longest) longest

/-- The loop that adds up `DD_g`; `some none` is the return from the middle
of it. -/
def ddGLoop (fuel cpu : Nat) (data : K) :
    List R → GlobalLatency → Option (Option GlobalLatency)
  | [],      acc => some (some acc)
  | r :: rs, acc =>
      let acc := s.ownUse r data acc
      let acc := { acc with globalLMax := s.longestLower r cpu data acc.globalLMax }
      (s.hGTime fuel (acc.lThis + acc.globalLMax) cpu data).bind fun hGBound =>
        if hGBound ≤ (s.ctl data).dlTime then
          ddGLoop fuel cpu data rs { acc with ddG := acc.ddG + acc.nThis * hGBound }
        else some none

/-- The loop of `latency_g_time` over the CPUs. -/
def latencyGLoop (fuel t : Nat) (data : K) : (cpus : List Nat) → GlobalLatency → Option Nat
  | [],        acc => some acc.ret
  | i :: cpus, acc =>
      if (s.ctl data).cpu = i then
        latencyGLoop fuel t data cpus { acc with ret := s.ownCpuDemand t i data acc.ret }
      else
        let acc := { acc with flag := acc.flag || s.usesGlobal i data }
        if acc.flag = false then latencyGLoop fuel t data cpus acc
        else
          let acc := { acc with pdG := s.pdGDemand t i data acc.pdG + s.latencyTTime t i }
          (s.ddGLoop fuel i data (s.dpcpQueue .GLOBAL i) acc).bind fun
            | none     => some ((s.ctl data).dlTime + 100)
            | some acc =>
                latencyGLoop fuel t data cpus
                  { acc with ret := acc.ret + if acc.pdG < acc.ddG then acc.pdG else acc.ddG }

/-- `latency_g_time`. -/
def latencyGTime (fuel t : Nat) (data : K) : Option Nat :=
  s.latencyGLoop fuel t data (List.range CFG_MAX_CPU) ⟨false, 0, 0, 0, 0, 0, 0⟩

/-! ### The response time -/

/-- The loop of `response_time`; `gFuel` is for the loops of `h_g_time`. -/
def responseLoop (gFuel : Nat) (data : K) : (fuel : Nat) → (response : Nat) → Option Nat
  | 0,        _        => none
  | fuel + 1, response =>
      let d := s.ctl data
      let testEnd := d.dlTime
      if response ≤ testEnd then
        let latencyNg := s.latencyNgTime response data
        if latencyNg > testEnd then some (testEnd + 100)
        else
          let latencyT := s.latencyTTime response d.cpu
          if latencyT > testEnd then some (testEnd + 100)
          else
            (s.latencyGTime gFuel response data).bind fun latencyG =>
              if latencyG > testEnd then some (testEnd + 100)
              else
                let responseTemp := d.wcet + latencyNg + latencyT + latencyG
                if response = responseTemp then
                  let latencyB := s.latencyBTime data
                  if latencyB > testEnd then some (testEnd + 100) else some (response + latencyB)
                else responseLoop gFuel data fuel responseTemp
      else some (testEnd + 100)

/-- `response_time`. -/
def responseTime (gFuel fuel : Nat) (data : K) : Option Nat :=
  s.responseLoop gFuel data fuel (s.ctl data).wcet

/-- The loop of `schedule_ansys`. -/
def scheduleLoop (gFuel fuel : Nat) : List K → AdmisTables K R → Option (Bool × AdmisTables K R)
  | [],      s => some (true, s)
  | k :: ks, s =>
      if (s.ctl k).isNew = false then
        (s.responseTime gFuel fuel k).bind fun responseBound =>
          if responseBound ≤ (s.ctl k).dlTime then
            scheduleLoop gFuel fuel ks
              { s with ctl := Function.update s.ctl k { s.ctl k with wcrt := responseBound } }
          else some (false, s)
      else scheduleLoop gFuel fuel ks s

/-- `schedule_ansys`. -/
def scheduleAnsys (gFuel fuel : Nat) (s : AdmisTables K R) : Option (Bool × AdmisTables K R) :=
  scheduleLoop gFuel fuel s.queue s

end AdmisTables

end ACoral
