import ACoral.Kernel.PeriodThrd
import ACoral.Lib.GuardedRun
import ACoral.Proofs.TickQueue

/-!
# `ACoral.Proofs.PeriodThrd`: periodic threads are released exactly

`period_exact`: each tick pops, and adds again, the threads whose age in ticks
is a positive multiple of their period, each of them once. The invariant is
that a thread expires when the rest of its period is over
(`PeriodInv.expiry`); it is kept because re-adding a popped thread changes no
other expiry.
-/

set_option autoImplicit false

namespace ACoral

open Lib (keys expiry Ordered run)

variable {T : Type} [DecidableEq T] {x y : PeriodState T}

/-! ### Ticks and queues -/

/-- The ticks of a time are far from the sign bit of an `acoral_32`. -/
theorem timeToTicks_lt (time : BitVec 32) : (timeToTicks time).toNat < 2 ^ 31 := by
  have hlt := (time * BitVec.ofNat 32 CFG_TICKS_PER_SEC).isLt
  show (_ / _ : BitVec 32).toNat < _
  rw [BitVec.toNat_udiv]
  refine lt_of_le_of_lt (Nat.div_le_div_right hlt.le) (by decide)

theorem toInt_timeToTicks (time : BitVec 32) :
    (timeToTicks time).toInt = (timeToTicks time).toNat := by
  have hlt := timeToTicks_lt time
  exact BitVec.toInt_eq_toNat_of_lt (by omega)

theorem foldl_rdyThread_periodTimeQueue (popped : List T) (s : TimerState T) :
    (popped.foldl TimerState.rdyThread s).periodTimeQueue = s.periodTimeQueue := by
  induction popped generalizing s with
  | nil => rfl
  | cons t popped ih => exact ih _

theorem foldl_rdyThread_timeDelayQueue (popped : List T) (s : TimerState T) :
    (popped.foldl TimerState.rdyThread s).timeDelayQueue = s.timeDelayQueue := by
  induction popped generalizing s with
  | nil => rfl
  | cons t popped ih => exact ih _

/-- The period of a thread in ticks. -/
def PeriodState.period (x : PeriodState T) (t : T) : Nat := (timeToTicks (x.time t)).toNat

/-- The ticks until a period that began at `created` is over. -/
def ticksLeft (period created now : Nat) : Nat := period - (now - created) % period

/-- The remainder goes up by one, or around. -/
theorem succ_mod {p : Nat} (hp : 0 < p) (a : Nat) :
    (a % p + 1 = p ∧ (a + 1) % p = 0) ∨ (a % p + 1 < p ∧ (a + 1) % p = a % p + 1) := by
  have hdiv := Nat.div_add_mod a p
  have hlt := Nat.mod_lt a hp
  rcases Nat.lt_or_eq_of_le (Nat.succ_le_of_lt hlt) with hless | heq
  · have hsplit : a + 1 = (a % p + 1) + p * (a / p) := by omega
    refine Or.inr ⟨hless, ?_⟩
    rw [hsplit, Nat.add_mul_mod_self_left, Nat.mod_eq_of_lt hless]
  · have heq : a % p + 1 = p := heq
    have hsplit : a + 1 = p + p * (a / p) := by omega
    refine Or.inl ⟨heq, ?_⟩
    rw [hsplit, Nat.add_mul_mod_self_left, Nat.mod_self]

theorem ticksLeft_pos {period created now : Nat} (hperiod : 0 < period) :
    0 < ticksLeft period created now := Nat.sub_pos_of_lt (Nat.mod_lt _ hperiod)

/-- The last tick of a period is the one that leaves a multiple of it. -/
theorem ticksLeft_eq_one_iff {period created now : Nat} (hperiod : 0 < period)
    (hle : created ≤ now) : ticksLeft period created now = 1 ↔ period ∣ now + 1 - created := by
  unfold ticksLeft
  rw [Nat.sub_add_comm hle, Nat.dvd_iff_mod_eq_zero]
  rcases succ_mod hperiod (now - created) with ⟨hlast, hzero⟩ | ⟨hless, hsucc⟩ <;> omega

/-- The next period begins there, and elsewhere a tick passes. -/
theorem ticksLeft_succ {period created now : Nat} (hperiod : 0 < period) (hle : created ≤ now) :
    ticksLeft period created (now + 1) =
      if period ∣ now + 1 - created then period else ticksLeft period created now - 1 := by
  unfold ticksLeft
  rw [Nat.sub_add_comm hle]
  rcases succ_mod hperiod (now - created) with ⟨hlast, hzero⟩ | ⟨hless, hsucc⟩
  · rw [if_pos (Nat.dvd_of_mod_eq_zero hzero), hzero, Nat.sub_zero]
  · rw [if_neg fun hdvd => by have := Nat.mod_eq_zero_of_dvd hdvd; omega, hsucc]
    omega

/-! ### The invariant -/

/-- No thread was created, and no tick was handled. -/
structure PeriodState.Fresh (x : PeriodState T) : Prop where
  created : ∀ t, x.created t = none
  queue : x.timer.periodTimeQueue = []
  delay : x.timer.timeDelayQueue = []
  now : x.now = 0
  log : x.log = []

/-- A tick popped what it must. -/
structure PoppedAt (x : PeriodState T) (n : Nat) (popped : List T) : Prop where
  nodup : popped.Nodup
  iff : ∀ t, t ∈ popped ↔ ∃ c, x.created t = some c ∧ c < n ∧ x.period t ∣ n - c

/-- The invariant of a run. -/
structure PeriodInv (x : PeriodState T) : Prop where
  delay : Ordered x.timer.timeDelayQueue
  queue : Ordered x.timer.periodTimeQueue
  waits : HeadWaits x.timer.periodTimeQueue
  keys : ∀ t, t ∈ keys x.timer.periodTimeQueue ↔ (x.created t).isSome
  age : ∀ t c, x.created t = some c → c ≤ x.now ∧ 0 < x.period t
  /-- a queued thread expires when its period is over -/
  expiry : ∀ t c, x.created t = some c →
    expiry x.timer.periodTimeQueue t = ticksLeft (x.period t) c x.now
  ticks : x.log.map Prod.fst = (List.range' 1 x.now).reverse
  log : ∀ n popped, (n, popped) ∈ x.log → n ≤ x.now ∧ PoppedAt x n popped

theorem PeriodState.Fresh.inv (h : x.Fresh) : PeriodInv x where
  delay := by rw [h.delay]; exact ⟨List.nodup_nil, fun _ hn => absurd hn List.not_mem_nil⟩
  queue := by rw [h.queue]; exact ⟨List.nodup_nil, fun _ hn => absurd hn List.not_mem_nil⟩
  waits := by rw [h.queue]; intro node hnode; cases hnode
  keys t := by rw [h.queue, h.created t]; simp
  age t c hc := by rw [h.created t] at hc; cases hc
  expiry t c hc := by rw [h.created t] at hc; cases hc
  ticks := by rw [h.log, h.now]; rfl
  log n popped hin := by rw [h.log] at hin; cases hin

/-- What the handler leaves, in terms of the ages of the threads. -/
structure TickDealt (x : PeriodState T) (popped : List T) (queue : List (T × Int)) : Prop where
  deal : tickDeal (fun t => some (periodThreadReload x.time t)) x.timer.periodTimeQueue =
    some (popped, queue)
  ordered : Ordered queue
  waits : HeadWaits queue
  keys_iff : ∀ t, t ∈ keys queue ↔ (x.created t).isSome
  expiry_eq : ∀ t c, x.created t = some c → expiry queue t = ticksLeft (x.period t) c (x.now + 1)
  poppedAt : PoppedAt x (x.now + 1) popped

namespace PeriodInv

/-! ### Steps -/

/-- What the delayed threads do is their own. -/
theorem ofDelay (h : PeriodInv x) {timer : TimerState T}
    (hperiod : timer.periodTimeQueue = x.timer.periodTimeQueue)
    (hdelay : Ordered timer.timeDelayQueue) : PeriodInv { x with timer := timer } where
  delay := hdelay
  queue := hperiod ▸ h.queue
  waits := hperiod ▸ h.waits
  keys t := hperiod ▸ h.keys t
  age := h.age
  expiry t c hc := hperiod ▸ h.expiry t c hc
  ticks := h.ticks
  log n popped hin := ⟨(h.log n popped hin).1, (h.log n popped hin).2.nodup, (h.log n popped hin).2.iff⟩

theorem delayThread (h : PeriodInv x) (cur : Nat) (thread : T) (time : BitVec 32) :
    PeriodInv { x with timer := (acoralDelayThread cur x.timer thread time).2 } := by
  unfold acoralDelayThread
  split
  · exact h
  · rename_i hqueued
    split
    · exact h
    · refine h.ofDelay rfl (ordered_acoralTickQueueAdd h.delay (fun hin => hqueued ?_) ?_)
      · obtain ⟨node, hnode, rfl⟩ := List.mem_map.mp hin
        exact List.any_eq_true.mpr ⟨node, hnode, decide_eq_true rfl⟩
      · rw [toInt_timeToTicks]
        exact Int.natCast_nonneg _

section Create

variable {thread : T} {time : BitVec 32}

/-- The other threads are as before. -/
theorem create_other {t : T} (ht : t ≠ thread) :
    (periodPolicyThreadInit x thread time).created t = x.created t ∧
      (periodPolicyThreadInit x thread time).period t = x.period t := by
  refine ⟨Function.update_of_ne ht _ _, ?_⟩
  show (timeToTicks (Function.update x.time thread time t)).toNat = _
  rw [Function.update_of_ne ht]
  rfl

theorem create_self : (periodPolicyThreadInit x thread time).created thread = some x.now ∧
    (periodPolicyThreadInit x thread time).period thread = (timeToTicks time).toNat := by
  refine ⟨Function.update_self _ _ _, ?_⟩
  show (timeToTicks (Function.update x.time thread time thread)).toNat = _
  rw [Function.update_self]

/-- A thread is created. -/
theorem create (h : PeriodInv x) (hnone : x.created thread = none)
    (htime : 0 < (timeToTicks time).toNat) : PeriodInv (periodPolicyThreadInit x thread time) := by
  have hnew : thread ∉ Lib.keys x.timer.periodTimeQueue := by
    rw [h.keys thread, hnone]
    exact Bool.false_ne_true
  have hreload : periodThreadReload (Function.update x.time thread time) thread =
      ((timeToTicks time).toNat : Int) := by
    show (timeToTicks (Function.update x.time thread time thread)).toInt = _
    rw [Function.update_self, toInt_timeToTicks]
  have hqueue : (periodPolicyThreadInit x thread time).timer.periodTimeQueue =
      acoralTickQueueAdd x.timer.periodTimeQueue thread (timeToTicks time).toNat := by
    show acoralTickQueueAdd x.timer.periodTimeQueue thread (periodThreadReload _ thread) = _
    rw [hreload]
  have hkeys := keys_acoralTickQueueAdd x.timer.periodTimeQueue thread (timeToTicks time).toNat
  constructor
  case delay => exact h.delay
  case queue =>
    rw [hqueue]
    exact ordered_acoralTickQueueAdd h.queue hnew (Int.natCast_nonneg _)
  case waits =>
    rw [hqueue]
    have hre : Rearms fun _ : T => some ((timeToTicks time).toNat : Int) :=
      fun _ tick htick => by cases htick; exact Int.natCast_pos.mpr htime
    exact headWaits_readd hre h.waits thread
  case keys =>
    intro t
    rw [hqueue, hkeys.mem_iff, List.mem_cons, h.keys t]
    by_cases ht : t = thread
    · simp [ht, create_self.1]
    · rw [(create_other ht).1, or_iff_right ht]
  case age =>
    intro t c hc
    by_cases ht : t = thread
    · subst ht
      rw [create_self.1, Option.some.injEq] at hc
      rw [create_self.2]
      exact ⟨hc.symm.le, htime⟩
    · rw [(create_other ht).1] at hc
      rw [(create_other ht).2]
      exact h.age t c hc
  case expiry =>
    intro t c hc
    rw [hqueue]
    by_cases ht : t = thread
    · subst ht
      rw [create_self.1, Option.some.injEq] at hc
      rw [create_self.2, expiry_acoralTickQueueAdd_self hnew, ← hc]
      show _ = ((ticksLeft _ x.now x.now : Nat) : Int)
      simp [ticksLeft]
    · rw [(create_other ht).1] at hc
      rw [(create_other ht).2, expiry_acoralTickQueueAdd (Ne.symm ht) _ ((h.keys t).mpr (by rw [hc]; rfl))]
      exact h.expiry t c hc
  case ticks => exact h.ticks
  case log =>
    intro n popped hin
    obtain ⟨hle, hpopped⟩ := h.log n popped hin
    refine ⟨hle, hpopped.nodup, fun t => ?_⟩
    by_cases ht : t = thread
    · subst ht
      -- the thread is younger than all ticks so far
      rw [hpopped.iff t, create_self.1, hnone]
      have hle : n ≤ x.now := hle
      simp [hle]
    · rw [hpopped.iff t, (create_other ht).1, (create_other ht).2]

end Create

/-- `time_delay_deal` returns, and keeps to its queue. -/
theorem timeDelayDeal_some (h : PeriodInv x) :
    ∃ timer, timeDelayDeal x.timer = some timer ∧
      timer.periodTimeQueue = x.timer.periodTimeQueue ∧ Ordered timer.timeDelayQueue := by
  have hre : Rearms (T := T) fun _ => none := fun _ _ h => by cases h
  obtain ⟨popped, queue, hdeal, hordered, -, -, -⟩ := tickDeal_spec hre h.delay
  refine ⟨_, congrArg (Option.map _) hdeal, foldl_rdyThread_periodTimeQueue popped _, ?_⟩
  rw [foldl_rdyThread_timeDelayQueue]
  exact hordered

theorem dealt (h : PeriodInv x) : ∃ popped queue, TickDealt x popped queue := by
  have hreload : ∀ t, periodThreadReload x.time t = x.period t := fun t => toInt_timeToTicks _
  have hcreated : ∀ t ∈ Lib.keys x.timer.periodTimeQueue, ∃ c, x.created t = some c :=
    fun t ht => Option.isSome_iff_exists.mp ((h.keys t).mp ht)
  have hpos : ∀ t ∈ Lib.keys x.timer.periodTimeQueue, ∀ tick,
      some (periodThreadReload x.time t) = some tick → 0 < tick := by
    intro t ht tick htick
    obtain ⟨c, hc⟩ := hcreated t ht
    cases htick
    rw [hreload]
    exact Int.natCast_pos.mpr (h.age t c hc).2
  obtain ⟨rearm, hre, hsame, hcongr⟩ := tickDeal_queued hpos
  obtain ⟨popped, queue, hdeal, hordered, hwaits, hiff, hrest⟩ := tickDeal_spec hre h.queue
  obtain ⟨hnodup, hsub, hkeys, hagain⟩ := tickDeal_popped hre h.queue hdeal
  -- the head waits, so the count-down is one tick for everybody
  have hdown : ∀ t c, x.created t = some c → Lib.expiry (tickCountDown x.timer.periodTimeQueue) t =
      ticksLeft (x.period t) c x.now - 1 := by
    intro t c hc
    have hin : t ∈ Lib.keys x.timer.periodTimeQueue := (h.keys t).mpr (by rw [hc]; rfl)
    have hhead : headTicks x.timer.periodTimeQueue ≠ 0 := h.waits.headTicks_ne hin
    rw [expiry_tickCountDown h.queue hin, if_neg hhead, h.expiry t c hc]
  have hpopped : ∀ t c, x.created t = some c → (t ∈ popped ↔ x.period t ∣ x.now + 1 - c) := by
    intro t c hc
    obtain ⟨hle, hperiod⟩ := h.age t c hc
    rw [hiff t ((h.keys t).mpr (by rw [hc]; rfl)), hdown t c hc, Int.sub_eq_zero,
      ← ticksLeft_eq_one_iff hperiod hle]
    exact Int.natCast_inj
  refine ⟨popped, queue, hcongr.trans hdeal, hordered, hwaits, fun t => ?_, fun t c hc => ?_,
    hnodup, fun t => ?_⟩
  · rw [← h.keys t]
    by_cases ht : t ∈ popped
    · have hin := hsub t ht
      exact iff_of_true (hagain t ht _ (hsame t hin)).1 hin
    · exact hkeys t ht
  · obtain ⟨hle, hperiod⟩ := h.age t c hc
    have hin : t ∈ Lib.keys x.timer.periodTimeQueue := (h.keys t).mpr (by rw [hc]; rfl)
    rw [ticksLeft_succ hperiod hle]
    by_cases ht : t ∈ popped
    · rw [(hagain t ht _ (hsame t hin)).2, hreload, if_pos ((hpopped t c hc).mp ht)]
    · have hmore : 0 < ticksLeft (x.period t) c x.now := ticksLeft_pos hperiod
      rw [(hrest t hin ht).2, hdown t c hc, if_neg fun hdvd => ht ((hpopped t c hc).mpr hdvd)]
      omega
  · constructor
    · intro ht
      obtain ⟨c, hc⟩ := hcreated t (hsub t ht)
      exact ⟨c, hc, Nat.lt_succ_of_le (h.age t c hc).1, (hpopped t c hc).mp ht⟩
    · rintro ⟨c, hc, -, hdvd⟩
      exact (hpopped t c hc).mpr hdvd

/-- `acoral_ticks_handler` returns. -/
theorem tick (h : PeriodInv x) : ∃ y, acoralTicksHandler x = some y ∧ PeriodInv y := by
  obtain ⟨timer, hdelay, hqueue, hordered⟩ := h.timeDelayDeal_some
  obtain ⟨popped, queue, hdealt⟩ := (h.ofDelay hqueue hordered).dealt
  have hdeal : tickDeal (fun t => some (periodThreadReload x.time t)) timer.periodTimeQueue =
      some (popped, queue) := hdealt.deal
  have hpop : periodPopped x.time timer = some popped := congrArg (Option.map _) hdeal
  have hperiod : periodTimeDeal x.time timer =
      some (popped.foldl TimerState.rdyThread { timer with periodTimeQueue := queue }) :=
    congrArg (Option.map _) hdeal
  refine ⟨{ x with
      timer := popped.foldl TimerState.rdyThread { timer with periodTimeQueue := queue }
      ticks := x.ticks + 1
      now := x.now + 1
      log := (x.now + 1, popped) :: x.log }, ?_, ?_⟩
  · unfold acoralTicksHandler
    rw [hdelay, Option.bind_some, hpop, Option.bind_some, hperiod, Option.map_some]
  · have hleft := foldl_rdyThread_periodTimeQueue popped { timer with periodTimeQueue := queue }
    constructor
    case delay =>
      show Ordered (popped.foldl TimerState.rdyThread _).timeDelayQueue
      rw [foldl_rdyThread_timeDelayQueue]
      exact hordered
    case queue => exact hleft ▸ hdealt.ordered
    case waits => exact hleft ▸ hdealt.waits
    case keys =>
      intro t
      show t ∈ Lib.keys (popped.foldl TimerState.rdyThread _).periodTimeQueue ↔ _
      rw [hleft]
      exact hdealt.keys_iff t
    case age => exact fun t c hc => ⟨Nat.le_succ_of_le (h.age t c hc).1, (h.age t c hc).2⟩
    case expiry =>
      intro t c hc
      show Lib.expiry (popped.foldl TimerState.rdyThread _).periodTimeQueue t = _
      rw [hleft]
      exact hdealt.expiry_eq t c hc
    case ticks =>
      show (x.now + 1) :: x.log.map Prod.fst = _
      rw [h.ticks, List.range'_concat, List.reverse_append]
      simp [Nat.add_comm]
    case log =>
      intro n popped' hin
      rcases List.mem_cons.mp hin with heq | hin
      · cases heq
        exact ⟨Nat.le_refl _, hdealt.poppedAt.nodup, hdealt.poppedAt.iff⟩
      · obtain ⟨hle, hpopped⟩ := h.log n popped' hin
        exact ⟨Nat.le_succ_of_le hle, hpopped.nodup, hpopped.iff⟩

/-- What the scheduler does is its own. -/
theorem env (h : PeriodInv x) (sched : Sched T) :
    PeriodInv { x with timer := { x.timer with sched := sched } } := h.ofDelay rfl h.delay

end PeriodInv

/-! ### Runs -/

theorem periodStep_inv {op : PeriodOp T} (h : PeriodInv x)
    (hop : ∀ t time, op = .create t time → 0 < timeToTicks time)
    (hstep : periodStep x op = some y) : PeriodInv y := by
  cases op with
  | create thread time =>
      unfold periodStep at hstep
      dsimp only at hstep
      split at hstep
      case isFalse => cases hstep
      case isTrue hnone =>
      cases hstep
      exact h.create (Option.isNone_iff_eq_none.mp hnone) (hop thread time rfl)
  | tick =>
      obtain ⟨z, hz, hinv⟩ := h.tick
      cases hz.symm.trans hstep
      exact hinv
  | delay cur thread time =>
      cases hstep
      exact h.delayThread cur thread time
  | env sched =>
      cases hstep
      exact h.env sched

/-- Take any run in which the periodic threads that are created have periods of
a tick or more. Each tick of it has popped, once each, the threads whose age
was a positive multiple of their period, and the next tick returns. -/
theorem period_exact {ops : List (PeriodOp T)} (hx : x.Fresh)
    (hops : ∀ t time, .create t time ∈ ops → 0 < timeToTicks time)
    (hrun : run periodStep x ops = some y) :
    y.log.map Prod.fst = (List.range' 1 y.now).reverse ∧
      (∀ n popped, (n, popped) ∈ y.log → PoppedAt y n popped) ∧
      (periodStep y .tick).isSome := by
  have hinv : PeriodInv y := Lib.run_induct_mem
    (fun s op s' hin hs hstep =>
      periodStep_inv hs (fun t time he => hops t time (he ▸ hin)) hstep) hx.inv hrun
  obtain ⟨z, hz, -⟩ := hinv.tick
  exact ⟨hinv.ticks, fun n popped hin => (hinv.log n popped hin).2, Option.isSome_iff_exists.mpr ⟨z, hz⟩⟩

/-! ### Two periodic threads -/

/-- No periodic thread so far. -/
def noPeriodic : PeriodState (Fin 2) where
  timer :=
    { sched := acoralSchedRdyqueueInit fun t =>
        { resId := 0, state := ACORAL_THREAD_STATE_SUSPEND, prio := t.val + 3, cpu := 0 }
      timeDelayQueue := []
      periodTimeQueue := []
      timedTimeQueue := fun _ => [] }
  time := fun _ => 0
  ticks := 0
  now := 0
  created := fun _ => none
  log := []

/-- Thread 0 has a period of 2 ticks, and thread 1, created at the first tick,
one of 3. -/
def twoPeriodicRun : List (PeriodOp (Fin 2)) :=
  [.create 0 2, .tick, .create 1 3] ++ List.replicate 6 .tick

theorem period_exact_two :
    ∃ y, run periodStep noPeriodic twoPeriodicRun = some y ∧
      y.log = [(7, [1]), (6, [0]), (5, []), (4, [1, 0]), (3, []), (2, [0]), (1, [])] ∧
      (∀ n popped, (n, popped) ∈ y.log → PoppedAt y n popped) ∧ (periodStep y .tick).isSome := by
  have heval : (run periodStep noPeriodic twoPeriodicRun).any (fun y =>
      decide (y.log = [(7, [1]), (6, [0]), (5, []), (4, [1, 0]), (3, []), (2, [0]), (1, [])])) = true := by
    decide +kernel
  obtain ⟨y, hrun, hy⟩ := (Option.any_eq_true ..).mp heval
  have hfresh : noPeriodic.Fresh := ⟨fun _ => rfl, rfl, rfl, rfl, rfl⟩
  have hops : ∀ t time, .create t time ∈ twoPeriodicRun → 0 < timeToTicks time := by
    intro t time hin
    simp only [twoPeriodicRun, List.replicate, List.cons_append, List.nil_append, List.mem_cons,
      PeriodOp.create.injEq, reduceCtorEq, List.not_mem_nil, or_false, false_or] at hin
    rcases hin with ⟨-, rfl⟩ | ⟨-, rfl⟩ <;> decide
  exact ⟨y, hrun, of_decide_eq_true hy, (period_exact hfresh hops hrun).2⟩

end ACoral
