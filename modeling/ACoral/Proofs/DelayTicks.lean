import ACoral.Proofs.PeriodThrd

/-!
# `ACoral.Proofs.DelayTicks`: milliseconds as ticks

`TIME_TO_TICKS` forms its product in 32 bits.

- `timeToTicks_exact_iff`: it is the quotient of the numbers exactly when the
  product does not overflow.
- `Behind`: a delayed thread waits at least as long as another one. Nothing in a
  run changes that (`behind_step`), so the other one is not woken later
  (`Behind.wakeAt`).
- `delay_order_iff`: the delays of one tick wake their threads in order where
  both products fit.

A long delay whose product overflows is a short one
(`delay_order_fails`).
-/

set_option autoImplicit false

namespace ACoral

open Lib (keys expiry Ordered run)

variable {T : Type} [DecidableEq T] {x y : PeriodState T} {a b : T}

/-! ### The conversion -/

/-- The ticks of a time in milliseconds. -/
def ticksOf (time : BitVec 32) : Nat := time.toNat * CFG_TICKS_PER_SEC / 1000

/-- The product of the conversion fits 32 bits. -/
def ProductFits (time : BitVec 32) : Prop := time.toNat * CFG_TICKS_PER_SEC < 2 ^ 32

theorem toNat_timeToTicks (time : BitVec 32) :
    (timeToTicks time).toNat = time.toNat * CFG_TICKS_PER_SEC % 2 ^ 32 / 1000 := by
  show (_ / _ : BitVec 32).toNat = _
  rw [BitVec.toNat_udiv, BitVec.toNat_mul]
  rfl

/-- The conversion is exact as long as the product fits. -/
theorem timeToTicks_exact_iff (time : BitVec 32) :
    (timeToTicks time).toNat = ticksOf time ↔ ProductFits time := by
  rw [toNat_timeToTicks]
  unfold ticksOf ProductFits
  constructor
  · intro h
    by_contra hlt
    -- an overflow takes at least 2^32 off the product, more than a tick's worth
    have hmod := Nat.mod_add_div (time.toNat * CFG_TICKS_PER_SEC) (2 ^ 32)
    have hdiv : 0 < time.toNat * CFG_TICKS_PER_SEC / 2 ^ 32 := Nat.div_pos (by omega) (by decide)
    omega
  · intro h
    rw [Nat.mod_eq_of_lt h]

/-! ### Who waits longer -/

/-- Both threads are delayed, and `b` is to be woken no earlier than `a`. -/
structure Behind (q : List (T × Int)) (a b : T) : Prop where
  ordered : Ordered q
  fst : a ∈ keys q
  snd : b ∈ keys q
  le : expiry q a ≤ expiry q b

/-- `acoral_delay_thread` on a queued thread does nothing. -/
theorem acoralDelayThread_eq (cur : Nat) (s : TimerState T) (thread : T) (time : BitVec 32) :
    acoralDelayThread cur s thread time =
      if thread ∈ keys s.timeDelayQueue then (.KR_THREAD_ERR_UNDEF, s)
      else if (s.sched.thread thread).cpu ≠ cur then (.KR_THREAD_ERR_CPU, s)
      else (.KR_OK, acoralTimeDelayQueueAdd cur s thread (timeToTicks time).toInt) := by
  have hiff : (s.timeDelayQueue.any fun node => node.1 = thread) = true ↔
      thread ∈ keys s.timeDelayQueue := by
    simp [keys, List.any_eq_true]
  unfold acoralDelayThread
  by_cases hin : thread ∈ keys s.timeDelayQueue
  · rw [if_pos (hiff.mpr hin), if_pos hin]
  · rw [if_neg (mt hiff.mp hin), if_neg hin]

/-- What a delay does to the queue: nothing, or it adds a thread. -/
theorem delayThread_cases (cur : Nat) (s : TimerState T) (thread : T) (time : BitVec 32) :
    (acoralDelayThread cur s thread time).2.timeDelayQueue = s.timeDelayQueue ∨
      thread ∉ keys s.timeDelayQueue ∧
        (acoralDelayThread cur s thread time).2.timeDelayQueue =
          acoralTickQueueAdd s.timeDelayQueue thread (timeToTicks time).toNat := by
  rw [acoralDelayThread_eq]
  split
  · exact Or.inl rfl
  · rename_i hn
    split
    · exact Or.inl rfl
    · exact Or.inr ⟨hn, by rw [← toInt_timeToTicks]; rfl⟩

/-- What a tick does to the delayed threads: it counts down, and the threads
without ticks left leave. -/
theorem ticksHandler_delayed (h : Ordered x.timer.timeDelayQueue)
    (htick : acoralTicksHandler x = some y) :
    ∃ Z, tickCountDown x.timer.timeDelayQueue =
        Z.map (fun z => (z, 0)) ++ y.timer.timeDelayQueue ∧
      (Z ++ keys y.timer.timeDelayQueue).Nodup ∧ Ordered y.timer.timeDelayQueue ∧
      HeadWaits y.timer.timeDelayQueue := by
  have hre : Rearms (T := T) fun _ => none := fun _ _ h => by cases h
  obtain ⟨Z, R, hdown, hnd, hord, hwaits, hdeal⟩ := tickDeal_split hre h
  have hsame : ∀ (Z : List T) (R : List (T × Int)), Z.foldl (readd fun _ => none) R = R := by
    intro Z R
    induction Z with
    | nil => rfl
    | cons z Z ih => exact ih
  rw [hsame] at hdeal
  obtain ⟨timer, hdelay, htick⟩ := Option.bind_eq_some_iff.mp htick
  obtain ⟨popped, -, htick⟩ := Option.bind_eq_some_iff.mp htick
  obtain ⟨timer', hperiod, hy⟩ := Option.map_eq_some_iff.mp htick
  obtain ⟨r, hr, rfl⟩ := Option.map_eq_some_iff.mp hdelay
  obtain ⟨r', -, rfl⟩ := Option.map_eq_some_iff.mp hperiod
  rw [hdeal, Option.some.injEq] at hr
  have hqueue : y.timer.timeDelayQueue = R := by
    rw [← hy, ← hr]
    exact (foldl_rdyThread_timeDelayQueue r'.1 _).trans (foldl_rdyThread_timeDelayQueue Z _)
  rw [hqueue]
  exact ⟨Z, hdown, hnd, hord, hwaits⟩

/-- The delayed threads of every reachable state are in a delta list. -/
theorem delayed_step {op : PeriodOp T} (h : Ordered x.timer.timeDelayQueue)
    (hstep : periodStep x op = some y) : Ordered y.timer.timeDelayQueue := by
  cases op with
  | create thread time =>
      unfold periodStep at hstep
      dsimp only at hstep
      split at hstep
      · cases hstep
        exact h
      · cases hstep
  | tick => exact (ticksHandler_delayed h hstep).choose_spec.2.2.1
  | delay cur thread time =>
      cases hstep
      rcases delayThread_cases cur x.timer thread time with heq | ⟨hn, heq⟩
      · exact heq ▸ h
      · exact heq ▸ ordered_acoralTickQueueAdd h hn (Int.natCast_nonneg _)
  | env sched =>
      cases hstep
      exact h

theorem delayed_run {ops : List (PeriodOp T)} (hx : x.Fresh) (hrun : run periodStep x ops = some y) :
    Ordered y.timer.timeDelayQueue :=
  Lib.run_induct (fun _ _ _ hs hstep => delayed_step hs hstep) hx.inv.delay hrun

/-- Between two ticks a delayed thread stays delayed, with its expiry. -/
theorem delayed_between {op : PeriodOp T} (hop : op ≠ .tick) (ha : a ∈ keys x.timer.timeDelayQueue)
    (hstep : periodStep x op = some y) :
    a ∈ keys y.timer.timeDelayQueue ∧
      expiry y.timer.timeDelayQueue a = expiry x.timer.timeDelayQueue a := by
  cases op with
  | create thread time =>
      unfold periodStep at hstep
      dsimp only at hstep
      split at hstep
      · cases hstep
        exact ⟨ha, rfl⟩
      · cases hstep
  | tick => exact absurd rfl hop
  | delay cur thread time =>
      cases hstep
      rcases delayThread_cases cur x.timer thread time with heq | ⟨hn, heq⟩
      · rw [heq]
        exact ⟨ha, rfl⟩
      · have hne : thread ≠ a := fun he => hn (he ▸ ha)
        rw [heq]
        exact ⟨(keys_acoralTickQueueAdd _ thread _).mem_iff.mpr (List.mem_cons_of_mem _ ha),
          expiry_acoralTickQueueAdd hne _ ha⟩
  | env sched =>
      cases hstep
      exact ⟨ha, rfl⟩

/-- A tick wakes `a` or keeps both. -/
theorem behind_tick (h : Behind x.timer.timeDelayQueue a b)
    (htick : acoralTicksHandler x = some y) :
    a ∉ keys y.timer.timeDelayQueue ∨ Behind y.timer.timeDelayQueue a b := by
  obtain ⟨Z, hdown, hnd, hord, hwaits⟩ := ticksHandler_delayed h.ordered htick
  have hmem : ∀ t ∈ keys x.timer.timeDelayQueue, t ∈ Z ∨ t ∈ keys y.timer.timeDelayQueue := by
    intro t ht
    rw [← keys_tickCountDown, hdown, Lib.keys_append, List.mem_append] at ht
    simpa [keys] using ht
  have hnext : ∀ t ∈ keys y.timer.timeDelayQueue, t ∉ Z := fun t ht hz =>
    (List.nodup_append.mp hnd).2.2 t hz t ht rfl
  have hleft : expiry (tickCountDown x.timer.timeDelayQueue) a ≤
      expiry (tickCountDown x.timer.timeDelayQueue) b := by
    rw [expiry_tickCountDown h.ordered h.fst, expiry_tickCountDown h.ordered h.snd]
    have hle := h.le
    omega
  by_cases ha : a ∈ keys y.timer.timeDelayQueue
  · -- `a` has ticks left, so `b` has too
    have hpos : expiry (tickCountDown x.timer.timeDelayQueue) a ≠ 0 := by
      rw [hdown]
      exact mt (expiry_due_iff hnd hord hwaits (hmem a h.fst)).mpr (hnext a ha)
    have hnonneg := (ordered_tickCountDown h.ordered).expiry_nonneg a
    have hbZ : b ∉ Z := by
      rw [expiry_due_iff hnd hord hwaits (hmem b h.snd), ← hdown]
      omega
    refine Or.inr ⟨hord, ha, (hmem b h.snd).resolve_left hbZ, ?_⟩
    rw [hdown, expiry_rest (hnext a ha), expiry_rest hbZ] at hleft
    exact hleft
  · exact Or.inl ha

/-- No step puts `b` in front of `a`. -/
theorem behind_step {op : PeriodOp T} (h : Behind x.timer.timeDelayQueue a b)
    (hstep : periodStep x op = some y) :
    a ∉ keys y.timer.timeDelayQueue ∨ Behind y.timer.timeDelayQueue a b := by
  by_cases hop : op = .tick
  · subst hop
    exact behind_tick h hstep
  · obtain ⟨ha, hea⟩ := delayed_between hop h.fst hstep
    obtain ⟨hb, heb⟩ := delayed_between hop h.snd hstep
    exact Or.inr ⟨delayed_step h.ordered hstep, ha, hb, by rw [hea, heb]; exact h.le⟩

/-! ### The order of the wake-ups -/

/-- The step of a run that wakes a delayed thread. -/
def wakeAt (t : T) : PeriodState T → List (PeriodOp T) → Option Nat
  | _, []        => none
  | x, op :: ops =>
      (periodStep x op).bind fun y =>
        if t ∈ keys y.timer.timeDelayQueue then (wakeAt t y ops).map (· + 1) else some 0

/-- In no run `a` is woken later than `b`. -/
def WokenBy (x : PeriodState T) (a b : T) : Prop :=
  ∀ ops n, wakeAt b x ops = some n → ∃ m ≤ n, wakeAt a x ops = some m

/-- A thread that waits at least as long is not woken earlier. The induction is on
the run. -/
theorem Behind.wakeAt (h : Behind x.timer.timeDelayQueue a b) : WokenBy x a b := by
  intro ops
  induction ops generalizing x with
  | nil => intro n hn; cases hn
  | cons op ops ih =>
      intro n hn
      obtain ⟨y, hstep, hn⟩ := Option.bind_eq_some_iff.mp hn
      unfold ACoral.wakeAt
      rw [hstep, Option.bind_some]
      by_cases ha : a ∈ keys y.timer.timeDelayQueue
      · have hb := (behind_step h hstep).resolve_left (not_not_intro ha)
        rw [if_pos hb.snd] at hn
        obtain ⟨n', hn', rfl⟩ := Option.map_eq_some_iff.mp hn
        obtain ⟨m, hm, hwake⟩ := ih hb n' hn'
        rw [if_pos ha, hwake]
        exact ⟨m + 1, Nat.succ_le_succ hm, rfl⟩
      · rw [if_neg ha]
        exact ⟨0, Nat.zero_le _, rfl⟩

/-- The ticks that `acoral_delay_thread` has queued the thread for, and those of a
periodic thread with this time, are the ticks of the time. -/
structure ExactTicks (x : PeriodState T) (t : T) (time : BitVec 32) : Prop where
  delay : expiry x.timer.timeDelayQueue t = ticksOf time
  period : periodThreadReload (fun _ => time) t = ticksOf time

/-- An accepted request: the thread is delayed, for the ticks of the conversion,
and no other expiry changes. -/
theorem delayThread_accepted {s s' : TimerState T} {cur : Nat} {thread : T} {time : BitVec 32}
    (h : Ordered s.timeDelayQueue)
    (hok : acoralDelayThread cur s thread time = (.KR_OK, s')) :
    thread ∉ keys s.timeDelayQueue ∧ Ordered s'.timeDelayQueue ∧
      thread ∈ keys s'.timeDelayQueue ∧
      expiry s'.timeDelayQueue thread = (timeToTicks time).toNat := by
  rw [acoralDelayThread_eq] at hok
  split at hok
  · cases hok
  · rename_i hn
    split at hok
    · cases hok
    · obtain rfl := (Prod.mk.inj hok).2
      rw [toInt_timeToTicks]
      exact ⟨hn, ordered_acoralTickQueueAdd h hn (Int.natCast_nonneg _),
        (keys_acoralTickQueueAdd _ thread _).mem_iff.mpr List.mem_cons_self,
        expiry_acoralTickQueueAdd_self hn _⟩

/-- What is delayed between two ticks stays so. -/
theorem delayed_between_run {ops : List (PeriodOp T)} (hops : .tick ∉ ops)
    (ha : a ∈ keys x.timer.timeDelayQueue) (hrun : run periodStep x ops = some y) :
    a ∈ keys y.timer.timeDelayQueue ∧
      expiry y.timer.timeDelayQueue a = expiry x.timer.timeDelayQueue a := by
  refine Lib.run_induct_mem (P := fun s => a ∈ keys s.timer.timeDelayQueue ∧
    expiry s.timer.timeDelayQueue a = expiry x.timer.timeDelayQueue a) ?_ ⟨ha, rfl⟩ hrun
  intro s op s' hin hs hstep
  obtain ⟨hmem, he⟩ := delayed_between (fun he => hops (he ▸ hin)) hs.1 hstep
  exact ⟨hmem, he.trans hs.2⟩

/-- Take two delays that are requested between two ticks of a run. Both are for the
ticks of their times, and the longer one wakes its thread no earlier whatever
happens next, exactly when both products fit. -/
theorem delay_order_iff {x₀ x₁ x₂ : PeriodState T} {before between : List (PeriodOp T)}
    {curA curB : Nat} {timeA timeB : BitVec 32} {timerA timerB : TimerState T}
    (hfresh : x₀.Fresh) (hbefore : run periodStep x₀ before = some x₁)
    (hA : acoralDelayThread curA x₁.timer a timeA = (.KR_OK, timerA))
    (hbetween : run periodStep { x₁ with timer := timerA } between = some x₂)
    (hticks : .tick ∉ between)
    (hB : acoralDelayThread curB x₂.timer b timeB = (.KR_OK, timerB)) :
    (ExactTicks { x₂ with timer := timerB } a timeA ∧ ExactTicks { x₂ with timer := timerB } b timeB ∧
        (timeA ≤ timeB → WokenBy { x₂ with timer := timerB } a b) ∧
        (timeB ≤ timeA → WokenBy { x₂ with timer := timerB } b a)) ↔
      ProductFits timeA ∧ ProductFits timeB := by
  obtain ⟨-, hordA, hinA, hexpA⟩ := delayThread_accepted (delayed_run hfresh hbefore) hA
  have hord₂ : Ordered x₂.timer.timeDelayQueue :=
    Lib.run_induct (P := fun s => Ordered s.timer.timeDelayQueue)
      (fun _ _ _ hs hstep => delayed_step hs hstep) hordA hbetween
  obtain ⟨hin₂, hexp₂⟩ := delayed_between_run hticks hinA hbetween
  obtain ⟨hnB, hordB, hinB, hexpB⟩ := delayThread_accepted hord₂ hB
  -- the second request leaves the first thread where it is
  have hkeep := delayed_between (x := x₂) (y := { x₂ with timer := timerB })
    (show PeriodOp.delay curB b timeB ≠ .tick by simp) hin₂ (by simp [periodStep, hB])
  have hexpA' : expiry timerB.timeDelayQueue a = (timeToTicks timeA).toNat :=
    hkeep.2.trans (hexp₂.trans hexpA)
  have hexact : ∀ t time, expiry timerB.timeDelayQueue t = (timeToTicks time).toNat →
      (ExactTicks { x₂ with timer := timerB } t time ↔ ProductFits time) := by
    intro t time ht
    rw [← timeToTicks_exact_iff]
    constructor
    · intro h
      exact Int.natCast_inj.mp (ht.symm.trans h.delay)
    · intro h
      refine ⟨ht.trans (congrArg _ h), ?_⟩
      unfold periodThreadReload
      rw [toInt_timeToTicks, h]
  have hmono : ∀ time time' : BitVec 32, ProductFits time → ProductFits time' → time ≤ time' →
      (timeToTicks time).toNat ≤ (timeToTicks time').toNat := by
    intro time time' h h' hle
    rw [(timeToTicks_exact_iff time).mpr h, (timeToTicks_exact_iff time').mpr h']
    exact Nat.div_le_div_right (Nat.mul_le_mul_right _ hle)
  rw [hexact a timeA hexpA', hexact b timeB hexpB]
  constructor
  · rintro ⟨ha, hb, -⟩
    exact ⟨ha, hb⟩
  · rintro ⟨ha, hb⟩
    refine ⟨ha, hb, fun hle => Behind.wakeAt ⟨hordB, hkeep.1, hinB, ?_⟩,
      fun hle => Behind.wakeAt ⟨hordB, hinB, hkeep.1, ?_⟩⟩
    · show expiry timerB.timeDelayQueue a ≤ expiry timerB.timeDelayQueue b
      rw [hexpA', hexpB]
      exact Int.ofNat_le.mpr (hmono _ _ ha hb hle)
    · show expiry timerB.timeDelayQueue b ≤ expiry timerB.timeDelayQueue a
      rw [hexpA', hexpB]
      exact Int.ofNat_le.mpr (hmono _ _ hb ha hle)

/-! ### Two requests of one tick -/

/-- One delay, and two, requested before the first tick. -/
def delayedOne (time : BitVec 32) : TimerState (Fin 2) :=
  (acoralDelayThread 0 noPeriodic.timer 0 time).2

def delayedTimer (timeA timeB : BitVec 32) : TimerState (Fin 2) :=
  (acoralDelayThread 0 (delayedOne timeA) 1 timeB).2

/-- Delays of 100 and 200 milliseconds. -/
theorem delay_order_iff_fits :
    (ExactTicks { noPeriodic with timer := delayedTimer 100 200 } 0 100 ∧
        ExactTicks { noPeriodic with timer := delayedTimer 100 200 } 1 200 ∧
        ((100 : BitVec 32) ≤ 200 → WokenBy { noPeriodic with timer := delayedTimer 100 200 } 0 1) ∧
        ((200 : BitVec 32) ≤ 100 → WokenBy { noPeriodic with timer := delayedTimer 100 200 } 1 0)) ↔
      ProductFits 100 ∧ ProductFits 200 :=
  (delay_order_iff (show noPeriodic.Fresh from ⟨fun _ => rfl, rfl, rfl, rfl, rfl⟩)
    (show run periodStep noPeriodic [] = some noPeriodic from rfl)
    (show acoralDelayThread 0 noPeriodic.timer 0 100 = (.KR_OK, delayedOne 100) from
      Prod.ext (by decide) rfl)
    (show run periodStep { noPeriodic with timer := delayedOne 100 } [] =
      some { noPeriodic with timer := delayedOne 100 } from rfl)
    List.not_mem_nil
    (show acoralDelayThread 0 (delayedOne 100) 1 200 = (.KR_OK, delayedTimer 100 200) from
      Prod.ext (by decide) rfl) :)

/-- A delay of 4294968 milliseconds is one of no ticks, and wakes its thread before
a delay of 100 that is requested at the same tick. -/
theorem delay_order_fails :
    run periodStep noPeriodic [.delay 0 0 100, .delay 0 1 4294968] =
        some { noPeriodic with timer := delayedTimer 100 4294968 } ∧
      (100 : BitVec 32) ≤ 4294968 ∧ ticksOf 4294968 = 4294968 ∧
      expiry (delayedTimer 100 4294968).timeDelayQueue 1 = 0 ∧
      periodThreadReload (fun _ => 4294968) (1 : Fin 2) = 0 ∧
      ¬ WokenBy { noPeriodic with timer := delayedTimer 100 4294968 } 0 1 := by
  refine ⟨rfl, by decide, by decide, by decide +kernel, by decide +kernel, fun h => ?_⟩
  have hlong : wakeAt 1 { noPeriodic with timer := delayedTimer 100 4294968 } [.tick] = some 0 := by
    decide +kernel
  have hshort : wakeAt 0 { noPeriodic with timer := delayedTimer 100 4294968 } [.tick] = none := by
    decide +kernel
  obtain ⟨m, -, hm⟩ := h [.tick] 0 hlong
  cases hshort.symm.trans hm

end ACoral
