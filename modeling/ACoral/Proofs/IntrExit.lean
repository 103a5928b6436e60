import ACoral.Kernel.IntrSystem
import ACoral.Proofs.Preempt

/-!
# `ACoral.Proofs.IntrExit`: the flag that stays

`acoral_intr_exit` makes its four tests and tells the epilogue of the interrupt through
`hal_irq_switch` that it is to switch. The epilogue reads the flag and leaves it set. So
the first exit of a CPU that passes the tests is the last one whose tests count
(`irqSwitch_iff`): each later exit of that CPU switches, also in a critical section, in a
nested interrupt or with nothing to schedule.

- `exitsPermitted_iff`: a run switches only where the tests allow it exactly when, on
  each CPU, every exit passes the tests after the first that did.
- `exitsPermitted_fails`: a thread loses the CPU in the middle of its critical section.
-/

set_option autoImplicit false

namespace ACoral

open Lib (run StepAt)

variable {T : Type} [DecidableEq T] {cur : Nat} {s s' : CpuState T}

/-! ### Exits -/

/-- The four conditions, at an exit in the state before it: a reschedule is needed, no other
interrupt is served, the scheduler is not locked, and scheduling is enabled. -/
def exitPermitted (cur : Nat) (s : CpuState T) : Bool :=
  s.sched.needSched cur && decide (s.intrNesting cur - 1 = 0) && !s.schedLock cur && s.schedEnable

/-- The epilogue branches to `switch_before_exit`. -/
def exitSwitches (cur : Nat) (s : CpuState T) : Bool := (acoralIntrReturn cur s).irqSwitch cur

/-- The step `n` of a run is an interrupt exit of the CPU `cur`, in the state `s`. -/
def ExitAt (s₀ : CpuState T) (ops : List (Nat × IntrOp T)) (n cur : Nat) (s : CpuState T) : Prop :=
  StepAt intrStep s₀ ops n (cur, .switch .intrExit) s

/-- Every exit of the run that switches meets the conditions. -/
def ExitsPermitted (s₀ : CpuState T) (ops : List (Nat × IntrOp T)) : Prop :=
  ∀ n cur s, ExitAt s₀ ops n cur s → exitSwitches cur s = true → exitPermitted cur s = true

/-- Once an exit of a CPU has met the conditions, all later ones of that CPU do. -/
def PermittedFromFirst (s₀ : CpuState T) (ops : List (Nat × IntrOp T)) : Prop :=
  ∀ m n cur s s', m < n → ExitAt s₀ ops m cur s → exitPermitted cur s = true →
    ExitAt s₀ ops n cur s' → exitPermitted cur s' = true

/-! ### What sets the flag -/

omit [DecidableEq T] in
/-- `acoral_intr_exit` sets the flag of its CPU if its tests pass. -/
theorem acoralIntrReturn_irqSwitch (cur c : Nat) (s : CpuState T) :
    (acoralIntrReturn cur s).irqSwitch c =
      (s.irqSwitch c || (decide (cur = c) && exitPermitted cur s)) := by
  rw [acoralIntrReturn, acoralIntrExit]
  by_cases hc : cur = c
  · subst hc
    split_ifs <;> simp_all [exitPermitted]
  · have hc' : c ≠ cur := Ne.symm hc
    split_ifs <;> simp [hc, hc']

omit [DecidableEq T] in
theorem exitSwitches_eq (cur : Nat) (s : CpuState T) :
    exitSwitches cur s = (s.irqSwitch cur || exitPermitted cur s) := by
  simp [exitSwitches, acoralIntrReturn_irqSwitch]

omit [DecidableEq T] in
theorem irqSwitch_of_eq {x : CpuState T} (hstep : some x = some s')
    (hkeep : x.irqSwitch = s.irqSwitch) : s'.irqSwitch = s.irqSwitch :=
  Option.some.inj hstep ▸ hkeep

theorem acoralSwitchContext_irqSwitch (hstep : acoralSwitchContext cur s = some s') :
    s'.irqSwitch = s.irqSwitch := by
  obtain ⟨next, -, rfl⟩ := Option.map_eq_some_iff.mp hstep
  dsimp only
  split_ifs <;> rfl

theorem acoralSched_irqSwitch (hstep : acoralSched cur s = some s') :
    s'.irqSwitch = s.irqSwitch := by
  rw [acoralSched] at hstep
  split_ifs at hstep
  · exact irqSwitch_of_eq hstep rfl
  · exact irqSwitch_of_eq hstep rfl
  · exact irqSwitch_of_eq hstep rfl
  · exact irqSwitch_of_eq hstep rfl
  · exact acoralSwitchContext_irqSwitch hstep

theorem acoralExitCritical_irqSwitch (hstep : acoralExitCritical cur s = some s') :
    s'.irqSwitch = s.irqSwitch := by
  rw [acoralExitCritical] at hstep
  split at hstep
  · exact (acoralSched_irqSwitch hstep).trans rfl
  · exact irqSwitch_of_eq hstep rfl

omit [DecidableEq T] in
theorem acoralEnterCritical_irqSwitch (cur : Nat) (s : CpuState T) :
    (acoralEnterCritical cur s).irqSwitch = s.irqSwitch := by
  rw [acoralEnterCritical]
  split <;> rfl

theorem criticalSection_irqSwitch {body : Sched T → Sched T}
    (hstep : criticalSection cur body s = some s') : s'.irqSwitch = s.irqSwitch :=
  (acoralExitCritical_irqSwitch hstep).trans (acoralEnterCritical_irqSwitch cur s)

/-- Only the end of an interrupt writes the flag. -/
theorem switchStep_irqSwitch {op : SwitchOp T} (hop : op ≠ .intrExit)
    (hstep : switchStep cur s op = some s') : s'.irqSwitch = s.irqSwitch := by
  cases op with
  | rdy t =>
      simp only [switchStep, cpuRdyThread] at hstep
      split at hstep
      · exact irqSwitch_of_eq hstep rfl
      · exact criticalSection_irqSwitch hstep
  | suspend t =>
      simp only [switchStep, cpuSuspendThread] at hstep
      split at hstep
      · exact irqSwitch_of_eq hstep rfl
      · exact criticalSection_irqSwitch hstep
  | changePrio t prio =>
      simp only [switchStep, cpuChangePrio, Option.ite_none_right_eq_some] at hstep
      obtain ⟨-, hstep⟩ := hstep
      split at hstep
      · exact irqSwitch_of_eq hstep rfl
      · exact criticalSection_irqSwitch hstep
  | setPreemptType t type => exact irqSwitch_of_eq hstep rfl
  | enterCritical =>
      obtain rfl := Option.some.inj hstep
      exact acoralEnterCritical_irqSwitch cur s
  | exitCritical => exact acoralExitCritical_irqSwitch hstep
  | sched => exact acoralSched_irqSwitch hstep
  | schedLock => exact irqSwitch_of_eq hstep rfl
  | schedUnlock => exact (acoralSched_irqSwitch hstep).trans rfl
  | intrEntry => exact irqSwitch_of_eq hstep rfl
  | intrExit => exact absurd rfl hop

theorem halIrqReturn_irqSwitch (hstep : halIrqReturn cur s = some s') :
    s'.irqSwitch = (acoralIntrReturn cur s).irqSwitch := by
  rw [halIrqReturn] at hstep
  split at hstep
  · exact acoralSwitchContext_irqSwitch hstep
  · exact irqSwitch_of_eq hstep rfl

/-- A step leaves the flag of a CPU set if it was set, or the step is an exit of that CPU
that meets the conditions. -/
theorem intrStep_irqSwitch (c : Nat) (s : CpuState T) (op : Nat × IntrOp T) (s' : CpuState T)
    (hstep : intrStep s op = some s') :
    s'.irqSwitch c = true ↔ s.irqSwitch c = true ∨
      op = (c, .switch .intrExit) ∧ exitPermitted c s = true := by
  obtain ⟨cur, op⟩ := op
  have hother : op ≠ .switch .intrExit → s'.irqSwitch = s.irqSwitch →
      (s'.irqSwitch c = true ↔ s.irqSwitch c = true ∨
        (cur, op) = (c, .switch .intrExit) ∧ exitPermitted c s = true) := by
    intro hop hkeep
    rw [hkeep, or_iff_left fun h => hop (Prod.mk.inj h.1).2]
  cases op with
  | switch op =>
      by_cases hop : op = .intrExit
      · subst hop
        rw [halIrqReturn_irqSwitch hstep, acoralIntrReturn_irqSwitch]
        by_cases hc : cur = c
        · simp [hc]
        · simp [hc]
      · exact hother (fun h => hop (IntrOp.switch.inj h)) (switchStep_irqSwitch hop hstep)
  | rdyqueueAdd t =>
      exact hother nofun (irqSwitch_of_eq hstep rfl)
  | rdyqueueDel t =>
      exact hother nofun (irqSwitch_of_eq hstep rfl)
  | init => exact hother nofun (irqSwitch_of_eq hstep rfl)

/-! ### Runs -/

/-- The flag of a CPU is set in a run as soon as one of its exits has met the conditions. -/
theorem irqSwitch_iff {s₀ : CpuState T} {ops : List (Nat × IntrOp T)} {n : Nat}
    (hzero : ∀ c, s₀.irqSwitch c = false) (hrun : run intrStep s₀ (ops.take n) = some s) :
    s.irqSwitch cur = true ↔
      ∃ m < n, ∃ s₁, ExitAt s₀ ops m cur s₁ ∧ exitPermitted cur s₁ = true := by
  rw [Lib.run_flag (intrStep_irqSwitch cur) hrun, hzero, or_iff_right nofun]
  constructor
  · rintro ⟨m, op, s₁, hat, rfl, hpermitted⟩
    obtain ⟨hlt, hat⟩ := Lib.stepAt_take.mp hat
    exact ⟨m, hlt, s₁, hat, hpermitted⟩
  · rintro ⟨m, hlt, s₁, hat, hpermitted⟩
    exact ⟨m, _, s₁, Lib.stepAt_take.mpr ⟨hlt, hat⟩, rfl, hpermitted⟩

/-- Take any run of any CPUs, with the flags clear at the start. An exit switches only where
the conditions are met, if and only if on each CPU no exit that misses them comes after
one that met them. -/
theorem exitsPermitted_iff {s₀ : CpuState T} (hzero : ∀ c, s₀.irqSwitch c = false)
    (ops : List (Nat × IntrOp T)) : ExitsPermitted s₀ ops ↔ PermittedFromFirst s₀ ops := by
  constructor
  · intro hall m n cur s s' hlt hm hpermitted hn
    have hflag : s'.irqSwitch cur = true :=
      (irqSwitch_iff hzero hn.2).mpr ⟨m, hlt, s, hm, hpermitted⟩
    exact hall n cur s' hn (by rw [exitSwitches_eq, hflag, Bool.true_or])
  · intro hfirst n cur s hn hswitch
    rw [exitSwitches_eq, Bool.or_eq_true] at hswitch
    rcases hswitch with hflag | hpermitted
    · obtain ⟨m, hlt, s₁, hm, hpermitted⟩ := (irqSwitch_iff hzero hn.2).mp hflag
      exact hfirst m n cur s₁ s hlt hm hpermitted hn
    · exact hpermitted

/-- An interrupt readies the more urgent thread, and its exit switches to it. That thread is
to suspend itself, and another interrupt comes before the end of its critical section. -/
def lockedExit : List (Nat × IntrOp Bool) :=
  [(0, .switch .intrEntry), (0, .switch (.rdy false)), (0, .switch .intrExit),
    (0, .switch .enterCritical), (0, .rdyqueueDel false), (0, .switch .intrEntry),
    (0, .switch .intrExit)]

/-- The operating system starts with the flags as they are. -/
theorem acoralStartOs_irqSwitch (hstart : acoralStartOs cur s = some s') :
    s'.irqSwitch = s.irqSwitch := by
  obtain ⟨next, -, rfl⟩ := Option.map_eq_some_iff.mp hstart
  rfl

/-- The first interrupt is exited as it should be. -/
theorem exitsPermitted_iff_first :
    ∃ s₀, acoralStartOs 0 (bootState 0 twoPrios twoThreads [true]) = some s₀ ∧
      (ExitsPermitted s₀ (lockedExit.take 3) ↔ PermittedFromFirst s₀ (lockedExit.take 3)) ∧
      ExitsPermitted s₀ (lockedExit.take 3) := by
  obtain ⟨s₀, hstart⟩ : ∃ s₀, acoralStartOs 0 (bootState 0 twoPrios twoThreads [true]) = some s₀ :=
    Option.isSome_iff_exists.mp (by decide +kernel)
  have hzero : ∀ c, s₀.irqSwitch c = false := by
    intro c
    rw [acoralStartOs_irqSwitch hstart]
    rfl
  have hexit : ∀ n cur s, ExitAt s₀ (lockedExit.take 3) n cur s → n = 2 := by
    rintro n cur s ⟨hn, -⟩
    match n with
    | 0     => cases hn
    | 1     => cases hn
    | 2     => rfl
    | n + 3 => cases hn
  have hiff := exitsPermitted_iff hzero (lockedExit.take 3)
  refine ⟨s₀, hstart, hiff, hiff.mpr fun m n cur s s' hlt hm _ hn => ?_⟩
  rw [hexit m cur s hm, hexit n cur s' hn] at hlt
  exact absurd hlt (Nat.lt_irrefl 2)

/-- The second exit switches to the other thread, with the scheduler locked. -/
theorem exitsPermitted_fails :
    ∃ s₀ s s', acoralStartOs 0 (bootState 0 twoPrios twoThreads [true]) = some s₀ ∧
      ExitAt s₀ lockedExit 6 0 s ∧ halIrqReturn 0 s = some s' ∧
      s.schedLock 0 = true ∧ s.criticalNesting 0 = 1 ∧
      s.running 0 = false ∧ s'.running 0 = true ∧
      exitSwitches 0 s = true ∧ exitPermitted 0 s = false ∧ ¬ ExitsPermitted s₀ lockedExit := by
  have heval : ((acoralStartOs 0 (bootState 0 twoPrios twoThreads [true])).any fun s₀ =>
      (run intrStep s₀ (lockedExit.take 6)).any fun s =>
        ((halIrqReturn 0 s).any fun s' => decide (s'.running 0 = true)) &&
        decide (s.schedLock 0 = true ∧ s.criticalNesting 0 = 1 ∧ s.running 0 = false) &&
        decide (exitSwitches 0 s = true ∧ exitPermitted 0 s = false)) = true := by
    decide +kernel
  obtain ⟨s₀, hstart, h⟩ := (Option.any_eq_true ..).mp heval
  obtain ⟨s, hrun, h⟩ := (Option.any_eq_true ..).mp h
  simp only [Bool.and_eq_true, decide_eq_true_eq, Option.any_eq_true] at h
  obtain ⟨⟨⟨s', hreturn, hafter⟩, hlock, hnesting, hbefore⟩, hswitch, hnot⟩ := h
  have hat : ExitAt s₀ lockedExit 6 0 s := ⟨rfl, hrun⟩
  refine ⟨s₀, s, s', hstart, hat, hreturn, hlock, hnesting, hbefore, hafter, hswitch, hnot,
    fun hall => ?_⟩
  exact absurd (hall 6 0 s hat hswitch) (by rw [hnot]; decide)

end ACoral
