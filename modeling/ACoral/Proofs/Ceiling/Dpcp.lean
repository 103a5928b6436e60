import ACoral.Kernel.Dpcp
import ACoral.Proofs.Ceiling.Ops

/-!
# `ACoral.Proofs.Ceiling.Dpcp`: the steps of DPCP

What a round of `acoral_dpcp_pend` and what `acoral_dpcp_post` do, as long as
the semaphores count the use of the resources, and a round that passes the
ceiling test finds its resource free (`passesFree`).

`DpcpMove` says once what a step can do; the invariants of the runs are
proved by its cases.
-/

set_option autoImplicit false

namespace ACoral

open CeilingState

variable {R T : Type} [DecidableEq R] [DecidableEq T]

/-! ### The functions -/

/-- The flag is never set: `prio_switch` has 8 bits. -/
theorem prioSwitch_flag : ∀ v : BitVec 8, v.setWidth 32 &&& PRIO_SWITCH_FLAG_MASK = 0 := by
  unfold PRIO_SWITCH_FLAG_MASK
  decide

/-- So nothing is restored. -/
theorem dpcpRestore_eq (cur : T) (r : R) (s : CeilingState R DpcpSystem T) :
    dpcpRestore cur r s = s.setOwner r none := by
  unfold dpcpRestore
  simp [prioSwitch_flag]

/-- A round that finds the system's priority at least as urgent: the user of
the top, for a local resource, gets the priority of the caller, who enters
the wait queue. -/
structure DpcpQueued (fuel : Nat) (cur : T) (r : R) (s s' : CeilingState R DpcpSystem T) :
    Prop where
  full : s.sysPrio (s.dpcpSystem r) ≤ s.prio cur
  added : ∃ s₁, s₁.waitAdd fuel (s.dpcpSystem r) cur = some s' ∧
    ((s.res r).type = .GLOBAL ∧ s₁ = s ∨
      (s.res r).type = .LOCAL ∧ ∃ last t, s.stackTop (s.dpcpSystem r) = some last ∧
        s.owner last = some t ∧ s₁ = s.changePrio t (s.prio cur))

theorem dpcpRound_queued {fuel : Nat} {cur : T} {r : R} {s s' : CeilingState R DpcpSystem T}
    {res : CeilingResult} (hfull : s.sysPrio (s.dpcpSystem r) ≤ s.prio cur)
    (hround : dpcpRound fuel cur r s = some (res, s')) :
    res = .queued ∧ DpcpQueued fuel cur r s s' := by
  simp only [dpcpRound, ge_iff_le, hfull, if_true] at hround
  cases htype : (s.res r).type with
  | LOCAL =>
      simp only [htype] at hround
      obtain ⟨s₁, hinherit, hround⟩ := Option.bind_eq_some_iff.mp hround
      obtain ⟨s₂, hadd, heq⟩ := Option.map_eq_some_iff.mp hround
      obtain ⟨rfl, rfl⟩ := Prod.mk.inj heq
      obtain ⟨-, last, t, hlast, ht, hs₁⟩ := SameRes.inheritPrio hinherit
      exact ⟨rfl, hfull, s₁, hadd, Or.inr ⟨htype, last, t, hlast, ht, hs₁⟩⟩
  | GLOBAL =>
      simp only [htype] at hround
      obtain ⟨s₂, hadd, heq⟩ := Option.map_eq_some_iff.mp hround
      obtain ⟨rfl, rfl⟩ := Prod.mk.inj heq
      exact ⟨rfl, hfull, s, hadd, Or.inl ⟨htype, rfl⟩⟩

theorem DpcpQueued.sameRes {fuel : Nat} {cur : T} {r : R}
    {s s' : CeilingState R DpcpSystem T} (h : DpcpQueued fuel cur r s s') : SameRes s s' := by
  obtain ⟨s₁, hadd, ⟨-, rfl⟩ | ⟨-, last, t, -, -, rfl⟩⟩ := h.added
  · exact SameRes.waitAdd hadd
  · exact (SameRes.changePrio s t _).trans (SameRes.waitAdd hadd)

/-- A round that passes the test, with the resource free: the resource is
pushed and taken. -/
structure DpcpPassed (cur : T) (r : R) (s s' : CeilingState R DpcpSystem T) : Prop where
  pass : s.prio cur < s.sysPrio (s.dpcpSystem r)
  free : s.owner r = none
  taken : ∃ s₁ v, s.push (s.dpcpSystem r) r = some s₁ ∧
    ((s.res r).type = .GLOBAL ∧ s' = s₁.take r cur ∨
      (s.res r).type = .LOCAL ∧ s' = (s₁.setPrioSwitch r v).take r cur)

theorem dpcpRound_passed {fuel : Nat} {cur : T} {r : R} {s s' : CeilingState R DpcpSystem T}
    {res : CeilingResult} (hpass : s.prio cur < s.sysPrio (s.dpcpSystem r)) (hsems : s.Sems)
    (hfree : s.owner r = none) (hround : dpcpRound fuel cur r s = some (res, s')) :
    res = .ret .KR_OK ∧ DpcpPassed cur r s s' := by
  have htake : ∀ s₁ : CeilingState R DpcpSystem T, s₁.ipc = s.ipc →
      dpcpTake fuel cur r s₁ = some (.ret .KR_OK, s₁.take r cur) := fun s₁ hipc => by
    have hs : s₁.SemOk r := (hsems r).congr (by rw [hipc])
    have hf : s₁.owner r = none := by
      unfold CeilingState.owner at hfree ⊢
      rwa [hipc]
    unfold dpcpTake
    rw [semPend_own hs hf]
    rfl
  simp only [dpcpRound, ge_iff_le, Nat.not_le.mpr hpass, if_false] at hround
  obtain ⟨s₁, hpush, hround⟩ := Option.bind_eq_some_iff.mp hround
  have hsame := SameButStack.push hpush
  have hipc := hsame.ipc
  have hres : (s₁.res r).type = (s.res r).type := by rw [hsame.res]
  cases htype : (s.res r).type with
  | LOCAL =>
      simp only [hres, htype] at hround
      rw [htake (s₁.setPrioSwitch r _) hipc] at hround
      obtain ⟨rfl, rfl⟩ := Prod.mk.inj (Option.some.inj hround)
      exact ⟨rfl, hpass, hfree, s₁, _, hpush, Or.inr ⟨htype, rfl⟩⟩
  | GLOBAL =>
      simp only [hres, htype] at hround
      rw [htake s₁ hipc] at hround
      obtain ⟨rfl, rfl⟩ := Prod.mk.inj (Option.some.inj hround)
      exact ⟨rfl, hpass, hfree, s₁, 0, hpush, Or.inl ⟨htype, rfl⟩⟩

/-- A round that passes the test returns. -/
theorem dpcpRound_ret {fuel : Nat} {cur : T} {r : R} {s s' : CeilingState R DpcpSystem T}
    {res : CeilingResult} (hpass : s.prio cur < s.sysPrio (s.dpcpSystem r))
    (hround : dpcpRound fuel cur r s = some (res, s')) : ∃ e, res = .ret e := by
  have htake : ∀ y : CeilingState R DpcpSystem T, dpcpTake fuel cur r y = some (res, s') →
      ∃ e, res = .ret e := fun y hy => by
    obtain ⟨⟨res', y'⟩, hpend, hy⟩ := Option.bind_eq_some_iff.mp hy
    cases res' with
    | ret e => exact ⟨e, (Prod.mk.inj (Option.some.inj hy)).1.symm⟩
    | queued => exact absurd rfl (semPend_not_queued hpend)
    | blocked =>
        obtain ⟨⟨e, ipc⟩, -, hres⟩ := Option.map_eq_some_iff.mp hy
        exact ⟨e, (Prod.mk.inj hres).1.symm⟩
  simp only [dpcpRound, ge_iff_le, Nat.not_le.mpr hpass, if_false] at hround
  obtain ⟨s₁, -, hround⟩ := Option.bind_eq_some_iff.mp hround
  split at hround <;> exact htake _ hround

/-- What readying the head of the wait queue does. -/
theorem dpcpWake_cases {k : DpcpSystem} {s s' : CeilingState R DpcpSystem T}
    (h : dpcpWake k s = some s') :
    s.waitHead k = some none ∧ s' = s ∨
      ∃ t s₁, s.waitHead k = some (some t) ∧ s.waitDel t = some s₁ ∧ s' = s₁.rdyThread t := by
  obtain ⟨v, hv, h⟩ := Option.bind_eq_some_iff.mp h
  cases v with
  | none => exact Or.inl ⟨hv, (Option.some.inj h).symm⟩
  | some t =>
      obtain ⟨s₁, hdel, rfl⟩ := Option.map_eq_some_iff.mp h
      exact Or.inr ⟨t, s₁, hv, hdel, rfl⟩

omit [DecidableEq R] in
/-- A migration keeps the priorities, and a READY caller is READY behind it. -/
theorem jumpCpu_thread (s : CeilingState R DpcpSystem T) (cur : T) (cpu : Nat) (t : T)
    (hcur : s.isReady cur = true) :
    (jumpCpu s cur cpu).prio t = s.prio t ∧ (jumpCpu s cur cpu).isReady t = s.isReady t ∧
    (t ≠ cur → (jumpCpu s cur cpu).cpu t = s.cpu t ∧
      (jumpCpu s cur cpu).isSuspended t = s.isSuspended t) := by
  unfold jumpCpu
  split
  · exact ⟨rfl, rfl, fun _ => ⟨rfl, rfl⟩⟩
  · have hflags := fun u => CeilingState.suspendSelf_flags s cur u hcur
    refine ⟨by simp, ?_, fun ht => ⟨?_, ?_⟩⟩
    · rw [rdyThread_isReady, setCpu_isSuspended, setCpu_isReady, (hflags cur).2, (hflags t).1]
      by_cases ht : t = cur
      · simp [ht, hcur]
      · simp [ht]
    · rw [rdyThread_cpu, setCpu_cpu, if_neg ht, suspendSelf_cpu]
    · rw [rdyThread_isSuspended, if_neg ht, setCpu_isSuspended, (hflags t).2, if_neg ht]

omit [DecidableEq R] in
theorem jumpCpu_links (s : CeilingState R DpcpSystem T) (cur : T) (cpu : Nat) :
    (jumpCpu s cur cpu).ipc.links = s.ipc.links := by
  unfold jumpCpu
  split <;> rfl

omit [DecidableEq R] in
/-- A migration wakes nobody else. -/
theorem CeilingState.Asleep.jumpCpu {s : CeilingState R DpcpSystem T} {cur t : T} {cpu : Nat}
    (h : s.Asleep t) (hcur : s.isReady cur = true) (ht : t ≠ cur) :
    (ACoral.jumpCpu s cur cpu).Asleep t := by
  obtain ⟨-, hready, hother⟩ := jumpCpu_thread s cur cpu t hcur
  exact ⟨hready.trans h.1, (hother ht).2.trans h.2⟩

omit [DecidableEq R] in
theorem SameRes.jumpCpu (s : CeilingState R DpcpSystem T) (cur : T) (cpu : Nat) :
    SameRes s (jumpCpu s cur cpu) := by
  unfold ACoral.jumpCpu
  split
  · exact SameRes.refl s
  · exact ((SameRes.suspendSelf s cur).trans (SameRes.setCpu _ cur cpu)).trans
      (SameRes.rdyThread _ cur)

theorem SameRes.dpcpWake {k : DpcpSystem} {s s' : CeilingState R DpcpSystem T}
    (h : ACoral.dpcpWake k s = some s') : SameRes s s' := by
  rcases dpcpWake_cases h with ⟨-, rfl⟩ | ⟨t, s₁, -, hdel, rfl⟩
  · exact SameRes.refl s'
  · exact (SameRes.waitDel hdel).trans (SameRes.rdyThread s₁ t)

theorem dpcpWake_prio {k : DpcpSystem} {s s' : CeilingState R DpcpSystem T}
    (h : dpcpWake k s = some s') (t : T) : s'.prio t = s.prio t := by
  rcases dpcpWake_cases h with ⟨-, rfl⟩ | ⟨u, s₁, -, hdel, rfl⟩
  · rfl
  · obtain ⟨links, -, rfl⟩ := Option.map_eq_some_iff.mp hdel
    rw [rdyThread_prio]
    rfl

/-- A post by the owner: the resource leaves the stack, the head of the wait
queue is readied, and the semaphore is given back. For a global resource the
preemption type is switched back, and the caller migrates when the word of
its data names another CPU. -/
structure DpcpPosted (cur : T) (r : R) (s : CeilingState R DpcpSystem T) (c : Option Nat)
    (s' : CeilingState R DpcpSystem T) : Prop where
  owner : s.owner r = some cur
  posted : ∃ s₀ s₁ s₂, s₀.pop (s.dpcpSystem r) r = some s₁ ∧
    dpcpWake (s.dpcpSystem r) s₁ = some s₂ ∧
    ((s.res r).type = .LOCAL ∧ (s.res r).cpu = s.cpu cur ∧ s₀ = s ∧ c = none ∧ s' = s₂.drop r ∨
      (s.res r).type = .GLOBAL ∧
        s₀ = s.switchPreempt cur .ACORAL_PREEMPT_GLOBAL .ACORAL_PREEMPT_LOCAL ∧
        ((∃ p, s.data cur = some p ∧ p.word ≠ s.cpu cur ∧ c = some p.word ∧
            s' = { s₂.drop r with data := Function.update s₂.data cur none }) ∨
          (∀ p, s.data cur = some p → p.word = s.cpu cur) ∧ c = none ∧ s' = s₂.drop r))

/-- The post clears the owner and gives the semaphore back. -/
theorem dpcpRestore_semPost {cur : T} {r : R} {s : CeilingState R DpcpSystem T} (hsems : s.Sems)
    (howner : s.owner r = some cur) {s₂ : CeilingState R DpcpSystem T}
    (hobj : s₂.ipc.ipc = s.ipc.ipc) :
    (dpcpRestore cur r s₂).semPost r = some (.KR_OK, s₂.drop r) := by
  obtain ⟨htype, hcount⟩ := hsems r
  rw [howner, if_neg (by simp)] at hcount
  rw [dpcpRestore_eq]
  exact semPost_clear (by rw [hobj]; exact htype) (by rw [hobj]; exact hcount)

theorem acoralDpcpPost_cases {cur : T} {r : R} {s s' : CeilingState R DpcpSystem T}
    {e : KernelError} {c : Option Nat} (hsems : s.Sems)
    (hpost : acoralDpcpPost cur r s = some (e, c, s')) :
    e ≠ .KR_OK ∧ c = none ∧ s' = s ∨ e = .KR_OK ∧ DpcpPosted cur r s c s' := by
  unfold acoralDpcpPost at hpost
  by_cases howner : s.owner r = some cur
  case neg =>
    simp only [ne_eq, howner, not_false_eq_true, if_true, Option.some.injEq, Prod.mk.injEq] at hpost
    obtain ⟨rfl, rfl, rfl⟩ := hpost
    exact Or.inl ⟨by decide, rfl, rfl⟩
  simp only [ne_eq, howner, not_true_eq_false, if_false] at hpost
  cases htype : (s.res r).type with
  | LOCAL =>
      simp only [htype] at hpost
      by_cases hcpu : (s.res r).cpu = s.cpu cur
      case neg =>
        simp only [hcpu, not_false_eq_true, if_true, Option.some.injEq, Prod.mk.injEq] at hpost
        obtain ⟨rfl, rfl, rfl⟩ := hpost
        exact Or.inl ⟨by decide, rfl, rfl⟩
      simp only [hcpu, not_true_eq_false, if_false] at hpost
      have hsys : s.dpcpSystem r = (.LOCAL, s.cpu cur) := by
        unfold CeilingState.dpcpSystem
        rw [htype, hcpu]
      obtain ⟨s₁, hpop, hpost⟩ := Option.bind_eq_some_iff.mp hpost
      obtain ⟨s₂, hwake, hpost⟩ := Option.bind_eq_some_iff.mp hpost
      have hobj : s₂.ipc.ipc = s.ipc.ipc := by
        rw [(SameRes.dpcpWake hwake).obj, (SameButStack.pop hpop).ipc]
      rw [dpcpRestore_semPost hsems howner hobj] at hpost
      simp only [Option.map_some, Option.some.injEq, Prod.mk.injEq] at hpost
      obtain ⟨rfl, rfl, rfl⟩ := hpost
      refine Or.inr ⟨rfl, howner, s, s₁, s₂, ?_, ?_, Or.inl ⟨htype, hcpu, rfl, rfl, rfl⟩⟩
      · rw [hsys]
        exact hpop
      · rw [hsys]
        exact hwake
  | GLOBAL =>
      simp only [htype] at hpost
      have hswitch := SameRes.switchPreempt s cur .ACORAL_PREEMPT_GLOBAL .ACORAL_PREEMPT_LOCAL
      have hsys : ∀ y : CeilingState R DpcpSystem T, y.res = s.res →
          y.dpcpSystem r = s.dpcpSystem r := fun y hy => by
        unfold CeilingState.dpcpSystem
        rw [hy]
      obtain ⟨s₁, hpop, hpost⟩ := Option.bind_eq_some_iff.mp hpost
      obtain ⟨s₂, hwake, hpost⟩ := Option.bind_eq_some_iff.mp hpost
      have hpopped := SameButStack.pop hpop
      rw [hsys _ hswitch.res] at hpop
      rw [hsys _ (hpopped.res.trans hswitch.res)] at hwake
      have hobj : s₂.ipc.ipc = s.ipc.ipc := by
        rw [(SameRes.dpcpWake hwake).obj, hpopped.ipc, hswitch.obj]
      rw [dpcpRestore_semPost hsems howner hobj, Option.map_some, Option.some.injEq] at hpost
      refine Or.inr ?_
      cases hdata : s.data cur with
      | none =>
          simp only [hdata, Prod.mk.injEq] at hpost
          obtain ⟨rfl, rfl, rfl⟩ := hpost
          exact ⟨rfl, howner, _, s₁, s₂, hpop, hwake,
            Or.inr ⟨htype, rfl, Or.inr ⟨fun p hp => absurd (hdata.symm.trans hp) (by simp), rfl, rfl⟩⟩⟩
      | some p =>
          by_cases hword : p.word = s.cpu cur
          · simp only [hdata, hword, not_true_eq_false, if_false, Prod.mk.injEq] at hpost
            obtain ⟨rfl, rfl, rfl⟩ := hpost
            exact ⟨rfl, howner, _, s₁, s₂, hpop, hwake, Or.inr ⟨htype, rfl, Or.inr
              ⟨fun q hq => (Option.some.inj (hdata.symm.trans hq)) ▸ hword, rfl, rfl⟩⟩⟩
          · simp only [hdata, hword, not_false_eq_true, if_true, Prod.mk.injEq] at hpost
            obtain ⟨rfl, rfl, rfl⟩ := hpost
            exact ⟨rfl, howner, _, s₁, s₂, hpop, hwake,
              Or.inr ⟨htype, rfl, Or.inl ⟨p, hdata, hword, rfl, rfl⟩⟩⟩

/-! ### Steps -/

section Pc

variable (x : DpcpRun R T) (c : CeilingCall) (cur t : T) (r : R) (e : KernelError)
  (s : CeilingState R DpcpSystem T)

omit [DecidableEq R] in
theorem ret_pc : (x.ret c cur r e s).pc t = if t = cur then .idle else x.pc t := by
  unfold DpcpRun.ret
  by_cases ht : t = cur <;> simp [ht]

omit [DecidableEq R] in
theorem goto_pc (pc : DpcpPc R) : (x.goto cur pc s).pc t = if t = cur then pc else x.pc t := by
  unfold DpcpRun.goto
  by_cases ht : t = cur <;> simp [ht]

omit [DecidableEq R] in
theorem round_pc (res : CeilingResult × CeilingState R DpcpSystem T) :
    (x.round cur r res).pc t =
      if t = cur then (match res.1 with | .ret _ => .idle | _ => .suspend r) else x.pc t := by
  obtain ⟨_ | _ | _, s⟩ := res
  · exact ret_pc ..
  · exact goto_pc ..
  · exact goto_pc ..

end Pc

/-- The thread that makes the ceiling test in a step, and its resource. -/
def dpcpTests (x : DpcpRun R T) : CeilingOp R T → Option (T × R)
  | .call .pend cur r =>
      if (x.st.res r).cpu = x.st.cpu cur then some (cur, r) else none
  | .call .post _ _ => none
  | .resume cur =>
      match x.pc cur with
      | .enter r => some (cur, r)
      | .wait r  => some (cur, r)
      | _        => none

/-- A thread that passes the ceiling test finds its resource free. -/
def passesFree (x : DpcpRun R T) (op : CeilingOp R T) : Bool :=
  match dpcpTests x op with
  | none          => true
  | some (cur, r) =>
      decide (x.st.sysPrio (x.st.dpcpSystem r) ≤ x.st.prio cur ∨ x.st.owner r = none)

/-- A step with a ceiling test is a round of the loop. The preemption type is
switched before the first one for a global resource. -/
theorem dpcpStep_tests {fuel : Nat} {x x' : DpcpRun R T} {op : CeilingOp R T} {cur : T} {r : R}
    (htests : dpcpTests x op = some (cur, r)) (hstep : dpcpStep fuel x op = some x') :
    ∃ s res, (s = x.st ∨
        s = x.st.switchPreempt cur .ACORAL_PREEMPT_LOCAL .ACORAL_PREEMPT_GLOBAL) ∧
      dpcpRound fuel cur r s = some res ∧ x' = x.round cur r res := by
  cases op with
  | call c t q =>
      cases c with
      | post => exact absurd htests (by simp [dpcpTests])
      | pend =>
          obtain ⟨hcpu, heq⟩ := Option.ite_none_right_eq_some.mp htests
          obtain ⟨rfl, rfl⟩ := Prod.mk.inj (Option.some.inj heq)
          obtain ⟨-, hstep⟩ := Option.ite_none_right_eq_some.mp hstep
          simp only [dpcpPend] at hstep
          cases htype : (x.st.res q).type with
          | LOCAL =>
              simp only [htype, hcpu, ne_eq, not_true_eq_false, if_false] at hstep
              obtain ⟨res, hround, rfl⟩ := Option.map_eq_some_iff.mp hstep
              exact ⟨_, res, Or.inl rfl, hround, rfl⟩
          | GLOBAL =>
              simp only [htype, hcpu, ne_eq, not_true_eq_false, if_false] at hstep
              obtain ⟨res, hround, rfl⟩ := Option.map_eq_some_iff.mp hstep
              exact ⟨_, res, Or.inr rfl, hround, rfl⟩
  | resume t =>
      obtain ⟨-, hstep⟩ := Option.ite_none_right_eq_some.mp hstep
      unfold dpcpResume at hstep
      cases hpc : x.pc t with
      | enter q =>
          simp only [dpcpTests, hpc, Option.some.injEq, Prod.mk.injEq] at htests
          obtain ⟨rfl, rfl⟩ := htests
          rw [hpc] at hstep
          obtain ⟨res, hround, rfl⟩ := Option.map_eq_some_iff.mp hstep
          exact ⟨_, res, Or.inr rfl, hround, rfl⟩
      | wait q =>
          simp only [dpcpTests, hpc, Option.some.injEq, Prod.mk.injEq] at htests
          obtain ⟨rfl, rfl⟩ := htests
          rw [hpc] at hstep
          obtain ⟨res, hround, rfl⟩ := Option.map_eq_some_iff.mp hstep
          exact ⟨_, res, Or.inl rfl, hround, rfl⟩
      | _ => simp [dpcpTests, hpc] at htests

/-- The thread that makes the test is READY, and where it can be. -/
theorem dpcpTests_cur {fuel : Nat} {x x' : DpcpRun R T} {op : CeilingOp R T} {cur : T} {r : R}
    (htests : dpcpTests x op = some (cur, r)) (hstep : dpcpStep fuel x op = some x') :
    x.st.isReady cur = true ∧ (x.pc cur = .idle ∨ x.pc cur = .enter r ∨ x.pc cur = .wait r) := by
  cases op with
  | call c t q =>
      cases c with
      | post => exact absurd htests (by simp [dpcpTests])
      | pend =>
          obtain ⟨-, heq⟩ := Option.ite_none_right_eq_some.mp htests
          obtain ⟨rfl, rfl⟩ := Prod.mk.inj (Option.some.inj heq)
          obtain ⟨⟨hready, hidle⟩, -⟩ := Option.ite_none_right_eq_some.mp hstep
          exact ⟨hready, Or.inl hidle⟩
  | resume t =>
      obtain ⟨hready, -⟩ := Option.ite_none_right_eq_some.mp hstep
      cases hpc : x.pc t with
      | enter q =>
          simp only [dpcpTests, hpc, Option.some.injEq, Prod.mk.injEq] at htests
          obtain ⟨rfl, rfl⟩ := htests
          exact ⟨hready, Or.inr (Or.inl hpc)⟩
      | wait q =>
          simp only [dpcpTests, hpc, Option.some.injEq, Prod.mk.injEq] at htests
          obtain ⟨rfl, rfl⟩ := htests
          exact ⟨hready, Or.inr (Or.inr hpc)⟩
      | _ => simp [dpcpTests, hpc] at htests

/-- What a step can do. -/
inductive DpcpMove (fuel : Nat) (x : DpcpRun R T) : CeilingOp R T → DpcpRun R T → Prop where
  /-- a round that fails the test -/
  | queued {op : CeilingOp R T} {cur : T} {r : R} {s s' : CeilingState R DpcpSystem T}
      (htests : dpcpTests x op = some (cur, r)) (hready : x.st.isReady cur = true)
      (hpc : x.pc cur = .idle ∨ x.pc cur = .enter r ∨ x.pc cur = .wait r)
      (hs : s = x.st ∨ s = x.st.switchPreempt cur .ACORAL_PREEMPT_LOCAL .ACORAL_PREEMPT_GLOBAL)
      (hqueued : DpcpQueued fuel cur r s s') : DpcpMove fuel x op (x.goto cur (.suspend r) s')
  /-- a round that passes it -/
  | passed {op : CeilingOp R T} {cur : T} {r : R} {s s' : CeilingState R DpcpSystem T}
      (htests : dpcpTests x op = some (cur, r)) (hready : x.st.isReady cur = true)
      (hpc : x.pc cur = .idle ∨ x.pc cur = .enter r ∨ x.pc cur = .wait r)
      (hs : s = x.st ∨ s = x.st.switchPreempt cur .ACORAL_PREEMPT_LOCAL .ACORAL_PREEMPT_GLOBAL)
      (hpassed : DpcpPassed cur r s s') : DpcpMove fuel x op (x.ret .pend cur r .KR_OK s')
  /-- a pend of a local resource of another CPU -/
  | refused {cur : T} {r : R} (hidle : x.pc cur = .idle) :
      DpcpMove fuel x (.call .pend cur r) (x.ret .pend cur r .KR_IPC_ERR_CPU x.st)
  /-- a pend of a global resource of another CPU -/
  | leave {cur : T} {r : R} (hidle : x.pc cur = .idle) (htype : (x.st.res r).type = .GLOBAL)
      (hcpu : x.st.cpu cur ≠ (x.st.res r).cpu) :
      DpcpMove fuel x (.call .pend cur r) (x.goto cur (.jump r)
        { x.st with data := Function.update x.st.data cur (some (.origin (x.st.cpu cur))) })
  /-- a post that fails -/
  | failed {cur : T} {r : R} {e : KernelError} (hidle : x.pc cur = .idle) (he : e ≠ .KR_OK) :
      DpcpMove fuel x (.call .post cur r) (x.ret .post cur r e x.st)
  /-- a post by the owner -/
  | posted {cur : T} {r : R} {s' : CeilingState R DpcpSystem T} (hidle : x.pc cur = .idle)
      (hposted : DpcpPosted cur r x.st none s') :
      DpcpMove fuel x (.call .post cur r) (x.ret .post cur r .KR_OK s')
  /-- a post by the owner, who migrates back -/
  | left {cur : T} {r : R} {cpu : Nat} {s' : CeilingState R DpcpSystem T} (hidle : x.pc cur = .idle)
      (hposted : DpcpPosted cur r x.st (some cpu) s') :
      DpcpMove fuel x (.call .post cur r) (x.goto cur (.back r cpu .KR_OK) s')
  /-- the migration to the CPU of the resource -/
  | jump {cur : T} {r : R} (hready : x.st.isReady cur = true) (hpc : x.pc cur = .jump r) :
      DpcpMove fuel x (.resume cur) (x.goto cur (.enter r) (jumpCpu x.st cur (x.st.res r).cpu))
  /-- `acoral_suspend_self` -/
  | suspend {cur : T} {r : R} (hready : x.st.isReady cur = true) (hpc : x.pc cur = .suspend r) :
      DpcpMove fuel x (.resume cur) (x.goto cur (.wait r) (x.st.suspendSelf cur))
  /-- the migration back -/
  | back {cur : T} {r : R} {cpu : Nat} {e : KernelError} (hready : x.st.isReady cur = true)
      (hpc : x.pc cur = .back r cpu e) :
      DpcpMove fuel x (.resume cur) (x.ret .post cur r e (jumpCpu x.st cur cpu))

omit [DecidableEq R] in
/-- The state of a round is that of the run but for a preemption type. -/
theorem switched {x : DpcpRun R T} {cur : T} {s : CeilingState R DpcpSystem T}
    (hs : s = x.st ∨ s = x.st.switchPreempt cur .ACORAL_PREEMPT_LOCAL .ACORAL_PREEMPT_GLOBAL) :
    SameRes x.st s ∧ s.ipc = x.st.ipc ∧ ∀ t, s.prio t = x.st.prio t := by
  rcases hs with rfl | rfl
  · exact ⟨SameRes.refl x.st, rfl, fun _ => rfl⟩
  · refine ⟨SameRes.switchPreempt .., switchPreempt_ipc .., fun t => ?_⟩
    unfold CeilingState.prio
    rw [switchPreempt_ipc]

theorem dpcpStep_move {fuel : Nat} {x x' : DpcpRun R T} {op : CeilingOp R T} (hsems : x.st.Sems)
    (hguard : passesFree x op = true) (hstep : dpcpStep fuel x op = some x') :
    DpcpMove fuel x op x' := by
  cases htests : dpcpTests x op with
  | some p =>
      obtain ⟨cur, r⟩ := p
      obtain ⟨hready, hpc⟩ := dpcpTests_cur htests hstep
      obtain ⟨s, ⟨res, s'⟩, hs, hround, rfl⟩ := dpcpStep_tests htests hstep
      obtain ⟨hsame, -, hprio⟩ := switched hs
      by_cases hfull : s.sysPrio (s.dpcpSystem r) ≤ s.prio cur
      · obtain ⟨rfl, hqueued⟩ := dpcpRound_queued hfull hround
        exact .queued htests hready hpc hs hqueued
      · have hfree : s.owner r = none := by
          have hor : x.st.sysPrio (x.st.dpcpSystem r) ≤ x.st.prio cur ∨ x.st.owner r = none := by
            simpa [passesFree, htests] using hguard
          rw [hsame.owner r]
          refine hor.resolve_left fun hle => hfull ?_
          unfold CeilingState.dpcpSystem at hle ⊢
          rwa [hsame.sysPrio, hsame.res, hprio]
        obtain ⟨rfl, hpassed⟩ := dpcpRound_passed (Nat.lt_of_not_le hfull)
          (hsems.sameRes hsame) hfree hround
        exact .passed htests hready hpc hs hpassed
  | none =>
      cases op with
      | call c cur r =>
          obtain ⟨⟨-, hidle⟩, hstep⟩ := Option.ite_none_right_eq_some.mp hstep
          cases c with
          | pend =>
              have hcpu : (x.st.res r).cpu ≠ x.st.cpu cur := fun he => by
                simp [dpcpTests, he] at htests
              simp only [dpcpPend] at hstep
              cases htype : (x.st.res r).type with
              | LOCAL =>
                  simp only [htype, if_pos hcpu] at hstep
                  obtain rfl := Option.some.inj hstep
                  exact .refused hidle
              | GLOBAL =>
                  simp only [htype, if_pos hcpu.symm] at hstep
                  obtain rfl := Option.some.inj hstep
                  exact .leave hidle htype hcpu.symm
          | post =>
              simp only [dpcpPost] at hstep
              obtain ⟨⟨e, c, s'⟩, hpost, hx'⟩ := Option.map_eq_some_iff.mp hstep
              rcases acoralDpcpPost_cases hsems hpost with ⟨herr, rfl, rfl⟩ | ⟨rfl, hposted⟩
              · obtain rfl := hx'
                exact .failed hidle herr
              · cases c with
                | none =>
                    obtain rfl := hx'
                    exact .posted hidle hposted
                | some cpu =>
                    obtain rfl := hx'
                    exact .left hidle hposted
      | resume cur =>
          obtain ⟨hready, hstep⟩ := Option.ite_none_right_eq_some.mp hstep
          unfold dpcpResume at hstep
          cases hpc : x.pc cur with
          | idle =>
              rw [hpc] at hstep
              exact absurd hstep (by simp)
          | enter r => simp [dpcpTests, hpc] at htests
          | wait r => simp [dpcpTests, hpc] at htests
          | jump r =>
              rw [hpc] at hstep
              obtain rfl := Option.some.inj hstep
              exact .jump hready hpc
          | suspend r =>
              rw [hpc] at hstep
              obtain rfl := Option.some.inj hstep
              exact .suspend hready hpc
          | back r cpu e =>
              rw [hpc] at hstep
              obtain rfl := Option.some.inj hstep
              exact .back hready hpc

/-- Only the post of a global resource migrates back. -/
theorem DpcpMove.of_back {fuel : Nat} {x x' : DpcpRun R T} {op : CeilingOp R T}
    (hmove : DpcpMove fuel x op x') {t : T} {r : R} {cpu : Nat} {e : KernelError}
    (hback : x'.pc t = .back r cpu e) :
    x.pc t = .back r cpu e ∨ (x.st.res r).type = .GLOBAL ∧ e = .KR_OK := by
  have hret : ∀ c cur q err s, (x.ret c cur q err s).pc t = .back r cpu e →
      x.pc t = .back r cpu e := fun c cur q err s h => by
    rw [ret_pc] at h
    split at h
    · exact absurd h (by simp)
    · exact h
  have hgoto : ∀ cur pc s, pc ≠ .back r cpu e → (x.goto cur pc s).pc t = .back r cpu e →
      x.pc t = .back r cpu e := fun cur pc s hne h => by
    rw [goto_pc] at h
    split at h
    · exact absurd h hne
    · exact h
  cases hmove with
  | queued => exact Or.inl (hgoto _ _ _ (by simp) hback)
  | passed => exact Or.inl (hret _ _ _ _ _ hback)
  | refused => exact Or.inl (hret _ _ _ _ _ hback)
  | leave => exact Or.inl (hgoto _ _ _ (by simp) hback)
  | failed => exact Or.inl (hret _ _ _ _ _ hback)
  | posted => exact Or.inl (hret _ _ _ _ _ hback)
  | @left cur q cpu' s' hidle hposted =>
      rw [goto_pc] at hback
      split at hback
      · obtain ⟨rfl, rfl, rfl⟩ := DpcpPc.back.inj hback
        obtain ⟨-, -, -, -, -, ⟨-, -, -, hc, -⟩ | ⟨htype, -⟩⟩ := hposted.posted
        · exact absurd hc (by simp)
        · exact Or.inr ⟨htype, rfl⟩
      · exact Or.inl hback
  | jump => exact Or.inl (hgoto _ _ _ (by simp) hback)
  | suspend => exact Or.inl (hgoto _ _ _ (by simp) hback)
  | back => exact Or.inl (hret _ _ _ _ _ hback)

end ACoral
