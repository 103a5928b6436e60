import ACoral.Proofs.Pending.Effect

/-!
# `ACoral.Proofs.Ceiling.Calls`: the ceiling protocols on one set of systems

At the systems of one protocol, the operations of `ACoral.Kernel.CeilingCalls`
are those of its own module (`acoralMpcpPend_eq`, `dpcpRound_eq` and their
siblings).

What a call does to the `pending` nodes (`CeilingEffect`): it leaves them
alone, or links its caller into the wait queue of the system, or into that
of the semaphore. In `acoral_dpcp_pend` a caller that enters the queue of
the semaphore leaves it in the same critical section.
-/

set_option autoImplicit false

namespace ACoral

variable {R K T : Type} [DecidableEq R] [DecidableEq K] [DecidableEq T]

/-! ### One protocol -/

/-- On the CPUs, the pend is that of MPCP. -/
theorem acoralMpcpPend_eq (fuel : Nat) (cur : T) (r : R) (s : CeilingState R Nat T) :
    acoralMpcpPend fuel cur r s = mpcpPendOn id fuel cur r s := rfl

/-- So is the post. -/
theorem acoralMpcpPost_eq (cur : T) (r : R) (s : CeilingState R Nat T) :
    acoralMpcpPost cur r s = mpcpPostOn id cur r s := rfl

theorem dpcpTake_eq (fuel : Nat) (cur : T) (r : R) (s : CeilingState R DpcpSystem T) :
    dpcpTake fuel cur r s = dpcpTakeOn fuel cur r s := by
  unfold dpcpTake dpcpTakeOn
  refine Option.bind_congr fun res _ => ?_
  obtain ⟨res, s⟩ := res
  cases res <;> rfl

/-- On the pairs of a type and a CPU, a round of the pend is that of DPCP. -/
theorem dpcpRound_eq (fuel : Nat) (cur : T) (r : R) (s : CeilingState R DpcpSystem T) :
    dpcpRound fuel cur r s = dpcpRoundOn fuel (s.dpcpSystem r) cur r s := by
  unfold dpcpRound dpcpRoundOn
  dsimp only
  refine ite_congr rfl (fun _ => ?_) fun _ => ?_
  · cases (s.res r).type <;> rfl
  · refine Option.bind_congr fun a _ => ?_
    cases (a.res r).type with
    | LOCAL => exact dpcpTake_eq fuel cur r _
    | GLOBAL => exact dpcpTake_eq fuel cur r a

/-- So is the post. -/
theorem acoralDpcpPost_eq (cur : T) (r : R) (s : CeilingState R DpcpSystem T) :
    acoralDpcpPost cur r s = dpcpPostOn Prod.mk cur r s := by
  unfold acoralDpcpPost dpcpPostOn dpcpReleaseOn
  cases htype : (s.res r).type with
  | LOCAL =>
      simp only [Option.map_bind, Function.comp_def]
      rfl
  | GLOBAL =>
      -- the resource keeps its type and its CPU while it leaves the stack
      have hsys : ∀ {a b : CeilingState R DpcpSystem T} {k : DpcpSystem}, a.res r = s.res r →
          a.pop k r = some b → b.dpcpSystem r = (.GLOBAL, (s.res r).cpu) := by
        intro a b k ha hpop
        rw [CeilingState.dpcpSystem, (SameButStack.pop hpop).res, ha, htype]
      have hswitch : (s.switchPreempt cur .ACORAL_PREEMPT_GLOBAL .ACORAL_PREEMPT_LOCAL).res r =
          s.res r := by
        rw [(CeilingState.SameRes.switchPreempt s cur _ _).res]
      simp only [Option.map_bind, Function.comp_def]
      split
      · rfl
      · rw [show (s.switchPreempt cur PreemptType.ACORAL_PREEMPT_GLOBAL
          PreemptType.ACORAL_PREEMPT_LOCAL).dpcpSystem r = (.GLOBAL, (s.res r).cpu) by
            rw [CeilingState.dpcpSystem, hswitch, htype], hswitch]
        refine Option.bind_congr fun a ha => ?_
        rw [hsys hswitch ha]
        rfl

/-! ### The `pending` nodes -/

/-- What a stretch of a pend does to the `pending` nodes. -/
inductive CeilingEffect (fuel : Nat) (k : K) (r : R) (cur : T) (s : CeilingState R K T) :
    CeilingResult → CeilingState R K T → Prop
  /-- the call returns -/
  | ret {e : KernelError} {s' : CeilingState R K T} (h : SamePend s.ipc s'.ipc) :
      CeilingEffect fuel k r cur s (.ret e) s'
  /-- the caller enters the wait queue of the system -/
  | queued {a b s' : CeilingState R K T} (h : SamePend s.ipc a.ipc)
      (hadd : a.waitAdd fuel k cur = some b) (h' : SamePend b.ipc s'.ipc) :
      CeilingEffect fuel k r cur s .queued s'
  /-- the caller enters the wait queue of the semaphore -/
  | blocked {a : IpcState (CeilingObj R K) T} {s' : CeilingState R K T} (h : SamePend s.ipc a)
      (hadd : acoralIpcWaitQueueAdd fuel a (.sem r) cur = some s'.ipc) :
      CeilingEffect fuel k r cur s .blocked s'
  /-- the caller enters the wait queue of the semaphore and leaves it -/
  | passed {e : KernelError} {a b c : IpcState (CeilingObj R K) T} {s' : CeilingState R K T}
      (h : SamePend s.ipc a) (hadd : acoralIpcWaitQueueAdd fuel a (.sem r) cur = some b)
      (hdel : acoralIpcWaitQueueDel b cur = some c) (h' : SamePend c s'.ipc) :
      CeilingEffect fuel k r cur s (.ret e) s'

namespace CeilingEffect

variable {fuel : Nat} {k : K} {r : R} {cur : T} {s a s' : CeilingState R K T} {res : CeilingResult}

/-- What happens before that does not concern the nodes does not matter. -/
theorem of_same (h : SamePend s.ipc a.ipc) (h' : CeilingEffect fuel k r cur a res s') :
    CeilingEffect fuel k r cur s res s' := by
  cases h' with
  | ret h₁ => exact .ret (h.trans h₁)
  | queued h₁ hadd h₂ => exact .queued (h.trans h₁) hadd h₂
  | blocked h₁ hadd => exact .blocked (h.trans h₁) hadd
  | passed h₁ hadd hdel h₂ => exact .passed (h.trans h₁) hadd hdel h₂

end CeilingEffect

section Same

variable (s : CeilingState R K T) (r : R) (cur : T)

theorem own_same : SamePend s.ipc (s.own r cur).ipc := by
  unfold CeilingState.own
  split
  · exact SamePend.setIpc _ _ _
  · exact SamePend.refl _

omit [DecidableEq R] [DecidableEq K] in
theorem switchPreempt_same (old new : PreemptType) :
    SamePend s.ipc (s.switchPreempt cur old new).ipc := by
  rw [CeilingState.switchPreempt_ipc]
  exact SamePend.refl _

theorem push_same {s s' : CeilingState R K T} {k : K} {r : R} (h : s.push k r = some s') :
    SamePend s.ipc s'.ipc := by
  rw [(SameButStack.push h).ipc]
  exact SamePend.refl _

theorem pop_same {s s' : CeilingState R K T} {k : K} {r : R} (h : s.pop k r = some s') :
    SamePend s.ipc s'.ipc := by
  rw [(SameButStack.pop h).ipc]
  exact SamePend.refl _

omit [DecidableEq R] [DecidableEq K] in
theorem inheritPrio_same {s s' : CeilingState R K T} {k : K} {cur : T}
    (h : s.inheritPrio k cur = some s') : SamePend s.ipc s'.ipc := by
  obtain ⟨-, last, t, -, -, rfl⟩ := CeilingState.SameRes.inheritPrio h
  exact SamePend.changePrio _ _ _

omit [DecidableEq K] in
theorem setPrioSwitch_same (value : BitVec 8) :
    SamePend s.ipc (s.setPrioSwitch r value).ipc := SamePend.refl _

theorem ceilingSemPost_same {s s' : CeilingState R K T} {r : R} {e : KernelError}
    (h : s.semPost r = some (e, s')) : SamePend s.ipc s'.ipc := by
  obtain ⟨res, hpost, he⟩ := Option.map_eq_some_iff.mp h
  obtain ⟨-, rfl⟩ := Prod.mk.inj he
  exact semPost_same hpost

omit [DecidableEq R] [DecidableEq K] in
theorem jumpCpuOn_same (cpu : Nat) : SamePend s.ipc (jumpCpuOn s cur cpu).ipc := by
  have hset : SamePend (s.suspendSelf cur).ipc ((s.suspendSelf cur).setCpu cur cpu).ipc := by
    have hnot : (((s.suspendSelf cur).ipc.sched.thread cur)).isReady = false :=
      ReadyOk.not_isReady_suspendThread s.ipc.sched cur
    refine ⟨rfl, rfl, fun t => ?_, fun hready => ?_⟩
    · unfold CeilingState.setCpu Tcb.isExit
      by_cases ht : t = cur <;> simp [ht]
    · -- the thread is in no ready array while it migrates
      have hc : ({ (s.suspendSelf cur).ipc.sched.thread cur with cpu := cpu } : Tcb).isReady =
          false := hnot
      exact hready.update hnot hc rfl rfl
  unfold jumpCpuOn
  split
  · exact SamePend.refl _
  · exact ((SamePend.suspendSelf s.ipc cur).trans hset).trans (SamePend.rdyThread _ cur)

end Same

section Effects

variable {fuel : Nat} {k : K} {r : R} {cur : T} {s s' : CeilingState R K T} {res : CeilingResult}

/-- The end of a pend. -/
theorem ceilingTake_effect (h : ceilingTake fuel cur r s = some (res, s')) :
    CeilingEffect fuel k r cur s res s' := by
  unfold ceilingTake CeilingState.semPend at h
  obtain ⟨⟨call, ipc⟩, hpend, he⟩ := Option.map_eq_some_iff.mp h
  refine CeilingEffect.of_same (own_same s r cur) ?_
  cases semPend_nodes hpend with
  | ret e hsame =>
      obtain ⟨rfl, rfl⟩ := Prod.mk.inj he
      exact .ret hsame
  | blocked hi hsame hadd =>
      obtain ⟨rfl, rfl⟩ := Prod.mk.inj he
      obtain rfl := Option.some.inj hi
      exact .blocked hsame hadd

/-- In `acoral_dpcp_pend` a caller that blocks goes on at once. -/
theorem dpcpTakeOn_effect (h : dpcpTakeOn fuel cur r s = some (res, s')) :
    CeilingEffect fuel k r cur s res s' := by
  unfold dpcpTakeOn at h
  obtain ⟨⟨mid, a⟩, htake, h⟩ := Option.bind_eq_some_iff.mp h
  have heffect : CeilingEffect fuel k r cur s mid a := ceilingTake_effect htake
  cases heffect with
  | ret hsame =>
      obtain ⟨rfl, rfl⟩ := Prod.mk.inj (Option.some.inj h)
      exact .ret hsame
  | queued hsame hadd hsame' =>
      obtain ⟨rfl, rfl⟩ := Prod.mk.inj (Option.some.inj h)
      exact .queued hsame hadd hsame'
  | blocked hsame hadd =>
      obtain ⟨⟨e, c⟩, hresume, he⟩ := Option.map_eq_some_iff.mp h
      obtain ⟨rfl, rfl⟩ := Prod.mk.inj he
      obtain ⟨d, hdel, he⟩ := Option.map_eq_some_iff.mp hresume
      obtain ⟨-, rfl⟩ := Prod.mk.inj he
      exact .passed hsame hadd hdel (SamePend.refl _)
  | passed hsame hadd hdel hsame' =>
      obtain ⟨rfl, rfl⟩ := Prod.mk.inj (Option.some.inj h)
      exact .passed hsame hadd hdel hsame'

/-- `acoral_mpcp_pend` of a local resource, from its second test on. -/
theorem mpcpLocalOn_effect {j : K} (h : mpcpLocalOn fuel j cur r s = some (res, s')) :
    CeilingEffect fuel k r cur s res s' := by
  unfold mpcpLocalOn at h
  split at h
  · obtain ⟨a, hpush, h⟩ := Option.bind_eq_some_iff.mp h
    exact .of_same ((push_same hpush).trans (setPrioSwitch_same a r _)) (ceilingTake_effect h)
  · exact ceilingTake_effect h

/-- `acoral_mpcp_pend`. -/
theorem mpcpPendOn_effect {sys : Nat → K} (h : mpcpPendOn sys fuel cur r s = some (res, s')) :
    CeilingEffect fuel (sys (s.cpu cur)) r cur s res s' := by
  unfold mpcpPendOn at h
  split at h
  · dsimp only at h
    split at h
    · obtain ⟨rfl, rfl⟩ := Prod.mk.inj (Option.some.inj h)
      exact .ret (SamePend.refl _)
    · split at h
      · obtain ⟨a, hinherit, h⟩ := Option.bind_eq_some_iff.mp h
        obtain ⟨b, hadd, he⟩ := Option.map_eq_some_iff.mp h
        obtain ⟨rfl, rfl⟩ := Prod.mk.inj he
        exact .queued (inheritPrio_same hinherit) hadd (SamePend.suspendSelf _ cur)
      · exact mpcpLocalOn_effect h
  · have hsame := switchPreempt_same s cur .ACORAL_PREEMPT_LOCAL .ACORAL_PREEMPT_GLOBAL
    refine .of_same (SamePend.trans hsame ?_) (ceilingTake_effect h)
    split
    · exact SamePend.changePrio _ cur _
    · exact SamePend.refl _

/-- A round of the loop of `acoral_dpcp_pend`. -/
theorem dpcpRoundOn_effect (h : dpcpRoundOn fuel k cur r s = some (res, s')) :
    CeilingEffect fuel k r cur s res s' := by
  unfold dpcpRoundOn at h
  split at h
  · split at h
    · obtain ⟨a, hinherit, h⟩ := Option.bind_eq_some_iff.mp h
      obtain ⟨b, hadd, he⟩ := Option.map_eq_some_iff.mp h
      obtain ⟨rfl, rfl⟩ := Prod.mk.inj he
      exact .queued (inheritPrio_same hinherit) hadd (SamePend.refl _)
    · obtain ⟨b, hadd, he⟩ := Option.map_eq_some_iff.mp h
      obtain ⟨rfl, rfl⟩ := Prod.mk.inj he
      exact .queued (SamePend.refl _) hadd (SamePend.refl _)
  · obtain ⟨a, hpush, h⟩ := Option.bind_eq_some_iff.mp h
    split at h
    · exact .of_same ((push_same hpush).trans (setPrioSwitch_same a r _)) (dpcpTakeOn_effect h)
    · exact .of_same (push_same hpush) (dpcpTakeOn_effect h)

/-- `acoral_dpcp_pend` of a global resource, on its CPU. -/
theorem dpcpEnterOn_effect (h : dpcpEnterOn fuel k cur r s = some (res, s')) :
    CeilingEffect fuel k r cur s res s' :=
  .of_same (switchPreempt_same s cur _ _) (dpcpRoundOn_effect h)

/-- A round of the loop does not end in the wait queue of the semaphore. -/
theorem dpcpRoundOn_not_blocked (h : dpcpRoundOn fuel k cur r s = some (res, s')) :
    res ≠ .blocked := by
  rintro rfl
  have htake : ∀ a, dpcpTakeOn fuel cur r a ≠ some (.blocked, s') := by
    intro a ha
    unfold dpcpTakeOn at ha
    obtain ⟨⟨mid, b⟩, -, ha⟩ := Option.bind_eq_some_iff.mp ha
    cases mid with
    | blocked =>
        obtain ⟨c, -, he⟩ := Option.map_eq_some_iff.mp ha
        cases he
    | ret e => cases ha
    | queued => cases ha
  unfold dpcpRoundOn at h
  split at h
  · split at h
    · obtain ⟨a, -, h⟩ := Option.bind_eq_some_iff.mp h
      obtain ⟨b, -, he⟩ := Option.map_eq_some_iff.mp h
      cases he
    · obtain ⟨b, -, he⟩ := Option.map_eq_some_iff.mp h
      cases he
  · obtain ⟨a, -, h⟩ := Option.bind_eq_some_iff.mp h
    split at h
    · exact htake _ h
    · exact htake _ h

/-- `acoral_mpcp_post` unlinks nobody. -/
theorem mpcpPostOn_same {sys : Nat → K} {e : KernelError}
    (h : mpcpPostOn sys cur r s = some (e, s')) : SamePend s.ipc s'.ipc := by
  have hrestore : ∀ a : CeilingState R K T, SamePend a.ipc (mpcpRestoreOn cur r a).ipc := by
    intro a
    unfold mpcpRestoreOn
    refine SamePend.trans ?_ (SamePend.setIpc _ _ _)
    split
    · exact SamePend.changePrio _ cur _
    · exact SamePend.refl _
  unfold mpcpPostOn at h
  split at h
  · obtain ⟨-, rfl⟩ := Prod.mk.inj (Option.some.inj h)
    exact SamePend.refl _
  · split at h
    · obtain ⟨a, hpop, h⟩ := Option.bind_eq_some_iff.mp h
      obtain ⟨b, hwake, h⟩ := Option.bind_eq_some_iff.mp h
      have hab : SamePend a.ipc b.ipc := by
        obtain ⟨head, -, rfl⟩ := Option.map_eq_some_iff.mp hwake
        cases head with
        | none => exact SamePend.refl _
        | some t => exact SamePend.rdyThread _ t
      exact (((pop_same hpop).trans hab).trans (hrestore b)).trans (ceilingSemPost_same h)
    · exact ((switchPreempt_same s cur _ _).trans (hrestore _)).trans (ceilingSemPost_same h)

/-- The body of `acoral_dpcp_post`: the head of the wait queue of the system,
if there is one, is unlinked. -/
inductive WakeEffect (k : K) (s : CeilingState R K T) (s' : CeilingState R K T) : Prop
  | none (h : SamePend s.ipc s'.ipc)
  | some {a b : CeilingState R K T} {t : T} (h : SamePend s.ipc a.ipc)
      (hhead : a.waitHead k = Option.some (Option.some t)) (hdel : a.waitDel t = Option.some b)
      (h' : SamePend b.ipc s'.ipc)

/-- It kills nobody. -/
theorem WakeEffect.isExit (h : WakeEffect k s s') (t : T) :
    (s'.ipc.sched.thread t).isExit = (s.ipc.sched.thread t).isExit := by
  cases h with
  | none h => exact h.isExit t
  | some h hhead hdel h' =>
      obtain ⟨links, -, rfl⟩ := Option.map_eq_some_iff.mp hdel
      exact (h'.isExit t).trans (h.isExit t)

theorem dpcpReleaseOn_effect {e : KernelError} (h : dpcpReleaseOn k cur r s = some (e, s')) :
    WakeEffect k s s' := by
  have hrestore : ∀ a : CeilingState R K T, SamePend a.ipc (dpcpRestoreOn cur r a).ipc := by
    intro a
    unfold dpcpRestoreOn
    refine SamePend.trans ?_ (SamePend.setIpc _ _ _)
    split
    · refine SamePend.trans ?_ (SamePend.refl _)
      split
      · exact SamePend.changePrio _ cur _
      · exact SamePend.refl _
    · exact SamePend.refl _
  obtain ⟨a, hpop, h⟩ := Option.bind_eq_some_iff.mp h
  obtain ⟨b, hwake, h⟩ := Option.bind_eq_some_iff.mp h
  have hend : SamePend b.ipc s'.ipc := (hrestore b).trans (ceilingSemPost_same h)
  obtain ⟨head, hhead, hwake⟩ := Option.bind_eq_some_iff.mp hwake
  cases head with
  | none =>
      obtain rfl := Option.some.inj hwake
      exact .none ((pop_same hpop).trans hend)
  | some t =>
      obtain ⟨c, hdel, rfl⟩ := Option.map_eq_some_iff.mp hwake
      exact .some (pop_same hpop) hhead hdel ((SamePend.rdyThread c.ipc t).trans hend)

/-- `acoral_dpcp_post`. -/
theorem dpcpPostOn_effect {sys : CeilingType → Nat → K} {e : KernelError} {cpu : Option Nat}
    (h : dpcpPostOn sys cur r s = some (e, cpu, s')) : ∃ j, WakeEffect j s s' := by
  unfold dpcpPostOn at h
  dsimp only at h
  split at h
  · obtain ⟨-, he⟩ := Prod.mk.inj (Option.some.inj h)
    obtain ⟨-, rfl⟩ := Prod.mk.inj he
    exact ⟨sys .LOCAL 0, .none (SamePend.refl _)⟩
  · split at h
    · split at h
      · obtain ⟨-, he⟩ := Prod.mk.inj (Option.some.inj h)
        obtain ⟨-, rfl⟩ := Prod.mk.inj he
        exact ⟨sys .LOCAL 0, .none (SamePend.refl _)⟩
      · obtain ⟨⟨e', a⟩, hrelease, he⟩ := Option.map_eq_some_iff.mp h
        obtain ⟨-, he⟩ := Prod.mk.inj he
        obtain ⟨-, rfl⟩ := Prod.mk.inj he
        exact ⟨_, dpcpReleaseOn_effect hrelease⟩
    · obtain ⟨⟨e', a⟩, hrelease, he⟩ := Option.map_eq_some_iff.mp h
      have ha : s'.ipc = a.ipc := by
        split at he
        · split at he
          · obtain ⟨-, he⟩ := Prod.mk.inj he
            obtain ⟨-, rfl⟩ := Prod.mk.inj he
            rfl
          · obtain ⟨-, he⟩ := Prod.mk.inj he
            obtain ⟨-, rfl⟩ := Prod.mk.inj he
            rfl
        · obtain ⟨-, he⟩ := Prod.mk.inj he
          obtain ⟨-, rfl⟩ := Prod.mk.inj he
          rfl
      have heffect := dpcpReleaseOn_effect hrelease
      have hswitch := switchPreempt_same s cur .ACORAL_PREEMPT_GLOBAL .ACORAL_PREEMPT_LOCAL
      refine ⟨sys .GLOBAL ((s.switchPreempt cur .ACORAL_PREEMPT_GLOBAL .ACORAL_PREEMPT_LOCAL).res
        r).cpu, ?_⟩
      cases heffect with
      | none hsame =>
          refine .none (hswitch.trans ?_)
          rw [ha]
          exact hsame
      | some hsame hhead hdel hsame' =>
          refine .some (hswitch.trans hsame) hhead hdel ?_
          rw [ha]
          exact hsame'

end Effects

end ACoral
