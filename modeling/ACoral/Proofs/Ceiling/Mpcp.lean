import ACoral.Kernel.Mpcp
import ACoral.Proofs.Ceiling.Ops

/-!
# `ACoral.Proofs.Ceiling.Mpcp`: the functions of MPCP by their cases

For a resource of which the semaphore counts its use (`SemOk`):

* `acoralMpcpPend_local` and `mpcpLocal_free`: a pend of a local resource
  fails, queues its caller, or takes the resource, with or without the stack;
* `acoralMpcpPend_global`: a pend of a global resource that is free;
* `acoralMpcpPost_local` and `acoralMpcpPost_global`: a post by the owner.

`MpcpFrame` is what holds without any premise: a call on one resource leaves
the objects of the others alone, and all that belongs to the other threads but
their priorities.
-/

set_option autoImplicit false
set_option linter.unusedSectionVars false

namespace ACoral

open CeilingState

variable {R T : Type} [DecidableEq R] [DecidableEq T]

/-! ### Frames -/

/-- What a call of `cur` on `r` leaves alone. -/
structure MpcpFrame (r : R) (cur : T) (s s' : CeilingState R Nat T) : Prop where
  obj : ∀ q, q ≠ r → s'.ipc.ipc (.sem q) = s.ipc.ipc (.sem q)
  res : ∀ q, q ≠ r → s'.res q = s.res q
  fixed : (s'.res r).type = (s.res r).type ∧ (s'.res r).cpu = (s.res r).cpu ∧
    (s'.res r).prioCeiling = (s.res r).prioCeiling ∧
    (s'.res r).stackingValue = (s.res r).stackingValue
  cpu : ∀ t, s'.cpu t = s.cpu t
  preempt : ∀ t, t ≠ cur → s'.preemptType t = s.preemptType t
  data : s'.data = s.data

namespace MpcpFrame

variable {r : R} {cur : T} {s s' s'' : CeilingState R Nat T}

/-- Only the stacks, the wait queues and the threads may differ. -/
theorem of_eq (hobj : s'.ipc.ipc = s.ipc.ipc) (hres : s'.res = s.res)
    (hcpu : ∀ t, s'.cpu t = s.cpu t) (hpreempt : s'.preemptType = s.preemptType)
    (hdata : s'.data = s.data) : MpcpFrame r cur s s' where
  obj q _ := by rw [hobj]
  res q _ := by rw [hres]
  fixed := by rw [hres]; exact ⟨rfl, rfl, rfl, rfl⟩
  cpu := hcpu
  preempt t _ := by rw [hpreempt]
  data := hdata

theorem refl (r : R) (cur : T) (s : CeilingState R Nat T) : MpcpFrame r cur s s :=
  of_eq rfl rfl (fun _ => rfl) rfl rfl

theorem trans (h : MpcpFrame r cur s s') (h' : MpcpFrame r cur s' s'') :
    MpcpFrame r cur s s'' where
  obj q hq := (h'.obj q hq).trans (h.obj q hq)
  res q hq := (h'.res q hq).trans (h.res q hq)
  fixed := ⟨h'.fixed.1.trans h.fixed.1, h'.fixed.2.1.trans h.fixed.2.1,
    h'.fixed.2.2.1.trans h.fixed.2.2.1, h'.fixed.2.2.2.trans h.fixed.2.2.2⟩
  cpu t := (h'.cpu t).trans (h.cpu t)
  preempt t ht := (h'.preempt t ht).trans (h.preempt t ht)
  data := h'.data.trans h.data

/-- Of every resource, what the stacks and the tests read. -/
theorem fixed_all (h : MpcpFrame r cur s s') (q : R) :
    (s'.res q).type = (s.res q).type ∧ (s'.res q).cpu = (s.res q).cpu ∧
      (s'.res q).prioCeiling = (s.res q).prioCeiling ∧
      (s'.res q).stackingValue = (s.res q).stackingValue := by
  by_cases hq : q = r
  · rw [hq]
    exact h.fixed
  · rw [h.res q hq]
    exact ⟨rfl, rfl, rfl, rfl⟩

theorem changePrio (s : CeilingState R Nat T) (t : T) (p : Nat) :
    MpcpFrame r cur s (s.changePrio t p) :=
  of_eq rfl rfl (fun u => changePrio_cpu s t u p) rfl rfl

theorem rdyThread (s : CeilingState R Nat T) (t : T) : MpcpFrame r cur s (s.rdyThread t) :=
  of_eq rfl rfl (fun u => rdyThread_cpu s t u) rfl rfl

theorem suspendSelf (s : CeilingState R Nat T) (t : T) : MpcpFrame r cur s (s.suspendSelf t) :=
  of_eq rfl rfl (fun u => suspendSelf_cpu s t u) rfl rfl

theorem switchPreempt (s : CeilingState R Nat T) (old new : PreemptType) :
    MpcpFrame r cur s (s.switchPreempt cur old new) := by
  unfold CeilingState.switchPreempt
  split
  · exact ⟨fun _ _ => rfl, fun _ _ => rfl, ⟨rfl, rfl, rfl, rfl⟩, fun _ => rfl,
      fun t ht => Function.update_of_ne ht _ _, rfl⟩
  · exact refl r cur s

theorem setOwner (s : CeilingState R Nat T) (o : Option T) : MpcpFrame r cur s (s.setOwner r o) :=
  ⟨fun q hq => Function.update_of_ne (by simp [hq]) _ _, fun _ _ => rfl, ⟨rfl, rfl, rfl, rfl⟩,
    fun _ => rfl, fun _ _ => rfl, rfl⟩

theorem own (s : CeilingState R Nat T) : MpcpFrame r cur s (s.own r cur) := by
  unfold CeilingState.own
  split
  · exact setOwner s _
  · exact refl r cur s

theorem setPrioSwitch (s : CeilingState R Nat T) (v : BitVec 8) :
    MpcpFrame r cur s (s.setPrioSwitch r v) := by
  refine ⟨fun _ _ => rfl, fun q hq => Function.update_of_ne hq _ _, ?_, fun _ => rfl,
    fun _ _ => rfl, rfl⟩
  unfold CeilingState.setPrioSwitch
  simp

theorem push {k : Nat} (h : s.push k r = some s') : MpcpFrame r cur s s' := by
  have hsame := SameButStack.push h
  exact of_eq (by rw [hsame.ipc]) hsame.res
    (fun t => by unfold CeilingState.cpu; rw [hsame.ipc]) hsame.preemptType hsame.data

theorem pop {k : Nat} (h : s.pop k r = some s') : MpcpFrame r cur s s' := by
  have hsame := SameButStack.pop h
  exact of_eq (by rw [hsame.ipc]) hsame.res
    (fun t => by unfold CeilingState.cpu; rw [hsame.ipc]) hsame.preemptType hsame.data

theorem waitAdd {fuel k : Nat} {t : T} (h : s.waitAdd fuel k t = some s') :
    MpcpFrame r cur s s' := by
  obtain ⟨links, -, rfl⟩ := Option.map_eq_some_iff.mp h
  exact of_eq rfl rfl (fun _ => rfl) rfl rfl

theorem inheritPrio {k : Nat} {t : T} (h : s.inheritPrio k t = some s') :
    MpcpFrame r cur s s' := by
  obtain ⟨-, last, u, -, -, rfl⟩ := SameRes.inheritPrio h
  exact changePrio s u _

/-- The semaphore operations. -/
theorem of_semOnly (h : SemOnly r s s') (hcpu : ∀ t, s'.cpu t = s.cpu t) :
    MpcpFrame r cur s s' := by
  have heq := h.eq
  refine ⟨h.obj, fun q _ => ?_, ?_, hcpu, fun t _ => ?_, ?_⟩
  · rw [heq]
  · rw [heq]
    exact ⟨rfl, rfl, rfl, rfl⟩
  · rw [heq]
  · rw [heq]

theorem semPend {fuel : Nat} {res : CeilingResult} (h : s.semPend fuel r cur = some (res, s')) :
    MpcpFrame r cur s s' := by
  obtain ⟨hsem, ⟨-, -, hsched⟩ | ⟨-, hadd⟩⟩ := semPend_cases h
  · exact of_semOnly hsem fun t => by
      unfold CeilingState.cpu
      rw [hsched]
  · obtain ⟨links, -, hipc⟩ := Option.map_eq_some_iff.mp hadd
    refine of_semOnly hsem fun t => ?_
    unfold CeilingState.cpu
    rw [← hipc]
    exact (acoralSuspendThread_attr s.ipc.sched cur t).2

theorem semPost {e : KernelError} (h : s.semPost r = some (e, s')) : MpcpFrame r cur s s' := by
  obtain ⟨hsem, -, hsched | ⟨u, -, hsched⟩⟩ := semPost_cases h
  · exact of_semOnly hsem fun t => by
      unfold CeilingState.cpu
      rw [hsched]
  · refine of_semOnly hsem fun t => ?_
    unfold CeilingState.cpu
    rw [hsched]
    exact (acoralRdyThread_attr s.ipc.sched u t).2

theorem semPendResume {e : KernelError} {ipc : IpcState (CeilingObj R Nat) T}
    (h : acoralSemPendResume cur s.ipc = some (e, ipc)) :
    MpcpFrame r cur s { s with ipc := ipc } := by
  obtain ⟨s₁, hdel, heq⟩ := Option.map_eq_some_iff.mp h
  obtain ⟨-, rfl⟩ := Prod.mk.inj heq
  obtain ⟨links, -, rfl⟩ := Option.map_eq_some_iff.mp hdel
  exact of_eq rfl rfl (fun _ => rfl) rfl rfl

theorem mpcpLocal {fuel k : Nat} {res : CeilingResult}
    (h : ACoral.mpcpLocal fuel cur r k s = some (res, s')) : MpcpFrame r cur s s' := by
  unfold ACoral.mpcpLocal mpcpTake at h
  split at h
  · obtain ⟨s₁, hpush, h⟩ := Option.bind_eq_some_iff.mp h
    exact (push hpush).trans ((setPrioSwitch s₁ _).trans ((own _).trans (semPend h)))
  · exact (own s).trans (semPend h)

/-- `acoral_mpcp_pend`. For a global resource the systems stay as they are. -/
theorem acoralMpcpPend {fuel : Nat} {res : CeilingResult}
    (h : ACoral.acoralMpcpPend fuel cur r s = some (res, s')) :
    MpcpFrame r cur s s' := by
  unfold ACoral.acoralMpcpPend at h
  split at h
  · simp only at h
    split at h
    · obtain ⟨-, rfl⟩ := Prod.mk.inj (Option.some.inj h)
      exact refl r cur s
    · split at h
      · obtain ⟨s₁, hinherit, h⟩ := Option.bind_eq_some_iff.mp h
        obtain ⟨s₂, hadd, heq⟩ := Option.map_eq_some_iff.mp h
        obtain ⟨-, rfl⟩ := Prod.mk.inj heq
        exact (inheritPrio hinherit).trans ((waitAdd hadd).trans (suspendSelf s₂ cur))
      · exact mpcpLocal h
  · simp only at h
    have hswitch : MpcpFrame r cur s _ :=
      switchPreempt s .ACORAL_PREEMPT_LOCAL .ACORAL_PREEMPT_GLOBAL
    split at h
    · exact hswitch.trans ((setPrioSwitch _ _).trans ((changePrio _ _ _).trans
        ((own _).trans (semPend h))))
    · exact hswitch.trans ((own _).trans (semPend h))

theorem mpcpWake {k : Nat} (h : ACoral.mpcpWake k s = some s') : MpcpFrame r cur s s' := by
  obtain ⟨v, -, h⟩ := Option.map_eq_some_iff.mp h
  cases v with
  | none =>
      obtain rfl := h
      exact refl r cur s
  | some t =>
      obtain rfl := h
      exact rdyThread s t

theorem mpcpRestore (s : CeilingState R Nat T) : MpcpFrame r cur s (mpcpRestore cur r s) := by
  unfold ACoral.mpcpRestore
  simp only
  split
  · exact (changePrio s cur _).trans ((setPrioSwitch _ _).trans (setOwner _ _))
  · exact (setPrioSwitch _ _).trans (setOwner _ _)

/-- `acoral_mpcp_post`. -/
theorem acoralMpcpPost {e : KernelError} (h : ACoral.acoralMpcpPost cur r s = some (e, s')) :
    MpcpFrame r cur s s' := by
  unfold ACoral.acoralMpcpPost at h
  split at h
  · obtain ⟨-, rfl⟩ := Prod.mk.inj (Option.some.inj h)
    exact refl r cur s
  · split at h
    · obtain ⟨s₁, hpop, h⟩ := Option.bind_eq_some_iff.mp h
      obtain ⟨s₂, hwake, h⟩ := Option.bind_eq_some_iff.mp h
      exact (pop hpop).trans ((mpcpWake hwake).trans ((mpcpRestore s₂).trans (semPost h)))
    · exact (switchPreempt s _ _).trans ((mpcpRestore _).trans (semPost h))

end MpcpFrame

/-! ### A local resource -/

/-- A pend that finds the system's priority at least as urgent: the user of
the top gets the priority of the caller, who is suspended in the wait queue. -/
structure MpcpQueued (fuel : Nat) (cur : T) (r : R) (s s' : CeilingState R Nat T) : Prop where
  home : (s.res r).cpu = s.cpu cur
  full : s.sysPrio (s.cpu cur) ≤ s.prio cur
  added : ∃ last t s₁, s.stackTop (s.cpu cur) = some last ∧ s.owner last = some t ∧
    (s.changePrio t (s.prio cur)).waitAdd fuel (s.cpu cur) cur = some s₁ ∧ s' = s₁.suspendSelf cur

theorem MpcpQueued.sameRes {fuel : Nat} {cur : T} {r : R} {s s' : CeilingState R Nat T}
    (h : MpcpQueued fuel cur r s s') : SameRes s s' := by
  obtain ⟨last, t, s₁, -, -, hadd, rfl⟩ := h.added
  exact ((SameRes.changePrio s t _).trans (SameRes.waitAdd hadd)).trans (SameRes.suspendSelf s₁ cur)

theorem acoralMpcpPend_local {fuel : Nat} {cur : T} {r : R} {s s' : CeilingState R Nat T}
    {res : CeilingResult} (htype : (s.res r).type = .LOCAL)
    (hpend : acoralMpcpPend fuel cur r s = some (res, s')) :
    (s.res r).cpu ≠ s.cpu cur ∧ res = .ret .KR_IPC_ERR_CPU ∧ s' = s ∨
    res = .queued ∧ MpcpQueued fuel cur r s s' ∨
    (s.res r).cpu = s.cpu cur ∧ s.prio cur < s.sysPrio (s.cpu cur) ∧
      mpcpLocal fuel cur r (s.cpu cur) s = some (res, s') := by
  simp only [acoralMpcpPend, htype] at hpend
  by_cases hcpu : (s.res r).cpu = s.cpu cur
  case neg =>
    rw [if_pos hcpu] at hpend
    obtain ⟨rfl, rfl⟩ := Prod.mk.inj (Option.some.inj hpend)
    exact Or.inl ⟨hcpu, rfl, rfl⟩
  rw [if_neg (not_not.mpr hcpu)] at hpend
  right
  by_cases hfull : s.prio cur ≥ s.sysPrio (s.cpu cur)
  · rw [if_pos hfull] at hpend
    obtain ⟨s₁, hinherit, hpend⟩ := Option.bind_eq_some_iff.mp hpend
    obtain ⟨s₂, hadd, heq⟩ := Option.map_eq_some_iff.mp hpend
    obtain ⟨rfl, rfl⟩ := Prod.mk.inj heq
    obtain ⟨-, last, t, hlast, ht, rfl⟩ := SameRes.inheritPrio hinherit
    exact Or.inl ⟨rfl, hcpu, hfull, last, t, s₂, hlast, ht, hadd, rfl⟩
  · rw [if_neg hfull] at hpend
    exact Or.inr ⟨hcpu, Nat.lt_of_not_le hfull, hpend⟩

/-- The second half of a pend, with the resource free. A caller that the
system's priority still keeps out takes the resource without the stack. -/
theorem mpcpLocal_free {fuel k : Nat} {cur : T} {r : R} {s s' : CeilingState R Nat T}
    {res : CeilingResult} (hsem : s.SemOk r) (hfree : s.owner r = none)
    (hlocal : mpcpLocal fuel cur r k s = some (res, s')) :
    res = .ret .KR_OK ∧
    ((s.prio cur < s.sysPrio k ∧ ∃ s₁, s.push k r = some s₁ ∧
        s' = (s₁.setPrioSwitch r (BitVec.ofNat 8 (s.prio cur))).take r cur) ∨
      s.sysPrio k ≤ s.prio cur ∧ s' = s.take r cur) := by
  unfold mpcpLocal mpcpTake at hlocal
  by_cases hpass : s.prio cur < s.sysPrio k
  · rw [if_pos hpass] at hlocal
    obtain ⟨s₁, hpush, hlocal⟩ := Option.bind_eq_some_iff.mp hlocal
    have hipc := (SameButStack.push hpush).ipc
    have hprio : s₁.prio cur = s.prio cur := by
      unfold CeilingState.prio
      rw [hipc]
    have hfree' : (s₁.setPrioSwitch r (BitVec.ofNat 8 (s.prio cur))).owner r = none := by
      unfold CeilingState.owner at hfree ⊢
      rw [← hipc] at hfree
      exact hfree
    rw [hprio, semPend_own (hsem.congr (by rw [← hipc]; rfl)) hfree'] at hlocal
    obtain ⟨rfl, rfl⟩ := Prod.mk.inj (Option.some.inj hlocal)
    exact ⟨rfl, Or.inl ⟨hpass, s₁, hpush, rfl⟩⟩
  · rw [if_neg hpass, semPend_own hsem hfree] at hlocal
    obtain ⟨rfl, rfl⟩ := Prod.mk.inj (Option.some.inj hlocal)
    exact ⟨rfl, Or.inr ⟨Nat.le_of_not_lt hpass, rfl⟩⟩

/-- The second half of a pend queues nobody. -/
theorem mpcpLocal_not_queued {fuel k : Nat} {cur : T} {r : R} {s s' : CeilingState R Nat T}
    {res : CeilingResult} (hlocal : mpcpLocal fuel cur r k s = some (res, s')) :
    res ≠ .queued := by
  unfold mpcpLocal mpcpTake at hlocal
  split at hlocal
  · obtain ⟨s₁, -, hlocal⟩ := Option.bind_eq_some_iff.mp hlocal
    exact semPend_not_queued hlocal
  · exact semPend_not_queued hlocal

/-- `mpcpRestore` up to the owner: the caller gets the priority that the pend
noted, and the note is cleared. -/
def mpcpPrioBack (cur : T) (r : R) (s : CeilingState R Nat T) : CeilingState R Nat T :=
  let prioSwitch := (s.res r).prioSwitch.toNat
  (if s.prio cur ≠ prioSwitch then s.changePrio cur prioSwitch else s).setPrioSwitch r 0

theorem mpcpPrioBack_prio (cur t : T) (r : R) (s : CeilingState R Nat T) :
    (mpcpPrioBack cur r s).prio t =
      if t = cur then (s.res r).prioSwitch.toNat else s.prio t := by
  have hlt := (s.res r).prioSwitch.isLt
  show (if s.prio cur ≠ (s.res r).prioSwitch.toNat then
    s.changePrio cur (s.res r).prioSwitch.toNat else s).prio t = _
  by_cases hsame : s.prio cur = (s.res r).prioSwitch.toNat
  · rw [if_neg (not_not.mpr hsame)]
    by_cases ht : t = cur
    · rw [if_pos ht, ht, hsame]
    · rw [if_neg ht]
  · rw [if_pos hsame, changePrio_prio]
    by_cases ht : t = cur
    · rw [if_pos ht, if_pos ht]
      omega
    · rw [if_neg ht, if_neg ht]

theorem mpcpPrioBack_obj (cur : T) (r : R) (s : CeilingState R Nat T) :
    (mpcpPrioBack cur r s).ipc.ipc = s.ipc.ipc := by
  show (if s.prio cur ≠ (s.res r).prioSwitch.toNat then
    s.changePrio cur (s.res r).prioSwitch.toNat else s).ipc.ipc = _
  split <;> rfl

/-- The end of a post by the owner. -/
theorem mpcpRestore_semPost {cur : T} {r : R} {s : CeilingState R Nat T} (hsem : s.SemOk r)
    (howner : s.owner r ≠ none) :
    (mpcpRestore cur r s).semPost r = some (.KR_OK, (mpcpPrioBack cur r s).drop r) := by
  obtain ⟨htype, hcount⟩ := hsem
  rw [if_neg howner] at hcount
  have hclear := semPost_clear (s := mpcpPrioBack cur r s) (r := r)
    (by rw [mpcpPrioBack_obj]; exact htype) (by rw [mpcpPrioBack_obj]; exact hcount)
  exact hclear

theorem SameRes.mpcpWake {k : Nat} {s s' : CeilingState R Nat T}
    (h : ACoral.mpcpWake k s = some s') : SameRes s s' := by
  obtain ⟨v, -, hv⟩ := Option.map_eq_some_iff.mp h
  cases v with
  | none =>
      obtain rfl := hv
      exact SameRes.refl s
  | some t =>
      obtain rfl := hv
      exact SameRes.rdyThread s t

theorem acoralMpcpPost_error {cur : T} {r : R} {s : CeilingState R Nat T}
    (howner : s.owner r ≠ some cur) : acoralMpcpPost cur r s = some (.KR_IPC_ERR_THREAD, s) :=
  if_pos howner

theorem acoralMpcpPost_local {cur : T} {r : R} {s s' : CeilingState R Nat T} {e : KernelError}
    (htype : (s.res r).type = .LOCAL) (hsem : s.SemOk r) (howner : s.owner r = some cur)
    (hpost : acoralMpcpPost cur r s = some (e, s')) :
    e = .KR_OK ∧ ∃ s₁ s₂, s.pop (s.cpu cur) r = some s₁ ∧ mpcpWake (s.cpu cur) s₁ = some s₂ ∧
      s' = (mpcpPrioBack cur r s₂).drop r := by
  unfold acoralMpcpPost at hpost
  rw [if_neg (not_not.mpr howner), htype] at hpost
  obtain ⟨s₁, hpop, hpost⟩ := Option.bind_eq_some_iff.mp hpost
  obtain ⟨s₂, hwake, hpost⟩ := Option.bind_eq_some_iff.mp hpost
  have hobj : s₂.ipc.ipc = s.ipc.ipc := by
    rw [(SameRes.mpcpWake hwake).obj, (SameButStack.pop hpop).ipc]
  have howner₂ : s₂.owner r ≠ none := by
    unfold CeilingState.owner at howner ⊢
    rw [hobj, howner]
    simp
  rw [mpcpRestore_semPost (hsem.congr (by rw [hobj])) howner₂] at hpost
  obtain ⟨rfl, rfl⟩ := Prod.mk.inj (Option.some.inj hpost)
  exact ⟨rfl, s₁, s₂, hpop, hwake, rfl⟩

/-! ### A global resource -/

/-- A pend of a global resource that is free. -/
theorem acoralMpcpPend_global {fuel : Nat} {cur : T} {r : R} {s : CeilingState R Nat T}
    (htype : (s.res r).type = .GLOBAL) (hsem : s.SemOk r) (hfree : s.owner r = none) :
    acoralMpcpPend fuel cur r s = some (.ret .KR_OK,
      (((s.switchPreempt cur .ACORAL_PREEMPT_LOCAL .ACORAL_PREEMPT_GLOBAL).setPrioSwitch r
        (BitVec.ofNat 8 (s.prio cur))).changePrio cur (s.res r).prioCeiling).take r cur) := by
  have hswitch := SameRes.switchPreempt s cur .ACORAL_PREEMPT_LOCAL .ACORAL_PREEMPT_GLOBAL
  have hfree' : (s.switchPreempt cur .ACORAL_PREEMPT_LOCAL .ACORAL_PREEMPT_GLOBAL).owner r =
      none := by
    rw [hswitch.owner r, hfree]
  have hprio : (s.switchPreempt cur .ACORAL_PREEMPT_LOCAL .ACORAL_PREEMPT_GLOBAL).prio cur =
      s.prio cur := by
    unfold CeilingState.prio
    rw [switchPreempt_ipc]
  simp only [acoralMpcpPend, htype]
  rw [if_pos hfree', hprio, hswitch.res]
  have hobj : ((((s.switchPreempt cur .ACORAL_PREEMPT_LOCAL .ACORAL_PREEMPT_GLOBAL).setPrioSwitch r
      (BitVec.ofNat 8 (s.prio cur))).changePrio cur (s.res r).prioCeiling).ipc.ipc (.sem r)) =
      s.ipc.ipc (.sem r) := by
    rw [← hswitch.obj]
    rfl
  have hnone : (((s.switchPreempt cur .ACORAL_PREEMPT_LOCAL .ACORAL_PREEMPT_GLOBAL).setPrioSwitch r
      (BitVec.ofNat 8 (s.prio cur))).changePrio cur (s.res r).prioCeiling).owner r = none := by
    unfold CeilingState.owner at hfree ⊢
    rw [hobj, hfree]
  exact semPend_own (hsem.congr hobj) hnone

/-- A pend of a global resource that is in use. -/
theorem acoralMpcpPend_contended {fuel : Nat} {cur : T} {r : R} {s s' : CeilingState R Nat T}
    {res : CeilingResult} (htype : (s.res r).type = .GLOBAL) (hsem : s.SemOk r)
    (howner : s.owner r ≠ none) (hpend : acoralMpcpPend fuel cur r s = some (res, s')) :
    res = .blocked := by
  have hswitch := SameRes.switchPreempt s cur .ACORAL_PREEMPT_LOCAL .ACORAL_PREEMPT_GLOBAL
  have howner' : (s.switchPreempt cur .ACORAL_PREEMPT_LOCAL .ACORAL_PREEMPT_GLOBAL).owner r ≠
      none := by
    rwa [hswitch.owner r]
  simp only [acoralMpcpPend, htype] at hpend
  rw [if_neg howner'] at hpend
  unfold mpcpTake CeilingState.own at hpend
  rw [if_neg howner'] at hpend
  exact semPend_taken (hsem.congr (by rw [hswitch.obj])) howner' hpend

/-- A post of a global resource by its owner. -/
theorem acoralMpcpPost_global {cur : T} {r : R} {s : CeilingState R Nat T}
    (htype : (s.res r).type = .GLOBAL) (hsem : s.SemOk r) (howner : s.owner r = some cur) :
    acoralMpcpPost cur r s = some (.KR_OK, (mpcpPrioBack cur r
      (s.switchPreempt cur .ACORAL_PREEMPT_GLOBAL .ACORAL_PREEMPT_LOCAL)).drop r) := by
  have hswitch := SameRes.switchPreempt s cur .ACORAL_PREEMPT_GLOBAL .ACORAL_PREEMPT_LOCAL
  unfold acoralMpcpPost
  rw [if_neg (not_not.mpr howner), htype]
  exact mpcpRestore_semPost (hsem.congr (by rw [hswitch.obj]))
    (by rw [hswitch.owner r, howner]; simp)

/-- No call on a global resource touches a system. -/
theorem acoralMpcpPend_global_stack {fuel : Nat} {cur : T} {r : R} {s s' : CeilingState R Nat T}
    {res : CeilingResult} (htype : (s.res r).type = .GLOBAL)
    (hpend : acoralMpcpPend fuel cur r s = some (res, s')) :
    res ≠ .queued ∧ s'.stack = s.stack ∧ s'.sysPrio = s.sysPrio := by
  have hsem : ∀ y : CeilingState R Nat T, (y.own r cur).semPend fuel r cur = some (res, s') →
      res ≠ .queued ∧ s'.stack = y.stack ∧ s'.sysPrio = y.sysPrio := fun y hy => by
    have hne := semPend_not_queued hy
    obtain ⟨⟨res', ipc⟩, -, hres⟩ := Option.map_eq_some_iff.mp hy
    have hown : (y.own r cur).stack = y.stack ∧ (y.own r cur).sysPrio = y.sysPrio := by
      unfold CeilingState.own
      split <;> exact ⟨rfl, rfl⟩
    cases res' <;> (obtain ⟨-, rfl⟩ := Prod.mk.inj hres; exact ⟨hne, hown⟩)
  have hswitch := SameRes.switchPreempt s cur .ACORAL_PREEMPT_LOCAL .ACORAL_PREEMPT_GLOBAL
  simp only [acoralMpcpPend, htype] at hpend
  split at hpend
  · obtain ⟨hne, hstack, hprio⟩ := hsem _ hpend
    exact ⟨hne, hstack.trans hswitch.stack, hprio.trans hswitch.sysPrio⟩
  · obtain ⟨hne, hstack, hprio⟩ := hsem _ hpend
    exact ⟨hne, hstack.trans hswitch.stack, hprio.trans hswitch.sysPrio⟩

theorem acoralMpcpPost_global_stack {cur : T} {r : R} {s s' : CeilingState R Nat T}
    {e : KernelError} (htype : (s.res r).type = .GLOBAL)
    (hpost : acoralMpcpPost cur r s = some (e, s')) :
    s'.stack = s.stack ∧ s'.sysPrio = s.sysPrio := by
  unfold acoralMpcpPost at hpost
  split at hpost
  · obtain ⟨-, rfl⟩ := Prod.mk.inj (Option.some.inj hpost)
    exact ⟨rfl, rfl⟩
  · rw [htype] at hpost
    obtain ⟨⟨e', ipc⟩, -, hres⟩ := Option.map_eq_some_iff.mp hpost
    obtain ⟨-, rfl⟩ := Prod.mk.inj hres
    have hswitch := SameRes.switchPreempt s cur .ACORAL_PREEMPT_GLOBAL .ACORAL_PREEMPT_LOCAL
    have hrestore : ∀ y : CeilingState R Nat T, (mpcpRestore cur r y).stack = y.stack ∧
        (mpcpRestore cur r y).sysPrio = y.sysPrio := fun y => by
      unfold mpcpRestore
      simp only
      split <;> exact ⟨rfl, rfl⟩
    exact ⟨(hrestore _).1.trans hswitch.stack, (hrestore _).2.trans hswitch.sysPrio⟩

/-! ### Places -/

section Places

variable (x : MpcpRun R T) (cur t : T) (r : R)

theorem mpcpRet_pc (c : CeilingCall) (e : KernelError) (s : CeilingState R Nat T) :
    (x.ret c cur r e s).pc t = if t = cur then .idle else x.pc t := by
  unfold MpcpRun.ret
  by_cases ht : t = cur <;> simp [ht]

theorem pended_st (res : CeilingResult × CeilingState R Nat T) :
    (x.pended cur r res).st = res.2 := by
  unfold MpcpRun.pended
  split
  · rfl
  · rfl
  · simp only
    split <;> rfl

theorem pended_pc (res : CeilingResult × CeilingState R Nat T) :
    (x.pended cur r res).pc t =
      if t = cur then
        (match res.1 with | .ret _ => .idle | .queued => .wait r | .blocked => .sem r)
      else x.pc t := by
  obtain ⟨res, s⟩ := res
  cases res with
  | ret e => exact mpcpRet_pc x cur t r .pend e s
  | queued =>
      unfold MpcpRun.pended
      by_cases ht : t = cur <;> simp [ht]
  | blocked =>
      unfold MpcpRun.pended
      simp only
      split <;> by_cases ht : t = cur <;> simp [ht, MpcpRun.setLock]

end Places

end ACoral
