import ACoral.Proofs.Ceiling.Dpcp
import ACoral.Proofs.Ceiling.Mpcp

/-!
# `ACoral.Proofs.Ceiling.ThreadFrame`: what the protocols do to a thread

`s.attrs t` is the part of a thread that a user of resources has to give back:
its priority, its CPU, its preemption type and its data.

`ThreadFrame t s s'` says that these are the same, and that the resources are
where they were. Every primitive that the two protocols are made of has a
lemma here; the functions follow by composition.

Only one primitive reaches another thread than the caller: a requester that
fails the test gives its priority to the user of the top (`keepsPrio`).
-/

set_option autoImplicit false
set_option linter.unusedSectionVars false

namespace ACoral

open CeilingState

variable {R K T : Type} [DecidableEq R] [DecidableEq K] [DecidableEq T]

/-- The thread that takes the step. -/
def CeilingOp.thread : CeilingOp R T → T
  | .call _ cur _ => cur
  | .resume cur   => cur

/-- The fields of a thread that a pend changes and a post gives back. -/
@[ext]
structure ThreadAttrs where
  prio : Nat
  cpu : Nat
  preemptType : PreemptType
  data : Option ThreadData

/-- Those of a thread. -/
def CeilingState.attrs (s : CeilingState R K T) (t : T) : ThreadAttrs :=
  { prio := s.prio t, cpu := s.cpu t, preemptType := s.preemptType t, data := s.data t }

/-- No call of `t` is among the steps: it only goes on with the one it is in. -/
def NoCall (t : T) (ops : List (CeilingOp R T)) : Prop := ∀ c q, .call c t q ∉ ops

/-- A requester that fails the test leaves the priority of `t` as it is: `t`
does not use the top, or has that priority already. -/
def CeilingState.keepsPrio (s : CeilingState R K T) (k : K) (cur t : T) : Bool :=
  match s.stackTop k with
  | some top => decide (s.owner top = some t → s.prio cur % 256 = s.prio t)
  | none     => true

/-- The preemption type of a thread that uses a resource. -/
def PreemptType.inside (p : PreemptType) : CeilingType → PreemptType
  | .LOCAL  => p
  | .GLOBAL => if p = .ACORAL_PREEMPT_LOCAL then .ACORAL_PREEMPT_GLOBAL else p

/-- The post gives it back, unless it was global before. -/
theorem PreemptType.inside_back {p : PreemptType} (hp : p ≠ .ACORAL_PREEMPT_GLOBAL) :
    (if p.inside .GLOBAL = .ACORAL_PREEMPT_GLOBAL then .ACORAL_PREEMPT_LOCAL
      else p.inside .GLOBAL) = p := by
  cases p with
  | ACORAL_PREEMPT_GLOBAL => exact absurd rfl hp
  | _ => rfl

/-- The thread and the places of the resources are the same. -/
structure ThreadFrame (t : T) (s s' : CeilingState R K T) : Prop where
  attrs : s'.attrs t = s.attrs t
  place : ∀ q, (s'.res q).type = (s.res q).type ∧ (s'.res q).cpu = (s.res q).cpu

namespace ThreadFrame

variable {t cur : T} {s s' s'' : CeilingState R K T}

theorem refl (t : T) (s : CeilingState R K T) : ThreadFrame t s s := ⟨rfl, fun _ => ⟨rfl, rfl⟩⟩

theorem trans (h : ThreadFrame t s s') (h' : ThreadFrame t s' s'') : ThreadFrame t s s'' where
  attrs := h'.attrs.trans h.attrs
  place q := ⟨(h'.place q).1.trans (h.place q).1, (h'.place q).2.trans (h.place q).2⟩

/-- All but the priority are the same. -/
theorem attrs_prio (h : ThreadFrame t s s') : s'.attrs t = { s.attrs t with prio := s'.prio t } := by
  have hprio : s'.prio t = s.prio t := congrArg ThreadAttrs.prio h.attrs
  rw [h.attrs, hprio]
  rfl

/-- Only the objects, the queues, the stacks and the system priorities differ. -/
theorem of_eq (hsched : s'.ipc.sched = s.ipc.sched) (hpreempt : s'.preemptType = s.preemptType)
    (hdata : s'.data = s.data) (hres : s'.res = s.res) : ThreadFrame t s s' := by
  refine ⟨?_, fun q => by rw [hres]; exact ⟨rfl, rfl⟩⟩
  unfold CeilingState.attrs CeilingState.prio CeilingState.cpu
  rw [hsched, hpreempt, hdata]

/-- A thread operation, by what it does to the priority and the CPU. -/
theorem of_sched {sched : Sched T} (hprio : (sched.thread t).prio = (s.ipc.sched.thread t).prio)
    (hcpu : (sched.thread t).cpu = (s.ipc.sched.thread t).cpu) :
    ThreadFrame t s { s with ipc := { s.ipc with sched := sched } } := by
  refine ⟨?_, fun _ => ⟨rfl, rfl⟩⟩
  unfold CeilingState.attrs CeilingState.prio CeilingState.cpu
  rw [hprio, hcpu]

theorem rdyThread (s : CeilingState R K T) (u : T) : ThreadFrame t s (s.rdyThread u) :=
  of_sched (rdyThread_prio s u t) (rdyThread_cpu s u t)

theorem suspendSelf (s : CeilingState R K T) (u : T) : ThreadFrame t s (s.suspendSelf u) :=
  of_sched (suspendSelf_prio s u t) (suspendSelf_cpu s u t)

theorem changePrio (s : CeilingState R K T) {u : T} {p : Nat} (hp : u = t → p % 256 = s.prio t) :
    ThreadFrame t s (s.changePrio u p) := by
  refine of_sched ((changePrio_prio s u t p).trans ?_) (changePrio_cpu s u t p)
  split
  · rename_i hu
    exact hp hu.symm
  · rfl

theorem switchPreempt (s : CeilingState R K T) (hne : t ≠ cur) (old new : PreemptType) :
    ThreadFrame t s (s.switchPreempt cur old new) := by
  unfold CeilingState.switchPreempt
  split
  · refine ⟨?_, fun _ => ⟨rfl, rfl⟩⟩
    unfold CeilingState.attrs
    simp only [Function.update_of_ne hne]
    rfl
  · exact refl t s

/-- The caller's own preemption type. -/
theorem attrs_switchPreempt (s : CeilingState R K T) (old new : PreemptType) :
    (s.switchPreempt t old new).attrs t =
      { s.attrs t with preemptType := if s.preemptType t = old then new else s.preemptType t } := by
  unfold CeilingState.switchPreempt
  split
  · simp [CeilingState.attrs, CeilingState.prio, CeilingState.cpu]
  · rfl

theorem setCpu (s : CeilingState R K T) (hne : t ≠ cur) (cpu : Nat) :
    ThreadFrame t s (s.setCpu cur cpu) :=
  of_sched (setCpu_prio s cur t cpu) ((setCpu_cpu s cur t cpu).trans (if_neg hne))

theorem setData (s : CeilingState R K T) (hne : t ≠ cur) (d : Option ThreadData) :
    ThreadFrame t s { s with data := Function.update s.data cur d } := by
  refine ⟨?_, fun _ => ⟨rfl, rfl⟩⟩
  unfold CeilingState.attrs
  simp only [Function.update_of_ne hne]
  rfl

/-- The caller's own data. -/
theorem attrs_setData (s : CeilingState R K T) (d : Option ThreadData) :
    CeilingState.attrs { s with data := Function.update s.data t d } t =
      { s.attrs t with data := d } := by
  simp [CeilingState.attrs, CeilingState.prio, CeilingState.cpu]

theorem setPrioSwitch (s : CeilingState R K T) (r : R) (v : BitVec 8) :
    ThreadFrame t s (s.setPrioSwitch r v) := by
  refine ⟨rfl, fun q => ?_⟩
  unfold CeilingState.setPrioSwitch
  by_cases hq : q = r
  · rw [hq]
    simp
  · simp [hq]

theorem own (s : CeilingState R K T) (r : R) (u : T) : ThreadFrame t s (s.own r u) := by
  unfold CeilingState.own
  split
  · exact of_eq rfl rfl rfl rfl
  · exact refl t s

theorem push {k : K} {r : R} (h : s.push k r = some s') : ThreadFrame t s s' := by
  have hsame := SameButStack.push h
  exact of_eq (by rw [hsame.ipc]) hsame.preemptType hsame.data hsame.res

theorem pop {k : K} {r : R} (h : s.pop k r = some s') : ThreadFrame t s s' := by
  have hsame := SameButStack.pop h
  exact of_eq (by rw [hsame.ipc]) hsame.preemptType hsame.data hsame.res

theorem waitAdd {fuel : Nat} {k : K} {u : T} (h : s.waitAdd fuel k u = some s') :
    ThreadFrame t s s' := by
  obtain ⟨links, -, rfl⟩ := Option.map_eq_some_iff.mp h
  exact of_eq rfl rfl rfl rfl

theorem waitDel {u : T} (h : s.waitDel u = some s') : ThreadFrame t s s' := by
  obtain ⟨links, -, rfl⟩ := Option.map_eq_some_iff.mp h
  exact of_eq rfl rfl rfl rfl

/-- A requester that fails the test. -/
theorem inheritPrio {k : K} (hkeep : s.keepsPrio k cur t = true)
    (h : s.inheritPrio k cur = some s') : ThreadFrame t s s' := by
  obtain ⟨-, top, u, htop, hu, rfl⟩ := SameRes.inheritPrio h
  simp only [CeilingState.keepsPrio, htop, decide_eq_true_eq] at hkeep
  exact changePrio s fun he => hkeep (he ▸ hu)

/-- The semaphore operations write no resource. -/
theorem of_semOnly {r : R} (h : SemOnly r s s')
    (hthread : (s'.ipc.sched.thread t).prio = (s.ipc.sched.thread t).prio ∧
      (s'.ipc.sched.thread t).cpu = (s.ipc.sched.thread t).cpu) : ThreadFrame t s s' := by
  have heq := h.eq
  refine ⟨?_, fun q => by rw [heq]; exact ⟨rfl, rfl⟩⟩
  unfold CeilingState.attrs CeilingState.prio CeilingState.cpu
  rw [hthread.1, hthread.2, heq]

theorem semPend {fuel : Nat} {r : R} {res : CeilingResult}
    (h : s.semPend fuel r cur = some (res, s')) : ThreadFrame t s s' := by
  obtain ⟨hsem, ⟨-, -, hsched⟩ | ⟨-, hadd⟩⟩ := semPend_cases h
  · exact of_semOnly hsem (by rw [hsched]; exact ⟨rfl, rfl⟩)
  · obtain ⟨links, -, hipc⟩ := Option.map_eq_some_iff.mp hadd
    refine of_semOnly hsem ?_
    rw [← hipc]
    exact acoralSuspendThread_attr s.ipc.sched cur t

theorem semPost {r : R} {e : KernelError} (h : s.semPost r = some (e, s')) : ThreadFrame t s s' := by
  obtain ⟨hsem, -, hsched | ⟨u, -, hsched⟩⟩ := semPost_cases h
  · exact of_semOnly hsem (by rw [hsched]; exact ⟨rfl, rfl⟩)
  · refine of_semOnly hsem ?_
    rw [hsched]
    exact acoralRdyThread_attr s.ipc.sched u t

theorem semPendResume {e : KernelError} {ipc : IpcState (CeilingObj R K) T}
    (h : acoralSemPendResume cur s.ipc = some (e, ipc)) : ThreadFrame t s { s with ipc := ipc } := by
  obtain ⟨s₁, hdel, heq⟩ := Option.map_eq_some_iff.mp h
  obtain ⟨-, rfl⟩ := Prod.mk.inj heq
  obtain ⟨links, -, rfl⟩ := Option.map_eq_some_iff.mp hdel
  exact of_eq rfl rfl rfl rfl

end ThreadFrame

/-! ### The functions of DPCP -/

namespace ThreadFrame

variable {t cur : T} {s s' : CeilingState R DpcpSystem T} {r : R} {fuel : Nat}

theorem dpcpTake {res : CeilingResult} (h : ACoral.dpcpTake fuel cur r s = some (res, s')) :
    ThreadFrame t s s' := by
  obtain ⟨⟨res', y⟩, hpend, h⟩ := Option.bind_eq_some_iff.mp h
  have hpended : ThreadFrame t s y := (own s r cur).trans (semPend hpend)
  cases res' with
  | blocked =>
      obtain ⟨⟨e, ipc⟩, hresume, heq⟩ := Option.map_eq_some_iff.mp h
      obtain ⟨-, rfl⟩ := Prod.mk.inj heq
      exact hpended.trans (semPendResume hresume)
  | ret e =>
      obtain ⟨-, rfl⟩ := Prod.mk.inj (Option.some.inj h)
      exact hpended
  | queued =>
      obtain ⟨-, rfl⟩ := Prod.mk.inj (Option.some.inj h)
      exact hpended

/-- A round of the loop of `acoral_dpcp_pend`. -/
theorem dpcpRound {res : CeilingResult}
    (hkeep : (s.res r).type = .LOCAL → s.sysPrio (s.dpcpSystem r) ≤ s.prio cur →
      s.keepsPrio (s.dpcpSystem r) cur t = true)
    (h : ACoral.dpcpRound fuel cur r s = some (res, s')) : ThreadFrame t s s' := by
  unfold ACoral.dpcpRound at h
  simp only at h
  by_cases hfull : s.prio cur ≥ s.sysPrio (s.dpcpSystem r)
  · rw [if_pos hfull] at h
    cases htype : (s.res r).type with
    | LOCAL =>
        rw [htype] at h
        obtain ⟨s₁, hinherit, h⟩ := Option.bind_eq_some_iff.mp h
        obtain ⟨s₂, hadd, heq⟩ := Option.map_eq_some_iff.mp h
        obtain ⟨-, rfl⟩ := Prod.mk.inj heq
        exact (inheritPrio (hkeep htype hfull) hinherit).trans (waitAdd hadd)
    | GLOBAL =>
        rw [htype] at h
        obtain ⟨s₂, hadd, heq⟩ := Option.map_eq_some_iff.mp h
        obtain ⟨-, rfl⟩ := Prod.mk.inj heq
        exact waitAdd hadd
  · rw [if_neg hfull] at h
    obtain ⟨s₁, hpush, h⟩ := Option.bind_eq_some_iff.mp h
    split at h
    · exact (push hpush).trans ((setPrioSwitch s₁ r _).trans (dpcpTake h))
    · exact (push hpush).trans (dpcpTake h)

theorem dpcpWake {k : DpcpSystem} (h : ACoral.dpcpWake k s = some s') : ThreadFrame t s s' := by
  rcases dpcpWake_cases h with ⟨-, rfl⟩ | ⟨u, s₁, -, hdel, rfl⟩
  · exact refl t s'
  · exact (waitDel hdel).trans (rdyThread s₁ u)

theorem jumpCpu (s : CeilingState R DpcpSystem T) (hne : t ≠ cur) (cpu : Nat) :
    ThreadFrame t s (ACoral.jumpCpu s cur cpu) := by
  unfold ACoral.jumpCpu
  split
  · exact refl t s
  · exact ((suspendSelf s cur).trans (setCpu _ hne cpu)).trans (rdyThread _ cur)

/-- A migration of the caller. -/
theorem attrs_jumpCpu (s : CeilingState R DpcpSystem T) {cpu : Nat} (hcpu : cpu < CFG_MAX_CPU) :
    (ACoral.jumpCpu s t cpu).attrs t = { s.attrs t with cpu := cpu } := by
  unfold ACoral.jumpCpu
  split
  · rename_i hor
    have hsame : s.cpu t = cpu := hor.resolve_left (Nat.not_le.mpr hcpu)
    rw [← hsame]
    rfl
  · have hself : ((s.suspendSelf t).setCpu t cpu).attrs t = { s.attrs t with cpu := cpu } := by
      unfold CeilingState.attrs
      rw [setCpu_prio, setCpu_cpu, suspendSelf_prio, if_pos rfl]
      rfl
    rw [(rdyThread _ t).attrs, hself]

/-- The end of a post, where the owner is cleared: nothing is restored. -/
theorem dpcpRestore_semPost {e : KernelError}
    (h : (dpcpRestore cur r s).semPost r = some (e, s')) : ThreadFrame t s s' := by
  rw [dpcpRestore_eq] at h
  have howner : ThreadFrame t s (s.setOwner r none) := of_eq rfl rfl rfl rfl
  exact howner.trans (semPost h)

end ThreadFrame

/-! ### The functions of MPCP -/

namespace ThreadFrame

variable {t cur : T} {s s' : CeilingState R Nat T} {r : R} {fuel : Nat}

theorem mpcpTake {res : CeilingResult} (h : ACoral.mpcpTake fuel cur r s = some (res, s')) :
    ThreadFrame t s s' := (own s r cur).trans (semPend h)

theorem mpcpLocal {k : Nat} {res : CeilingResult}
    (h : ACoral.mpcpLocal fuel cur r k s = some (res, s')) : ThreadFrame t s s' := by
  unfold ACoral.mpcpLocal at h
  split at h
  · obtain ⟨s₁, hpush, h⟩ := Option.bind_eq_some_iff.mp h
    exact (push hpush).trans ((setPrioSwitch s₁ r _).trans (mpcpTake h))
  · exact mpcpTake h

/-- The pend of a requester that is queued. -/
theorem mpcpQueued (hkeep : s.keepsPrio (s.cpu cur) cur t = true)
    (h : MpcpQueued fuel cur r s s') : ThreadFrame t s s' := by
  obtain ⟨top, u, s₁, htop, hu, hadd, rfl⟩ := h.added
  simp only [CeilingState.keepsPrio, htop, decide_eq_true_eq] at hkeep
  exact (changePrio s fun he => hkeep (he ▸ hu)).trans
    ((waitAdd hadd).trans (suspendSelf s₁ cur))

/-- The pend of another thread. -/
theorem acoralMpcpPend {res : CeilingResult} (hne : t ≠ cur)
    (hkeep : (s.res r).type = .LOCAL → s.sysPrio (s.cpu cur) ≤ s.prio cur →
      s.keepsPrio (s.cpu cur) cur t = true)
    (h : ACoral.acoralMpcpPend fuel cur r s = some (res, s')) : ThreadFrame t s s' := by
  cases htype : (s.res r).type with
  | LOCAL =>
      rcases acoralMpcpPend_local htype h with ⟨-, -, rfl⟩ | ⟨-, hqueued⟩ | ⟨-, -, hlocal⟩
      · exact refl t s'
      · exact mpcpQueued (hkeep htype hqueued.full) hqueued
      · exact mpcpLocal hlocal
  | GLOBAL =>
      simp only [ACoral.acoralMpcpPend, htype] at h
      have hswitch := switchPreempt s hne .ACORAL_PREEMPT_LOCAL .ACORAL_PREEMPT_GLOBAL
      split at h
      · exact hswitch.trans ((setPrioSwitch _ r _).trans
          ((changePrio _ fun he => absurd he.symm hne).trans (mpcpTake h)))
      · exact hswitch.trans (mpcpTake h)

theorem mpcpWake {k : Nat} (h : ACoral.mpcpWake k s = some s') : ThreadFrame t s s' := by
  obtain ⟨v, -, h⟩ := Option.map_eq_some_iff.mp h
  cases v with
  | none =>
      obtain rfl := h
      exact refl t s
  | some u =>
      obtain rfl := h
      exact rdyThread s u

/-- The end of a post of another thread. -/
theorem mpcpRestore (s : CeilingState R Nat T) (hne : t ≠ cur) (r : R) :
    ThreadFrame t s (ACoral.mpcpRestore cur r s) := by
  have hclear : ∀ y : CeilingState R Nat T, ThreadFrame t y ((y.setPrioSwitch r 0).setOwner r none) :=
    fun y => (setPrioSwitch y r 0).trans (of_eq rfl rfl rfl rfl)
  unfold ACoral.mpcpRestore
  simp only
  split
  · exact (changePrio s fun he => absurd he.symm hne).trans (hclear _)
  · exact hclear s

/-- The post of another thread. -/
theorem acoralMpcpPost {e : KernelError} (hne : t ≠ cur)
    (h : ACoral.acoralMpcpPost cur r s = some (e, s')) : ThreadFrame t s s' := by
  unfold ACoral.acoralMpcpPost at h
  split at h
  · obtain ⟨-, rfl⟩ := Prod.mk.inj (Option.some.inj h)
    exact refl t s
  · split at h
    · obtain ⟨s₁, hpop, h⟩ := Option.bind_eq_some_iff.mp h
      obtain ⟨s₂, hwake, h⟩ := Option.bind_eq_some_iff.mp h
      exact (pop hpop).trans ((mpcpWake hwake).trans ((mpcpRestore s₂ hne r).trans (semPost h)))
    · exact (switchPreempt s hne _ _).trans ((mpcpRestore _ hne r).trans (semPost h))

/-- The caller gets the priority that the pend noted. -/
theorem attrs_mpcpRestore (s : CeilingState R Nat T) (t : T) (r : R) :
    (ACoral.mpcpRestore t r s).attrs t = { s.attrs t with prio := (s.res r).prioSwitch.toNat } := by
  have hprio := mpcpPrioBack_prio t t r s
  rw [if_pos rfl] at hprio
  have hrest : ∀ y : CeilingState R Nat T, ((y.setPrioSwitch r 0).setOwner r none).attrs t =
      y.attrs t := fun y => ((setPrioSwitch y r 0).trans (of_eq rfl rfl rfl rfl)).attrs
  have hback : (mpcpPrioBack t r s).attrs t =
      { s.attrs t with prio := (s.res r).prioSwitch.toNat } := by
    rw [← hprio]
    unfold mpcpPrioBack
    simp only
    split
    · unfold CeilingState.attrs
      rw [show ((s.changePrio t _).setPrioSwitch r 0).cpu t = s.cpu t from changePrio_cpu s t t _]
      rfl
    · rfl
  exact ((of_eq rfl rfl rfl rfl : ThreadFrame t (mpcpPrioBack t r s)
    (ACoral.mpcpRestore t r s)).attrs).trans hback

end ThreadFrame

end ACoral
