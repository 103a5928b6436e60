import ACoral.Proofs.Ceiling.SelfQueue
import ACoral.Proofs.Ceiling.ThreadFrame

/-!
# `ACoral.Proofs.Ceiling.MpcpRestore`: a thread through a resource of MPCP

The thread `t` pends a resource and posts it, while the other threads take any
steps. The pend notes the priority in `prio_switch` of the resource, and the
post takes it from there: whatever happens to the priority in between is
undone.

`MpcpEntering` is the invariant. The note is the priority at the call, unless
another thread changes it while `t` waits (`mpcpKeepsPrio`); it stays there, as
no other thread gets past the test of a resource in use (`mpcpPassesFree`).
-/

set_option autoImplicit false
set_option linter.unusedSectionVars false

namespace ACoral

open CeilingState
open Lib (run guarded)

variable {R T : Type} [DecidableEq R] [DecidableEq T]

/-- While `t` waits for `r`, no requester gives it another priority; and it
passes the test when it goes on. -/
def mpcpKeepsPrio (t : T) (r : R) (x : MpcpRun R T) : CeilingOp R T → Bool
  | .call .pend cur q =>
      decide (x.pc t = .wait r → (x.st.res q).type = .LOCAL →
        x.st.sysPrio (x.st.cpu cur) ≤ x.st.prio cur → x.st.keepsPrio (x.st.cpu cur) cur t = true)
  | .call .post _ _ => true
  | .resume cur =>
      decide (cur = t → x.pc t = .wait r → x.st.prio t < x.st.sysPrio (x.st.res r).cpu)

/-! ### The resource -/

section Resource

variable {cur t : T} {r : R} {s s' : CeilingState R Nat T} {res : CeilingResult} {fuel k : Nat}

/-- The end of a pend: the resource belongs to its owner, or to the caller. -/
theorem mpcpTake_owner (h : mpcpTake fuel cur r s = some (res, s')) :
    s'.owner r = (if s.owner r = none then some cur else s.owner r) ∧ s'.res = s.res ∧
      s'.preemptType = s.preemptType := by
  have hsem := (semPend_cases h).1
  have heq := hsem.eq
  rw [hsem.owner r, heq]
  unfold CeilingState.own
  by_cases hfree : s.owner r = none
  · rw [if_pos hfree, if_pos hfree]
    refine ⟨?_, rfl, rfl⟩
    unfold CeilingState.owner CeilingState.setOwner IpcState.setIpc
    simp
  · rw [if_neg hfree, if_neg hfree]
    exact ⟨rfl, rfl, rfl⟩

/-- A caller that passes the test of a free resource notes its priority. -/
theorem mpcpLocal_notes (hpass : s.prio cur < s.sysPrio k) (hfree : s.owner r = none)
    (h : mpcpLocal fuel cur r k s = some (res, s')) :
    s'.owner r = some cur ∧ (s'.res r).prioSwitch = BitVec.ofNat 8 (s.prio cur) := by
  unfold mpcpLocal at h
  rw [if_pos hpass] at h
  obtain ⟨s₁, hpush, h⟩ := Option.bind_eq_some_iff.mp h
  have hsame := SameButStack.push hpush
  have hfree₁ : (s₁.setPrioSwitch r (BitVec.ofNat 8 (s₁.prio cur))).owner r = none := by
    rw [← hfree]
    unfold CeilingState.owner
    rw [← hsame.ipc]
    rfl
  have hprio : s₁.prio cur = s.prio cur := by
    unfold CeilingState.prio
    rw [hsame.ipc]
  obtain ⟨howner, hres, -⟩ := mpcpTake_owner h
  rw [if_pos hfree₁] at howner
  refine ⟨howner, ?_⟩
  rw [hres, ← hprio]
  simp [CeilingState.setPrioSwitch]

/-- A pend of a global resource. The caller takes it if it is free, and then
notes its priority. -/
theorem acoralMpcpPend_global_owner (htype : (s.res r).type = .GLOBAL)
    (h : acoralMpcpPend fuel cur r s = some (res, s')) :
    (s.owner r = none ∧ s'.owner r = some cur ∧
        (s'.res r).prioSwitch = BitVec.ofNat 8 (s.prio cur)) ∨
      s.owner r ≠ none ∧ s'.owner r = s.owner r ∧ s'.res = s.res := by
  have hswitch := SameRes.switchPreempt s cur .ACORAL_PREEMPT_LOCAL .ACORAL_PREEMPT_GLOBAL
  have hprio : (s.switchPreempt cur .ACORAL_PREEMPT_LOCAL .ACORAL_PREEMPT_GLOBAL).prio cur =
      s.prio cur := by
    unfold CeilingState.prio
    rw [switchPreempt_ipc]
  simp only [acoralMpcpPend, htype] at h
  rw [hswitch.owner r] at h
  by_cases hfree : s.owner r = none
  · left
    rw [if_pos hfree, hprio] at h
    obtain ⟨howner, hres, -⟩ := mpcpTake_owner h
    have hnone : (((s.switchPreempt cur .ACORAL_PREEMPT_LOCAL .ACORAL_PREEMPT_GLOBAL).setPrioSwitch
        r (BitVec.ofNat 8 (s.prio cur))).changePrio cur
        ((s.switchPreempt cur .ACORAL_PREEMPT_LOCAL .ACORAL_PREEMPT_GLOBAL).res r).prioCeiling).owner
        r = none := by
      rw [← hfree, ← hswitch.owner r]
      rfl
    rw [if_pos hnone] at howner
    refine ⟨hfree, howner, ?_⟩
    rw [hres]
    simp [CeilingState.setPrioSwitch, CeilingState.changePrio]
  · right
    rw [if_neg hfree] at h
    obtain ⟨howner, hres, -⟩ := mpcpTake_owner h
    rw [hswitch.owner r, if_neg hfree] at howner
    exact ⟨hfree, howner, hres.trans hswitch.res⟩

/-- The preemption type of the caller, in a pend of a global resource. -/
theorem acoralMpcpPend_global_preempt (htype : (s.res r).type = .GLOBAL)
    (h : acoralMpcpPend fuel cur r s = some (res, s')) :
    s'.preemptType cur = (s.preemptType cur).inside .GLOBAL := by
  have hswitch : (s.switchPreempt cur .ACORAL_PREEMPT_LOCAL .ACORAL_PREEMPT_GLOBAL).preemptType cur =
      (s.preemptType cur).inside .GLOBAL :=
    congrArg ThreadAttrs.preemptType (ThreadFrame.attrs_switchPreempt s _ _)
  simp only [acoralMpcpPend, htype] at h
  split at h
  · exact (congrFun (mpcpTake_owner h).2.2 cur).trans hswitch
  · exact (congrFun (mpcpTake_owner h).2.2 cur).trans hswitch

/-- A caller that comes to a free resource takes it. -/
theorem mpcpLocal_owner (hfree : s.owner r = none)
    (h : mpcpLocal fuel cur r k s = some (res, s')) : s'.owner r = some cur := by
  by_cases hpass : s.prio cur < s.sysPrio k
  · exact (mpcpLocal_notes hpass hfree h).1
  · unfold mpcpLocal at h
    rw [if_neg hpass] at h
    have howner := (mpcpTake_owner h).1
    rwa [if_pos hfree] at howner

/-- After a post by the owner nobody owns the resource. -/
theorem acoralMpcpPost_owner {e : KernelError} (howner : s.owner r = some cur)
    (h : acoralMpcpPost cur r s = some (e, s')) : s'.owner r = none := by
  have hclear : ∀ y : CeilingState R Nat T, (mpcpRestore cur r y).semPost r = some (e, s') →
      s'.owner r = none := fun y hy => by
    rw [(semPost_cases hy).1.owner r]
    unfold mpcpRestore CeilingState.owner CeilingState.setOwner IpcState.setIpc
    simp
  unfold acoralMpcpPost at h
  rw [if_neg (not_not.mpr howner)] at h
  split at h
  · obtain ⟨s₁, -, h⟩ := Option.bind_eq_some_iff.mp h
    obtain ⟨s₂, -, h⟩ := Option.bind_eq_some_iff.mp h
    exact hclear s₂ h
  · exact hclear _ h

end Resource

/-- Whether `t` owns the resource is the same, and then the note is. -/
structure KeepsNote (t : T) (r : R) (s s' : CeilingState R Nat T) : Prop where
  owner : s'.owner r = some t ↔ s.owner r = some t
  note : s.owner r = some t → (s'.res r).prioSwitch = (s.res r).prioSwitch

namespace KeepsNote

variable {cur t : T} {q r : R} {s s' : CeilingState R Nat T} {fuel : Nat}

theorem of_eq (howner : s'.owner r = s.owner r) (hres : s'.res = s.res) : KeepsNote t r s s' :=
  ⟨by rw [howner], fun _ => by rw [hres]⟩

/-- A call on another resource. -/
theorem of_frame (hne : r ≠ q) (h : MpcpFrame q cur s s') : KeepsNote t r s s' := by
  refine ⟨?_, fun _ => by rw [h.res r hne]⟩
  unfold CeilingState.owner
  rw [h.obj r hne]

/-- Another thread becomes the owner, or stops to be. -/
theorem of_other {u u' : Option T} (hu : s.owner r = u) (hu' : s'.owner r = u') (hne : u ≠ some t)
    (hne' : u' ≠ some t) : KeepsNote t r s s' := by
  subst hu hu'
  exact ⟨iff_of_false hne' hne, fun h => absurd h hne⟩

/-- The pend of another thread. -/
theorem pend {x : MpcpRun R T} {res : CeilingResult} (hcur : t ≠ cur)
    (hguard : mpcpPassesFree x (.call .pend cur q) = true)
    (h : acoralMpcpPend fuel cur q x.st = some (res, s')) : KeepsNote t r x.st s' := by
  by_cases hq : r = q
  case neg => exact of_frame hq (MpcpFrame.acoralMpcpPend h)
  case pos =>
    subst hq
    have hcur' : some cur ≠ some t := fun he => hcur (Option.some.inj he).symm
    cases htype : (x.st.res r).type with
    | LOCAL =>
        rcases acoralMpcpPend_local htype h with ⟨-, -, rfl⟩ | ⟨-, hqueued⟩ | ⟨hcpu, hpass, hlocal⟩
        · exact of_eq rfl rfl
        · exact of_eq (hqueued.sameRes.owner r) hqueued.sameRes.res
        · have hfree : x.st.owner r = none := by
            have hor := of_decide_eq_true hguard
            rw [htype] at hor
            rcases hor with hor | hor | hor | hor
            · exact absurd hor (by decide)
            · exact absurd hcpu hor
            · exact absurd hpass (Nat.not_lt.mpr hor)
            · exact hor
          exact of_other hfree (mpcpLocal_owner hfree hlocal) (by simp) hcur'
    | GLOBAL =>
        rcases acoralMpcpPend_global_owner htype h with ⟨hfree, howner, -⟩ | ⟨-, howner, hres⟩
        · exact of_other hfree howner (by simp) hcur'
        · exact of_eq howner hres

/-- The post of another thread. -/
theorem post {e : KernelError} (hcur : t ≠ cur) (h : acoralMpcpPost cur q s = some (e, s')) :
    KeepsNote t r s s' := by
  by_cases hq : r = q
  case neg => exact of_frame hq (MpcpFrame.acoralMpcpPost h)
  case pos =>
    subst hq
    by_cases howner : s.owner r = some cur
    · exact of_other howner (acoralMpcpPost_owner howner h)
        (fun he => hcur (Option.some.inj he).symm) (by simp)
    · rw [acoralMpcpPost_error howner] at h
      obtain ⟨-, rfl⟩ := Prod.mk.inj (Option.some.inj h)
      exact of_eq rfl rfl

/-- The way out of the semaphore. -/
theorem semPendResume {e : KernelError} {ipc : IpcState (CeilingObj R Nat) T}
    (h : acoralSemPendResume cur s.ipc = some (e, ipc)) : KeepsNote t r s { s with ipc := ipc } := by
  obtain ⟨s₁, hdel, heq⟩ := Option.map_eq_some_iff.mp h
  obtain ⟨-, rfl⟩ := Prod.mk.inj heq
  obtain ⟨links, -, rfl⟩ := Option.map_eq_some_iff.mp hdel
  exact of_eq rfl rfl

end KeepsNote

/-! ### The thread -/

/-- What `t` had before its pend of `r`, and where its priority is noted. -/
structure MpcpEntering (a : ThreadAttrs) (k : CeilingType) (t : T) (r : R) (x : MpcpRun R T) :
    Prop where
  type : (x.st.res r).type = k
  rest : x.st.attrs t = { a with prio := x.st.prio t, preemptType := a.preemptType.inside k }
  /-- the note is made, or `t` waits with its priority, or it did not get the resource -/
  prio : x.st.owner r = some t ∧ (x.st.res r).prioSwitch.toNat = a.prio ∨
    x.pc t = .wait r ∧ x.st.prio t = a.prio ∨
    x.st.owner r ≠ some t ∧ x.pc t ≠ .wait r

section Thread

variable {x x' : MpcpRun R T} {a : ThreadAttrs} {k : CeilingType} {cur t : T} {q r : R} {fuel : Nat}
  {op : CeilingOp R T}

/-- A call of another thread leaves all but the priority alone. -/
theorem MpcpFrame.attrs {s s' : CeilingState R Nat T} (hcur : t ≠ cur) (h : MpcpFrame q cur s s') :
    s'.attrs t = { s.attrs t with prio := s'.prio t } := by
  unfold CeilingState.attrs
  rw [h.cpu t, h.preempt t hcur, h.data]

/-- A step of another thread, with the resource it is about. -/
theorem mpcpStep_other (hguard : mpcpPassesFree x op = true) (hne : op.thread ≠ t)
    (hstep : mpcpStep fuel x op = some x') :
    (∃ p, MpcpFrame p op.thread x.st x'.st) ∧ x'.pc t = x.pc t ∧ KeepsNote t r x.st x'.st ∧
      (mpcpKeepsPrio t r x op = true → x.pc t = .wait r → x'.st.prio t = x.st.prio t) := by
  cases op with
  | call c cur q =>
      have hcur : t ≠ cur := fun he => hne he.symm
      obtain ⟨-, hstep⟩ := Option.ite_none_right_eq_some.mp hstep
      cases c with
      | pend =>
          obtain ⟨-, hstep⟩ := Option.ite_none_right_eq_some.mp hstep
          obtain ⟨⟨res, s'⟩, hpend, rfl⟩ := Option.map_eq_some_iff.mp hstep
          rw [pended_st, pended_pc, if_neg hcur]
          refine ⟨⟨q, MpcpFrame.acoralMpcpPend hpend⟩, rfl, .pend hcur hguard hpend,
            fun hkeep hwait => ?_⟩
          have hframe : ThreadFrame t x.st s' :=
            ThreadFrame.acoralMpcpPend hcur (of_decide_eq_true hkeep hwait) hpend
          exact congrArg ThreadAttrs.prio hframe.attrs
      | post =>
          obtain ⟨-, hstep⟩ := Option.ite_none_right_eq_some.mp hstep
          obtain ⟨⟨e, s'⟩, hpost, rfl⟩ := Option.map_eq_some_iff.mp hstep
          have hframe : ThreadFrame t x.st s' := ThreadFrame.acoralMpcpPost hcur hpost
          exact ⟨⟨q, MpcpFrame.acoralMpcpPost hpost⟩, by rw [mpcpRet_pc, if_neg hcur],
            .post hcur hpost, fun _ _ => congrArg ThreadAttrs.prio hframe.attrs⟩
  | resume cur =>
      have hcur : t ≠ cur := fun he => hne he.symm
      obtain ⟨-, hstep⟩ := Option.ite_none_right_eq_some.mp hstep
      unfold mpcpResume at hstep
      cases hpc : x.pc cur with
      | idle =>
          rw [hpc] at hstep
          exact absurd hstep (by simp)
      | wait q =>
          rw [hpc] at hstep
          obtain ⟨⟨res, s'⟩, hlocal, rfl⟩ := Option.map_eq_some_iff.mp hstep
          have hframe : ThreadFrame t x.st s' := ThreadFrame.mpcpLocal hlocal
          have hnote : KeepsNote t r x.st s' := by
            by_cases hq : r = q
            · subst hq
              have hfree : x.st.owner r = none := by
                simpa [mpcpPassesFree, hpc] using hguard
              exact .of_other hfree (mpcpLocal_owner hfree hlocal) (by simp)
                fun he => hcur (Option.some.inj he).symm
            · exact .of_frame hq (MpcpFrame.mpcpLocal hlocal)
          rw [pended_st, pended_pc, if_neg hcur]
          exact ⟨⟨q, MpcpFrame.mpcpLocal hlocal⟩, rfl, hnote,
            fun _ _ => congrArg ThreadAttrs.prio hframe.attrs⟩
      | sem q =>
          rw [hpc] at hstep
          obtain ⟨⟨e, ipc⟩, hresume, rfl⟩ := Option.map_eq_some_iff.mp hstep
          have hst : ∀ y : MpcpRun R T, (if (x.st.res q).type = .GLOBAL then y.setLock q none
              else y).st = y.st ∧ (if (x.st.res q).type = .GLOBAL then y.setLock q none
              else y).pc = y.pc := fun y => by split <;> exact ⟨rfl, rfl⟩
          simp only [(hst _).1, (hst _).2]
          have hframe : ThreadFrame t x.st { x.st with ipc := ipc } :=
            ThreadFrame.semPendResume hresume
          exact ⟨⟨q, MpcpFrame.semPendResume hresume⟩, by rw [mpcpRet_pc, if_neg hcur],
            .semPendResume hresume, fun _ _ => congrArg ThreadAttrs.prio hframe.attrs⟩

/-- The attributes but the priority, after an operation that keeps them. -/
theorem MpcpEntering.rest_of {s s' : CeilingState R Nat T} {p : PreemptType}
    (hrest : s.attrs t = { a with prio := s.prio t, preemptType := p })
    (h : s'.attrs t = { s.attrs t with prio := s'.prio t }) :
    s'.attrs t = { a with prio := s'.prio t, preemptType := p } := by
  rw [h, hrest]

/-- The pend of `t`. -/
theorem MpcpEntering.of_call (hprio : x.st.prio t < 256) (howner : x.st.owner r ≠ some t)
    (hguard : mpcpPassesFree x (.call .pend t r) = true)
    (hstep : mpcpStep fuel x (.call .pend t r) = some x') :
    MpcpEntering (x.st.attrs t) (x.st.res r).type t r x' := by
  obtain ⟨⟨-, hidle⟩, hstep⟩ := Option.ite_none_right_eq_some.mp hstep
  obtain ⟨-, hstep⟩ := Option.ite_none_right_eq_some.mp hstep
  obtain ⟨⟨res, s'⟩, hpend, rfl⟩ := Option.map_eq_some_iff.mp hstep
  have hplace := (MpcpFrame.acoralMpcpPend hpend).fixed.1
  have hnote : ∀ v : BitVec 8, v = BitVec.ofNat 8 (x.st.prio t) →
      v.toNat = (x.st.attrs t).prio := fun v hv => by
    rw [hv, BitVec.toNat_ofNat, Nat.mod_eq_of_lt (by simpa using hprio)]
    rfl
  cases htype : (x.st.res r).type with
  | LOCAL =>
      rcases acoralMpcpPend_local htype hpend with ⟨-, rfl, rfl⟩ | ⟨rfl, hqueued⟩ |
        ⟨hcpu, hpass, hlocal⟩
      · exact ⟨htype, rfl, Or.inr (Or.inr ⟨howner, by rw [pended_pc, if_pos rfl]; simp⟩)⟩
      · have hkeep : x.st.keepsPrio (x.st.cpu t) t t = true := by
          unfold CeilingState.keepsPrio
          split
          · exact decide_eq_true fun _ => Nat.mod_eq_of_lt hprio
          · rfl
        have hframe := ThreadFrame.mpcpQueued hkeep hqueued
        have hsame := congrArg ThreadAttrs.prio hframe.attrs
        refine ⟨hplace.trans htype, ?_, Or.inr (Or.inl ⟨by rw [pended_pc, if_pos rfl], hsame⟩)⟩
        exact hframe.attrs_prio
      · have hfree : x.st.owner r = none := by
          have hor := of_decide_eq_true hguard
          rw [htype] at hor
          rcases hor with hor | hor | hor | hor
          · exact absurd hor (by decide)
          · exact absurd hcpu hor
          · exact absurd hpass (Nat.not_lt.mpr hor)
          · exact hor
        obtain ⟨hown, hswitch⟩ := mpcpLocal_notes hpass hfree hlocal
        have hframe : ThreadFrame t x.st s' := ThreadFrame.mpcpLocal hlocal
        refine ⟨?_, ?_, Or.inl ⟨?_, ?_⟩⟩
        · rw [pended_st]
          exact hplace.trans htype
        · rw [pended_st]
          exact hframe.attrs_prio
        · rw [pended_st]
          exact hown
        · rw [pended_st]
          exact hnote _ hswitch
  | GLOBAL =>
      have hrest : s'.attrs t = { x.st.attrs t with
          prio := s'.prio t
          preemptType := (x.st.attrs t).preemptType.inside .GLOBAL } := by
        have hcpu := (MpcpFrame.acoralMpcpPend hpend).cpu t
        have hdata := (MpcpFrame.acoralMpcpPend hpend).data
        have hpre := acoralMpcpPend_global_preempt htype hpend
        unfold CeilingState.attrs
        rw [hcpu, hdata, hpre]
      have hne : res ≠ .queued := (acoralMpcpPend_global_stack htype hpend).1
      refine ⟨?_, ?_, ?_⟩
      · rw [pended_st]
        exact hplace.trans htype
      · rw [pended_st]
        exact hrest
      · rw [pended_st, pended_pc, if_pos rfl]
        rcases acoralMpcpPend_global_owner htype hpend with ⟨-, hown, hswitch⟩ | ⟨-, hown, -⟩
        · exact Or.inl ⟨hown, hnote _ hswitch⟩
        · refine Or.inr (Or.inr ⟨by rw [hown]; exact howner, ?_⟩)
          cases res with
          | queued => exact absurd rfl hne
          | _ => simp

/-- Any step but a call of `t`, up to the post. -/
theorem MpcpEntering.step (h : MpcpEntering a k t r x) (hprio : a.prio < 256)
    (hguard : mpcpPassesFree x op = true) (hkeep : mpcpKeepsPrio t r x op = true)
    (hop : ∀ c q, op ≠ .call c t q) (hstep : mpcpStep fuel x op = some x') :
    MpcpEntering a k t r x' := by
  by_cases hne : op.thread = t
  case neg =>
    obtain ⟨⟨p, hframe⟩, hpc, hnote, hsame⟩ := mpcpStep_other hguard hne hstep
    refine ⟨(hframe.fixed_all r).1.trans h.type,
      rest_of h.rest (hframe.attrs fun he => hne he.symm), ?_⟩
    rcases h.prio with ⟨hown, hsw⟩ | ⟨hwait, hp⟩ | ⟨hown, hwait⟩
    · exact Or.inl ⟨hnote.owner.mpr hown, by rw [hnote.note hown, hsw]⟩
    · exact Or.inr (Or.inl ⟨hpc.trans hwait, (hsame hkeep hwait).trans hp⟩)
    · exact Or.inr (Or.inr ⟨fun he => hown (hnote.owner.mp he), by rwa [hpc]⟩)
  case pos =>
    cases op with
    | call c u q =>
        obtain rfl : u = t := hne
        exact absurd rfl (hop c q)
    | resume u =>
        obtain rfl : u = t := hne
        obtain ⟨-, hresume⟩ := Option.ite_none_right_eq_some.mp hstep
        unfold mpcpResume at hresume
        cases hpc : x.pc u with
        | idle =>
            rw [hpc] at hresume
            exact absurd hresume (by simp)
        | wait q =>
            rw [hpc] at hresume
            obtain ⟨⟨res, s'⟩, hlocal, rfl⟩ := Option.map_eq_some_iff.mp hresume
            have hframe : ThreadFrame u x.st s' := ThreadFrame.mpcpLocal hlocal
            have hfree : x.st.owner q = none := by
              simpa [mpcpPassesFree, hpc] using hguard
            refine ⟨?_, ?_, ?_⟩
            · rw [pended_st]
              exact ((MpcpFrame.mpcpLocal hlocal).fixed_all r).1.trans h.type
            · rw [pended_st]
              exact rest_of h.rest hframe.attrs_prio
            · rw [pended_st, pended_pc, if_pos rfl]
              by_cases hq : r = q
              · subst hq
                have hpass := of_decide_eq_true hkeep rfl hpc
                obtain ⟨hown, hsw⟩ := mpcpLocal_notes hpass hfree hlocal
                rcases h.prio with ⟨hown', -⟩ | ⟨-, hp⟩ | ⟨-, hwait⟩
                · exact absurd (hfree.symm.trans hown') (by simp)
                · refine Or.inl ⟨hown, ?_⟩
                  rw [hsw, hp, BitVec.toNat_ofNat, Nat.mod_eq_of_lt (by simpa using hprio)]
                · exact absurd hpc hwait
              · have hnote : KeepsNote u r x.st s' := .of_frame hq (MpcpFrame.mpcpLocal hlocal)
                have hnot := mpcpLocal_not_queued hlocal
                rcases h.prio with ⟨hown, hsw⟩ | ⟨hwait, -⟩ | ⟨hown, -⟩
                · exact Or.inl ⟨hnote.owner.mpr hown, by rw [hnote.note hown, hsw]⟩
                · exact absurd (MpcpPc.wait.inj (hwait.symm.trans hpc)) hq
                · refine Or.inr (Or.inr ⟨fun he => hown (hnote.owner.mp he), ?_⟩)
                  cases res with
                  | queued => exact absurd rfl hnot
                  | _ => simp
        | sem q =>
            rw [hpc] at hresume
            obtain ⟨⟨e, ipc⟩, hsem, rfl⟩ := Option.map_eq_some_iff.mp hresume
            have hst : ∀ y : MpcpRun R T, (if (x.st.res q).type = .GLOBAL then y.setLock q none
                else y).st = y.st ∧ (if (x.st.res q).type = .GLOBAL then y.setLock q none
                else y).pc = y.pc := fun y => by split <;> exact ⟨rfl, rfl⟩
            have hframe : ThreadFrame u x.st { x.st with ipc := ipc } :=
              ThreadFrame.semPendResume hsem
            have hnote : KeepsNote u r x.st { x.st with ipc := ipc } := .semPendResume hsem
            refine ⟨?_, ?_, ?_⟩
            · simp only [(hst _).1]
              exact h.type
            · simp only [(hst _).1]
              exact rest_of h.rest hframe.attrs_prio
            · simp only [(hst _).1, (hst _).2, mpcpRet_pc, if_true]
              rcases h.prio with ⟨hown, hsw⟩ | ⟨hwait, -⟩ | ⟨hown, -⟩
              · exact Or.inl ⟨hnote.owner.mpr hown, (congrArg _ (hnote.note hown)).trans hsw⟩
              · exact absurd (hwait.symm.trans hpc) (by simp)
              · exact Or.inr (Or.inr ⟨fun he => hown (hnote.owner.mp he), by simp⟩)

/-- A post of `t` that succeeds, when the note is made. -/
theorem MpcpEntering.post (h : MpcpEntering a k t r x)
    (hpre : k = .GLOBAL → a.preemptType ≠ .ACORAL_PREEMPT_GLOBAL)
    (hheld : holds x.log t r = true) (hstep : mpcpStep fuel x (.call .post t r) = some x')
    (hfree : holds x'.log t r = false) : x'.st.attrs t = a := by
  obtain ⟨⟨-, hidle⟩, hstep⟩ := Option.ite_none_right_eq_some.mp hstep
  obtain ⟨-, hstep⟩ := Option.ite_none_right_eq_some.mp hstep
  obtain ⟨⟨e, s'⟩, hpost, rfl⟩ := Option.map_eq_some_iff.mp hstep
  have howner : x.st.owner r = some t := by
    by_contra howner
    rw [acoralMpcpPost_error howner] at hpost
    obtain ⟨rfl, -⟩ := Prod.mk.inj (Option.some.inj hpost)
    have hkept : holds (⟨.post, t, r, .KR_IPC_ERR_THREAD⟩ :: x.log) t r = true := by
      rw [holds_cons_error _ (by simp)]
      exact hheld
    exact absurd (hkept.symm.trans hfree) (by simp)
  have hnote : (x.st.res r).prioSwitch.toNat = a.prio := by
    rcases h.prio with ⟨-, hnote⟩ | ⟨hwait, -⟩ | ⟨hnot, -⟩
    · exact hnote
    · exact absurd (hidle.symm.trans hwait) (by simp)
    · exact absurd howner hnot
  have hrestored : ∀ y : CeilingState R Nat T, y.res = x.st.res →
      (mpcpRestore t r y).semPost r = some (e, s') →
      s'.attrs t = { y.attrs t with prio := a.prio } := fun y hy hsem => by
    rw [(ThreadFrame.semPost hsem).attrs, ThreadFrame.attrs_mpcpRestore, hy, hnote]
  show s'.attrs t = a
  unfold acoralMpcpPost at hpost
  rw [if_neg (not_not.mpr howner), h.type] at hpost
  cases k with
  | LOCAL =>
      obtain ⟨s₁, hpop, hpost⟩ := Option.bind_eq_some_iff.mp hpost
      obtain ⟨s₂, hwake, hpost⟩ := Option.bind_eq_some_iff.mp hpost
      have hres : s₂.res = x.st.res := (SameRes.mpcpWake hwake).res.trans (SameButStack.pop hpop).res
      have hframe : ThreadFrame t x.st s₂ := (ThreadFrame.pop hpop).trans (ThreadFrame.mpcpWake hwake)
      rw [hrestored s₂ hres hpost, hframe.attrs, h.rest]
      rfl
  | GLOBAL =>
      have hswitch := SameRes.switchPreempt x.st t .ACORAL_PREEMPT_GLOBAL .ACORAL_PREEMPT_LOCAL
      have hp : x.st.preemptType t = a.preemptType.inside .GLOBAL :=
        congrArg ThreadAttrs.preemptType h.rest
      have hback : (if x.st.preemptType t = .ACORAL_PREEMPT_GLOBAL then .ACORAL_PREEMPT_LOCAL
          else x.st.preemptType t) = a.preemptType := by
        rw [hp]
        exact PreemptType.inside_back (hpre rfl)
      rw [hrestored _ hswitch.res hpost, ThreadFrame.attrs_switchPreempt, hback, h.rest]

/-- The premises on the steps around a use of `r` by `t`. -/
def mpcpRestores (t : T) (r : R) (x : MpcpRun R T) (op : CeilingOp R T) : Bool :=
  mpcpPassesFree x op && mpcpKeepsPrio t r x op

/-- A thread that pends a resource, gets it and posts it. -/
theorem mpcp_restore {x₀ x₁ x₂ : MpcpRun R T} {ops : List (CeilingOp R T)}
    (hprio : x₀.st.prio t < 256) (howner : x₀.st.owner r ≠ some t)
    (hpre : (x₀.st.res r).type = .GLOBAL → x₀.st.preemptType t ≠ .ACORAL_PREEMPT_GLOBAL)
    (hpend : run (guarded (mpcpRestores t r) (mpcpStep fuel)) x₀ (.call .pend t r :: ops) = some x₁)
    (hpost : mpcpStep fuel x₁ (.call .post t r) = some x₂) (hcall : NoCall t ops)
    (hheld : holds x₁.log t r = true) (hfree : holds x₂.log t r = false) :
    x₂.st.attrs t = x₀.st.attrs t := by
  obtain ⟨y, hstep, hrun⟩ := Lib.run_cons_eq_some.mp hpend
  obtain ⟨hguard, hstep⟩ := Lib.guarded_eq_some.mp hstep
  have hentered := Lib.guarded_induct_mem
    (P := fun x => MpcpEntering (x₀.st.attrs t) (x₀.st.res r).type t r x)
    (fun _ _ _ hmem hinv hguard hstep => by
      obtain ⟨hpasses, hkeep⟩ := Bool.and_eq_true_iff.mp hguard
      exact hinv.step hprio hpasses hkeep (fun c q he => hcall c q (he ▸ hmem)) hstep)
    (MpcpEntering.of_call hprio howner (Bool.and_eq_true_iff.mp hguard).1 hstep) hrun
  exact hentered.post hpre hheld hpost hfree

end Thread

end ACoral
