import ACoral.Proofs.Ceiling.Mpcp

/-!
# `ACoral.Proofs.Ceiling.MpcpGlobal`: the global resources of MPCP

`acoral_mpcp_pend` takes the spin lock of a global resource and keeps it over
`acoral_sem_pend`, which suspends the caller when the resource is in use. The
owner then waits for the lock before it can give the resource back.

* `mpcp_global`: as long as every pend of a global resource finds it free
  (`uncontended`), each holder is the owner, there is at most one, its post
  succeeds, and no lock is held between two steps.
* `mpcp_pend_keepsLock`: with two threads, the second one is suspended with
  the lock, and the owner's post cannot go on.

Nothing is asked of the local resources: a call on one of them touches neither
the semaphore nor the lock of a global one.
-/

set_option autoImplicit false
set_option linter.unusedSectionVars false

namespace ACoral

open CeilingState
open Lib (run guarded guarded_induct)

variable {R T : Type} [DecidableEq R] [DecidableEq T]

/-- A pend of a global resource finds it free. -/
def uncontended (x : MpcpRun R T) : CeilingOp R T → Bool
  | .call .pend _ r => decide ((x.st.res r).type = .LOCAL ∨ x.st.owner r = none)
  | _               => true

/-- The holders of the global resources are their owners, and no lock is
held. -/
structure GlobalInv (x : MpcpRun R T) : Prop where
  sems : ∀ r, (x.st.res r).type = .GLOBAL → x.st.SemOk r
  held : ∀ r, (x.st.res r).type = .GLOBAL →
    ∀ t, holds x.log t r = true ↔ x.st.owner r = some t
  lock : ∀ r, x.lock r = none
  wait : ∀ t r, x.pc t = .wait r → (x.st.res r).type = .LOCAL
  sem : ∀ t r, x.pc t = .sem r → (x.st.res r).type = .LOCAL

namespace GlobalInv

variable {x x' : MpcpRun R T} {op : CeilingOp R T} {fuel : Nat} {cur : T} {r : R}

/-- A call on `r`. What is left to show is what it does to `r`, if that is
global. -/
theorem of_frame (h : GlobalInv x) (hframe : MpcpFrame r cur x.st x'.st)
    (hlock : x'.lock = x.lock)
    (hlog : x'.log = x.log ∨ ∃ e, x'.log = e :: x.log ∧ e.res = r)
    (hr : (x.st.res r).type = .GLOBAL →
      x'.st.SemOk r ∧ ∀ t, holds x'.log t r = true ↔ x'.st.owner r = some t)
    (hpc : ∀ t, x'.pc t = x.pc t ∨ x'.pc t = .idle ∨
      (x.st.res r).type = .LOCAL ∧ (x'.pc t = .wait r ∨ x'.pc t = .sem r)) : GlobalInv x' where
  sems q hq := by
    rw [(hframe.fixed_all q).1] at hq
    by_cases hqr : q = r
    · rw [hqr] at hq ⊢
      exact (hr hq).1
    · exact (h.sems q hq).congr (hframe.obj q hqr)
  held q hq t := by
    rw [(hframe.fixed_all q).1] at hq
    by_cases hqr : q = r
    · rw [hqr] at hq ⊢
      exact (hr hq).2 t
    · have howner : x'.st.owner q = x.st.owner q := by
        unfold CeilingState.owner
        rw [hframe.obj q hqr]
      have hheld : holds x'.log t q = holds x.log t q := by
        rcases hlog with hlog | ⟨e, hlog, he⟩
        · rw [hlog]
        · rw [hlog, holds_cons_ne _ (by rw [he]; exact Ne.symm hqr)]
      rw [hheld, howner]
      exact h.held q hq t
  lock q := by
    rw [hlock]
    exact h.lock q
  wait t q ht := by
    rw [(hframe.fixed_all q).1]
    rcases hpc t with hpc | hpc | ⟨htype, hpc | hpc⟩
    · exact h.wait t q (hpc ▸ ht)
    · rw [hpc] at ht
      exact absurd ht (by simp)
    · rw [hpc, MpcpPc.wait.injEq] at ht
      exact ht ▸ htype
    · rw [hpc] at ht
      exact absurd ht (by simp)
  sem t q ht := by
    rw [(hframe.fixed_all q).1]
    rcases hpc t with hpc | hpc | ⟨htype, hpc | hpc⟩
    · exact h.sem t q (hpc ▸ ht)
    · rw [hpc] at ht
      exact absurd ht (by simp)
    · rw [hpc] at ht
      exact absurd ht (by simp)
    · rw [hpc, MpcpPc.sem.injEq] at ht
      exact ht ▸ htype

/-- The stretch of a pend of a local resource ended. -/
theorem pended_local (h : GlobalInv x) (htype : (x.st.res r).type = .LOCAL)
    {res : CeilingResult × CeilingState R Nat T} (hframe : MpcpFrame r cur x.st res.2) :
    GlobalInv (x.pended cur r res) := by
  have htype' : (res.2.res r).type ≠ .GLOBAL := by
    rw [hframe.fixed.1, htype]
    decide
  have hrest : (x.pended cur r res).lock = x.lock ∧ ((x.pended cur r res).log = x.log ∨
      ∃ e, (x.pended cur r res).log = e :: x.log ∧ e.res = r) := by
    obtain ⟨res, s'⟩ := res
    cases res with
    | ret e => exact ⟨rfl, Or.inr ⟨_, rfl, rfl⟩⟩
    | queued => exact ⟨rfl, Or.inl rfl⟩
    | blocked =>
        unfold MpcpRun.pended
        simp only [if_neg htype']
        exact ⟨trivial, Or.inl trivial⟩
  have hframe' : MpcpFrame r cur x.st (x.pended cur r res).st := by
    rw [pended_st]
    exact hframe
  refine h.of_frame hframe' hrest.1 hrest.2
    (fun hglobal => absurd (htype.symm.trans hglobal) (by decide)) fun t => ?_
  rw [pended_pc]
  by_cases ht : t = cur
  · rw [if_pos ht]
    obtain ⟨res, s'⟩ := res
    cases res with
    | ret e => exact Or.inr (Or.inl rfl)
    | queued => exact Or.inr (Or.inr ⟨htype, Or.inl rfl⟩)
    | blocked => exact Or.inr (Or.inr ⟨htype, Or.inr rfl⟩)
  · exact Or.inl (if_neg ht)

/-- A call of a global resource returned. -/
theorem ret (h : GlobalInv x) {c : CeilingCall} {e : KernelError} {s' : CeilingState R Nat T}
    (hframe : MpcpFrame r cur x.st s')
    (hr : (x.st.res r).type = .GLOBAL → s'.SemOk r ∧
      ∀ t, holds (⟨c, cur, r, e⟩ :: x.log) t r = true ↔ s'.owner r = some t) :
    GlobalInv (x.ret c cur r e s') := by
  have hframe' : MpcpFrame r cur x.st (x.ret c cur r e s').st := hframe
  refine h.of_frame hframe' rfl (Or.inr ⟨_, rfl, rfl⟩) hr fun t => ?_
  rw [mpcpRet_pc]
  by_cases ht : t = cur
  · exact Or.inr (Or.inl (if_pos ht))
  · exact Or.inl (if_neg ht)

/-- The owner's post of a global resource. -/
theorem post (h : GlobalInv x) (htype : (x.st.res r).type = .GLOBAL)
    (howner : x.st.owner r = some cur) :
    ∃ s', acoralMpcpPost cur r x.st = some (.KR_OK, s') ∧
      GlobalInv (x.ret .post cur r .KR_OK s') := by
  have hpost := acoralMpcpPost_global htype (h.sems r htype) howner
  refine ⟨_, hpost, h.ret (MpcpFrame.acoralMpcpPost hpost) fun _ => ⟨?_, fun t => ?_⟩⟩
  · have hsem := h.sems r htype
    refine SemOk.drop (hsem.congr ?_) r
    rw [mpcpPrioBack_obj, (SameRes.switchPreempt x.st cur _ _).obj]
  · rw [holds_cons_post, drop_owner, if_pos rfl, Bool.and_eq_true, h.held r htype t, howner]
    simp

/-- A step in which a pend of a global resource finds it free. -/
theorem step (h : GlobalInv x) (hguard : uncontended x op = true)
    (hstep : mpcpStep fuel x op = some x') : GlobalInv x' := by
  cases op with
  | call c cur r =>
      obtain ⟨-, hstep⟩ := Option.ite_none_right_eq_some.mp hstep
      cases c with
      | pend =>
          obtain ⟨-, hstep⟩ := Option.ite_none_right_eq_some.mp hstep
          obtain ⟨res, hpend, rfl⟩ := Option.map_eq_some_iff.mp hstep
          have hframe := MpcpFrame.acoralMpcpPend hpend
          cases htype : (x.st.res r).type with
          | LOCAL => exact h.pended_local htype hframe
          | GLOBAL =>
              have hfree : x.st.owner r = none := by
                have hor := of_decide_eq_true hguard
                rw [htype] at hor
                exact hor.resolve_left (by decide)
              obtain rfl := Option.some.inj
                (hpend.symm.trans (acoralMpcpPend_global htype (h.sems r htype) hfree))
              refine h.ret hframe fun _ => ⟨SemOk.take ((h.sems r htype).congr ?_) r cur, fun t => ?_⟩
              · rw [← (SameRes.switchPreempt x.st cur .ACORAL_PREEMPT_LOCAL
                  .ACORAL_PREEMPT_GLOBAL).obj]
                rfl
              · rw [holds_cons_pend, take_owner, if_pos rfl, Bool.or_eq_true, h.held r htype t, hfree]
                simp
      | post =>
          obtain ⟨-, hstep⟩ := Option.ite_none_right_eq_some.mp hstep
          obtain ⟨⟨e, s'⟩, hpost, rfl⟩ := Option.map_eq_some_iff.mp hstep
          have hframe := MpcpFrame.acoralMpcpPost hpost
          by_cases howner : x.st.owner r = some cur
          · cases htype : (x.st.res r).type with
            | LOCAL =>
                exact h.ret hframe fun hglobal => absurd (htype.symm.trans hglobal) (by decide)
            | GLOBAL =>
                obtain ⟨s'', hpost', hinv⟩ := h.post htype howner
                obtain ⟨rfl, rfl⟩ := Prod.mk.inj (Option.some.inj (hpost.symm.trans hpost'))
                exact hinv
          · rw [acoralMpcpPost_error howner] at hpost
            obtain ⟨rfl, rfl⟩ := Prod.mk.inj (Option.some.inj hpost)
            refine h.ret hframe fun htype => ⟨h.sems r htype, fun t => ?_⟩
            rw [holds_cons_error _ (by simp)]
            exact h.held r htype t
  | resume cur =>
      obtain ⟨-, hstep⟩ := Option.ite_none_right_eq_some.mp hstep
      unfold mpcpResume at hstep
      cases hpc : x.pc cur with
      | idle =>
          rw [hpc] at hstep
          exact absurd hstep (by simp)
      | wait r =>
          rw [hpc] at hstep
          obtain ⟨res, hlocal, rfl⟩ := Option.map_eq_some_iff.mp hstep
          exact h.pended_local (h.wait cur r hpc) (MpcpFrame.mpcpLocal hlocal)
      | sem r =>
          rw [hpc] at hstep
          obtain ⟨⟨e, ipc⟩, hresume, rfl⟩ := Option.map_eq_some_iff.mp hstep
          have htype := h.sem cur r hpc
          have hne : (x.st.res r).type ≠ .GLOBAL := by
            rw [htype]
            decide
          rw [if_neg hne]
          exact h.ret (MpcpFrame.semPendResume hresume) fun hglobal => absurd hglobal hne

/-- Before the first step every resource is free. -/
theorem start (sched : Sched T) (pendingValue : T → Int) (preemptType : T → PreemptType)
    (data : T → Option ThreadData) (create : R → CeilingType × Nat × Nat) :
    GlobalInv (.start (.start sched pendingValue preemptType data create)) where
  sems _ _ := ⟨rfl, rfl⟩
  held _ _ _ := by simp [MpcpRun.start, holds, CeilingState.start, CeilingState.owner]
  lock _ := rfl
  wait _ _ ht := absurd ht (by simp [MpcpRun.start])
  sem _ _ ht := absurd ht (by simp [MpcpRun.start])

/-- A pend of a global resource that is in use leaves its lock taken. -/
theorem contended (h : GlobalInv x) (hguard : uncontended x op ≠ true)
    (hstep : mpcpStep fuel x op = some x') : ∃ r, x'.lock r ≠ none := by
  cases op with
  | resume cur => exact absurd rfl hguard
  | call c cur r =>
      cases c with
      | post => exact absurd rfl hguard
      | pend =>
          obtain ⟨-, hstep⟩ := Option.ite_none_right_eq_some.mp hstep
          obtain ⟨-, hstep⟩ := Option.ite_none_right_eq_some.mp hstep
          obtain ⟨⟨res, s'⟩, hpend, rfl⟩ := Option.map_eq_some_iff.mp hstep
          have hor : ¬ ((x.st.res r).type = .LOCAL ∨ x.st.owner r = none) := fun hor =>
            hguard (decide_eq_true hor)
          obtain ⟨hlocal, howner⟩ := not_or.mp hor
          have htype : (x.st.res r).type = .GLOBAL := by
            cases htype : (x.st.res r).type with
            | LOCAL => exact absurd htype hlocal
            | GLOBAL => rfl
          obtain rfl := acoralMpcpPend_contended htype (h.sems r htype) howner hpend
          have htype' : (s'.res r).type = .GLOBAL := by
            rw [(MpcpFrame.acoralMpcpPend hpend).fixed.1, htype]
          refine ⟨r, ?_⟩
          unfold MpcpRun.pended
          simp [htype', MpcpRun.setLock]

end GlobalInv

/-- Every run of MPCP, on any resources and by any threads, in which the
pends of global resources find them free. In every state of it, exactly the
owners of the global resources hold them, no lock is held, so that no two
threads hold one and a holder can always post, which succeeds. A further step
keeps the locks free exactly if it is no pend of a global resource in use. -/
theorem mpcp_global (fuel : Nat) (sched : Sched T) (pendingValue : T → Int)
    (preemptType : T → PreemptType) (data : T → Option ThreadData)
    (create : R → CeilingType × Nat × Nat) (ops : List (CeilingOp R T)) (x : MpcpRun R T)
    (hrun : run (guarded uncontended (mpcpStep fuel))
      (.start (.start sched pendingValue preemptType data create)) ops = some x) :
    (∀ r, (x.st.res r).type = .GLOBAL →
      (∀ t, holds x.log t r = true → x.st.owner r = some t) ∧
      (∀ t u, holds x.log t r = true → holds x.log u r = true → t = u) ∧
      ∀ t, holds x.log t r = true → x.st.isReady t = true → x.pc t = .idle →
        ∃ x', mpcpStep fuel x (.call .post t r) = some x' ∧
          x'.log = ⟨.post, t, r, .KR_OK⟩ :: x.log ∧ x'.st.owner r = none) ∧
    (∀ r, x.lock r = none) ∧
    ∀ op x', mpcpStep fuel x op = some x' →
      ((∀ r, x'.lock r = none) ↔ uncontended x op = true) := by
  have h : GlobalInv x := guarded_induct (P := GlobalInv)
    (fun _ _ _ hinv hguard hstep => hinv.step hguard hstep)
    (.start sched pendingValue preemptType data create) hrun
  refine ⟨fun r htype => ⟨fun t => (h.held r htype t).mp, fun t u ht hu => ?_,
    fun t ht hready hidle => ?_⟩, h.lock, fun op x' hstep => ⟨fun hlock => ?_, fun hguard => ?_⟩⟩
  · exact Option.some.inj (((h.held r htype t).mp ht).symm.trans ((h.held r htype u).mp hu))
  · have howner := (h.held r htype t).mp ht
    obtain ⟨s, hs⟩ : ∃ s : CeilingState R Nat T,
        acoralMpcpPost t r x.st = some (.KR_OK, s.drop r) :=
      ⟨_, acoralMpcpPost_global htype (h.sems r htype) howner⟩
    refine ⟨x.ret .post t r .KR_OK (s.drop r), ?_, rfl, (drop_owner s r r).trans (if_pos rfl)⟩
    have hunlocked : x.unlocked r = true := decide_eq_true (Or.inr (h.lock r))
    simp [mpcpStep, mpcpCall, hready, hidle, hunlocked, hs]
  · by_contra hguard
    obtain ⟨r, hr⟩ := h.contended hguard hstep
    exact hr (hlock r)
  · exact (h.step hguard hstep).lock

/-- Two threads on two CPUs and a global resource. -/
def oneGlobal : CeilingState Unit Nat (Fin 2) :=
  .start (readyThreads (fun t => 5 - t.val) fun t => t.val) (fun _ => 0)
    (fun _ => .ACORAL_PREEMPT_LOCAL) (fun _ => none) fun _ => (.GLOBAL, 0xff, 3)

/-- The first thread gives the resource back, and the second one takes it. -/
theorem mpcp_global_twice :
    ∃ x, run (guarded uncontended (mpcpStep 4)) (.start oneGlobal)
        [.call .pend 0 (), .call .post 0 (), .call .pend 1 ()] = some x ∧
      (∀ r, (x.st.res r).type = .GLOBAL →
        ∀ t u, holds x.log t r = true → holds x.log u r = true → t = u) ∧ ∀ r, x.lock r = none := by
  have hsome : (run (guarded uncontended (mpcpStep 4)) (.start oneGlobal)
      [.call .pend 0 (), .call .post 0 (), .call .pend 1 ()]).isSome = true := by decide
  obtain ⟨x, hx⟩ := Option.isSome_iff_exists.mp hsome
  have h := mpcp_global 4 _ _ _ _ _ _ x hx
  exact ⟨x, hx, fun r hr => (h.1 r hr).2.1, h.2.1⟩

/-- The second thread asks for the resource while the first one uses it. It is
suspended with the spin lock, and the post of the owner, which is READY,
cannot go on. -/
theorem mpcp_pend_keepsLock :
    (run (mpcpStep 4) (.start oneGlobal) [.call .pend 0 (), .call .pend 1 ()]).map
      (fun x => (x.pc 1, x.lock (), x.st.owner (), x.st.isReady 0)) =
        some (.sem (), some 1, some 0, true) ∧
    run (mpcpStep 4) (.start oneGlobal) [.call .pend 0 (), .call .pend 1 (), .call .post 0 ()] =
      none := by
  refine ⟨by decide, Option.isNone_iff_eq_none.mp (by decide)⟩

end ACoral
