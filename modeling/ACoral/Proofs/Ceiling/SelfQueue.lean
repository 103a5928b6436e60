import ACoral.Proofs.Ceiling.DpcpCore
import ACoral.Proofs.Ceiling.Mpcp

/-!
# `ACoral.Proofs.Ceiling.SelfQueue`: who a requester waits for

Both protocols compare the priority of a requester with that of the system,
without asking who raised it. A thread whose own resource is at the top, with
a ceiling that is at most its priority number, queues itself behind it.

* `ceiling_queuedForOther`: in every state that is reached while the threads
  that pass the test find their resources free, a requester that is queued
  waits for another thread exactly if it does not use the top itself, with a
  ceiling at most its own priority number.
* `ceiling_selfQueue`: a thread that holds a resource asks for a free one and
  waits for itself, under both protocols.

For MPCP, `MpcpCore` says that the resources on the stacks are in use and
that the systems have the priorities of their tops. A thread that resumes may
take its resource without the stack, so that not all that is in use is on it.
-/

set_option autoImplicit false
set_option linter.unusedSectionVars false

namespace ACoral

open CeilingState
open Lib (run guarded guarded_induct)

variable {R K T : Type} [DecidableEq R] [DecidableEq K] [DecidableEq T]

/-! ### The condition -/

/-- The priority of the system is the ceiling of a resource that a thread
other than `cur` uses. -/
def CeilingState.DueToOther (s : CeilingState R K T) (k : K) (cur : T) : Prop :=
  ∃ top t, s.stackTop k = some top ∧ s.owner top = some t ∧ t ≠ cur ∧
    s.sysPrio k = (s.res top).prioCeiling

/-- `cur` uses the resource at the top, whose ceiling is at most its priority
number. -/
def CeilingState.RaisedBySelf (s : CeilingState R K T) (k : K) (cur : T) : Prop :=
  ∃ top, s.stackTop k = some top ∧ s.owner top = some cur ∧ (s.res top).prioCeiling ≤ s.prio cur

/-- The priority of the system is the ceiling of the top. -/
theorem CeilingState.Stacked.prio_of_top {s : CeilingState R K T} {sys : R → K} {S : K → List R}
    (h : s.Stacked sys S) {k : K} {top : R} (htop : s.stackTop k = some top) :
    s.sysPrio k = (s.res top).prioCeiling := by
  have hhead := h.stackTop k
  rw [htop] at hhead
  rw [h.prio k]
  cases hS : S k with
  | nil =>
      rw [hS] at hhead
      exact absurd hhead (by simp)
  | cons r l =>
      rw [hS] at hhead
      obtain rfl := Option.some.inj hhead
      rfl

/-- On a stack with the priority of its top, a requester that finds a user of
the top waits for another thread exactly if it is not that user. -/
theorem CeilingState.Stacked.dueToOther_iff {s : CeilingState R K T} {sys : R → K}
    {S : K → List R} (h : s.Stacked sys S) {k : K} {cur t : T} {top : R}
    (htop : s.stackTop k = some top) (ht : s.owner top = some t)
    (hfull : s.sysPrio k ≤ s.prio cur) : s.DueToOther k cur ↔ ¬ s.RaisedBySelf k cur := by
  have hprio := h.prio_of_top htop
  constructor
  · rintro ⟨top', t', htop', ht', hne, -⟩ ⟨top'', htop'', hcur, -⟩
    obtain rfl := Option.some.inj (htop'.symm.trans htop'')
    exact hne (Option.some.inj (ht'.symm.trans hcur))
  · intro hself
    refine ⟨top, t, htop, ht, fun he => hself ⟨top, htop, ?_, ?_⟩, hprio⟩
    · rw [ht, he]
    · rw [← hprio]
      exact hfull

/-! ### MPCP -/

/-- A thread that comes to the semaphore of a local resource finds it free. -/
def mpcpPassesFree (x : MpcpRun R T) : CeilingOp R T → Bool
  | .call .pend cur r =>
      decide ((x.st.res r).type = .GLOBAL ∨ (x.st.res r).cpu ≠ x.st.cpu cur ∨
        x.st.sysPrio (x.st.cpu cur) ≤ x.st.prio cur ∨ x.st.owner r = none)
  | .call .post _ _ => true
  | .resume cur =>
      match x.pc cur with
      | .wait r => decide (x.st.owner r = none)
      | _       => true

/-- The resources on the stacks are in use. -/
structure MpcpCore (x : MpcpRun R T) (sys : R → Nat) (S : Nat → List R) : Prop
    extends x.st.Stacked sys S where
  system : ∀ r, (x.st.res r).cpu = sys r
  used : ∀ k, ∀ r ∈ S k, (x.st.res r).type = .LOCAL ∧ x.st.owner r ≠ none
  sems : ∀ r, (x.st.res r).type = .LOCAL → x.st.SemOk r
  ownerCpu : ∀ r t, (x.st.res r).type = .LOCAL → x.st.owner r = some t → x.st.cpu t = sys r
  waitCpu : ∀ t r, x.pc t = .wait r → (x.st.res r).type = .LOCAL ∧ x.st.cpu t = sys r
  sem : ∀ t r, x.pc t = .sem r → (x.st.res r).type = .GLOBAL

namespace MpcpCore

variable {x x' : MpcpRun R T} {op : CeilingOp R T} {sys : R → Nat} {S S' : Nat → List R}
  {fuel : Nat} {cur : T} {r : R}

/-- What is left to show after a call on `r`. -/
theorem of_frame (h : MpcpCore x sys S) (hframe : MpcpFrame r cur x.st x'.st)
    (hstacked : x'.st.Stacked sys S')
    (hused : ∀ k, ∀ q ∈ S' k, (x.st.res q).type = .LOCAL ∧ x'.st.owner q ≠ none)
    (hr : (x.st.res r).type = .LOCAL →
      x'.st.SemOk r ∧ ∀ t, x'.st.owner r = some t → x.st.cpu t = sys r)
    (hpc : ∀ t, x'.pc t = x.pc t ∨ x'.pc t = .idle ∨
      (∃ q, x'.pc t = .wait q ∧ (x.st.res q).type = .LOCAL ∧ x.st.cpu t = sys q) ∨
      ∃ q, x'.pc t = .sem q ∧ (x.st.res q).type = .GLOBAL) : MpcpCore x' sys S' where
  toStacked := hstacked
  system q := by
    rw [(hframe.fixed_all q).2.1]
    exact h.system q
  used k q hq := by
    rw [(hframe.fixed_all q).1]
    exact hused k q hq
  sems q hq := by
    rw [(hframe.fixed_all q).1] at hq
    by_cases hqr : q = r
    · rw [hqr] at hq ⊢
      exact (hr hq).1
    · exact (h.sems q hq).congr (hframe.obj q hqr)
  ownerCpu q t hq ht := by
    rw [(hframe.fixed_all q).1] at hq
    rw [hframe.cpu t]
    by_cases hqr : q = r
    · rw [hqr] at hq ht ⊢
      exact (hr hq).2 t ht
    · unfold CeilingState.owner at ht
      rw [hframe.obj q hqr] at ht
      exact h.ownerCpu q t hq ht
  waitCpu t q ht := by
    rw [(hframe.fixed_all q).1, hframe.cpu t]
    rcases hpc t with hpc | hpc | ⟨p, hpc, hp⟩ | ⟨p, hpc, -⟩
    · exact h.waitCpu t q (hpc ▸ ht)
    · rw [hpc] at ht
      exact absurd ht (by simp)
    · rw [hpc, MpcpPc.wait.injEq] at ht
      exact ht ▸ hp
    · rw [hpc] at ht
      exact absurd ht (by simp)
  sem t q ht := by
    rw [(hframe.fixed_all q).1]
    rcases hpc t with hpc | hpc | ⟨p, hpc, -⟩ | ⟨p, hpc, hp⟩
    · exact h.sem t q (hpc ▸ ht)
    · rw [hpc] at ht
      exact absurd ht (by simp)
    · rw [hpc] at ht
      exact absurd ht (by simp)
    · rw [hpc, MpcpPc.sem.injEq] at ht
      exact ht ▸ hp

/-- The owners of the resources on the stacks, after a call on another one. -/
theorem used_of_ne (h : MpcpCore x sys S) {s' : CeilingState R Nat T}
    (hframe : MpcpFrame r cur x.st s') {k : Nat} {q : R} (hq : q ∈ S k) (hqr : q ≠ r) :
    (x.st.res q).type = .LOCAL ∧ s'.owner q ≠ none := by
  obtain ⟨htype, howner⟩ := h.used k q hq
  unfold CeilingState.owner at howner ⊢
  rw [hframe.obj q hqr]
  exact ⟨htype, howner⟩

/-- A call that leaves the stacks alone, on a global resource. -/
theorem global (h : MpcpCore x sys S) (hframe : MpcpFrame r cur x.st x'.st)
    (hstack : x'.st.stack = x.st.stack ∧ x'.st.sysPrio = x.st.sysPrio)
    (htype : (x.st.res r).type = .GLOBAL)
    (hpc : ∀ t, x'.pc t = x.pc t ∨ x'.pc t = .idle ∨ ∃ q, x'.pc t = .sem q ∧
      (x.st.res q).type = .GLOBAL) : MpcpCore x' sys S := by
  refine h.of_frame hframe (h.toStacked.congr hstack.1 hstack.2 fun q =>
      ⟨(hframe.fixed_all q).2.2.1, (hframe.fixed_all q).2.2.2⟩)
    (fun k q hq => h.used_of_ne hframe hq fun he => ?_)
    (fun hlocal => absurd (hlocal.symm.trans htype) (by decide))
    fun t => (hpc t).imp_right (Or.imp_right Or.inr)
  have hlocal := (h.used k q hq).1
  rw [he, htype] at hlocal
  exact absurd hlocal (by decide)

/-- The second half of a pend of a local resource that is free. -/
theorem local_free (h : MpcpCore x sys S) (htype : (x.st.res r).type = .LOCAL)
    (hcpu : x.st.cpu cur = sys r) (hfree : x.st.owner r = none)
    {res : CeilingResult × CeilingState R Nat T}
    (hlocal : mpcpLocal fuel cur r (sys r) x.st = some res) :
    ∃ S', MpcpCore (x.pended cur r res) sys S' := by
  obtain ⟨res, s'⟩ := res
  have hframe := MpcpFrame.mpcpLocal hlocal
  obtain ⟨rfl, hcases⟩ := mpcpLocal_free (h.sems r htype) hfree hlocal
  have hnot : ∀ k, r ∉ S k := fun k hr => (h.used k r hr).2 hfree
  have hidle : ∀ t, (x.pended cur r (.ret .KR_OK, s')).pc t = x.pc t ∨
      (x.pended cur r (.ret .KR_OK, s')).pc t = .idle ∨
      (∃ q, (x.pended cur r (.ret .KR_OK, s')).pc t = .wait q ∧ (x.st.res q).type = .LOCAL ∧
        x.st.cpu t = sys q) ∨
      ∃ q, (x.pended cur r (.ret .KR_OK, s')).pc t = .sem q ∧ (x.st.res q).type = .GLOBAL :=
    fun t => by
      by_cases ht : t = cur
      · right
        left
        rw [ht]
        exact Function.update_self _ _ _
      · left
        exact Function.update_of_ne ht _ _
  have howner : s'.owner r = some cur := by
    rcases hcases with ⟨-, s₁, -, rfl⟩ | ⟨-, rfl⟩ <;> exact (take_owner _ r r cur).trans (if_pos rfl)
  have hsem : s'.SemOk r := by
    rcases hcases with ⟨-, s₁, hpush, rfl⟩ | ⟨-, rfl⟩
    · refine SemOk.take ((h.sems r htype).congr ?_) r cur
      rw [← (SameButStack.push hpush).ipc]
      rfl
    · exact (h.sems r htype).take r cur
  have hhome : ∀ t, s'.owner r = some t → x.st.cpu t = sys r := fun t ht => by
    rw [howner] at ht
    rw [← Option.some.inj ht]
    exact hcpu
  rcases hcases with ⟨-, s₁, hpush, hs'⟩ | ⟨-, hs'⟩
  · have hstacked := h.toStacked.push (hnot (sys r)) hpush
    have hpushed : MpcpFrame r cur x.st s₁ := MpcpFrame.push hpush
    refine ⟨Function.update S (sys r) (r :: S (sys r)), h.of_frame hframe
      (hstacked.congr (by rw [hs']; rfl) (by rw [hs']; rfl) fun q => ?_) (fun k q hq => ?_)
      (fun _ => ⟨hsem, hhome⟩) hidle⟩
    · have hq := hframe.fixed_all q
      have hq₁ := hpushed.fixed_all q
      exact ⟨hq.2.2.1.trans hq₁.2.2.1.symm, hq.2.2.2.trans hq₁.2.2.2.symm⟩
    · by_cases hqr : q = r
      · rw [hqr]
        refine ⟨htype, ?_⟩
        show s'.owner r ≠ none
        rw [howner]
        simp
      · refine h.used_of_ne (k := k) hframe ?_ hqr
        by_cases hk : k = sys r
        · rw [hk, Function.update_self] at hq
          rw [hk]
          exact (List.mem_cons.mp hq).resolve_left hqr
        · rwa [Function.update_of_ne hk] at hq
  · refine ⟨S, h.of_frame hframe (h.toStacked.congr (by rw [hs']; rfl) (by rw [hs']; rfl) fun q =>
      ⟨(hframe.fixed_all q).2.2.1, (hframe.fixed_all q).2.2.2⟩)
      (fun k q hq => h.used_of_ne hframe hq fun he => ?_) (fun _ => ⟨hsem, hhome⟩) hidle⟩
    rw [he] at hq
    exact hnot k hq

/-- A post of a local resource by its owner. -/
theorem local_post (h : MpcpCore x sys S) (htype : (x.st.res r).type = .LOCAL)
    (howner : x.st.owner r = some cur) {e : KernelError} {s' : CeilingState R Nat T}
    (hpost : acoralMpcpPost cur r x.st = some (e, s')) :
    ∃ S', MpcpCore (x.ret .post cur r e s') sys S' := by
  have hframe := MpcpFrame.acoralMpcpPost hpost
  obtain ⟨-, s₁, s₂, hpop, hwake, hs'⟩ := acoralMpcpPost_local htype (h.sems r htype) howner hpost
  rw [h.ownerCpu r cur htype howner] at hpop hwake
  have hsame := SameRes.mpcpWake hwake
  have hpopped := SameButStack.pop hpop
  have hmem : r ∈ S (sys r) := by
    by_contra hnot
    rw [h.toStacked.pop_eq_none hnot] at hpop
    exact absurd hpop (by simp)
  have hback : (mpcpPrioBack cur r s₂).stack = s₂.stack ∧
      (mpcpPrioBack cur r s₂).sysPrio = s₂.sysPrio := by
    unfold mpcpPrioBack
    simp only
    split <;> exact ⟨rfl, rfl⟩
  have hsem₂ : (mpcpPrioBack cur r s₂).SemOk r :=
    (h.sems r htype).congr (by rw [mpcpPrioBack_obj, hsame.obj, hpopped.ipc])
  have hnone : s'.owner r = none := by
    rw [hs', drop_owner, if_pos rfl]
  have hstacked := (h.toStacked.pop hmem hpop).sameRes hsame
  refine ⟨Function.update S (sys r) ((S (sys r)).erase r), h.of_frame hframe
    (hstacked.congr ?_ ?_ fun q => ?_) (fun k q hq => ?_) (fun _ => ⟨?_, fun t ht => ?_⟩)
    fun t => ?_⟩
  · show s'.stack = s₂.stack
    rw [hs']
    exact hback.1
  · show s'.sysPrio = s₂.sysPrio
    rw [hs']
    exact hback.2
  · show (s'.res q).prioCeiling = _ ∧ (s'.res q).stackingValue = _
    rw [hsame.res, hpopped.res, (hframe.fixed_all q).2.2.1, (hframe.fixed_all q).2.2.2]
    exact ⟨rfl, rfl⟩
  · have hold : q ∈ S k ∧ q ≠ r := by
      by_cases hk : k = sys r
      · rw [hk, Function.update_self] at hq
        rw [hk]
        exact ⟨List.mem_of_mem_erase hq, ((h.nodup (sys r)).mem_erase_iff.mp hq).1⟩
      · rw [Function.update_of_ne hk] at hq
        refine ⟨hq, fun he => hk ?_⟩
        rw [← he]
        exact (StackRings.home h.toStackRings k q hq).symm
    exact h.used_of_ne hframe hold.1 hold.2
  · show s'.SemOk r
    rw [hs']
    exact hsem₂.drop r
  · exact absurd (hnone.symm.trans ht) (by simp)
  · by_cases ht : t = cur
    · right
      left
      rw [ht]
      exact Function.update_self _ _ _
    · left
      exact Function.update_of_ne ht _ _

/-- A step in which a thread that comes to a local semaphore finds it free. -/
theorem step (h : MpcpCore x sys S) (hguard : mpcpPassesFree x op = true)
    (hstep : mpcpStep fuel x op = some x') : ∃ S', MpcpCore x' sys S' := by
  have hkeep : ∀ c cur q e, MpcpCore (x.ret c cur q e x.st) sys S := fun c cur q e =>
    h.of_frame (MpcpFrame.refl q cur x.st) h.toStacked h.used
      (fun hq => ⟨h.sems q hq, fun t ht => h.ownerCpu q t hq ht⟩) fun t => by
        by_cases ht : t = cur
        · right
          left
          rw [ht]
          exact Function.update_self _ _ _
        · left
          exact Function.update_of_ne ht _ _
  cases op with
  | call c cur r =>
      obtain ⟨-, hstep⟩ := Option.ite_none_right_eq_some.mp hstep
      cases c with
      | pend =>
          obtain ⟨-, hstep⟩ := Option.ite_none_right_eq_some.mp hstep
          obtain ⟨⟨res, s'⟩, hpend, rfl⟩ := Option.map_eq_some_iff.mp hstep
          have hframe := MpcpFrame.acoralMpcpPend hpend
          cases htype : (x.st.res r).type with
          | LOCAL =>
              rcases acoralMpcpPend_local htype hpend with
                ⟨-, rfl, rfl⟩ | ⟨rfl, hqueued⟩ | ⟨hcpu, hpass, hlocal⟩
              · exact ⟨S, hkeep _ _ _ _⟩
              · have hsame := hqueued.sameRes
                refine ⟨S, h.of_frame hframe (h.toStacked.sameRes hsame) (fun k q hq => ?_)
                  (fun _ => ⟨(h.sems r htype).congr ?_, fun t ht => ?_⟩) fun t => ?_⟩
                · show _ ∧ s'.owner q ≠ none
                  rw [hsame.owner q]
                  exact h.used k q hq
                · show s'.ipc.ipc _ = _
                  rw [hsame.obj]
                · have ht' : s'.owner r = some t := ht
                  rw [hsame.owner r] at ht'
                  exact h.ownerCpu r t htype ht'
                · by_cases ht : t = cur
                  · right
                    right
                    left
                    refine ⟨r, ?_, htype, ?_⟩
                    · rw [ht]
                      exact Function.update_self _ _ _
                    · rw [ht, ← hqueued.home, h.system r]
                  · left
                    exact Function.update_of_ne ht _ _
              · rw [← hcpu, h.system r] at hlocal
                refine h.local_free htype (by rw [← hcpu, h.system r]) ?_ hlocal
                have hor := of_decide_eq_true hguard
                rw [htype] at hor
                rcases hor with hor | hor | hor | hor
                · exact absurd hor (by decide)
                · exact absurd hcpu hor
                · exact absurd hor (by omega)
                · exact hor
          | GLOBAL =>
              obtain ⟨hne, hstack⟩ := acoralMpcpPend_global_stack htype hpend
              have hframe' : MpcpFrame r cur x.st (x.pended cur r (res, s')).st := by
                rw [pended_st]
                exact hframe
              refine ⟨S, h.global hframe' ?_ htype fun t => ?_⟩
              · rw [pended_st]
                exact hstack
              · rw [pended_pc]
                by_cases ht : t = cur
                · rw [if_pos ht]
                  cases res with
                  | ret e => exact Or.inr (Or.inl rfl)
                  | queued => exact absurd rfl hne
                  | blocked => exact Or.inr (Or.inr ⟨r, rfl, htype⟩)
                · exact Or.inl (if_neg ht)
      | post =>
          obtain ⟨-, hstep⟩ := Option.ite_none_right_eq_some.mp hstep
          obtain ⟨⟨e, s'⟩, hpost, rfl⟩ := Option.map_eq_some_iff.mp hstep
          by_cases howner : x.st.owner r = some cur
          case neg =>
            rw [acoralMpcpPost_error howner] at hpost
            obtain ⟨-, rfl⟩ := Prod.mk.inj (Option.some.inj hpost)
            exact ⟨S, hkeep _ _ _ _⟩
          cases htype : (x.st.res r).type with
          | LOCAL => exact h.local_post htype howner hpost
          | GLOBAL =>
              refine ⟨S, h.global (MpcpFrame.acoralMpcpPost hpost)
                (acoralMpcpPost_global_stack htype hpost) htype fun t => ?_⟩
              rw [mpcpRet_pc]
              by_cases ht : t = cur
              · exact Or.inr (Or.inl (if_pos ht))
              · exact Or.inl (if_neg ht)
  | resume cur =>
      obtain ⟨-, hstep⟩ := Option.ite_none_right_eq_some.mp hstep
      unfold mpcpResume at hstep
      cases hpc : x.pc cur with
      | idle =>
          rw [hpc] at hstep
          exact absurd hstep (by simp)
      | wait r =>
          rw [hpc] at hstep
          obtain ⟨res, hlocal, rfl⟩ := Option.map_eq_some_iff.mp hstep
          obtain ⟨htype, hcpu⟩ := h.waitCpu cur r hpc
          rw [h.system r] at hlocal
          refine h.local_free htype hcpu ?_ hlocal
          simpa [mpcpPassesFree, hpc] using hguard
      | sem r =>
          rw [hpc] at hstep
          obtain ⟨⟨e, ipc⟩, hresume, rfl⟩ := Option.map_eq_some_iff.mp hstep
          have htype := h.sem cur r hpc
          have hframe : MpcpFrame r cur x.st { x.st with ipc := ipc } :=
            MpcpFrame.semPendResume hresume
          rw [if_pos htype]
          refine ⟨S, MpcpCore.global h hframe ⟨rfl, rfl⟩ htype fun t => ?_⟩
          have hret := mpcpRet_pc x cur t r .pend e { x.st with ipc := ipc }
          by_cases ht : t = cur
          · exact Or.inr (Or.inl (hret.trans (if_pos ht)))
          · exact Or.inl (hret.trans (if_neg ht))

/-- Before the first step every resource is free. -/
theorem start (sched : Sched T) (pendingValue : T → Int) (preemptType : T → PreemptType)
    (data : T → Option ThreadData) (create : R → CeilingType × Nat × Nat)
    (hceiling : ∀ r, (create r).2.2 < 256) :
    MpcpCore (.start (.start sched pendingValue preemptType data create))
      (fun r => (create r).2.1) fun _ => [] where
  toStacked := .start sched pendingValue preemptType data _ hceiling
  system _ := rfl
  used _ _ hr := absurd hr List.not_mem_nil
  sems _ _ := ⟨rfl, rfl⟩
  ownerCpu _ _ _ ht := absurd ht (by simp [MpcpRun.start, CeilingState.start, CeilingState.owner])
  waitCpu _ _ ht := absurd ht (by simp [MpcpRun.start])
  sem _ _ ht := absurd ht (by simp [MpcpRun.start])

end MpcpCore

/-! ### The requesters -/

/-- DPCP: a round of the loop. -/
theorem DpcpCore.queuedForOther {x x' : DpcpRun R T} {sys : R → DpcpSystem}
    {S : DpcpSystem → List R} (h : DpcpCore x.st sys S) {fuel : Nat} {op : CeilingOp R T} {cur : T}
    {r : R} (htests : dpcpTests x op = some (cur, r)) (htype : (x.st.res r).type = .LOCAL)
    (hstep : dpcpStep fuel x op = some x') :
    (x'.pc cur = .suspend r → x.st.DueToOther (x.st.dpcpSystem r) cur) ↔
      ¬ x.st.RaisedBySelf (x.st.dpcpSystem r) cur := by
  obtain ⟨s, ⟨res, s'⟩, hs, hround, rfl⟩ := dpcpStep_tests htests hstep
  obtain ⟨hsame, -, hprio⟩ := switched hs
  have hsys : s.dpcpSystem r = x.st.dpcpSystem r := by
    unfold CeilingState.dpcpSystem
    rw [hsame.res]
  rw [round_pc, if_pos rfl]
  by_cases hfull : s.sysPrio (s.dpcpSystem r) ≤ s.prio cur
  · obtain ⟨rfl, hqueued⟩ := dpcpRound_queued hfull hround
    obtain ⟨s₁, -, ⟨hglobal, -⟩ | ⟨-, last, t, hlast, ht, -⟩⟩ := hqueued.added
    · rw [hsame.res, htype] at hglobal
      exact absurd hglobal (by decide)
    · have hlast' : x.st.stackTop (x.st.dpcpSystem r) = some last := by
        unfold CeilingState.stackTop at hlast ⊢
        rwa [hsys, hsame.stack] at hlast
      rw [hsame.owner last] at ht
      rw [hsys, hsame.sysPrio, hprio] at hfull
      simpa using h.toStacked.dueToOther_iff hlast' ht hfull
  · -- whoever passes the test is not queued, and has no such ceiling above it
    have hself : ¬ x.st.RaisedBySelf (x.st.dpcpSystem r) cur := by
      rintro ⟨top, htop, hcur, hle⟩
      refine hfull ?_
      rw [hsys, hsame.sysPrio, hprio, h.toStacked.prio_of_top htop]
      exact hle
    obtain ⟨e, rfl⟩ := dpcpRound_ret (Nat.lt_of_not_le hfull) hround
    exact iff_of_true (by simp) hself

/-- MPCP: the test of a pend. -/
theorem MpcpCore.queuedForOther {x x' : MpcpRun R T} {sys : R → Nat} {S : Nat → List R}
    (h : MpcpCore x sys S) {fuel : Nat} {cur : T} {r : R} (htype : (x.st.res r).type = .LOCAL)
    (hcpu : (x.st.res r).cpu = x.st.cpu cur)
    (hstep : mpcpStep fuel x (.call .pend cur r) = some x') :
    (x'.pc cur = .wait r → x.st.DueToOther (x.st.cpu cur) cur) ↔
      ¬ x.st.RaisedBySelf (x.st.cpu cur) cur := by
  obtain ⟨-, hstep⟩ := Option.ite_none_right_eq_some.mp hstep
  obtain ⟨-, hstep⟩ := Option.ite_none_right_eq_some.mp hstep
  obtain ⟨⟨res, s'⟩, hpend, rfl⟩ := Option.map_eq_some_iff.mp hstep
  rw [pended_pc, if_pos rfl]
  rcases acoralMpcpPend_local htype hpend with ⟨hne, -⟩ | ⟨rfl, hqueued⟩ | ⟨-, hpass, hlocal⟩
  · exact absurd hcpu hne
  · obtain ⟨last, t, s₁, hlast, ht, -⟩ := hqueued.added
    simpa using h.toStacked.dueToOther_iff hlast ht hqueued.full
  · have hself : ¬ x.st.RaisedBySelf (x.st.cpu cur) cur := by
      rintro ⟨top, htop, -, hle⟩
      rw [h.toStacked.prio_of_top htop] at hpass
      omega
    have hne := mpcpLocal_not_queued hlocal
    cases res with
    | queued => exact absurd rfl hne
    | _ => exact iff_of_true (by simp) hself

/-- Every run of DPCP and of MPCP, on any resources and by any threads, in
which the threads that pass the test find their resources free. In every
state of it, a thread that makes the test for a local resource of its CPU is
queued only for a resource that another thread uses, exactly if it does not
itself use the top, with a ceiling at most its own priority number. -/
theorem ceiling_queuedForOther (fuel : Nat) (sched : Sched T) (pendingValue : T → Int)
    (preemptType : T → PreemptType) (data : T → Option ThreadData) (type : R → CeilingType)
    (cpu : R → Nat) (ceiling : R → BitVec 8) (ops : List (CeilingOp R T)) :
    (∀ x, run (guarded passesFree (dpcpStep fuel)) (.start (.start sched pendingValue preemptType
        data fun r => (type r, cpu r, (ceiling r).toNat))) ops = some x →
      ∀ op cur r x', dpcpTests x op = some (cur, r) → (x.st.res r).type = .LOCAL →
        dpcpStep fuel x op = some x' →
          ((x'.pc cur = .suspend r → x.st.DueToOther (x.st.dpcpSystem r) cur) ↔
            ¬ x.st.RaisedBySelf (x.st.dpcpSystem r) cur)) ∧
    ∀ x, run (guarded mpcpPassesFree (mpcpStep fuel)) (.start (.start sched pendingValue preemptType
        data fun r => (type r, cpu r, (ceiling r).toNat))) ops = some x →
      ∀ cur r x', (x.st.res r).type = .LOCAL → (x.st.res r).cpu = x.st.cpu cur →
        mpcpStep fuel x (.call .pend cur r) = some x' →
          ((x'.pc cur = .wait r → x.st.DueToOther (x.st.cpu cur) cur) ↔
            ¬ x.st.RaisedBySelf (x.st.cpu cur) cur) := by
  refine ⟨fun x hrun op cur r x' htests htype hstep => ?_, fun x hrun cur r x' htype hcpu hstep => ?_⟩
  · obtain ⟨S, hcore⟩ := guarded_induct
      (P := fun x => ∃ S, DpcpCore x.st (fun r => (type r, cpu r)) S)
      (fun _ _ _ ⟨_, hinv⟩ hguard hstep => (hinv.step hguard hstep).imp fun _ h => h.2)
      ⟨_, DpcpCore.start sched pendingValue preemptType data
        (fun r => (type r, cpu r, (ceiling r).toNat)) fun r => (ceiling r).isLt⟩ hrun
    exact hcore.queuedForOther htests htype hstep
  · obtain ⟨S, hcore⟩ := guarded_induct (P := fun x => ∃ S, MpcpCore x cpu S)
      (fun _ _ _ ⟨_, hinv⟩ hguard hstep => hinv.step hguard hstep)
      ⟨_, MpcpCore.start sched pendingValue preemptType data
        (fun r => (type r, cpu r, (ceiling r).toNat)) fun r => (ceiling r).isLt⟩ hrun
    exact hcore.queuedForOther htype hcpu hstep

/-- Two threads of CPU 0, of the priorities 5 and 4, and two of its resources:
`true` of ceiling 3 and `false` of ceiling 5. -/
def twoLocals (K : Type) : CeilingState Bool K (Fin 2) :=
  .start (readyThreads (fun t => 5 - t.val) fun _ => 0) (fun _ => 0) (fun _ => .ACORAL_PREEMPT_LOCAL)
    (fun _ => none) fun r => (.LOCAL, 0, (if r then 3#8 else 5#8).toNat)

/-- The thread of priority 5 has taken the resource of ceiling 3. -/
def dpcpTaken : DpcpRun Bool (Fin 2) :=
  (dpcpStep 4 (.start (twoLocals DpcpSystem)) (.call .pend 0 true)).getD
    (.start (twoLocals DpcpSystem))

/-- The same under MPCP. -/
def mpcpTaken : MpcpRun Bool (Fin 2) :=
  (mpcpStep 4 (.start (twoLocals Nat)) (.call .pend 0 true)).getD (.start (twoLocals Nat))

/-- The thread of priority 4 waits for the one of priority 5, under both
protocols. -/
theorem ceiling_queuedForOther_two :
    ((dpcpStep 4 dpcpTaken (.call .pend 1 false)).isSome = true ∧
      dpcpTaken.st.DueToOther (.LOCAL, 0) 1) ∧
    (mpcpStep 4 mpcpTaken (.call .pend 1 false)).isSome = true ∧ mpcpTaken.st.DueToOther 0 1 := by
  have hboth := ceiling_queuedForOther 4 (readyThreads (fun t : Fin 2 => 5 - t.val) fun _ => 0) (fun _ => 0)
    (fun _ => .ACORAL_PREEMPT_LOCAL) (fun _ => none) (fun _ : Bool => .LOCAL) (fun _ => 0)
    (fun r => if r then 3 else 5) [.call .pend 0 true]
  constructor
  · have hpc : (dpcpStep 4 dpcpTaken (.call .pend 1 false)).map (fun x => x.pc 1) =
        some (.suspend false) := by decide
    obtain ⟨x', hx', hpc⟩ := Option.map_eq_some_iff.mp hpc
    refine ⟨by decide, (hboth.1 dpcpTaken rfl _ 1 false x' (by decide) (by decide) hx').mpr ?_ hpc⟩
    rintro ⟨top, htop, hcur, -⟩
    obtain rfl : true = top := Option.some.inj htop
    exact absurd hcur (by decide)
  · have hpc : (mpcpStep 4 mpcpTaken (.call .pend 1 false)).map (fun x => x.pc 1) =
        some (.wait false) := by decide
    obtain ⟨x', hx', hpc⟩ := Option.map_eq_some_iff.mp hpc
    refine ⟨by decide, (hboth.2 mpcpTaken rfl 1 false x' (by decide) (by decide) hx').mpr ?_ hpc⟩
    rintro ⟨top, htop, hcur, -⟩
    obtain rfl : true = top := Option.some.inj htop
    exact absurd hcur (by decide)

/-- A thread of priority 5 holds a resource of ceiling 5 and asks for another
one, which is free. The pend queues it behind its own ceiling. -/
theorem ceiling_selfQueue :
    (run (dpcpStep 4) (.start (.start (readyThreads (fun _ : Fin 1 => 5) fun _ => 0) (fun _ => 0)
        (fun _ => .ACORAL_PREEMPT_LOCAL) (fun _ => none) fun _ : Bool => (.LOCAL, 0, 5)))
        [.call .pend 0 true, .call .pend 0 false]).map
      (fun x => (x.pc 0, x.st.stackTop (.LOCAL, 0), x.st.owner true, x.st.owner false)) =
        some (.suspend false, some true, some 0, none) ∧
    (run (mpcpStep 4) (.start (.start (readyThreads (fun _ : Fin 1 => 5) fun _ => 0) (fun _ => 0)
        (fun _ => .ACORAL_PREEMPT_LOCAL) (fun _ => none) fun _ : Bool => (.LOCAL, 0, 5)))
        [.call .pend 0 true, .call .pend 0 false]).map
      (fun x => (x.pc 0, x.st.stackTop 0, x.st.owner true, x.st.owner false)) =
        some (.wait false, some true, some 0, none) := by
  decide

end ACoral
