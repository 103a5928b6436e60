import ACoral.Proofs.Ceiling.Dpcp

/-!
# `ACoral.Proofs.Ceiling.DpcpCore`: the resources in a run of DPCP

`DpcpCore` is the invariant: the resources in use are those on the stacks,
the priority of a system is the ceiling of the top of its stack, and the
semaphores count the owners. `DpcpEffect` is a step as it is seen by the
resources, the priorities and the history.
-/

set_option autoImplicit false

namespace ACoral

open CeilingState

variable {R T : Type} [DecidableEq R] [DecidableEq T]

/-! ### The invariant -/

/-- The resources in use are those on the stacks, and their semaphores are
taken. -/
structure DpcpCore (s : CeilingState R DpcpSystem T) (sys : R → DpcpSystem)
    (S : DpcpSystem → List R) : Prop extends s.Stacked sys S where
  system : ∀ r, s.dpcpSystem r = sys r
  owned : ∀ r, r ∈ S (sys r) ↔ s.owner r ≠ none
  sems : s.Sems

namespace DpcpCore

variable {s s' : CeilingState R DpcpSystem T} {sys : R → DpcpSystem} {S : DpcpSystem → List R}

omit [DecidableEq R] [DecidableEq T] in
theorem sameRes (h : DpcpCore s sys S) (hsame : SameRes s s') : DpcpCore s' sys S where
  toStacked := h.toStacked.sameRes hsame
  system r := by
    rw [← h.system r]
    unfold CeilingState.dpcpSystem
    rw [hsame.res]
  owned r := by rw [hsame.owner r]; exact h.owned r
  sems := h.sems.sameRes hsame

omit [DecidableEq T] in
/-- A resource that is free is pushed and taken. -/
theorem pass (h : DpcpCore s sys S) {r : R} {cur : T} (hfree : s.owner r = none)
    {s₁ : CeilingState R DpcpSystem T} (hpush : s.push (s.dpcpSystem r) r = some s₁)
    (hres : ∀ q, (s'.res q).type = (s₁.res q).type ∧ (s'.res q).cpu = (s₁.res q).cpu ∧
      (s'.res q).prioCeiling = (s₁.res q).prioCeiling ∧
      (s'.res q).stackingValue = (s₁.res q).stackingValue)
    (hstack : s'.stack = s₁.stack) (hprio : s'.sysPrio = s₁.sysPrio)
    (hobj : s'.ipc.ipc = (s₁.take r cur).ipc.ipc) :
    DpcpCore s' sys (Function.update S (sys r) (r :: S (sys r))) ∧
      ∀ q, s'.owner q = if q = r then some cur else s.owner q := by
  have hnot : r ∉ S (sys r) := fun hr => (h.owned r).mp hr hfree
  rw [h.system r] at hpush
  have hsame := SameButStack.push hpush
  have howner : ∀ q, s'.owner q = if q = r then some cur else s.owner q := fun q => by
    have hq := take_owner s₁ r q cur
    unfold CeilingState.owner at hq ⊢
    rw [hobj, hq, hsame.ipc]
  refine ⟨⟨?_, fun q => ?_, fun q => ?_, ?_⟩, howner⟩
  · exact (h.toStacked.push hnot hpush).congr hstack hprio fun q =>
      ⟨(hres q).2.2.1, (hres q).2.2.2⟩
  · rw [← h.system q]
    unfold CeilingState.dpcpSystem
    rw [(hres q).1, (hres q).2.1, hsame.res]
  · rw [howner q]
    by_cases hq : q = r
    · rw [hq, Function.update_self, if_pos rfl]
      simp
    · rw [if_neg hq, ← h.owned q]
      by_cases hk : sys q = sys r
      · rw [hk, Function.update_self, List.mem_cons]
        simp [hq]
      · rw [Function.update_of_ne hk]
  · intro q
    have hq : s₁.SemOk q := (h.sems q).congr (by rw [hsame.ipc])
    exact (hq.take r cur).congr (by rw [hobj])

omit [DecidableEq T] in
/-- A resource in use leaves its stack and is given back. -/
theorem posted (h : DpcpCore s sys S) {r : R} {cur : T} (howner : s.owner r = some cur)
    {s₀ s₁ s₂ : CeilingState R DpcpSystem T} (hsame₀ : SameRes s s₀)
    (hpop : s₀.pop (s.dpcpSystem r) r = some s₁) (hsame₂ : SameRes s₁ s₂)
    (hsame : SameRes (s₂.drop r) s') :
    DpcpCore s' sys (Function.update S (sys r) ((S (sys r)).erase r)) ∧
      ∀ q, s'.owner q = if q = r then none else s.owner q := by
  have hmem : r ∈ S (sys r) := (h.owned r).mpr (by rw [howner]; simp)
  have h₀ := h.sameRes hsame₀
  rw [h.system r] at hpop
  have hpopped := SameButStack.pop hpop
  have howner₂ : ∀ q, s₂.owner q = s.owner q := fun q => by
    rw [hsame₂.owner q, ← hsame₀.owner q]
    unfold CeilingState.owner
    rw [hpopped.ipc]
  have howner' : ∀ q, s'.owner q = if q = r then none else s.owner q := fun q => by
    rw [hsame.owner q, drop_owner, howner₂]
  refine ⟨⟨?_, fun q => ?_, fun q => ?_, ?_⟩, howner'⟩
  · have hstacked := (h₀.toStacked.pop hmem hpop).sameRes hsame₂
    have hdropped : (s₂.drop r).Stacked sys _ := hstacked.congr rfl rfl fun q => ⟨rfl, rfl⟩
    exact hdropped.sameRes hsame
  · rw [← h.system q]
    unfold CeilingState.dpcpSystem
    rw [hsame.res, show (s₂.drop r).res = s₂.res from rfl, hsame₂.res, hpopped.res, hsame₀.res]
  · rw [howner' q]
    have hnodup := h.nodup (sys r)
    by_cases hq : q = r
    · rw [hq, Function.update_self, if_pos rfl, hnodup.mem_erase_iff]
      simp
    · rw [if_neg hq, ← h.owned q]
      by_cases hk : sys q = sys r
      · rw [hk, Function.update_self, hnodup.mem_erase_iff]
        simp [hq]
      · rw [Function.update_of_ne hk]
  · intro q
    have hq : s₂.SemOk q := (h₀.sems q).congr (by rw [hsame₂.obj, hpopped.ipc])
    exact (hq.drop r).congr (by rw [hsame.obj])

end DpcpCore

/-- What the step `op` can do to the resources. -/
inductive DpcpEffect (x : DpcpRun R T) (op : CeilingOp R T) (sys : R → DpcpSystem)
    (S : DpcpSystem → List R) : DpcpRun R T → (DpcpSystem → List R) → Prop where
  /-- nothing; at most a priority becomes that of another thread -/
  | keep {x' : DpcpRun R T} (hsame : SameRes x.st x'.st)
      (hprio : ∀ b ≤ 256, (∀ t, x.st.prio t < b) → ∀ t, x'.st.prio t < b)
      (hlog : x'.log = x.log ∨ ∃ e, x'.log = e :: x.log ∧
        (e.err ≠ .KR_OK ∨ ∃ cpu, x.pc e.thread = .back e.res cpu e.err)) :
      DpcpEffect x op sys S x' S
  /-- `cur` passes the test of `r`, pushes it and takes it -/
  | pass {x' : DpcpRun R T} {cur : T} {r : R} (htests : dpcpTests x op = some (cur, r))
      (hpass : x.st.prio cur < x.st.sysPrio (sys r)) (hfree : x.st.owner r = none)
      (howner : ∀ q, x'.st.owner q = if q = r then some cur else x.st.owner q)
      (hceiling : ∀ q, (x'.st.res q).prioCeiling = (x.st.res q).prioCeiling)
      (hprio : ∀ t, x'.st.prio t = x.st.prio t)
      (hlog : x'.log = ⟨.pend, cur, r, .KR_OK⟩ :: x.log) :
      DpcpEffect x op sys S x' (Function.update S (sys r) (r :: S (sys r)))
  /-- `cur` gives `r` back -/
  | post {x' : DpcpRun R T} {cur : T} {r : R} (hop : op = .call .post cur r)
      (hcur : x.st.owner r = some cur)
      (howner : ∀ q, x'.st.owner q = if q = r then none else x.st.owner q)
      (hceiling : ∀ q, (x'.st.res q).prioCeiling = (x.st.res q).prioCeiling)
      (hprio : ∀ t, x'.st.prio t = x.st.prio t)
      (hlog : x'.log = ⟨.post, cur, r, .KR_OK⟩ :: x.log ∨
        x'.log = x.log ∧ (x.st.res r).type = .GLOBAL) :
      DpcpEffect x op sys S x' (Function.update S (sys r) ((S (sys r)).erase r))

namespace DpcpEffect

variable {x x' : DpcpRun R T} {op : CeilingOp R T} {sys : R → DpcpSystem}
  {S S' : DpcpSystem → List R}

omit [DecidableEq T] in
/-- A bound on the priorities is kept. -/
theorem prio_lt (h : DpcpEffect x op sys S x' S') {b : Nat} (hb256 : b ≤ 256)
    (hb : ∀ t, x.st.prio t < b) (t : T) : x'.st.prio t < b := by
  cases h with
  | keep hsame hprio hlog => exact hprio b hb256 hb t
  | pass htests hpass hfree howner hceiling hprio hlog =>
      rw [hprio t]
      exact hb t
  | post hop hcur howner hceiling hprio hlog =>
      rw [hprio t]
      exact hb t

omit [DecidableEq T] in
/-- A resource stays in use, but for one that is posted. -/
theorem inUse (h : DpcpEffect x op sys S x' S') {q : R} (hq : x.st.owner q ≠ none)
    (hop : ∀ cur, op ≠ .call .post cur q) : x'.st.owner q ≠ none := by
  cases h with
  | keep hsame hprio hlog =>
      rw [hsame.owner q]
      exact hq
  | @pass cur r htests hpass hfree howner hceiling hprio hlog =>
      rw [howner q]
      split
      · simp
      · exact hq
  | @post cur r hcall hcur howner hceiling hprio hlog =>
      have hqr : q ≠ r := fun he => hop cur (by rw [he, hcall])
      rw [howner q, if_neg hqr]
      exact hq

end DpcpEffect

namespace DpcpCore

variable {x x' : DpcpRun R T} {op : CeilingOp R T} {sys : R → DpcpSystem}
  {S : DpcpSystem → List R} {fuel : Nat}

/-- A round that fails the test: a priority becomes that of the caller. -/
theorem queued_prio {cur : T} {r : R} {s s' : CeilingState R DpcpSystem T}
    (hqueued : DpcpQueued fuel cur r s s') {b : Nat} (hb256 : b ≤ 256) (hb : ∀ t, s.prio t < b)
    (t : T) : s'.prio t < b := by
  obtain ⟨s₁, hadd, hs₁⟩ := hqueued.added
  obtain ⟨links, -, hs'⟩ := Option.map_eq_some_iff.mp hadd
  have hprio : s'.prio t = s₁.prio t := by
    rw [← hs']
    rfl
  rw [hprio]
  rcases hs₁ with ⟨-, rfl⟩ | ⟨-, last, u, -, -, rfl⟩
  · exact hb t
  · rw [changePrio_prio]
    have hcur := hb cur
    have ht := hb t
    split
    · omega
    · exact ht

/-- A round that passes the test. -/
theorem passed (h : DpcpCore x.st sys S) {cur : T} {r : R} {s s' : CeilingState R DpcpSystem T}
    (htests : dpcpTests x op = some (cur, r))
    (hs : s = x.st ∨ s = x.st.switchPreempt cur .ACORAL_PREEMPT_LOCAL .ACORAL_PREEMPT_GLOBAL)
    (hpassed : DpcpPassed cur r s s') :
    DpcpEffect x op sys S (x.ret .pend cur r .KR_OK s')
      (Function.update S (sys r) (r :: S (sys r))) ∧
    DpcpCore s' sys (Function.update S (sys r) (r :: S (sys r))) := by
  obtain ⟨hsame, hipc, hpr⟩ := switched hs
  have hcore := h.sameRes hsame
  obtain ⟨s₁, v, hpush, hcases⟩ := hpassed.taken
  have hbut := SameButStack.push hpush
  have hprio : ∀ t, s'.prio t = x.st.prio t := fun t => by
    have hpushed : s₁.prio t = s.prio t := by
      unfold CeilingState.prio
      rw [hbut.ipc]
    rw [← hpr t, ← hpushed]
    rcases hcases with ⟨-, rfl⟩ | ⟨-, rfl⟩ <;> rfl
  have hres : ∀ q, (s'.res q).type = (s₁.res q).type ∧ (s'.res q).cpu = (s₁.res q).cpu ∧
      (s'.res q).prioCeiling = (s₁.res q).prioCeiling ∧
      (s'.res q).stackingValue = (s₁.res q).stackingValue := fun q => by
    rcases hcases with ⟨-, rfl⟩ | ⟨-, rfl⟩
    · exact ⟨rfl, rfl, rfl, rfl⟩
    · show (Function.update s₁.res r _ q).type = _ ∧ (Function.update s₁.res r _ q).cpu = _ ∧
        (Function.update s₁.res r _ q).prioCeiling = _ ∧
        (Function.update s₁.res r _ q).stackingValue = _
      by_cases hq : q = r
      · rw [hq, Function.update_self]
        exact ⟨rfl, rfl, rfl, rfl⟩
      · rw [Function.update_of_ne hq]
        exact ⟨rfl, rfl, rfl, rfl⟩
  have hkeep : s'.stack = s₁.stack ∧ s'.sysPrio = s₁.sysPrio ∧
      s'.ipc.ipc = (s₁.take r cur).ipc.ipc := by
    rcases hcases with ⟨-, rfl⟩ | ⟨-, rfl⟩ <;> exact ⟨rfl, rfl, rfl⟩
  obtain ⟨hcore', howner⟩ := hcore.pass hpassed.free hpush hres hkeep.1 hkeep.2.1 hkeep.2.2
  refine ⟨.pass htests ?_ ?_ (fun q => ?_) (fun q => ?_) hprio rfl, hcore'⟩
  · have hpass := hpassed.pass
    rw [hcore.system r] at hpass
    rwa [← hsame.sysPrio, ← hpr cur]
  · rw [← hsame.owner r]
    exact hpassed.free
  · rw [← hsame.owner q]
    exact howner q
  · show (s'.res q).prioCeiling = _
    rw [(hres q).2.2.1, hbut.res, hsame.res]

/-- A post by the owner. -/
theorem post (h : DpcpCore x.st sys S) {cur : T} {r : R} {c : Option Nat}
    {s' : CeilingState R DpcpSystem T} (hop : op = .call .post cur r)
    (hposted : DpcpPosted cur r x.st c s') (hst : x'.st = s')
    (hlog : x'.log = ⟨.post, cur, r, .KR_OK⟩ :: x.log ∨
      x'.log = x.log ∧ (x.st.res r).type = .GLOBAL) :
    DpcpEffect x op sys S x' (Function.update S (sys r) ((S (sys r)).erase r)) ∧
    DpcpCore x'.st sys (Function.update S (sys r) ((S (sys r)).erase r)) := by
  obtain ⟨s₀, s₁, s₂, hpop, hwake, hcases⟩ := hposted.posted
  have hpopped := SameButStack.pop hpop
  have hwoken := SameRes.dpcpWake hwake
  have hsame₀ : SameRes x.st s₀ ∧ s₀.ipc = x.st.ipc := by
    rcases hcases with ⟨-, -, rfl, -⟩ | ⟨-, rfl, -⟩
    · exact ⟨SameRes.refl x.st, rfl⟩
    · exact ⟨SameRes.switchPreempt .., switchPreempt_ipc ..⟩
  have hsame : SameRes (s₂.drop r) s' ∧ s'.ipc = (s₂.drop r).ipc := by
    rcases hcases with ⟨-, -, -, -, rfl⟩ | ⟨-, -, ⟨p, -, -, -, rfl⟩ | ⟨-, -, rfl⟩⟩
    · exact ⟨SameRes.refl _, rfl⟩
    · exact ⟨⟨rfl, rfl, rfl, rfl⟩, rfl⟩
    · exact ⟨SameRes.refl _, rfl⟩
  obtain ⟨hcore, howner⟩ := h.posted hposted.owner hsame₀.1 hpop hwoken hsame.1
  subst hst
  refine ⟨.post hop hposted.owner howner (fun q => ?_) (fun t => ?_) hlog, hcore⟩
  · rw [hsame.1.res, show (s₂.drop r).res = s₂.res from rfl, hwoken.res, hpopped.res, hsame₀.1.res]
  · have hdrop : x'.st.prio t = s₂.prio t := by
      unfold CeilingState.prio
      rw [hsame.2]
      rfl
    rw [hdrop, dpcpWake_prio hwake t]
    unfold CeilingState.prio
    rw [hpopped.ipc, hsame₀.2]

/-- A step that passes a free resource or leaves the resources alone. -/
theorem move (h : DpcpCore x.st sys S) (hmove : DpcpMove fuel x op x') :
    ∃ S', DpcpEffect x op sys S x' S' ∧ DpcpCore x'.st sys S' := by
  have hkeep : ∀ {y : DpcpRun R T}, SameRes x.st y.st → (∀ t, y.st.prio t = x.st.prio t) →
      (y.log = x.log ∨ ∃ e, y.log = e :: x.log ∧
        (e.err ≠ .KR_OK ∨ ∃ cpu, x.pc e.thread = .back e.res cpu e.err)) →
      ∃ S', DpcpEffect x op sys S y S' ∧ DpcpCore y.st sys S' := fun hsame hprio hlog =>
    ⟨S, .keep hsame (fun b _ hb t => by rw [hprio t]; exact hb t) hlog, h.sameRes hsame⟩
  cases hmove with
  | queued htests hready hpc hs hqueued =>
      obtain ⟨hsame, hipc, hpr⟩ := switched hs
      have hkept := hsame.trans hqueued.sameRes
      refine ⟨S, .keep hkept (fun b hb256 hb t => ?_) (Or.inl rfl), h.sameRes hkept⟩
      exact queued_prio hqueued hb256 (fun u => by rw [hpr u]; exact hb u) t
  | passed htests hready hpc hs hpassed => exact ⟨_, h.passed htests hs hpassed⟩
  | refused hidle =>
      exact hkeep (SameRes.refl x.st) (fun _ => rfl) (Or.inr ⟨_, rfl, Or.inl (by simp)⟩)
  | leave hidle htype hcpu => exact hkeep ⟨rfl, rfl, rfl, rfl⟩ (fun _ => rfl) (Or.inl rfl)
  | failed hidle he =>
      exact hkeep (SameRes.refl x.st) (fun _ => rfl) (Or.inr ⟨_, rfl, Or.inl he⟩)
  | posted hidle hposted => exact ⟨_, h.post rfl hposted rfl (Or.inl rfl)⟩
  | left hidle hposted =>
      refine ⟨_, h.post rfl hposted rfl (Or.inr ⟨rfl, ?_⟩)⟩
      obtain ⟨-, -, -, -, -, ⟨-, -, -, hc, -⟩ | ⟨htype, -⟩⟩ := hposted.posted
      · exact absurd hc (by simp)
      · exact htype
  | jump hready hpc =>
      exact hkeep (SameRes.jumpCpu ..) (fun t => (jumpCpu_thread _ _ _ t hready).1) (Or.inl rfl)
  | suspend hready hpc =>
      exact hkeep (SameRes.suspendSelf ..) (fun t => suspendSelf_prio ..) (Or.inl rfl)
  | @back cur r cpu e hready hpc =>
      exact hkeep (SameRes.jumpCpu ..) (fun t => (jumpCpu_thread _ _ _ t hready).1)
        (Or.inr ⟨_, rfl, Or.inr ⟨cpu, hpc⟩⟩)

theorem step (h : DpcpCore x.st sys S) (hguard : passesFree x op = true)
    (hstep : dpcpStep fuel x op = some x') :
    ∃ S', DpcpEffect x op sys S x' S' ∧ DpcpCore x'.st sys S' :=
  h.move (dpcpStep_move h.sems hguard hstep)

omit [DecidableEq R] [DecidableEq T] in
/-- Before the first step every resource is free. -/
theorem start (sched : Sched T) (pendingValue : T → Int) (preemptType : T → PreemptType)
    (data : T → Option ThreadData) (create : R → CeilingType × Nat × Nat)
    (hceiling : ∀ r, (create r).2.2 < 256) :
    DpcpCore (CeilingState.start sched pendingValue preemptType data create)
      (fun r => ((create r).1, (create r).2.1)) fun _ => [] where
  toStacked := .start sched pendingValue preemptType data _ hceiling
  system _ := rfl
  owned r := by
    show r ∈ [] ↔ (none : Option T) ≠ none
    simp
  sems _ := ⟨rfl, rfl⟩

end DpcpCore

end ACoral
