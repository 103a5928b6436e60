import ACoral.Proofs.Ceiling.ThreadFrame

/-!
# `ACoral.Proofs.Ceiling.DpcpRestore`: a thread through a resource of DPCP

The thread `t` pends a resource and posts it, while the other threads take any
steps (`Between`). With the attributes `a` before the pend, it has `a.inside`
when the pend has returned; while it migrates it is in between (`DpcpEntering`,
`DpcpLeaving`). The post gives `a` back under the conditions of `dpcpGivenBack`.

The pend notes no priority, so that none is restored. A thread that got the
priority of a requester keeps it: `dpcpKeepsPrio` is the premise on the steps.
-/

set_option autoImplicit false
set_option linter.unusedSectionVars false

namespace ACoral

open CeilingState
open Lib (run guarded)

variable {R T : Type} [DecidableEq R] [DecidableEq T]

/-- No requester gives `t` another priority. -/
def dpcpKeepsPrio (t : T) (x : DpcpRun R T) (op : CeilingOp R T) : Bool :=
  match dpcpTests x op with
  | none          => true
  | some (cur, r) =>
      decide ((x.st.res r).type = .LOCAL → x.st.sysPrio (x.st.dpcpSystem r) ≤ x.st.prio cur →
        x.st.keepsPrio (x.st.dpcpSystem r) cur t = true)

/-! ### The other threads -/

section Others

variable {x x' : DpcpRun R T} {t cur : T} {r : R} {fuel : Nat}

theorem ret_other (hne : t ≠ cur) (c : CeilingCall) (e : KernelError)
    (s : CeilingState R DpcpSystem T) (q : R) :
    (x.ret c cur r e s).pc t = x.pc t ∧ holds (x.ret c cur r e s).log t q = holds x.log t q := by
  refine ⟨by rw [ret_pc, if_neg hne], ?_⟩
  show holds (⟨c, cur, r, e⟩ :: x.log) t q = holds x.log t q
  simp [holds, Ne.symm hne]

theorem goto_other (hne : t ≠ cur) (pc : DpcpPc R) (s : CeilingState R DpcpSystem T) (q : R) :
    (x.goto cur pc s).pc t = x.pc t ∧ holds (x.goto cur pc s).log t q = holds x.log t q :=
  ⟨by rw [goto_pc, if_neg hne], rfl⟩

theorem round_other (hne : t ≠ cur) (res : CeilingResult × CeilingState R DpcpSystem T) (q : R) :
    (x.round cur r res).pc t = x.pc t ∧ holds (x.round cur r res).log t q = holds x.log t q := by
  obtain ⟨_ | _ | _, s⟩ := res
  · exact ret_other hne ..
  · exact goto_other hne ..
  · exact goto_other hne ..

theorem round_st (res : CeilingResult × CeilingState R DpcpSystem T) :
    (x.round cur r res).st = res.2 := by
  obtain ⟨_ | _ | _, s⟩ := res <;> rfl

theorem dpcpTests_thread {op : CeilingOp R T} (h : dpcpTests x op = some (cur, r)) :
    op.thread = cur := by
  cases op with
  | call c u q =>
      cases c with
      | post => exact absurd h (by simp [dpcpTests])
      | pend =>
          obtain ⟨-, heq⟩ := Option.ite_none_right_eq_some.mp h
          exact (Prod.mk.inj (Option.some.inj heq)).1
  | resume u =>
      cases hpc : x.pc u with
      | enter q =>
          simp only [dpcpTests, hpc, Option.some.injEq, Prod.mk.injEq] at h
          exact h.1
      | wait q =>
          simp only [dpcpTests, hpc, Option.some.injEq, Prod.mk.injEq] at h
          exact h.1
      | _ => simp [dpcpTests, hpc] at h

/-- A round of any thread, the preemption type of the caller apart. -/
theorem ThreadFrame.dpcpTested {op : CeilingOp R T} {s : CeilingState R DpcpSystem T}
    {res : CeilingResult × CeilingState R DpcpSystem T} (hkeep : dpcpKeepsPrio t x op = true)
    (htests : dpcpTests x op = some (cur, r))
    (hs : s = x.st ∨ s = x.st.switchPreempt cur .ACORAL_PREEMPT_LOCAL .ACORAL_PREEMPT_GLOBAL)
    (hround : ACoral.dpcpRound fuel cur r s = some res) : ThreadFrame t s res.2 := by
  obtain ⟨hsame, hipc, hprio⟩ := switched hs
  obtain ⟨res, s'⟩ := res
  refine ThreadFrame.dpcpRound (fun hlocal hfull => ?_) hround
  simp only [dpcpKeepsPrio, htests, decide_eq_true_eq] at hkeep
  have hsys : s.dpcpSystem r = x.st.dpcpSystem r := by
    unfold CeilingState.dpcpSystem
    rw [hsame.res]
  rw [hsame.res] at hlocal
  rw [hsys, hsame.sysPrio, hprio] at hfull
  have hkept := hkeep hlocal hfull
  unfold CeilingState.keepsPrio CeilingState.stackTop CeilingState.owner CeilingState.prio at hkept ⊢
  rwa [hsys, hsame.stack, hipc]

/-- What a post does to the threads. -/
theorem acoralDpcpPost_attrs {s s' : CeilingState R DpcpSystem T} {e : KernelError}
    {c : Option Nat} (h : acoralDpcpPost cur r s = some (e, c, s')) :
    e ≠ .KR_OK ∧ c = none ∧ s' = s ∨
    (s.res r).type = .LOCAL ∧ c = none ∧ (∀ t, ThreadFrame t s s') ∨
    (s.res r).type = .GLOBAL ∧ ∃ s₂,
      (∀ t, ThreadFrame t
        (s.switchPreempt cur .ACORAL_PREEMPT_GLOBAL .ACORAL_PREEMPT_LOCAL) s₂) ∧
      ((∃ p, s.data cur = some p ∧ p.word ≠ s.cpu cur ∧ c = some p.word ∧
          s' = { s₂ with data := Function.update s₂.data cur none }) ∨
        (∀ p, s.data cur = some p → p.word = s.cpu cur) ∧ c = none ∧ s' = s₂) := by
  unfold acoralDpcpPost at h
  by_cases howner : s.owner r = some cur
  case neg =>
    simp only [ne_eq, howner, not_false_eq_true, if_true, Option.some.injEq, Prod.mk.injEq] at h
    obtain ⟨rfl, rfl, rfl⟩ := h
    exact Or.inl ⟨by decide, rfl, rfl⟩
  simp only [ne_eq, howner, not_true_eq_false, if_false] at h
  right
  cases htype : (s.res r).type with
  | LOCAL =>
      left
      simp only [htype] at h
      by_cases hcpu : (s.res r).cpu = s.cpu cur
      case neg =>
        simp only [hcpu, not_false_eq_true, if_true, Option.some.injEq, Prod.mk.injEq] at h
        obtain ⟨-, rfl, rfl⟩ := h
        exact ⟨rfl, rfl, fun t => ThreadFrame.refl t s⟩
      simp only [hcpu, not_true_eq_false, if_false] at h
      obtain ⟨s₁, hpop, h⟩ := Option.bind_eq_some_iff.mp h
      obtain ⟨s₂, hwake, h⟩ := Option.bind_eq_some_iff.mp h
      obtain ⟨⟨e', s₃⟩, hsem, h⟩ := Option.map_eq_some_iff.mp h
      simp only [Prod.mk.injEq] at h
      obtain ⟨-, rfl, rfl⟩ := h
      exact ⟨rfl, rfl, fun t => (ThreadFrame.pop hpop).trans
        ((ThreadFrame.dpcpWake hwake).trans (ThreadFrame.dpcpRestore_semPost hsem))⟩
  | GLOBAL =>
      right
      simp only [htype] at h
      obtain ⟨s₁, hpop, h⟩ := Option.bind_eq_some_iff.mp h
      obtain ⟨s₂, hwake, h⟩ := Option.bind_eq_some_iff.mp h
      obtain ⟨⟨e', s₃⟩, hsem, h⟩ := Option.map_eq_some_iff.mp h
      refine ⟨rfl, s₃, fun t => (ThreadFrame.pop hpop).trans
        ((ThreadFrame.dpcpWake hwake).trans (ThreadFrame.dpcpRestore_semPost hsem)), ?_⟩
      cases hdata : s.data cur with
      | none =>
          simp only [hdata, Prod.mk.injEq] at h
          obtain ⟨-, rfl, rfl⟩ := h
          exact Or.inr ⟨fun p hp => absurd hp (by simp), rfl, rfl⟩
      | some p =>
          by_cases hword : p.word = s.cpu cur
          · simp only [hdata, hword, not_true_eq_false, if_false, Prod.mk.injEq] at h
            obtain ⟨-, rfl, rfl⟩ := h
            exact Or.inr ⟨fun q hq => Option.some.inj hq ▸ hword, rfl, rfl⟩
          · simp only [hdata, hword, not_false_eq_true, if_true, Prod.mk.injEq] at h
            obtain ⟨-, rfl, rfl⟩ := h
            exact Or.inl ⟨p, rfl, hword, rfl, rfl⟩

/-- A step of another thread. -/
theorem dpcpStep_other {op : CeilingOp R T} (hkeep : dpcpKeepsPrio t x op = true)
    (hne : op.thread ≠ t) (hstep : dpcpStep fuel x op = some x') :
    ThreadFrame t x.st x'.st ∧ x'.pc t = x.pc t ∧ ∀ q, holds x'.log t q = holds x.log t q := by
  cases htests : dpcpTests x op with
  | some p =>
      obtain ⟨cur, r⟩ := p
      have hcur : t ≠ cur := fun he => hne (he ▸ dpcpTests_thread htests)
      obtain ⟨s, res, hs, hround, rfl⟩ := dpcpStep_tests htests hstep
      have hframe := ThreadFrame.dpcpTested hkeep htests hs hround
      rw [round_st]
      refine ⟨?_, (round_other hcur res r).1, fun q => (round_other hcur res q).2⟩
      rcases hs with rfl | rfl
      · exact hframe
      · exact (ThreadFrame.switchPreempt _ hcur _ _).trans hframe
  | none =>
      cases op with
      | call c cur r =>
          have hcur : t ≠ cur := fun he => hne he.symm
          have hret : ∀ c e, ThreadFrame t x.st (x.ret c cur r e x.st).st ∧
              (x.ret c cur r e x.st).pc t = x.pc t ∧
              ∀ q, holds (x.ret c cur r e x.st).log t q = holds x.log t q := fun c e =>
            ⟨ThreadFrame.refl t x.st, (ret_other hcur c e x.st r).1,
              fun q => (ret_other hcur c e x.st q).2⟩
          obtain ⟨-, hstep⟩ := Option.ite_none_right_eq_some.mp hstep
          cases c with
          | pend =>
              have hcpu : (x.st.res r).cpu ≠ x.st.cpu cur := fun he => by
                simp [dpcpTests, he] at htests
              simp only [dpcpPend] at hstep
              cases htype : (x.st.res r).type with
              | LOCAL =>
                  simp only [htype, if_pos hcpu] at hstep
                  obtain rfl := Option.some.inj hstep
                  exact hret _ _
              | GLOBAL =>
                  simp only [htype, if_pos hcpu.symm] at hstep
                  obtain rfl := Option.some.inj hstep
                  exact ⟨ThreadFrame.setData x.st hcur _, (goto_other hcur _ _ r).1,
                    fun q => (goto_other hcur _ _ q).2⟩
          | post =>
              obtain ⟨⟨e, c, s'⟩, hpost, hx'⟩ := Option.map_eq_some_iff.mp hstep
              have hframe : ThreadFrame t x.st s' := by
                rcases acoralDpcpPost_attrs hpost with ⟨-, -, rfl⟩ | ⟨-, -, hframe⟩ |
                  ⟨-, s₂, hframe, ⟨p, -, -, -, rfl⟩ | ⟨-, -, rfl⟩⟩
                · exact ThreadFrame.refl t x.st
                · exact hframe t
                · exact (ThreadFrame.switchPreempt _ hcur _ _).trans
                    ((hframe t).trans (ThreadFrame.setData s₂ hcur _))
                · exact (ThreadFrame.switchPreempt _ hcur _ _).trans (hframe t)
              cases c with
              | none =>
                  obtain rfl := hx'
                  exact ⟨hframe, (ret_other hcur _ _ _ r).1, fun q => (ret_other hcur _ _ _ q).2⟩
              | some cpu =>
                  obtain rfl := hx'
                  exact ⟨hframe, (goto_other hcur _ _ r).1, fun q => (goto_other hcur _ _ q).2⟩
      | resume cur =>
          have hcur : t ≠ cur := fun he => hne he.symm
          obtain ⟨-, hstep⟩ := Option.ite_none_right_eq_some.mp hstep
          unfold dpcpResume at hstep
          cases hpc : x.pc cur with
          | idle =>
              rw [hpc] at hstep
              exact absurd hstep (by simp)
          | enter r => simp [dpcpTests, hpc] at htests
          | wait r => simp [dpcpTests, hpc] at htests
          | jump r =>
              rw [hpc] at hstep
              obtain rfl := Option.some.inj hstep
              exact ⟨ThreadFrame.jumpCpu x.st hcur _, (goto_other hcur _ _ r).1,
                fun q => (goto_other hcur _ _ q).2⟩
          | suspend r =>
              rw [hpc] at hstep
              obtain rfl := Option.some.inj hstep
              exact ⟨ThreadFrame.suspendSelf x.st cur, (goto_other hcur _ _ r).1,
                fun q => (goto_other hcur _ _ q).2⟩
          | back r cpu e =>
              rw [hpc] at hstep
              obtain rfl := Option.some.inj hstep
              exact ⟨ThreadFrame.jumpCpu x.st hcur _, (ret_other hcur _ _ _ r).1,
                fun q => (ret_other hcur _ _ _ q).2⟩

end Others

/-! ### The thread -/

/-- What a thread with the attributes `a` has while it uses a resource of the
system `k`. -/
def ThreadAttrs.inside (a : ThreadAttrs) (k : DpcpSystem) : ThreadAttrs :=
  match k.1 with
  | .LOCAL  => a
  | .GLOBAL =>
      { a with
        cpu := k.2
        preemptType := a.preemptType.inside .GLOBAL
        data := if a.cpu = k.2 then a.data else some (.origin a.cpu) }

/-- The attributes that a resource of the system `k` gives back. A global one
leaves the preemption type local, takes the data for a CPU to go back to, and
clears it. -/
def ThreadAttrs.givenBack (a : ThreadAttrs) (k : DpcpSystem) : Prop :=
  k.1 = .GLOBAL → a.preemptType ≠ .ACORAL_PREEMPT_GLOBAL ∧
    ∀ p, a.data = some p → a.cpu = k.2 ∧ p.word = a.cpu

/-- `t` is in its pend of `r`, or has returned from it. -/
inductive DpcpEntering (a : ThreadAttrs) (k : DpcpSystem) (t : T) (r : R) (x : DpcpRun R T) : Prop where
  | jump (hpc : x.pc t = .jump r) (htype : k.1 = .GLOBAL) (hcpu : a.cpu ≠ k.2)
      (hattrs : x.st.attrs t = { a with data := some (.origin a.cpu) })
  | enter (hpc : x.pc t = .enter r) (htype : k.1 = .GLOBAL) (hcpu : a.cpu ≠ k.2)
      (hattrs : x.st.attrs t = { a with cpu := k.2, data := some (.origin a.cpu) })
  | inside (hpc : x.pc t = .suspend r ∨ x.pc t = .wait r ∨ x.pc t = .idle)
      (hattrs : x.st.attrs t = a.inside k)

/-- `t` is in its post of `r`, or has returned from it. -/
inductive DpcpLeaving (a : ThreadAttrs) (k : DpcpSystem) (t : T) (r : R) (x : DpcpRun R T) : Prop where
  | failed (hpc : x.pc t = .idle) (hheld : holds x.log t r = true)
  | back {e : KernelError} (hpc : x.pc t = .back r a.cpu e)
      (hattrs : x.st.attrs t = { a with cpu := k.2 })
  | done (hpc : x.pc t = .idle) (hattrs : x.st.attrs t = a)

section Thread

variable {x x' : DpcpRun R T} {a : ThreadAttrs} {k : DpcpSystem} {t : T} {r : R} {fuel : Nat}
  {op : CeilingOp R T}

/-- The places of the resources stay the same. -/
theorem ThreadFrame.dpcpSystem {s s' : CeilingState R DpcpSystem T} (h : ThreadFrame t s s')
    (r : R) : s'.dpcpSystem r = s.dpcpSystem r := by
  unfold CeilingState.dpcpSystem
  rw [(h.place r).1, (h.place r).2]

/-- The end of a round of `t` itself. -/
theorem DpcpEntering.of_round {res : CeilingResult × CeilingState R DpcpSystem T}
    (hattrs : res.2.attrs t = a.inside k) : DpcpEntering a k t r (x.round t r res) := by
  refine .inside ?_ (by rw [round_st]; exact hattrs)
  rw [round_pc, if_pos rfl]
  split
  · exact Or.inr (Or.inr rfl)
  · exact Or.inl rfl

/-- The pend of `t`. -/
theorem DpcpEntering.of_call (hkeep : dpcpKeepsPrio t x (.call .pend t r) = true)
    (hstep : dpcpStep fuel x (.call .pend t r) = some x') :
    DpcpEntering (x.st.attrs t) (x.st.dpcpSystem r) t r x' ∧
      x'.st.dpcpSystem r = x.st.dpcpSystem r := by
  obtain ⟨-, hstep⟩ := Option.ite_none_right_eq_some.mp hstep
  simp only [dpcpPend] at hstep
  by_cases hcpu : (x.st.res r).cpu = x.st.cpu t
  · have htests : dpcpTests x (.call .pend t r) = some (t, r) := by
      simp [dpcpTests, hcpu]
    cases htype : (x.st.res r).type with
    | LOCAL =>
        simp only [htype, hcpu, ne_eq, not_true_eq_false, if_false] at hstep
        obtain ⟨res, hround, rfl⟩ := Option.map_eq_some_iff.mp hstep
        have hframe := ThreadFrame.dpcpTested hkeep htests (Or.inl rfl) hround
        refine ⟨.of_round ?_, by rw [round_st]; exact hframe.dpcpSystem r⟩
        rw [hframe.attrs, ThreadAttrs.inside, show (x.st.dpcpSystem r).1 = .LOCAL from htype]
    | GLOBAL =>
        simp only [htype, hcpu, ne_eq, not_true_eq_false, if_false] at hstep
        obtain ⟨res, hround, rfl⟩ := Option.map_eq_some_iff.mp hstep
        have hframe := ThreadFrame.dpcpTested hkeep htests (Or.inr rfl) hround
        have hsame := SameRes.switchPreempt x.st t .ACORAL_PREEMPT_LOCAL .ACORAL_PREEMPT_GLOBAL
        refine ⟨.of_round ?_, ?_⟩
        · rw [hframe.attrs, ThreadFrame.attrs_switchPreempt, ThreadAttrs.inside,
            show (x.st.dpcpSystem r).1 = .GLOBAL from htype,
            show (x.st.dpcpSystem r).2 = x.st.cpu t from hcpu]
          simp only [CeilingState.attrs, if_true]
          rfl
        · rw [round_st, hframe.dpcpSystem r]
          unfold CeilingState.dpcpSystem
          rw [hsame.res]
  · cases htype : (x.st.res r).type with
    | LOCAL =>
        simp only [htype, hcpu, ne_eq, not_false_eq_true, if_true] at hstep
        obtain rfl := Option.some.inj hstep
        refine ⟨.inside (Or.inr (Or.inr ?_)) ?_, rfl⟩
        · rw [ret_pc, if_pos rfl]
        · rw [ThreadAttrs.inside, show (x.st.dpcpSystem r).1 = .LOCAL from htype]
          rfl
    | GLOBAL =>
        simp only [htype, Ne.symm hcpu, ne_eq, not_false_eq_true, if_true] at hstep
        obtain rfl := Option.some.inj hstep
        refine ⟨.jump ?_ htype (Ne.symm hcpu) ?_, rfl⟩
        · rw [goto_pc, if_pos rfl]
        · simp [CeilingState.attrs, DpcpRun.goto, CeilingState.prio, CeilingState.cpu]

/-- Any step but a call of `t`, up to the return of the pend. -/
theorem DpcpEntering.step (h : DpcpEntering a k t r x) (hk : x.st.dpcpSystem r = k)
    (hmax : k.2 < CFG_MAX_CPU) (hkeep : dpcpKeepsPrio t x op = true)
    (hop : ∀ c q, op ≠ .call c t q) (hstep : dpcpStep fuel x op = some x') :
    DpcpEntering a k t r x' ∧ x'.st.dpcpSystem r = k := by
  by_cases hne : op.thread = t
  case neg =>
    obtain ⟨hframe, hpc, -⟩ := dpcpStep_other hkeep hne hstep
    rw [hframe.dpcpSystem r]
    refine ⟨?_, hk⟩
    cases h with
    | jump hp htype hcpu hattrs => exact .jump (hpc.trans hp) htype hcpu (hframe.attrs.trans hattrs)
    | enter hp htype hcpu hattrs => exact .enter (hpc.trans hp) htype hcpu (hframe.attrs.trans hattrs)
    | inside hp hattrs => exact .inside (by rwa [hpc]) (hframe.attrs.trans hattrs)
  case pos =>
    cases op with
    | call c u q =>
        obtain rfl : u = t := hne
        exact absurd rfl (hop c q)
    | resume u =>
        obtain rfl : u = t := hne
        obtain ⟨-, hresume⟩ := Option.ite_none_right_eq_some.mp hstep
        unfold dpcpResume at hresume
        cases h with
        | jump hp htype hcpu' hattrs =>
            rw [hp] at hresume
            obtain rfl := Option.some.inj hresume
            have hsame := SameRes.jumpCpu x.st u (x.st.res r).cpu
            have hto : (x.st.res r).cpu = k.2 := by rw [← hk]; rfl
            refine ⟨.enter (by rw [goto_pc, if_pos rfl]) htype hcpu' ?_, ?_⟩
            · show (jumpCpu x.st u (x.st.res r).cpu).attrs u = _
              rw [hto, ThreadFrame.attrs_jumpCpu x.st hmax, hattrs]
            · rw [← hk]
              show (jumpCpu x.st u (x.st.res r).cpu).dpcpSystem r = x.st.dpcpSystem r
              unfold CeilingState.dpcpSystem
              rw [hsame.res]
        | enter hp htype hcpu' hattrs =>
            rw [hp] at hresume
            obtain ⟨res, hround, rfl⟩ := Option.map_eq_some_iff.mp hresume
            have hframe := ThreadFrame.dpcpTested (r := r) hkeep (by simp [dpcpTests, hp])
              (Or.inr rfl) hround
            have hsame := SameRes.switchPreempt x.st u .ACORAL_PREEMPT_LOCAL .ACORAL_PREEMPT_GLOBAL
            have hpre : x.st.preemptType u = a.preemptType := congrArg ThreadAttrs.preemptType hattrs
            refine ⟨.of_round ?_, ?_⟩
            · rw [hframe.attrs, ThreadFrame.attrs_switchPreempt, ThreadAttrs.inside, hattrs, htype,
                hpre]
              simp only [if_neg hcpu']
              rfl
            · rw [round_st, hframe.dpcpSystem r, ← hk]
              unfold CeilingState.dpcpSystem
              rw [hsame.res]
        | inside hp hattrs =>
            rcases hp with hp | hp | hp
            · rw [hp] at hresume
              obtain rfl := Option.some.inj hresume
              have hframe := ThreadFrame.suspendSelf (t := u) x.st u
              exact ⟨.inside (Or.inr (Or.inl (by rw [goto_pc, if_pos rfl])))
                (hframe.attrs.trans hattrs), hk⟩
            · rw [hp] at hresume
              obtain ⟨res, hround, rfl⟩ := Option.map_eq_some_iff.mp hresume
              have hframe := ThreadFrame.dpcpTested (r := r) hkeep (by simp [dpcpTests, hp])
                (Or.inl rfl) hround
              exact ⟨.of_round (hframe.attrs.trans hattrs),
                by rw [round_st, hframe.dpcpSystem r, hk]⟩
            · rw [hp] at hresume
              exact absurd hresume (by simp)

/-- The post of `t`. -/
theorem DpcpLeaving.of_call (h : DpcpEntering a k t r x) (hk : x.st.dpcpSystem r = k)
    (hback : a.givenBack k) (hheld : holds x.log t r = true)
    (hstep : dpcpStep fuel x (.call .post t r) = some x') : DpcpLeaving a k t r x' := by
  obtain ⟨⟨-, hidle⟩, hstep⟩ := Option.ite_none_right_eq_some.mp hstep
  have hattrs : x.st.attrs t = a.inside k := by
    cases h with
    | jump hp => exact absurd (hidle.symm.trans hp) (by simp)
    | enter hp => exact absurd (hidle.symm.trans hp) (by simp)
    | inside hp hattrs => exact hattrs
  obtain ⟨⟨e, c, s'⟩, hpost, hx'⟩ := Option.map_eq_some_iff.mp hstep
  have hpc : ∀ s, (x.ret .post t r e s).pc t = .idle := fun s => by rw [ret_pc, if_pos rfl]
  rcases acoralDpcpPost_attrs hpost with ⟨herr, rfl, rfl⟩ | ⟨hlocal, rfl, hframe⟩ |
    ⟨hglobal, s₂, hframe, hcases⟩
  · obtain rfl := hx'
    refine .failed (hpc _) ?_
    show holds (_ :: x.log) t r = true
    rw [holds_cons_error _ herr]
    exact hheld
  · obtain rfl := hx'
    refine .done (hpc _) ((hframe t).attrs.trans ?_)
    rw [hattrs, ThreadAttrs.inside, ← hk, show (x.st.dpcpSystem r).1 = .LOCAL from hlocal]
  · have htype : k.1 = .GLOBAL := by rw [← hk]; exact hglobal
    obtain ⟨hpre, hdata⟩ := hback htype
    have hin := hattrs
    rw [ThreadAttrs.inside, htype] at hin
    have hs₂ := (hframe t).attrs
    rw [ThreadFrame.attrs_switchPreempt, hin] at hs₂
    have hp : x.st.preemptType t = a.preemptType.inside .GLOBAL :=
      congrArg ThreadAttrs.preemptType hin
    have hswitch : (if x.st.preemptType t = .ACORAL_PREEMPT_GLOBAL then
        .ACORAL_PREEMPT_LOCAL else x.st.preemptType t) = a.preemptType := by
      rw [hp]
      exact PreemptType.inside_back hpre
    have hd : x.st.data t = if a.cpu = k.2 then a.data else some (.origin a.cpu) :=
      congrArg ThreadAttrs.data hin
    have hc : x.st.cpu t = k.2 := congrArg ThreadAttrs.cpu hin
    rw [hswitch] at hs₂
    rcases hcases with ⟨p, hpdata, hword, rfl, rfl⟩ | ⟨hword, rfl, rfl⟩
    · obtain rfl := hx'
      rw [hd] at hpdata
      by_cases hhome : a.cpu = k.2
      · rw [if_pos hhome] at hpdata
        rw [hc, (hdata p hpdata).2] at hword
        exact absurd hhome hword
      · rw [if_neg hhome] at hpdata
        obtain rfl := Option.some.inj hpdata
        refine .back (by rw [goto_pc, if_pos rfl]; rfl) ?_
        have hnone : a.data = none := by
          cases hdata' : a.data with
          | none => rfl
          | some p => exact absurd (hdata p hdata').1 hhome
        refine (ThreadFrame.attrs_setData s₂ none).trans ?_
        rw [hs₂, ← hnone]
    · obtain rfl := hx'
      refine .done (hpc _) (hs₂.trans ?_)
      by_cases hhome : a.cpu = k.2
      · simp only [if_pos hhome]
        rw [← hhome]
      · rw [if_neg hhome] at hd
        exact absurd ((hword _ hd).trans hc) hhome

/-- Any step but a call of `t`, up to the return of the post. -/
theorem DpcpLeaving.step (h : DpcpLeaving a k t r x) (hcpu : a.cpu < CFG_MAX_CPU)
    (hkeep : dpcpKeepsPrio t x op = true) (hop : ∀ c q, op ≠ .call c t q) (hstep : dpcpStep fuel x op = some x') :
    DpcpLeaving a k t r x' := by
  by_cases hne : op.thread = t
  case neg =>
    obtain ⟨hframe, hpc, hheld⟩ := dpcpStep_other hkeep hne hstep
    cases h with
    | failed hp hh => exact .failed (hpc.trans hp) ((hheld r).trans hh)
    | back hp hattrs => exact .back (hpc.trans hp) (hframe.attrs.trans hattrs)
    | done hp hattrs => exact .done (hpc.trans hp) (hframe.attrs.trans hattrs)
  case pos =>
    cases op with
    | call c u q =>
        obtain rfl : u = t := hne
        exact absurd rfl (hop c q)
    | resume u =>
        obtain rfl : u = t := hne
        obtain ⟨-, hresume⟩ := Option.ite_none_right_eq_some.mp hstep
        unfold dpcpResume at hresume
        cases h with
        | failed hp hh =>
            rw [hp] at hresume
            exact absurd hresume (by simp)
        | back hp hattrs =>
            rw [hp] at hresume
            obtain rfl := Option.some.inj hresume
            refine .done (by rw [ret_pc, if_pos rfl]) ?_
            exact (ThreadFrame.attrs_jumpCpu x.st hcpu).trans (by rw [hattrs])
        | done hp hattrs =>
            rw [hp] at hresume
            exact absurd hresume (by simp)

/-- A thread that pends a resource, gets it and posts it, with the other
threads at any steps that leave its priority alone. -/
theorem dpcp_restore {x₀ x₁ x₂ : DpcpRun R T} {ops₁ ops₂ : List (CeilingOp R T)}
    (hback : (x₀.st.attrs t).givenBack (x₀.st.dpcpSystem r))
    (hcpu : x₀.st.cpu t < CFG_MAX_CPU) (hto : (x₀.st.res r).cpu < CFG_MAX_CPU)
    (hpend : run (guarded (dpcpKeepsPrio t) (dpcpStep fuel)) x₀ (.call .pend t r :: ops₁) = some x₁)
    (hpost : run (guarded (dpcpKeepsPrio t) (dpcpStep fuel)) x₁ (.call .post t r :: ops₂) = some x₂)
    (hcall₁ : NoCall t ops₁) (hcall₂ : NoCall t ops₂) (hheld : holds x₁.log t r = true)
    (hfree : holds x₂.log t r = false) (hidle : x₂.pc t = .idle) :
    x₂.st.attrs t = x₀.st.attrs t := by
  obtain ⟨y₁, hstep₁, hrun₁⟩ := Lib.run_cons_eq_some.mp hpend
  obtain ⟨hkeep₁, hstep₁⟩ := Lib.guarded_eq_some.mp hstep₁
  obtain ⟨y₂, hstep₂, hrun₂⟩ := Lib.run_cons_eq_some.mp hpost
  obtain ⟨hkeep₂, hstep₂⟩ := Lib.guarded_eq_some.mp hstep₂
  obtain ⟨hentered, hk⟩ := Lib.guarded_induct_mem
    (P := fun x => DpcpEntering (x₀.st.attrs t) (x₀.st.dpcpSystem r) t r x ∧
      x.st.dpcpSystem r = x₀.st.dpcpSystem r)
    (fun _ _ _ hmem ⟨hinv, hk⟩ hkeep hstep => hinv.step hk hto hkeep
      (fun c q he => hcall₁ c q (he ▸ hmem)) hstep)
    (DpcpEntering.of_call hkeep₁ hstep₁) hrun₁
  have hleft := Lib.guarded_induct_mem
    (P := fun x => DpcpLeaving (x₀.st.attrs t) (x₀.st.dpcpSystem r) t r x)
    (fun _ _ _ hmem hinv hkeep hstep => hinv.step hcpu hkeep
      (fun c q he => hcall₂ c q (he ▸ hmem)) hstep)
    (DpcpLeaving.of_call hentered hk hback hheld hstep₂) hrun₂
  cases hleft with
  | failed hpc hh => exact absurd (hh.symm.trans hfree) (by simp)
  | back hpc hattrs => exact absurd (hidle.symm.trans hpc) (by simp)
  | done hpc hattrs => exact hattrs

end Thread

end ACoral
