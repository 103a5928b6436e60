import ACoral.Proofs.Ceiling.DpcpCore

/-!
# `ACoral.Proofs.Ceiling.DpcpLocal`: the ceiling argument for DPCP

The local resources of one CPU, with any ceilings, and any threads. The only
premise on the steps is `ceilingRespected`: a thread that makes the ceiling
test for a resource has a priority number at least as large as its ceiling.

* `dpcp_ceiling`: the ceilings on the stack decrease toward the top, the
  priority of the system is that of the top, a thread that passes the test
  finds the semaphore free, and no two threads hold a resource.

A thread that passes the test has a priority number below the ceiling of the
top, so the ceiling of its resource is below all those on the stack
(`LocalInv.passesFree`). That is why the resource is not on the stack, and why
the stack stays sorted when it is pushed.
-/

set_option autoImplicit false

namespace ACoral

open CeilingState
open Lib (run guarded guarded_induct)

variable {R T : Type} [DecidableEq R] [DecidableEq T]

/-- A thread that makes the ceiling test has a priority number at least as
large as the ceiling of the resource. -/
def ceilingRespected (x : DpcpRun R T) (op : CeilingOp R T) : Bool :=
  match dpcpTests x op with
  | none          => true
  | some (cur, r) => decide ((x.st.res r).prioCeiling ≤ x.st.prio cur)

/-! ### The invariant -/

/-- The stack of a CPU whose resources are all local and have the ceilings
`ceiling`. -/
structure LocalInv (c : Nat) (ceiling : R → Nat) (x : DpcpRun R T) (stack : List R) : Prop where
  core : ∃ S, S (.LOCAL, c) = stack ∧ DpcpCore x.st (fun _ => (.LOCAL, c)) S
  ceilings : ∀ r, (x.st.res r).prioCeiling = ceiling r
  sorted : stack.Pairwise fun a b => ceiling a < ceiling b
  prio : ∀ t, x.st.prio t < ACORAL_MAX_PRIO_NUM
  back : ∀ t r cpu e, x.pc t ≠ .back r cpu e
  held : ∀ t r, holds x.log t r = true ↔ x.st.owner r = some t

namespace LocalInv

variable {c fuel : Nat} {ceiling : R → Nat} {x x' : DpcpRun R T} {op : CeilingOp R T}
  {stack : List R}

/-- The ceilings on the stack are not below the priority of the system. -/
theorem sysPrio_le (h : LocalInv c ceiling x stack) {r : R} (hr : r ∈ stack) :
    x.st.sysPrio (.LOCAL, c) ≤ ceiling r := by
  obtain ⟨S, rfl, hcore⟩ := h.core
  have hsorted := h.sorted
  rw [hcore.prio]
  cases hS : S (.LOCAL, c) with
  | nil =>
      rw [hS] at hr
      exact absurd hr List.not_mem_nil
  | cons top rest =>
      rw [hS] at hr hsorted
      show (x.st.res top).prioCeiling ≤ ceiling r
      rw [h.ceilings top]
      rcases List.mem_cons.mp hr with rfl | hr
      · exact le_refl _
      · exact ((List.pairwise_cons.mp hsorted).1 r hr).le

/-- A resource whose ceiling is below the priority of the system is free. -/
theorem free (h : LocalInv c ceiling x stack) {r : R}
    (hlt : ceiling r < x.st.sysPrio (.LOCAL, c)) : x.st.owner r = none := by
  by_contra howner
  obtain ⟨S, hS, hcore⟩ := h.core
  have hr : r ∈ stack := hS ▸ (hcore.owned r).mpr howner
  exact absurd (h.sysPrio_le hr) (by omega)

/-- A thread that passes the test finds its resource free. -/
theorem passesFree (h : LocalInv c ceiling x stack) (hguard : ceilingRespected x op = true) :
    ACoral.passesFree x op = true := by
  unfold ACoral.passesFree
  unfold ceilingRespected at hguard
  cases htests : dpcpTests x op with
  | none => rfl
  | some p =>
      obtain ⟨cur, r⟩ := p
      obtain ⟨S, -, hcore⟩ := h.core
      rw [htests] at hguard
      have hle : ceiling r ≤ x.st.prio cur := by
        rw [← h.ceilings r]
        exact of_decide_eq_true hguard
      refine decide_eq_true ?_
      rw [hcore.system r]
      by_cases hfull : x.st.sysPrio (.LOCAL, c) ≤ x.st.prio cur
      · exact Or.inl hfull
      · exact Or.inr (h.free (by omega))

/-- A step keeps the invariant. -/
theorem step (h : LocalInv c ceiling x stack) (hguard : ceilingRespected x op = true)
    (hstep : dpcpStep fuel x op = some x') : ∃ stack', LocalInv c ceiling x' stack' := by
  obtain ⟨S, hS, hcore⟩ := h.core
  have hlocal : ∀ r, (x.st.res r).type = .LOCAL := fun r =>
    congrArg Prod.fst (hcore.system r)
  have hmove := dpcpStep_move hcore.sems (h.passesFree hguard) hstep
  have hback : ∀ t r cpu e, x'.pc t ≠ .back r cpu e := fun t r cpu e hpc => by
    rcases hmove.of_back hpc with hpc | ⟨hglobal, -⟩
    · exact h.back t r cpu e hpc
    · exact absurd ((hlocal r).symm.trans hglobal) (by decide)
  obtain ⟨S', heffect, hcore'⟩ := hcore.move hmove
  refine ⟨S' (.LOCAL, c), ⟨S', rfl, hcore'⟩, ?_, ?_, ?_, hback, ?_⟩
  · intro r
    rw [← h.ceilings r]
    cases heffect with
    | keep hsame hprio hlog => rw [hsame.res]
    | pass htests hpass hfree howner hceiling hprio hlog => exact hceiling r
    | post hop hcur howner hceiling hprio hlog => exact hceiling r
  · cases heffect with
    | keep hsame hprio hlog =>
        rw [hS]
        exact h.sorted
    | @pass cur r htests hpass hfree howner hceiling hprio hlog =>
        rw [Function.update_self, hS]
        refine List.pairwise_cons.mpr ⟨fun q hq => ?_, h.sorted⟩
        -- the ceiling is at most the priority, which is below the top
        have hle : ceiling r ≤ x.st.prio cur := by
          unfold ceilingRespected at hguard
          rw [htests] at hguard
          rw [← h.ceilings r]
          exact of_decide_eq_true hguard
        exact lt_of_le_of_lt hle (lt_of_lt_of_le hpass (h.sysPrio_le hq))
    | post hop hcur howner hceiling hprio hlog =>
        rw [Function.update_self, hS]
        exact h.sorted.sublist List.erase_sublist
  · exact heffect.prio_lt (by decide) h.prio
  · intro t q
    cases heffect with
    | keep hsame hprio hlog =>
        rw [hsame.owner q, ← h.held t q]
        rcases hlog with hlog | ⟨e, hlog, herr | ⟨cpu, hpc⟩⟩
        · rw [hlog]
        · rw [hlog, holds_cons_error _ herr]
        · exact absurd hpc (h.back _ _ _ _)
    | @pass cur r htests hpass hfree howner hceiling hprio hlog =>
        rw [hlog, holds_cons_pend, howner q, Bool.or_eq_true, h.held t q, decide_eq_true_eq]
        by_cases hq : q = r
        · rw [if_pos hq, hq, hfree]
          simp
        · rw [if_neg hq]
          simp [Ne.symm hq]
    | @post cur r hop hcur howner hceiling hprio hlog =>
        rcases hlog with hlog | ⟨-, hglobal⟩
        · rw [hlog, holds_cons_post, howner q, Bool.and_eq_true, h.held t q]
          by_cases hq : q = r
          · rw [if_pos hq, hq, hcur]
            simp
          · rw [if_neg hq]
            simp [Ne.symm hq]
        · exact absurd ((hlocal r).symm.trans hglobal) (by decide)

omit [DecidableEq R] [DecidableEq T] in
/-- The invariant holds before the first step. -/
theorem start [DecidableEq R] [DecidableEq T] (sched : Sched T) (pendingValue : T → Int)
    (preemptType : T → PreemptType) (data : T → Option ThreadData) (c : Nat)
    (ceiling : R → BitVec 8) (hprio : ∀ t, (sched.thread t).prio < ACORAL_MAX_PRIO_NUM) :
    LocalInv c (fun r => (ceiling r).toNat)
      (.start (.start sched pendingValue preemptType data fun r => (.LOCAL, c, (ceiling r).toNat)))
      [] where
  core := ⟨fun _ => [], rfl, DpcpCore.start sched pendingValue preemptType data
    (fun r => (.LOCAL, c, (ceiling r).toNat)) fun r => (ceiling r).isLt⟩
  ceilings _ := rfl
  sorted := List.Pairwise.nil
  prio := hprio
  back _ _ _ _ := by simp [DpcpRun.start]
  held _ _ := by simp [DpcpRun.start, holds, CeilingState.start, CeilingState.owner]

end LocalInv

/-- Every run of any threads on the local resources of the CPU `c`, where a
requester's priority number is never below the ceiling of what it requests.
In every state of it the ceilings on the stack decrease toward the top, the
priority of the system is that of the top, a request that passes the test
finds the semaphore free, and no two threads hold a resource. A post of a
resource that its caller does not hold changes nothing but the history, so
that nothing is asked of the posts. -/
theorem dpcp_ceiling (fuel : Nat) (sched : Sched T) (pendingValue : T → Int)
    (preemptType : T → PreemptType) (data : T → Option ThreadData) (c : Nat)
    (ceiling : R → BitVec 8) (hprio : ∀ t, (sched.thread t).prio < ACORAL_MAX_PRIO_NUM)
    (ops : List (CeilingOp R T)) (x : DpcpRun R T)
    (hrun : run (guarded ceilingRespected (dpcpStep fuel))
      (.start (.start sched pendingValue preemptType data fun r => (.LOCAL, c, (ceiling r).toNat)))
      ops = some x) :
    (∃ stack : List R, x.st.stack.IsRing (.head (.LOCAL, c)) (stack.map .stacking) ∧
      (stack.Pairwise fun upper lower => ceiling upper < ceiling lower) ∧
      x.st.sysPrio (.LOCAL, c) =
        (stack.head?.map fun top => (ceiling top).toNat).getD ACORAL_MAX_PRIO_NUM) ∧
    (∀ op cur r, dpcpTests x op = some (cur, r) → ceilingRespected x op = true →
      x.st.prio cur < x.st.sysPrio (.LOCAL, c) →
        x.st.owner r = none ∧ (x.st.ipc.ipc (.sem r)).count = 0) ∧
    ∀ r t u, holds x.log t r = true → holds x.log u r = true → t = u := by
  obtain ⟨stack, h⟩ := guarded_induct
    (P := fun x => ∃ stack, LocalInv c (fun r => (ceiling r).toNat) x stack)
    (fun _ _ _ ⟨_, hinv⟩ hguard hstep => hinv.step hguard hstep)
    ⟨[], .start sched pendingValue preemptType data c ceiling hprio⟩ hrun
  obtain ⟨S, hS, hcore⟩ := h.core
  refine ⟨⟨stack, ?_, ?_, ?_⟩, fun op cur r htests hguard hpass => ?_, fun r t u ht hu => ?_⟩
  · rw [← hS]
    exact hcore.ring _
  · exact h.sorted.imp fun hlt => BitVec.lt_def.mpr hlt
  · rw [hcore.prio, hS]
    cases stack with
    | nil => rfl
    | cons top rest => exact h.ceilings top
  · have hle : (ceiling r).toNat ≤ x.st.prio cur := by
      unfold ceilingRespected at hguard
      rw [htests] at hguard
      rw [← h.ceilings r]
      exact of_decide_eq_true hguard
    have hfree := h.free (r := r) (by omega)
    refine ⟨hfree, ?_⟩
    rw [(hcore.sems r).2, if_pos hfree]
  · have ht := (h.held t r).mp ht
    have hu := (h.held u r).mp hu
    exact Option.some.inj (ht.symm.trans hu)

/-- Two nested uses: the second thread, of priority 3, passes the ceiling 5
of the first one's resource. -/
theorem dpcp_ceiling_nested :
    ∃ x, run (guarded ceilingRespected (dpcpStep 4))
        (.start (.start (readyThreads (fun t : Fin 2 => 5 - 2 * t.val) fun _ => 0) (fun _ => 0) (fun _ => .ACORAL_PREEMPT_LOCAL)
          (fun _ => none) fun r : Bool => (.LOCAL, 0, (if r then 5#8 else 3#8).toNat)))
        [.call .pend 0 true, .call .pend 1 false] = some x ∧
      ∀ r t u, holds x.log t r = true → holds x.log u r = true → t = u := by
  have hsome : (run (guarded ceilingRespected (dpcpStep 4))
      (.start (.start (readyThreads (fun t : Fin 2 => 5 - 2 * t.val) fun _ => 0) (fun _ => 0) (fun _ => .ACORAL_PREEMPT_LOCAL)
        (fun _ => none) fun r : Bool => (.LOCAL, 0, (if r then 5#8 else 3#8).toNat)))
      [.call .pend 0 true, .call .pend 1 false]).isSome = true := by decide
  obtain ⟨x, hx⟩ := Option.isSome_iff_exists.mp hsome
  exact ⟨x, hx, (dpcp_ceiling 4 (readyThreads (fun t : Fin 2 => 5 - 2 * t.val) fun _ => 0) _ _ _ 0 (fun r : Bool => if r then 5 else 3)
    (by decide) _ x hx).2.2⟩

end ACoral
