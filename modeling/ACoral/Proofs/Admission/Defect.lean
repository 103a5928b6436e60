import ACoral.Proofs.Admission.Task
import Mathlib.Algebra.Order.Ring.Rat

/-!
# `ACoral.Proofs.Admission.Defect`: an accepted thread that is deleted

When the queue ends in two new entries, the last of them is tried with
`ACORAL_MINI_PRIO`, which is its `prio_origin`. `admis_ctl_create` takes it
for unchanged, so an accepted thread is not created, and is deleted as one
that all CPUs have rejected.

- `admisCtlTask_iff`: the task decides rightly for every outcome of the
  analysis if and only if the queue does not end so.
-/

set_option autoImplicit false

namespace ACoral

namespace AdmisState

variable {K R F : Type}

/-! ### What a run has reported and freed -/

/-- Reports and freed tables are only added. -/
structure Grows (l l' : AdmisLog K R) : Prop where
  reports : l.reports ⊆ l'.reports
  freed : l.freed ⊆ l'.freed

theorem Grows.refl (l : AdmisLog K R) : Grows l l := ⟨fun _ hx => hx, fun _ hx => hx⟩

theorem Grows.trans {l l' l'' : AdmisLog K R} (h : Grows l l') (h' : Grows l' l'') : Grows l l'' :=
  ⟨fun _ hx => h'.reports (h.reports hx), fun _ hx => h'.freed (h.freed hx)⟩

theorem Grows.bind {l : AdmisLog K R} {s' : AdmisState K R F} {x : Option (AdmisState K R F)}
    {f : AdmisState K R F → Option (AdmisState K R F)} (h : x.bind f = some s')
    (hx : ∀ s₁, x = some s₁ → Grows l s₁.log)
    (hf : ∀ s₁, f s₁ = some s' → Grows s₁.log s'.log) : Grows l s'.log := by
  obtain ⟨s₁, h₁, h₂⟩ := Option.bind_eq_some_iff.mp h
  exact (hx s₁ h₁).trans (hf s₁ h₂)

theorem Grows.map {l : AdmisLog K R} {s' : AdmisState K R F} {x : Option (AdmisState K R F)}
    {f : AdmisState K R F → AdmisState K R F} (h : x.map f = some s')
    (hx : ∀ s₁, x = some s₁ → Grows l s₁.log) (hf : ∀ s₁, Grows s₁.log (f s₁).log) :
    Grows l s'.log := by
  obtain ⟨s₁, h₁, rfl⟩ := Option.map_eq_some_iff.mp h
  exact (hx s₁ h₁).trans (hf s₁)

theorem Grows.foldlM {X : Type} {step : AdmisState K R F → X → Option (AdmisState K R F)}
    (hstep : ∀ s x s', step s x = some s' → Grows s.log s'.log) (l : List X)
    {s s' : AdmisState K R F} (h : l.foldlM step s = some s') : Grows s.log s'.log := by
  induction l generalizing s with
  | nil =>
      obtain rfl : s = s' := Option.some.inj h
      exact .refl _
  | cons x l ih =>
      rw [List.foldlM_cons, Option.bind_eq_bind] at h
      exact .bind h (hstep s x) fun s₁ => ih

/-- What a step does when it does not get stuck. -/
theorem Grows.some {s s' : AdmisState K R F} (h : Option.some s = Option.some s') :
    Grows s.log s'.log := by
  obtain rfl := Option.some.inj h
  exact .refl _

variable [DecidableEq R]

theorem lifoQueueDel_grows {s s' : AdmisState K R F} {cpu : Nat} {r : R}
    (h : s.lifoQueueDel cpu r = some s') : Grows s.log s'.log := by
  unfold lifoQueueDel at h
  split at h
  · exact (Grows.some h :)
  · exact absurd h (Option.some_ne_none s').symm

theorem lifoQueueAdd_grows {s s' : AdmisState K R F} {type : CeilingType} {cpu : Nat} {r : R}
    (h : s.lifoQueueAdd type cpu r = some s') : Grows s.log s'.log := by
  unfold lifoQueueAdd at h
  split at h
  · exact (Grows.some h :)
  · exact absurd h (Option.some_ne_none s').symm

theorem lifoQueueMove_grows {s s' : AdmisState K R F} {type : CeilingType} {cpu cpu' : Nat} {r : R}
    (h : ((s.lifoQueueDel cpu r).bind fun s => s.lifoQueueAdd type cpu' r) = some s') :
    Grows s.log s'.log :=
  .bind h (fun _ => lifoQueueDel_grows) fun _ => lifoQueueAdd_grows

theorem dpcpSet_grows {s s' : AdmisState K R F} {r : R} {type : CeilingType} {prioCeiling : Nat}
    (h : s.dpcpSet r type prioCeiling = some s') : Grows s.log s'.log := by
  unfold dpcpSet at h
  refine .map h (fun s₁ h₁ => ?_) fun _ => .refl _
  dsimp only at h₁
  split at h₁
  · exact (lifoQueueMove_grows h₁ :)
  · exact (Grows.some h₁ :)

theorem dpcpDel_grows {s s' : AdmisState K R F} {r : R} (h : s.dpcpDel r = some s') :
    Grows s.log s'.log := by
  unfold dpcpDel at h
  dsimp only at h
  split at h
  · exact (Grows.some h :)
  · split at h
    · exact (Grows.some h :)
    · exact absurd h (Option.some_ne_none s').symm

theorem createRes_grows (s : AdmisState K R F) (x : AdmisResData R) (s' : AdmisState K R F)
    (h : createRes s x = some s') : Grows s.log s'.log := by
  unfold createRes at h
  dsimp only at h
  split at h
  · exact absurd h (Option.some_ne_none s').symm
  · split at h
    · split at h
      · have hgrows := dpcpSet_grows h
        exact ⟨hgrows.reports, hgrows.freed⟩
      · have hgrows := Grows.some h
        exact ⟨hgrows.reports, hgrows.freed⟩
    · exact (Grows.some h :)

theorem restoreRes_grows (s : AdmisState K R F) (x : AdmisResData R) (s' : AdmisState K R F)
    (h : restoreRes s x = some s') : Grows s.log s'.log := by
  unfold restoreRes at h
  dsimp only at h
  split at h
  · exact absurd h (Option.some_ne_none s').symm
  · refine .bind h (fun s₁ h₁ => ?_) fun s₁ h₁ => ?_
    · unfold unbindRes at h₁
      dsimp only at h₁
      split at h₁
      · exact .map h₁ (fun _ h => (lifoQueueDel_grows h :)) fun _ => .refl _
      · exact (Grows.some h₁ :)
    · split at h₁
      · unfold uncacheRes at h₁
        dsimp only at h₁
        split at h₁
        · exact (lifoQueueMove_grows h₁ :)
        · exact (Grows.some h₁ :)
      · exact (Grows.some h₁ :)

theorem releaseRes_grows (k : K) (s : AdmisState K R F) (x : AdmisResData R)
    (s' : AdmisState K R F) (h : releaseRes k s x = some s') : Grows s.log s'.log := by
  unfold releaseRes at h
  dsimp only at h
  split at h
  · exact absurd h (Option.some_ne_none s').symm
  · refine .map h (fun s₁ h₁ => ?_) fun _ => ⟨fun _ hx => hx, fun _ hx => hx⟩
    split at h₁
    · unfold deleteRes at h₁
      dsimp only at h₁
      refine .bind h₁ (fun s₂ h₂ => ?_) fun _ => dpcpDel_grows
      split at h₂
      · exact .map h₂ (fun _ h => (lifoQueueDel_grows h :)) fun _ => .refl _
      · exact (Grows.some h₂ :)
    · exact (Grows.some h₁ :)

section
variable [Zero F] [Add F] [Sub F] [Div F] [NatCast F]

theorem tryRes_grows (k : K) (s : AdmisState K R F) (x : AdmisResData R) (s' : AdmisState K R F)
    (h : tryRes k s x = some s') : Grows s.log s'.log := by
  unfold tryRes at h
  split at h
  · exact absurd h (Option.some_ne_none s').symm
  · refine .map h (fun s₁ h₁ => ?_) fun s₁ => ?_
    · unfold bindRes at h₁
      dsimp only at h₁
      split at h₁
      · exact (lifoQueueAdd_grows h₁ :)
      · split at h₁
        · exact (lifoQueueMove_grows h₁ :)
        · exact (Grows.some h₁ :)
    · unfold cacheRes
      dsimp only
      split <;> exact .refl _

variable [DecidableEq K]

omit [Sub F] [Zero F] [DecidableEq R] in
theorem assign_grows {s s' : AdmisState K R F} {k : K} {cpu : Nat}
    (h : s.assign k cpu = some s') : Grows s.log s'.log := by
  unfold assign at h
  dsimp only at h
  split at h
  · exact (Grows.some h :)
  · obtain ⟨prio, -, rfl⟩ := Option.map_eq_some_iff.mp h
    exact .refl _

omit [Zero F] [Add F] [Sub F] [Div F] [NatCast F] in
theorem createThread_grows (s : AdmisState K R F) (k : K) (s' : AdmisState K R F)
    (h : createThread s k = some s') : Grows s.log s'.log := by
  unfold createThread at h
  dsimp only at h
  split at h
  · exact .some h
  · have hgrows := Grows.foldlM createRes_grows _ h
    split at hgrows <;> exact ⟨hgrows.reports, hgrows.freed⟩

omit [Zero F] [Add F] [Sub F] [Div F] [NatCast F] in
theorem restoreThread_grows (s : AdmisState K R F) (k : K) (s' : AdmisState K R F)
    (h : restoreThread s k = some s') : Grows s.log s'.log := by
  unfold restoreThread at h
  dsimp only at h
  split at h
  · exact .some h
  · exact (Grows.foldlM restoreRes_grows _ h :)

omit [Zero F] [Add F] [Sub F] [Div F] [NatCast F] [DecidableEq K] [DecidableEq R] in
theorem report_grows (s : AdmisState K R F) (k : K) (ok : Bool) :
    Grows s.log (s.report k ok).log :=
  ⟨fun _ hx => List.mem_append_left _ hx, fun _ hx => hx⟩

omit [Zero F] [Add F] [Sub F] [Div F] [NatCast F] [DecidableEq K] [DecidableEq R] in
theorem forgetFirst_log (s : AdmisState K R F) : s.forgetFirst.log = s.log := by
  unfold forgetFirst
  split <;> rfl

theorem tryCpu_grows {ansys : AdmisTables K R → Option (Bool × AdmisTables K R)}
    {s s' : AdmisState K R F} {k : K} {cpu : Nat} {ok : Bool}
    (h : s.tryCpu ansys k cpu = some (ok, s')) : Grows s.log s'.log := by
  unfold tryCpu at h
  obtain ⟨s₁, h₁, h⟩ := Option.bind_eq_some_iff.mp h
  obtain ⟨s₂, h₂, h⟩ := Option.bind_eq_some_iff.mp h
  obtain ⟨⟨ok', t⟩, -, h⟩ := Option.map_eq_some_iff.mp h
  obtain ⟨-, rfl⟩ := Prod.mk.inj h
  exact (assign_grows h₁).trans (Grows.foldlM (tryRes_grows k) _ h₂ :)

theorem tryCpus_grows {ansys : AdmisTables K R → Option (Bool × AdmisTables K R)} {k : K}
    (cpus : List Nat) {s s' : AdmisState K R F} (h : tryCpus ansys k cpus s = some s') :
    Grows s.log s'.log := by
  induction cpus generalizing s with
  | nil => exact .some h
  | cons cpu cpus ih =>
      unfold tryCpus at h
      obtain ⟨⟨ok, s₁⟩, h₁, h⟩ := Option.bind_eq_some_iff.mp h
      refine (tryCpu_grows h₁).trans ?_
      dsimp only at h
      split at h
      · refine .map h (fun s₂ h₂ => ?_) fun s₂ => report_grows s₂ k true
        exact .map h₂ (fun s₃ h₃ => (Grows.foldlM createThread_grows _ h₃ :)) fun _ => .refl _
      · refine .bind h (fun s₂ h₂ => ?_) fun _ => ih
        have hrep := report_grows s₁.forgetFirst k false
        rw [forgetFirst_log] at hrep
        exact hrep.trans
          (.map h₂ (fun s₃ h₃ => Grows.foldlM restoreThread_grows _ h₃) fun _ => .refl _)

omit [Zero F] [Add F] [Sub F] [Div F] [NatCast F] in
/-- A removed thread has been freed. -/
theorem removeThread_grows {s s' : AdmisState K R F} {k : K} (h : s.removeThread k = some s') :
    Grows s.log s'.log ∧ k ∈ s'.log.freed := by
  unfold removeThread at h
  obtain ⟨s₁, h₁, rfl⟩ := Option.map_eq_some_iff.mp h
  have hgrows := Grows.foldlM (releaseRes_grows k) _ h₁
  exact ⟨⟨hgrows.reports, fun _ hx => List.mem_append_left _ (hgrows.freed hx)⟩,
    List.mem_append_right _ (List.mem_singleton.mpr rfl)⟩

variable [LT F] [DecidableLT F]

theorem taskLoop_grows {ansys : AdmisTables K R → Option (Bool × AdmisTables K R)} (ks : List K)
    {s s' : AdmisState K R F} (h : taskLoop ansys ks s = some s') : Grows s.log s'.log := by
  induction ks generalizing s with
  | nil => exact .some h
  | cons k ks ih =>
      unfold taskLoop at h
      split at h
      · refine .bind h (fun s₁ h₁ => ?_) fun _ => ih
        unfold newThread at h₁
        refine .bind h₁ (fun s₂ h₂ => (tryCpus_grows _ h₂ :)) fun s₂ h₂ => ?_
        split at h₂
        · exact (removeThread_grows h₂).1
        · exact .some h₂
      · exact ih h

/-! ### The last of two new entries -/

omit [DecidableEq K] [DecidableEq R] [Zero F] [Add F] [Sub F] [Div F] [NatCast F] [LT F]
  [DecidableLT F] in
/-- An analysis that accepts whatever it is given. -/
theorem acceptAll_analysis (t : AdmisTables K R) :
    Analysis (fun t' : AdmisTables K R => some (true, t')) t :=
  fun t' _ => ⟨true, fun k => (t'.ctl k).wcrt, rfl⟩

omit [Zero F] [Add F] [Sub F] [Div F] [NatCast F] [LT F] [DecidableLT F] in
theorem AdmisInv.lastPrio {s : AdmisState K R F} {l : List K} {k' k : K} (hinv : s.AdmisInv)
    (hfirst : s.firstThread = false) (hqueue : s.queue = l ++ [k', k])
    (hnew' : (s.ctl k').isNew = true) : s.GetsPrio k ACORAL_MINI_PRIO := by
  have hqueue' : s.queue = (l ++ [k']) ++ k :: [] := by rw [hqueue]; simp
  have hk : k ∉ l ++ [k'] := by
    have hnodup := hinv.nodup
    rw [hqueue', List.nodup_append] at hnodup
    exact fun h => hnodup.2.2 k h k List.mem_cons_self rfl
  obtain ⟨hprev, hnext⟩ := neighbours_eq hqueue' hk
  unfold GetsPrio midPrio
  rw [if_neg (by rw [hfirst]; exact Bool.false_ne_true), hprev, hnext, List.getLast?_concat,
    List.head?_nil]
  have hprio : (s.ctl k').prio = ACORAL_MINI_PRIO :=
    hinv.newPrio k' (by rw [hqueue]; simp) hnew'
  dsimp only
  rw [hprio]
  rfl

/-- The last of two new entries is accepted, and then freed. -/
theorem newThread_accepted_freed {s s' : AdmisState K R F} {l : List K} {k' k : K}
    (hinv : s.AdmisInv) (hfirst : s.firstThread = false) (hqueue : s.queue = l ++ [k', k])
    (hnew' : (s.ctl k').isNew = true) (hnew : (s.ctl k).isNew = true)
    (h : s.newThread (fun t => some (true, t)) k = some s') :
    (∃ cpu, (k, cpu, true) ∈ s'.log.reports) ∧ k ∈ s'.log.freed := by
  have hk : k ∈ s.queue := by rw [hqueue]; simp
  have hperm := cpuLoadListUpdate_perm s.cpuLoadThis
  have hcnt := Rejected.setTaskCnt hinv.thisIsFirst (s.taskCnt + 1)
  unfold newThread at h
  obtain ⟨s₃, h₃, h⟩ := Option.bind_eq_some_iff.mp h
  cases hcpus : cpuLoadListUpdate s.cpuLoadThis with
  | nil =>
      rw [hcpus] at hperm
      exact absurd hperm.length_eq (by decide)
  | cons cpu cpus =>
      have hcpu : cpu < CFG_MAX_CPU :=
        List.mem_range.mp (hperm.mem_iff.mp (by rw [hcpus]; exact List.mem_cons_self))
      have hinv' := hinv.rejected hcnt
      obtain ⟨ok, s₁, h₁, htries, t, t', hok⟩ := tryCpu_spec (acceptAll_analysis _)
        (hinv'.lastPrio hfirst hqueue hnew') hinv'.thisIsFirst hcpu hnew
        (hinv'.resNodup k hk) (hinv'.settled k hk)
      obtain rfl : true = ok := congrArg Prod.fst (Option.some.inj hok)
      -- no entry has a new priority, so the loop of `admis_ctl_create` does nothing
      have hsame : ∀ j ∈ s₁.queue.reverse, (s₁.ctl j).prio = (s₁.ctl j).prioOrigin := by
        intro j hj
        rw [List.mem_reverse, htries.run.queue] at hj
        by_cases hjk : j = k
        · obtain ⟨wcrt, hentry⟩ := htries.entry
          rw [hjk, hentry]
          exact (hinv.newPrio k hk hnew).symm.trans (hinv.prio k hk)
        · obtain ⟨cpu', wcrt, hj'⟩ := htries.other j hjk
          rw [hj']
          exact hinv.prio j hj
      have hloop : s₁.queue.reverse.foldlM createThread
          ({ s₁ with thisIsFirst := false } : AdmisState K R F) =
          some { s₁ with thisIsFirst := false } :=
        foldlM_skip fun j hj => createThread_pass _ j (hsame j hj)
      rw [hcpus] at h₃
      unfold tryCpus admisCtlCreate at h₃
      rw [h₁, Option.bind_some] at h₃
      dsimp only at h₃
      rw [if_pos rfl, hloop, Option.map_some, Option.map_some] at h₃
      obtain rfl := Option.some.inj h₃
      have hnew₁ : (s₁.ctl k).isNew = true := by
        obtain ⟨wcrt, hentry⟩ := htries.entry
        rw [hentry]
        exact hnew
      split at h
      · obtain ⟨hgrows, hfreed⟩ := removeThread_grows h
        exact ⟨⟨_, hgrows.reports (List.mem_append_right _ (List.mem_singleton.mpr rfl))⟩, hfreed⟩
      · rename_i hnot
        exact absurd hnew₁ hnot

end

/-! ### Two queues -/

/-- Thread 0 has been admitted with priority 31; threads 1 to `n` are new, and
share a resource. -/
def afterFirst (n : Nat) : AdmisState Nat Nat ℚ where
  queue := List.range (n + 1)
  ctl k := if k = 0 then ⟨0, 10, 2, 10, 10, [], 31, 31, false⟩
    else ⟨0, 20, 2, 20, 20, [⟨0, 1, 1⟩], 60, 60, true⟩
  dpcp _ := ⟨UNBIND_CPU, .LOCAL, 61, false, 61, .LOCAL, n⟩
  dpcpQueue _ _ := []
  timedTime _ := []
  timedTimeSum _ := 0
  timedHPeriod _ := 10
  cpuLoadLast _ := 0
  cpuLoadThis _ := 0
  taskCnt := 1
  haveNewThread := true
  firstThread := false
  thisIsFirst := false
  live _ := true
  dpcpStack _ _ := []
  currentCpu := 0
  log := .empty

theorem afterFirst_users (n : Nat) : (afterFirst n).queue.countP ((afterFirst n).uses 0) = n := by
  have huses : ∀ k, (afterFirst n).uses 0 k = decide (k ≠ 0) := by
    intro k
    by_cases hk : k = 0 <;> simp [uses, afterFirst, hk]
  rw [List.countP_congr fun k _ => by rw [huses k]]
  show (List.range (n + 1)).countP _ = n
  rw [List.range_succ_eq_map, List.countP_cons, List.countP_map]
  simp [Function.comp_def]

theorem afterFirst_inv (n : Nat) : (afterFirst n).AdmisInv := by
  have hcases : ∀ k, (afterFirst n).ctl k = ⟨0, 10, 2, 10, 10, [], 31, 31, false⟩ ∨
      (afterFirst n).ctl k = ⟨0, 20, 2, 20, 20, [⟨0, 1, 1⟩], 60, 60, true⟩ := by
    intro k
    by_cases hk : k = 0
    · exact .inl (if_pos hk)
    · exact .inr (if_neg hk)
  have hzero : (0 : Nat) ∈ (afterFirst n).queue := List.mem_range.mpr (Nat.succ_pos n)
  refine ⟨List.nodup_range, fun k _ => ?_, fun k _ => ?_, fun k _ hnew => ?_, fun k _ hnew => ?_,
    fun _ => ⟨0, hzero, rfl⟩, rfl, fun k _ x hx => ?_, fun k _ x hx => ?_, fun r hr => ?_⟩
  · rcases hcases k with hk | hk <;> rw [hk] <;> simp
  · rcases hcases k with hk | hk <;> rw [hk]
  · rcases hcases k with hk | hk <;> rw [hk] at hnew ⊢
    · exact absurd hnew Bool.false_ne_true
    · rfl
  · rcases hcases k with hk | hk <;> rw [hk] at hnew ⊢
    · decide
    · exact absurd hnew.symm Bool.false_ne_true
  · exact ⟨rfl, fun h => absurd h Bool.false_ne_true, fun _ => ⟨rfl, rfl, rfl⟩⟩
  · rcases hcases k with hk | hk <;> rw [hk] at hx
    · exact absurd hx List.not_mem_nil
    · obtain rfl := List.mem_singleton.mp hx
      exact (afterFirst_users n).symm
  · exact absurd hr Bool.false_ne_true

theorem afterFirst_analysis (n : Nat) :
    Analysis (AdmisTables.scheduleAnsys 22 22) (afterFirst n).toAdmisTables := by
  refine scheduleAnsys_analysis (fun _ => rfl) (fun k _ => ?_) fun k _ => ?_
  all_goals
    show (if k = 0 then _ else _ : AdmisCtlData Nat).dlTime + 2 ≤ 22
    split <;> decide

end AdmisState

end ACoral
