import ACoral.Proofs.Admission.Attempt

/-!
# `ACoral.Proofs.Admission.Task`: what the admission task accepts and creates

`admis_ctl_create` makes threads of the entries whose priority is not
`prio_origin`. A new entry starts with `ACORAL_MINI_PRIO` in both, so the
task has to give it another priority. It does not for the last entry of the
queue when the entry before it is new, too: the priority is then in the
middle of `ACORAL_MINI_PRIO` and the same value for the end of the queue.

- `removeThread_spec`: the resources of a removed thread are given back.
- `newThread_spec`, `taskLoop_spec`: the turn of one thread, and all turns.
- `decides_of_not_endsInNew`: otherwise each new thread is decided on rightly.
-/

set_option autoImplicit false

namespace ACoral

variable {K R F : Type}

namespace AdmisState

variable [DecidableEq K] [DecidableEq R]

/-! ### Removing a thread -/

/-- `k` is out of the queue, its tables are freed. -/
structure RemovedFrom (s s' : AdmisState K R F) (k : K) : Prop where
  queue : s'.queue = s.queue.filter (· ≠ k)
  other : ∀ j ≠ k, s'.ctl j = s.ctl j
  timedTime : s'.timedTime = s.timedTime
  timedTimeSum : s'.timedTimeSum = s.timedTimeSum
  firstThread : s'.firstThread = s.firstThread
  reports : s'.log.reports = s.log.reports
  created : s'.log.created = s.log.created
  freed : s'.log.freed = s.log.freed ++ [k]
  freedRes : s.log.freedRes ⊆ s'.log.freedRes
  freedOwn : ∀ x ∈ (s.ctl k).resQueue, (k, x.dpcp) ∈ s'.log.freedRes

omit [DecidableEq R] in
/-- Without `k` there is one user less of what `k` uses. -/
theorem countP_filter_ne {l : List K} (hnodup : l.Nodup) {k : K} (hk : k ∈ l) (p : K → Bool) :
    l.countP p = (l.filter (· ≠ k)).countP p + if p k = true then 1 else 0 := by
  have hfilter : l.filter (· ≠ k) = l.erase k := by
    rw [hnodup.erase_eq_filter]
    exact List.filter_congr fun j _ => by by_cases h : j = k <;> simp [h]
  rw [hfilter, (List.perm_cons_erase hk).countP_eq, List.countP_cons]

/-- A resource that another thread uses, too, has two users. -/
theorem AdmisInv.two_le_bindCnt {s : AdmisState K R F} (hinv : s.AdmisInv) {k j : K}
    (hk : k ∈ s.queue) (hj : j ∈ s.queue) (hjk : j ≠ k) {x : AdmisResData R}
    (hx : x ∈ (s.ctl k).resQueue) (huses : s.uses x.dpcp j = true) :
    2 ≤ (s.dpcp x.dpcp).bindCnt := by
  have hkuses : s.uses x.dpcp k = true := decide_eq_true (List.mem_map_of_mem hx)
  have hpos : 0 < (s.queue.filter (· ≠ k)).countP (s.uses x.dpcp) :=
    List.countP_pos_iff.mpr ⟨j, List.mem_filter.mpr ⟨hj, decide_eq_true hjk⟩, huses⟩
  rw [hinv.count k hk x hx, countP_filter_ne hinv.nodup hk, if_pos hkuses]
  omega

/-- The resources of `k` are given back one by one. -/
theorem releaseAll_spec {s : AdmisState K R F} {k : K} (hinv : s.AdmisInv) (hk : k ∈ s.queue)
    (hnew : (s.ctl k).isNew = true) :
    ∃ s', (s.ctl k).resQueue.foldlM (releaseRes k)
        ({ s with taskCnt := s.taskCnt - 1 } : AdmisState K R F) = some s' ∧
      SameThreads s s' ∧
      (∀ x ∈ (s.ctl k).resQueue, (k, x.dpcp) ∈ s'.log.freedRes ∧
        (s'.resAt x.dpcp).stacked = (s.resAt x.dpcp).stacked ∧
        (2 ≤ (s.dpcp x.dpcp).bindCnt → s'.resAt x.dpcp = { s.resAt x.dpcp with
          dpcp := { s.dpcp x.dpcp with bindCnt := (s.dpcp x.dpcp).bindCnt - 1 } })) ∧
      ∀ r ∉ (s.ctl k).resQueue.map AdmisResData.dpcp, s'.resAt r = s.resAt r := by
  let Q : AdmisResData R → AdmisState K R F → Prop := fun x s' =>
    (k, x.dpcp) ∈ s'.log.freedRes ∧ (s'.resAt x.dpcp).stacked = (s.resAt x.dpcp).stacked ∧
      (2 ≤ (s.dpcp x.dpcp).bindCnt → s'.resAt x.dpcp = { s.resAt x.dpcp with
        dpcp := { s.dpcp x.dpcp with bindCnt := (s.dpcp x.dpcp).bindCnt - 1 } })
  have hstable : ∀ x s₁ s₂ r v, x.dpcp ≠ r → Acts r s₁ s₂ v → Q x s₁ → Q x s₂ := by
    intro x s₁ s₂ r v hne hacts hq
    show _ ∧ (s₂.resAt x.dpcp).stacked = _ ∧ (_ → s₂.resAt x.dpcp = _)
    rw [hacts.other x.dpcp hne]
    exact ⟨hacts.same.freedRes hq.1, hq.2⟩
  have hstep : ∀ s₁, ∀ x ∈ (s.ctl k).resQueue,
      SameThreads ({ s with taskCnt := s.taskCnt - 1 } : AdmisState K R F) s₁ →
      s₁.resAt x.dpcp = s.resAt x.dpcp →
      ∃ s₂ v, releaseRes k s₁ x = some s₂ ∧ Acts x.dpcp s₁ s₂ v ∧ Q x s₂ := by
    intro s₁ x hx _ hview
    -- a resource that a running thread may hold has two users
    have hstacked : (s.dpcp x.dpcp).bindCnt ≤ 1 → (s.resAt x.dpcp).stacked = false := by
      intro hcnt
      by_contra hst
      obtain ⟨j, hj, hjnew, huses⟩ := hinv.stacked x.dpcp (Bool.not_eq_false _ ▸ hst)
      have hjk : j ≠ k := by
        rintro rfl
        exact absurd (hnew.symm.trans hjnew) Bool.noConfusion
      have := hinv.two_le_bindCnt hk hj hjk hx huses
      omega
    obtain ⟨s₂, v, h₂, hacts, hfreed, hst, hcnt⟩ := releaseRes_acts k hview
      (hinv.settled k hk x hx) hstacked
    exact ⟨s₂, v, h₂, hacts, hfreed, (congrArg ResView.stacked hacts.view).trans hst,
      fun h => hacts.view.trans (hcnt h)⟩
  obtain ⟨s', hs', hsame, hq, hrest⟩ := foldlM_acts
    { s with taskCnt := s.taskCnt - 1 } (hinv.resNodup k hk) hstable hstep
  exact ⟨s', hs', ⟨hsame.queue, hsame.ctl, hsame.timedTime, hsame.timedTimeSum,
    hsame.firstThread, hsame.thisIsFirst, hsame.reports, hsame.created, hsame.freed,
    hsame.freedRes⟩, hq, hrest⟩

/-- What is left of a resource that a thread other than `k` uses. -/
theorem AdmisInv.releasedView {s s₁ : AdmisState K R F} {k : K} (hinv : s.AdmisInv)
    (hk : k ∈ s.queue)
    (hown : ∀ x ∈ (s.ctl k).resQueue, 2 ≤ (s.dpcp x.dpcp).bindCnt →
      s₁.resAt x.dpcp = { s.resAt x.dpcp with
        dpcp := { s.dpcp x.dpcp with bindCnt := (s.dpcp x.dpcp).bindCnt - 1 } })
    (hrest : ∀ r ∉ (s.ctl k).resQueue.map AdmisResData.dpcp, s₁.resAt r = s.resAt r)
    {j : K} (hj : j ∈ s.queue) (hjk : j ≠ k) {x : AdmisResData R}
    (hx : x ∈ (s.ctl j).resQueue) :
    s₁.resAt x.dpcp = { s.resAt x.dpcp with
      dpcp := { s.dpcp x.dpcp with
        bindCnt := (s.queue.filter (· ≠ k)).countP (s.uses x.dpcp) } } := by
  have hcount := hinv.count j hj x hx
  rw [countP_filter_ne hinv.nodup hk] at hcount
  by_cases hr : x.dpcp ∈ (s.ctl k).resQueue.map AdmisResData.dpcp
  · obtain ⟨y, hy, hyx⟩ := List.mem_map.mp hr
    have huses : s.uses y.dpcp j = true := by
      rw [hyx]
      exact decide_eq_true (List.mem_map_of_mem hx)
    have htwo := hinv.two_le_bindCnt hk hj hjk hy huses
    rw [hyx] at htwo
    rw [if_pos (show s.uses x.dpcp k = true from decide_eq_true hr)] at hcount
    have hview := hown y hy (hyx ▸ htwo)
    rw [hyx] at hview
    rw [hview, hcount, Nat.add_sub_cancel]
  · rw [if_neg (show ¬ s.uses x.dpcp k = true from fun h => hr (of_decide_eq_true h)),
      Nat.add_zero] at hcount
    rw [hrest _ hr, ← hcount]
    rfl

theorem AdmisInv.removed {s s' : AdmisState K R F} {k : K} (hinv : s.AdmisInv)
    (hnew : (s.ctl k).isNew = true) (hrem : RemovedFrom s s' k) (hthis : s'.thisIsFirst = false)
    (hview : ∀ j ∈ s.queue, j ≠ k → ∀ x ∈ (s.ctl j).resQueue, s'.resAt x.dpcp =
      { s.resAt x.dpcp with dpcp := { s.dpcp x.dpcp with
        bindCnt := (s.queue.filter (· ≠ k)).countP (s.uses x.dpcp) } })
    (hstacked : ∀ r, (s'.resAt r).stacked = true → (s.resAt r).stacked = true) : s'.AdmisInv := by
  have hmem : ∀ j ∈ s'.queue, j ∈ s.queue ∧ j ≠ k := by
    intro j hj
    rw [hrem.queue, List.mem_filter, decide_eq_true_iff] at hj
    exact hj
  have hmem' : ∀ j ∈ s.queue, (s.ctl j).isNew = false → j ≠ k ∧ j ∈ s'.queue := by
    intro j hj hjnew
    have hjk : j ≠ k := by
      rintro rfl
      exact absurd (hnew.symm.trans hjnew) Bool.noConfusion
    rw [hrem.queue, List.mem_filter, decide_eq_true_iff]
    exact ⟨hjk, hj, hjk⟩
  refine ⟨?_, ?_, ?_, ?_, ?_, ?_, hthis, ?_, ?_, ?_⟩
  · rw [hrem.queue]
    exact hinv.nodup.filter _
  · intro j hj
    obtain ⟨hj, hjk⟩ := hmem j hj
    rw [hrem.other j hjk]
    exact hinv.resNodup j hj
  · intro j hj
    obtain ⟨hj, hjk⟩ := hmem j hj
    rw [hrem.other j hjk]
    exact hinv.prio j hj
  · intro j hj
    obtain ⟨hj, hjk⟩ := hmem j hj
    rw [hrem.other j hjk]
    exact hinv.newPrio j hj
  · intro j hj
    obtain ⟨hj, hjk⟩ := hmem j hj
    rw [hrem.other j hjk]
    exact hinv.admittedPrio j hj
  · intro hfirst
    obtain ⟨j, hj, hjnew⟩ := hinv.firstThread (hrem.firstThread.symm.trans hfirst)
    obtain ⟨hjk, hj'⟩ := hmem' j hj hjnew
    exact ⟨j, hj', by rw [hrem.other j hjk]; exact hjnew⟩
  · intro j hj x hx
    obtain ⟨hj, hjk⟩ := hmem j hj
    rw [hrem.other j hjk] at hx
    rw [hview j hj hjk x hx]
    have hset := hinv.settled j hj x hx
    exact ⟨hset.live, hset.bound, hset.free⟩
  · intro j hj x hx
    obtain ⟨hj, hjk⟩ := hmem j hj
    rw [hrem.other j hjk] at hx
    have hcount := congrArg (fun v => v.dpcp.bindCnt) (hview j hj hjk x hx)
    refine Eq.trans hcount ?_
    rw [hrem.queue]
    refine List.countP_congr fun j' hj' => ?_
    rw [List.mem_filter, decide_eq_true_iff] at hj'
    unfold uses
    rw [hrem.other j' hj'.2]
  · intro r hr
    obtain ⟨j, hj, hjnew, huses⟩ := hinv.stacked r (hstacked r hr)
    obtain ⟨hjk, hj'⟩ := hmem' j hj hjnew
    refine ⟨j, hj', by rw [hrem.other j hjk]; exact hjnew, ?_⟩
    unfold uses
    rw [hrem.other j hjk]
    exact huses

theorem removeThread_spec {s : AdmisState K R F} {k : K} (hinv : s.AdmisInv) (hk : k ∈ s.queue)
    (hnew : (s.ctl k).isNew = true) :
    ∃ s', s.removeThread k = some s' ∧ RemovedFrom s s' k ∧ s'.AdmisInv := by
  obtain ⟨s₁, h₁, hsame, hown, hrest⟩ := releaseAll_spec hinv hk hnew
  unfold removeThread
  rw [h₁, Option.map_some]
  have hctl : ∀ j ≠ k, (Function.update s₁.ctl k { s₁.ctl k with resQueue := [] }) j = s.ctl j :=
    fun j hj => by rw [Function.update_of_ne hj, hsame.ctl]
  refine ⟨_, rfl, ?_⟩
  have hrem : RemovedFrom s
      { s₁.setCtl k { s₁.ctl k with resQueue := [] } with
        queue := s₁.queue.filter (· ≠ k)
        log := { s₁.log with freed := s₁.log.freed ++ [k] } } k :=
    ⟨congrArg (List.filter (· ≠ k)) hsame.queue, hctl, hsame.timedTime,
      hsame.timedTimeSum, hsame.firstThread, hsame.reports, hsame.created,
      congrArg (· ++ [k]) hsame.freed, hsame.freedRes, fun x hx => (hown x hx).1⟩
  refine ⟨hrem, hinv.removed hnew hrem (hsame.thisIsFirst.trans hinv.thisIsFirst) ?_ ?_⟩
  · exact fun j hj hjk x hx =>
      hinv.releasedView hk (fun y hy => (hown y hy).2.2) hrest hj hjk hx
  · intro r hr
    by_cases hmem : r ∈ (s.ctl k).resQueue.map AdmisResData.dpcp
    · obtain ⟨y, hy, rfl⟩ := List.mem_map.mp hmem
      exact (hown y hy).2.1.symm.trans hr
    · exact (congrArg ResView.stacked (hrest r hmem)).symm.trans hr

/-! ### The whole queue -/

/-- How the turn of `k` ends: after the answers of `cpus₁` it is accepted, or it
is removed after those of all CPUs. -/
inductive TurnEnds (s s' : AdmisState K R F) (k : K) : Prop
  | accepted (prio : Nat) (cpus₁ : List Nat) (cpu : Nat) (hacc : Accepted s s' k prio)
      (hcpu : cpu < CFG_MAX_CPU) (hlater : cpu ∉ cpus₁)
      (hreports : s'.log.reports =
        s.log.reports ++ (cpus₁.map fun cpu => (k, cpu, false)) ++ [(k, cpu, true)])
  | removed (s₁ : AdmisState K R F) (cpus : List Nat) (hrej : Rejected s s₁)
      (hrem : RemovedFrom s₁ s' k) (hall : ∀ cpu < CFG_MAX_CPU, cpu ∈ cpus)
      (hreports : s'.log.reports = s.log.reports ++ cpus.map fun cpu => (k, cpu, false))

section
variable [Zero F] [Add F] [Sub F] [Div F] [NatCast F] [LT F] [DecidableLT F]

theorem newThread_spec {ansys : AdmisTables K R → Option (Bool × AdmisTables K R)}
    {s : AdmisState K R F} {k : K} {prio : Nat} (hinv : s.AdmisInv)
    (hansys : Analysis ansys s.toAdmisTables) (hk : k ∈ s.queue) (hnew : (s.ctl k).isNew = true)
    (hprio : s.GetsPrio k prio) (hlt : prio < ACORAL_MINI_PRIO) :
    ∃ s', s.newThread ansys k = some s' ∧ s'.AdmisInv ∧ TurnEnds s s' k := by
  have hcnt := Rejected.setTaskCnt hinv.thisIsFirst (s.taskCnt + 1)
  have hperm := cpuLoadListUpdate_perm s.cpuLoadThis
  have hcpus : ∀ cpu, cpu ∈ cpuLoadListUpdate s.cpuLoadThis ↔ cpu < CFG_MAX_CPU := fun cpu =>
    hperm.mem_iff.trans List.mem_range
  obtain ⟨s₁, h₁, hout⟩ := tryCpus_spec hlt (cpuLoadListUpdate s.cpuLoadThis)
    (fun cpu => (hcpus cpu).mp) (hinv.rejected hcnt) (hansys.of_sameJobs hcnt.sameJobs) hk hnew
    (hcnt.getsPrio hprio)
  unfold newThread
  rw [h₁, Option.bind_some]
  rcases hout with ⟨hrej, hreports⟩ | ⟨cpus₁, cpu, cpus₂, hsplit, hacc, hreports⟩
  · have hrej' := hcnt.trans hrej
    have hnew₁ : (s₁.ctl k).isNew = true := by
      obtain ⟨cpu, wcrt, hk'⟩ := hrej'.entry k
      rw [hk']
      exact hnew
    obtain ⟨s', hs', hrem, hinv'⟩ := removeThread_spec (hinv.rejected hrej')
      (hrej'.run.queue ▸ hk) hnew₁
    rw [if_pos hnew₁]
    exact ⟨s', hs', hinv', .removed s₁ _ hrej' hrem (fun cpu => (hcpus cpu).mpr)
      (hrem.reports.trans hreports)⟩
  · have hacc' := hcnt.trans_accepted hacc
    have hnew₁ : (s₁.ctl k).isNew = false := by
      obtain ⟨cpu', wcrt, hk'⟩ := hacc'.entry
      rw [hk']
    have hnodup := hperm.nodup_iff.mpr List.nodup_range
    rw [hsplit, List.nodup_append, List.nodup_cons] at hnodup
    rw [if_neg (by rw [hnew₁]; exact Bool.false_ne_true)]
    refine ⟨s₁, rfl, hinv.accepted hacc' hk hnew hlt, .accepted prio cpus₁ cpu hacc' ?_ ?_ hreports⟩
    · exact (hcpus cpu).mp (by rw [hsplit]; exact List.mem_append_right _ List.mem_cons_self)
    · exact fun h => hnodup.2.2 cpu h cpu List.mem_cons_self rfl

end

omit [DecidableEq R] in
/-- The neighbours of `k` in the queue. -/
theorem neighbours_eq {s : AdmisState K R F} {k : K} {l₁ l₂ : List K}
    (hqueue : s.queue = l₁ ++ k :: l₂) (hk : k ∉ l₁) :
    s.prevOf k = l₁.getLast? ∧ s.nextOf k = l₂.head? := by
  have hne : ∀ j ∈ l₁, decide (j ≠ k) = true := fun j hj =>
    decide_eq_true fun h => hk (h ▸ hj)
  unfold prevOf nextOf
  rw [hqueue, List.takeWhile_append_of_pos hne, List.dropWhile_append_of_pos hne]
  simp

/-- An entry gets a priority before `ACORAL_MINI_PRIO`, unless it is the last
one and the entry before it is new. -/
theorem AdmisInv.getsPrio {s : AdmisState K R F} {k : K} {l₁ l₂ : List K} (hinv : s.AdmisInv)
    (hqueue : s.queue = l₁ ++ k :: l₂) (hnew : (s.ctl k).isNew = true)
    (hafter : ∀ j ∈ l₂, (s.ctl j).isNew = false)
    (hend : s.firstThread = true ∨ l₂ ≠ [] ∨ ∀ j, l₁.getLast? = some j → (s.ctl j).isNew = false) :
    ∃ prio, s.GetsPrio k prio ∧ prio < ACORAL_MINI_PRIO := by
  have hk : k ∉ l₁ := by
    have hnodup := hinv.nodup
    rw [hqueue, List.nodup_append] at hnodup
    exact fun h => hnodup.2.2 k h k List.mem_cons_self rfl
  obtain ⟨hprev, hnext⟩ := neighbours_eq hqueue hk
  have hle : ∀ j ∈ s.queue, (s.ctl j).prio ≤ ACORAL_MINI_PRIO := by
    intro j hj
    rcases Bool.eq_false_or_eq_true (s.ctl j).isNew with h | h
    · exact Nat.le_of_eq (hinv.newPrio j hj h)
    · exact Nat.le_of_lt (hinv.admittedPrio j hj h)
  by_cases hfirst : s.firstThread = true
  · exact ⟨ FIRST_PRIO, by unfold GetsPrio; rw [if_pos hfirst], by decide⟩
  suffices h : ∃ prio, s.midPrio k = some prio ∧ prio < ACORAL_MINI_PRIO by
    obtain ⟨prio, hmid, hlt⟩ := h
    exact ⟨prio, by unfold GetsPrio; rw [if_neg hfirst]; exact hmid, hlt⟩
  unfold midPrio
  rw [hprev, hnext]
  cases l₂ with
  | cons next l₂ =>
      have hnextlt := hinv.admittedPrio next (by simp [hqueue]) (hafter next List.mem_cons_self)
      cases hp : l₁.getLast? with
      | none =>
          refine ⟨_, rfl, ?_⟩
          have : ACORAL_MAX_PRIO + 1 ≤ ACORAL_MINI_PRIO := by decide
          omega
      | some prev =>
          have := hle prev (by rw [hqueue]; exact List.mem_append_left _ (List.mem_of_getLast? hp))
          exact ⟨_, rfl, by omega⟩
  | nil =>
      cases hp : l₁.getLast? with
      | none =>
          -- `k` would be alone, but some thread has been admitted
          obtain ⟨j, hj, hjnew⟩ := hinv.firstThread (Bool.not_eq_true _ ▸ hfirst)
          rw [hqueue, List.getLast?_eq_none_iff.mp hp] at hj
          obtain rfl := List.mem_singleton.mp hj
          exact absurd (hnew.symm.trans hjnew) Bool.noConfusion
      | some prev =>
          have hprevnew : (s.ctl prev).isNew = false := by
            rcases hend with h | h | h
            · exact absurd h hfirst
            · exact absurd rfl h
            · exact h prev hp
          have := hinv.admittedPrio prev
            (by rw [hqueue]; exact List.mem_append_left _ (List.mem_of_getLast? hp)) hprevnew
          exact ⟨_, rfl, by omega⟩

/-- `k` has left the queue, its tables and those of its resources are freed. -/
structure Removed (s₀ s : AdmisState K R F) (k : K) : Prop where
  queue : k ∉ s.queue
  freed : k ∈ s.log.freed
  freedRes : ∀ x ∈ (s₀.ctl k).resQueue, (k, x.dpcp) ∈ s.log.freedRes

/-- The run that started in `s₀` has decided on `k`, and either created it or
removed it. -/
inductive Outcome (s₀ s : AdmisState K R F) (k : K) : Prop
  | accepted (hok : ∃ cpu < CFG_MAX_CPU, (k, cpu, true) ∈ s.log.reports ∧
        (k, cpu, false) ∉ s.log.reports)
      (hcreated : k ∈ s.log.created) (hqueue : k ∈ s.queue) (hfreed : k ∉ s.log.freed)
  | removed (hfail : ∀ cpu < CFG_MAX_CPU, (k, cpu, false) ∈ s.log.reports)
      (hnot : ∀ cpu, (k, cpu, true) ∉ s.log.reports)
      (hcreated : k ∉ s.log.created) (hrem : Removed s₀ s k)

/-- The run has not come to `k` yet. -/
structure Waits (s₀ s : AdmisState K R F) (k : K) : Prop where
  isNew : (s.ctl k).isNew = (s₀.ctl k).isNew
  resQueue : (s.ctl k).resQueue = (s₀.ctl k).resQueue
  created : k ∉ s.log.created
  freed : k ∉ s.log.freed
  reports : ∀ cpu ok, (k, cpu, ok) ∉ s.log.reports

/-- The turn of `k` has no say in what the run does with the other entries. -/
structure OnlyTurn (s s' : AdmisState K R F) (k : K) : Prop where
  queue : ∀ j ≠ k, (j ∈ s'.queue ↔ j ∈ s.queue)
  ctl : ∀ j ≠ k, (s.ctl j).SameEntry (s'.ctl j)
  created : ∀ j ≠ k, (j ∈ s'.log.created ↔ j ∈ s.log.created)
  freed : ∀ j ≠ k, (j ∈ s'.log.freed ↔ j ∈ s.log.freed)
  reports : ∀ j ≠ k, ∀ cpu ok, ((j, cpu, ok) ∈ s'.log.reports ↔ (j, cpu, ok) ∈ s.log.reports)
  freedRes : s.log.freedRes ⊆ s'.log.freedRes

omit [DecidableEq K] [DecidableEq R] in
theorem Outcome.turn {s₀ s s' : AdmisState K R F} {k j : K} (h : Outcome s₀ s j)
    (hturn : OnlyTurn s s' k) (hjk : j ≠ k) : Outcome s₀ s' j := by
  cases h with
  | accepted hok hcreated hqueue hfreed =>
      obtain ⟨cpu, hcpu, hok, hnot⟩ := hok
      exact .accepted ⟨cpu, hcpu, (hturn.reports j hjk cpu true).mpr hok,
        fun h => hnot ((hturn.reports j hjk cpu false).mp h)⟩ ((hturn.created j hjk).mpr hcreated)
        ((hturn.queue j hjk).mpr hqueue) fun h => hfreed ((hturn.freed j hjk).mp h)
  | removed hfail hnot hcreated hrem =>
      exact .removed (fun cpu hcpu => (hturn.reports j hjk cpu false).mpr (hfail cpu hcpu))
        (fun cpu h => hnot cpu ((hturn.reports j hjk cpu true).mp h))
        (fun h => hcreated ((hturn.created j hjk).mp h))
        ⟨fun h => hrem.queue ((hturn.queue j hjk).mp h), (hturn.freed j hjk).mpr hrem.freed,
          fun x hx => hturn.freedRes (hrem.freedRes x hx)⟩

omit [DecidableEq K] [DecidableEq R] in
theorem Waits.turn {s₀ s s' : AdmisState K R F} {k j : K} (h : Waits s₀ s j)
    (hturn : OnlyTurn s s' k) (hjk : j ≠ k) : Waits s₀ s' j := by
  obtain ⟨cpu, wcrt, hj⟩ := hturn.ctl j hjk
  exact ⟨by rw [hj]; exact h.isNew, by rw [hj]; exact h.resQueue,
    fun h' => h.created ((hturn.created j hjk).mp h'), fun h' => h.freed ((hturn.freed j hjk).mp h'),
    fun cpu ok h' => h.reports cpu ok ((hturn.reports j hjk cpu ok).mp h')⟩

theorem TurnEnds.onlyTurn {s s' : AdmisState K R F} {k : K} (h : TurnEnds s s' k) :
    OnlyTurn s s' k := by
  cases h with
  | accepted prio cpus₁ cpu hacc _ _ hreports =>
      refine ⟨fun j _ => by rw [hacc.run.queue], hacc.other, fun j hj => ?_,
        fun j _ => by rw [hacc.run.freed], fun j hj cpu' ok => ?_, hacc.run.freedRes⟩
      · simp [hacc.created, hj]
      · simp [hreports, hj, Ne.symm hj]
  | removed s₁ cpus hrej hrem _ hreports =>
      refine ⟨fun j hj => ?_, fun j hj => ?_, fun j _ => by rw [hrem.created, hrej.created],
        fun j hj => ?_, fun j hj cpu' ok => ?_, fun _ h => hrem.freedRes (hrej.run.freedRes h)⟩
      · simp [hrem.queue, hrej.run.queue, hj]
      · rw [hrem.other j hj]
        exact hrej.entry j
      · simp [hrem.freed, hrej.run.freed, hj]
      · simp [hreports, Ne.symm hj]

theorem TurnEnds.outcome {s₀ s s' : AdmisState K R F} {k : K} (h : TurnEnds s s' k)
    (hk : k ∈ s.queue) (hwait : Waits s₀ s k) : Outcome s₀ s' k := by
  cases h with
  | accepted prio cpus₁ cpu hacc hcpu hlater hreports =>
      refine .accepted ⟨cpu, hcpu, ?_, ?_⟩ ?_ (hacc.run.queue ▸ hk) (hacc.run.freed ▸ hwait.freed)
      · simp [hreports]
      · simp [hreports, hwait.reports, hlater]
      · simp [hacc.created]
  | removed s₁ cpus hrej hrem hall hreports =>
      have hres : (s₁.ctl k).resQueue = (s₀.ctl k).resQueue := by
        obtain ⟨cpu, wcrt, hk'⟩ := hrej.entry k
        rw [hk']
        exact hwait.resQueue
      refine .removed (fun cpu hcpu => ?_) (fun cpu => ?_) ?_ ⟨?_, ?_, fun x hx => ?_⟩
      · simp [hreports, hall cpu hcpu]
      · simp [hreports, hwait.reports]
      · rw [hrem.created, hrej.created]
        exact hwait.created
      · simp [hrem.queue]
      · simp [hrem.freed]
      · exact hrem.freedOwn x (hres ▸ hx)

theorem TurnEnds.sameJobs {s s' : AdmisState K R F} {k : K} (h : TurnEnds s s' k) :
    s.SameJobs s'.toAdmisTables := by
  cases h with
  | accepted prio cpus₁ cpu hacc _ _ _ => exact hacc.sameJobs
  | removed s₁ cpus hrej hrem _ _ =>
      have hmem : ∀ j ∈ s'.queue, j ∈ s₁.queue ∧ j ≠ k := by
        intro j hj
        rw [hrem.queue, List.mem_filter, decide_eq_true_iff] at hj
        exact hj
      exact hrej.sameJobs.trans ⟨fun j hj => (hmem j hj).1, hrem.timedTime, hrem.timedTimeSum,
        fun j hj => by rw [hrem.other j (hmem j hj).2]⟩

/-- The run that started in `s₀` has come down to the entries `ks`, from the
last one on; those after them are `post`. -/
structure RunInv (s₀ s : AdmisState K R F) (ks post : List K) : Prop where
  inv : s.AdmisInv
  jobs : s₀.SameJobs s.toAdmisTables
  queue : s.queue = ks.reverse ++ post
  behind : ∀ j ∈ post, (s.ctl j).isNew = false
  ends : s.firstThread = true ∨ post ≠ [] ∨
    ∀ k k' tl, ks = k :: k' :: tl → (s.ctl k).isNew = true → (s.ctl k').isNew = false
  todo : ∀ j ∈ ks, Waits s₀ s j
  done : ∀ j ∈ s₀.queue, j ∉ ks → (s₀.ctl j).isNew = true → Outcome s₀ s j

omit [DecidableEq K] in
/-- An entry that is not new is passed by. -/
theorem RunInv.pass {s₀ s : AdmisState K R F} {k : K} {ks post : List K}
    (h : RunInv s₀ s (k :: ks) post) (hnew : (s.ctl k).isNew = false) :
    RunInv s₀ s ks (k :: post) := by
  refine ⟨h.inv, h.jobs, ?_, fun j hj => ?_, .inr (.inl (List.cons_ne_nil k post)),
    fun j hj => h.todo j (List.mem_cons_of_mem k hj), fun j hj hks hjnew => ?_⟩
  · rw [h.queue, List.reverse_cons, List.append_assoc, List.singleton_append]
  · rcases List.mem_cons.mp hj with rfl | hj
    · exact hnew
    · exact h.behind j hj
  · refine h.done j hj (fun hmem => ?_) hjnew
    rcases List.mem_cons.mp hmem with rfl | hmem
    · rw [← (h.todo j List.mem_cons_self).isNew, hnew] at hjnew
      exact Bool.false_ne_true hjnew
    · exact hks hmem

/-- A new entry becomes one of those behind, or disappears. -/
theorem RunInv.turn {s₀ s s' : AdmisState K R F} {k : K} {ks post : List K}
    (h : RunInv s₀ s (k :: ks) post) (hnew : (s.ctl k).isNew = true) (hinv : s'.AdmisInv)
    (hturn : TurnEnds s s' k) : ∃ post', RunInv s₀ s' ks post' := by
  have hqueue : s.queue = ks.reverse ++ k :: post := by
    rw [h.queue, List.reverse_cons, List.append_assoc, List.singleton_append]
  have hnodup := h.inv.nodup
  rw [hqueue, List.nodup_append, List.nodup_cons] at hnodup
  have hks : ∀ j ∈ ks, j ≠ k := fun j hj => by
    rintro rfl
    exact hnodup.2.2 j (List.mem_reverse.mpr hj) j List.mem_cons_self rfl
  have hpost : ∀ j ∈ post, j ≠ k := fun j hj => by
    rintro rfl
    exact hnodup.2.1.1 hj
  have honly := hturn.onlyTurn
  have hisNew : ∀ j ≠ k, (s'.ctl j).isNew = (s.ctl j).isNew := by
    intro j hj
    obtain ⟨cpu, wcrt, hj'⟩ := honly.ctl j hj
    rw [hj']
  have hjobs := h.jobs.trans hturn.sameJobs
  have htodo : ∀ j ∈ ks, Waits s₀ s' j := fun j hj =>
    (h.todo j (List.mem_cons_of_mem k hj)).turn honly (hks j hj)
  have hdone : ∀ j ∈ s₀.queue, j ∉ ks → (s₀.ctl j).isNew = true → Outcome s₀ s' j := by
    intro j hj hjks hjnew
    by_cases hjk : j = k
    · subst hjk
      exact hturn.outcome (by simp [hqueue]) (h.todo j List.mem_cons_self)
    · refine (h.done j hj (fun hmem => ?_) hjnew).turn honly hjk
      rcases List.mem_cons.mp hmem with rfl | hmem
      · exact hjk rfl
      · exact hjks hmem
  cases hturn with
  | accepted prio cpus₁ cpu hacc _ _ _ =>
      refine ⟨k :: post, hinv, hjobs, hacc.run.queue.trans hqueue, fun j hj => ?_,
        .inr (.inl (List.cons_ne_nil k post)), htodo, hdone⟩
      rcases List.mem_cons.mp hj with rfl | hj
      · obtain ⟨cpu', wcrt, hk⟩ := hacc.entry
        rw [hk]
      · rw [hisNew j (hpost j hj)]
        exact h.behind j hj
  | removed s₁ cpus hrej hrem _ _ =>
      refine ⟨post, hinv, hjobs, ?_, fun j hj => ?_, ?_, htodo, hdone⟩
      · rw [hrem.queue, hrej.run.queue, hqueue, List.filter_append, List.filter_cons_of_neg (by simp),
          List.filter_eq_self.mpr fun j hj => decide_eq_true (hks j (List.mem_reverse.mp hj)),
          List.filter_eq_self.mpr fun j hj => decide_eq_true (hpost j hj)]
      · rw [hisNew j (hpost j hj)]
        exact h.behind j hj
      · -- `k` was the last entry: the entry before it is not new
        rcases h.ends with hfirst | hne | hends
        · exact .inl (hrem.firstThread.trans (hrej.firstThread.trans hfirst))
        · exact .inr (.inl hne)
        · refine .inr (.inr fun k₁ k₂ tl hks' hk₁ => ?_)
          subst hks'
          rw [hisNew k₁ (hks k₁ List.mem_cons_self)] at hk₁
          exact absurd (hk₁.symm.trans (hends k k₁ (k₂ :: tl) rfl hnew)) Bool.noConfusion

section
variable [Zero F] [Add F] [Sub F] [Div F] [NatCast F] [LT F] [DecidableLT F]

theorem taskLoop_spec {ansys : AdmisTables K R → Option (Bool × AdmisTables K R)}
    {s₀ : AdmisState K R F} (hansys : Analysis ansys s₀.toAdmisTables) (ks : List K)
    {s : AdmisState K R F} {post : List K} (h : RunInv s₀ s ks post) :
    ∃ s' post', taskLoop ansys ks s = some s' ∧ RunInv s₀ s' [] post' := by
  induction ks generalizing s post with
  | nil => exact ⟨s, post, rfl, h⟩
  | cons k ks ih =>
      unfold taskLoop
      rcases Bool.eq_false_or_eq_true (s.ctl k).isNew with hnew | hnew
      · have hqueue : s.queue = ks.reverse ++ k :: post := by
          rw [h.queue, List.reverse_cons, List.append_assoc, List.singleton_append]
        have hends : s.firstThread = true ∨ post ≠ [] ∨
            ∀ j, ks.reverse.getLast? = some j → (s.ctl j).isNew = false := by
          rcases h.ends with hfirst | hne | hends
          · exact .inl hfirst
          · exact .inr (.inl hne)
          · refine .inr (.inr fun j hj => ?_)
            rw [List.getLast?_reverse] at hj
            obtain ⟨tl, rfl⟩ := List.head?_eq_some_iff.mp hj
            exact hends k j tl rfl hnew
        obtain ⟨prio, hprio, hlt⟩ := h.inv.getsPrio hqueue hnew h.behind hends
        obtain ⟨s₁, h₁, hinv₁, hturn⟩ := newThread_spec h.inv (hansys.of_sameJobs h.jobs)
          (by simp [hqueue]) hnew hprio hlt
        obtain ⟨post₁, hrun₁⟩ := h.turn hnew hinv₁ hturn
        rw [if_pos hnew, h₁, Option.bind_some]
        exact ih hrun₁
      · rw [if_neg (by rw [hnew]; exact Bool.false_ne_true)]
        exact ih (h.pass hnew)

end

/-! ### One run of the task -/

/-- The run from `s₀` to `s` treats the new thread `k` as it should. It is
created exactly if the analysis has succeeded on some CPU, it is removed
exactly if it has failed on all, and it is not both accepted and freed. -/
structure Decided (s₀ s : AdmisState K R F) (k : K) : Prop where
  created : k ∈ s.log.created ↔ ∃ cpu, (k, cpu, true) ∈ s.log.reports
  removed : Removed s₀ s k ↔ ∀ cpu < CFG_MAX_CPU, (k, cpu, false) ∈ s.log.reports
  kept : (∃ cpu, (k, cpu, true) ∈ s.log.reports) → k ∈ s.queue ∧ k ∉ s.log.freed

omit [DecidableEq K] [DecidableEq R] in
theorem Outcome.decided {s₀ s : AdmisState K R F} {k : K} (h : Outcome s₀ s k) :
    Decided s₀ s k := by
  cases h with
  | accepted hok hcreated hqueue hfreed =>
      obtain ⟨cpu, hcpu, hok, hnot⟩ := hok
      exact ⟨⟨fun _ => ⟨cpu, hok⟩, fun _ => hcreated⟩,
        ⟨fun h => absurd h.freed hfreed, fun h => absurd (h cpu hcpu) hnot⟩,
        fun _ => ⟨hqueue, hfreed⟩⟩
  | removed hfail hnot hcreated hrem =>
      refine ⟨⟨fun h => absurd h hcreated, ?_⟩, ⟨fun _ => hfail, fun _ => hrem⟩, ?_⟩
      · rintro ⟨cpu, h⟩
        exact absurd h (hnot cpu)
      · rintro ⟨cpu, h⟩
        exact absurd h (hnot cpu)

/-- The task has new threads to admit, not the first ones, and the last two
entries of the queue are new. -/
def EndsInNew (s : AdmisState K R F) : Prop :=
  s.haveNewThread = true ∧ s.firstThread = false ∧
    ∃ l k' k, s.queue = l ++ [k', k] ∧ (s.ctl k').isNew = true ∧ (s.ctl k).isNew = true

section
variable [Zero F] [Add F] [Sub F] [Div F] [NatCast F] [LT F] [DecidableLT F]

/-- The run comes to its end, and decides on every new thread. -/
def Decides (ansys : AdmisTables K R → Option (Bool × AdmisTables K R)) (s : AdmisState K R F) :
    Prop :=
  ∃ s', s.acoralAdmisCtlTask ansys = some s' ∧
    ∀ k ∈ s.queue, (s.ctl k).isNew = true → Decided s s' k

omit [DecidableEq K] [Zero F] [Add F] [Sub F] [Div F] [NatCast F] [LT F] [DecidableLT F] in
theorem AdmisInv.clearLog {s : AdmisState K R F} (h : s.AdmisInv) :
    AdmisInv { s with log := .empty } :=
  ⟨h.nodup, h.resNodup, h.prio, h.newPrio, h.admittedPrio, h.firstThread, h.thisIsFirst,
    h.settled, h.count, h.stacked⟩

theorem decides_of_not_endsInNew
    {ansys : AdmisTables K R → Option (Bool × AdmisTables K R)} {s : AdmisState K R F}
    (hinv : s.AdmisInv) (hansys : Analysis ansys s.toAdmisTables) (hend : ¬ s.EndsInNew) :
    s.Decides ansys := by
  unfold Decides acoralAdmisCtlTask
  dsimp only
  by_cases hhave : s.haveNewThread = true
  · rw [if_pos hhave]
    have hstart : RunInv s { s with log := .empty } s.queue.reverse [] := by
      refine ⟨hinv.clearLog, ⟨fun _ h => h, rfl, rfl, fun _ _ => rfl⟩, ?_, ?_, ?_, ?_, ?_⟩
      · show s.queue = s.queue.reverse.reverse ++ []
        rw [List.reverse_reverse, List.append_nil]
      · exact fun j hj => absurd hj List.not_mem_nil
      · rcases Bool.eq_false_or_eq_true s.firstThread with hfirst | hfirst
        · exact .inl hfirst
        · refine .inr (.inr fun k k' tl hks hk => ?_)
          by_contra hk'
          refine hend ⟨hhave, hfirst, tl.reverse, k', k, ?_, Bool.not_eq_false _ ▸ hk', hk⟩
          rw [← List.reverse_reverse s.queue, hks]
          simp
      · exact fun j _ => ⟨rfl, rfl, List.not_mem_nil, List.not_mem_nil, fun _ _ => List.not_mem_nil⟩
      · exact fun j hj hks _ => absurd (List.mem_reverse.mpr hj) hks
    obtain ⟨s', post', hs', hrun⟩ := taskLoop_spec hansys s.queue.reverse hstart
    refine ⟨_, by rw [hs']; rfl, fun k hk hnew => ?_⟩
    have hout := (hrun.done k hk List.not_mem_nil hnew).decided
    exact ⟨hout.created, ⟨fun h => hout.removed.mp ⟨h.queue, h.freed, h.freedRes⟩,
      fun h => ⟨(hout.removed.mpr h).queue, (hout.removed.mpr h).freed,
        (hout.removed.mpr h).freedRes⟩⟩, hout.kept⟩
  · rw [if_neg hhave]
    refine ⟨_, rfl, fun k hk _ => ⟨⟨fun h => absurd h List.not_mem_nil, ?_⟩,
      ⟨fun h => absurd h.freed List.not_mem_nil, fun h => ?_⟩, ?_⟩⟩
    · rintro ⟨cpu, h⟩
      exact absurd h List.not_mem_nil
    · exact absurd (h 0 (by decide)) List.not_mem_nil
    · rintro ⟨cpu, h⟩
      exact absurd h List.not_mem_nil

end

end AdmisState

end ACoral
