import ACoral.Proofs.Admission.Resources
import ACoral.Proofs.Admission.Response

/-!
# `ACoral.Proofs.Admission.Attempt`: a new thread is tried on the CPUs

An attempt gives the thread a CPU and a priority and binds its resources.
After the answer of the analysis the attempt is made real or taken back, and
the queue and the resources are again as `AdmisInv` says.

- `cpuLoadListUpdate_perm`: each CPU is tried once.
- `scheduleAnsys_analysis`: `schedule_ansys` comes back, and writes response
  times only.
- `tryCpu_spec`, `admisCtlCreate_spec`, `admisCtlRestore_spec`: one attempt.
- `tryCpus_spec`: all attempts on one thread.
-/

set_option autoImplicit false

namespace ACoral

variable {K R F : Type}

/-! ### The order of the CPUs -/

section

/-- The elements are those of the CPUs, in some order. -/
def AllCpus (a : Nat → F × Nat) : Prop :=
  ((List.range CFG_MAX_CPU).map fun m => (a m).2).Perm (List.range CFG_MAX_CPU)

theorem AllCpus.swap {a : Nat → F × Nat} (ha : AllCpus a) {i j : Nat} (hi : i < CFG_MAX_CPU)
    (hj : j < CFG_MAX_CPU) : AllCpus (a ∘ Equiv.swap i j) := by
  have hlt : ∀ m, Equiv.swap i j m < CFG_MAX_CPU ↔ m < CFG_MAX_CPU := by
    intro m
    rw [Equiv.swap_apply_def]
    split_ifs with h h' <;> omega
  have hperm : ((List.range CFG_MAX_CPU).map (Equiv.swap i j)).Perm (List.range CFG_MAX_CPU) := by
    refine (List.perm_ext_iff_of_nodup (List.nodup_range.map (Equiv.injective _))
      List.nodup_range).mpr fun m => ?_
    rw [List.mem_map, List.mem_range]
    refine ⟨?_, fun hm => ⟨Equiv.swap i j m, List.mem_range.mpr ((hlt m).mpr hm), by simp⟩⟩
    rintro ⟨m', hm', rfl⟩
    exact (hlt m').mpr (List.mem_range.mp hm')
  have hmap := hperm.map fun m => (a m).2
  rw [List.map_map] at hmap
  exact hmap.trans ha

variable [LT F] [DecidableLT F]

/-- The loads are exchanged together with their CPUs, so each CPU comes once. -/
theorem cpuLoadListUpdate_perm (load : Nat → F) :
    (cpuLoadListUpdate load).Perm (List.range CFG_MAX_CPU) := by
  have hstart : AllCpus fun i => (load i, i) := by
    unfold AllCpus
    rw [List.map_id']
  refine List.foldlRecOn (motive := AllCpus) _ _ hstart fun a ha i hi =>
    List.foldlRecOn (motive := AllCpus) _ _ ha fun a' ha' j hj => ?_
  rw [List.mem_range] at hi
  rw [List.mem_range'_1] at hj
  split
  · exact ha'.swap hi (by omega)
  · exact ha'

end

/-! ### The analysis -/

/-- The same busy times, and threads of `s` with the same deadlines. -/
structure AdmisTables.SameJobs (s s' : AdmisTables K R) : Prop where
  queue : s'.queue ⊆ s.queue
  timedTime : s'.timedTime = s.timedTime
  timedTimeSum : s'.timedTimeSum = s.timedTimeSum
  dlTime : ∀ k ∈ s'.queue, (s'.ctl k).dlTime = (s.ctl k).dlTime

theorem AdmisTables.SameJobs.trans {s s' s'' : AdmisTables K R} (h : s.SameJobs s')
    (h' : s'.SameJobs s'') : s.SameJobs s'' where
  queue := fun _ hk => h.queue (h'.queue hk)
  timedTime := h'.timedTime.trans h.timedTime
  timedTimeSum := h'.timedTimeSum.trans h.timedTimeSum
  dlTime k hk := (h'.dlTime k hk).trans (h.dlTime k (h'.queue hk))

/-- The tables with other response times. -/
def AdmisTables.withWcrt (s : AdmisTables K R) (wcrt : K → Nat) : AdmisTables K R :=
  { s with ctl := fun k => { s.ctl k with wcrt := wcrt k } }

theorem AdmisTables.SameJobs.withWcrt {s s' : AdmisTables K R} (h : s.SameJobs s')
    (wcrt : K → Nat) : s.SameJobs (s'.withWcrt wcrt) :=
  ⟨h.queue, h.timedTime, h.timedTimeSum, h.dlTime⟩

theorem AdmisTables.update_wcrt [DecidableEq K] (s : AdmisTables K R) (k : K) (wcrt : Nat) :
    { s with ctl := Function.update s.ctl k { s.ctl k with wcrt := wcrt } } =
      s.withWcrt (Function.update (fun j => (s.ctl j).wcrt) k wcrt) := by
  have hctl : Function.update s.ctl k { s.ctl k with wcrt := wcrt } =
      fun j => { s.ctl j with wcrt := Function.update (fun j => (s.ctl j).wcrt) k wcrt j } := by
    funext j
    by_cases hj : j = k
    · subst hj
      simp
    · simp [hj]
  rw [hctl]
  rfl

/-- An analysis of the threads of `s`: it comes back with an answer, and writes
response times only. -/
def Analysis (ansys : AdmisTables K R → Option (Bool × AdmisTables K R)) (s : AdmisTables K R) :
    Prop :=
  ∀ s', s.SameJobs s' → ∃ ok wcrt, ansys s' = some (ok, s'.withWcrt wcrt)

theorem Analysis.of_sameJobs {ansys : AdmisTables K R → Option (Bool × AdmisTables K R)}
    {s s' : AdmisTables K R} (h : Analysis ansys s) (hjobs : s.SameJobs s') : Analysis ansys s' :=
  fun s'' h'' => h s'' (hjobs.trans h'')

/-- `schedule_ansys` is one: its loops end on times up to the deadlines. -/
theorem scheduleAnsys_analysis [DecidableEq K] [DecidableEq R] {s : AdmisTables K R}
    (hsum : s.TimedSums) {gFuel fuel : Nat} (hgFuel : ∀ k ∈ s.queue, (s.ctl k).dlTime + 2 ≤ gFuel)
    (hfuel : ∀ k ∈ s.queue, (s.ctl k).dlTime + 2 ≤ fuel) :
    Analysis (AdmisTables.scheduleAnsys gFuel fuel) s := by
  suffices h : ∀ (ks : List K) (s' : AdmisTables K R), ks ⊆ s'.queue → s.SameJobs s' →
      ∃ ok wcrt, AdmisTables.scheduleLoop gFuel fuel ks s' = some (ok, s'.withWcrt wcrt) from
    fun s' hjobs => h s'.queue s' (fun _ hk => hk) hjobs
  intro ks
  induction ks with
  | nil => exact fun s' _ _ => ⟨true, fun k => (s'.ctl k).wcrt, rfl⟩
  | cons k ks ih =>
      intro s' hks hjobs
      have hk := hjobs.queue (hks List.mem_cons_self)
      have hdl := hjobs.dlTime k (hks List.mem_cons_self)
      have hks' : ks ⊆ s'.queue := fun j hj => hks (List.mem_cons_of_mem k hj)
      unfold AdmisTables.scheduleLoop
      split
      · obtain ⟨-, g, v, -, hv, -⟩ := AdmisTables.responseTime_spec s' k
          (fun cpu => by rw [hjobs.timedTime, hjobs.timedTimeSum]; exact hsum cpu)
          (hdl ▸ hgFuel k hk) (hdl ▸ hfuel k hk)
        rw [hv, Option.bind_some]
        split
        · rw [AdmisTables.update_wcrt]
          exact ih _ hks' (hjobs.withWcrt _)
        · exact ⟨false, fun k => (s'.ctl k).wcrt, rfl⟩
      · exact ih s' hks' hjobs

/-! ### One attempt -/

/-- The same entry, on another CPU and with another response time. -/
def AdmisCtlData.SameEntry (d d' : AdmisCtlData R) : Prop :=
  ∃ cpu wcrt, d' = { d with cpu := cpu, wcrt := wcrt }

theorem AdmisCtlData.SameEntry.refl (d : AdmisCtlData R) : d.SameEntry d := ⟨d.cpu, d.wcrt, rfl⟩

theorem AdmisCtlData.SameEntry.trans {d d' d'' : AdmisCtlData R} (h : d.SameEntry d')
    (h' : d'.SameEntry d'') : d.SameEntry d'' := by
  obtain ⟨cpu, wcrt, rfl⟩ := h
  obtain ⟨cpu', wcrt', rfl⟩ := h'
  exact ⟨cpu', wcrt', rfl⟩

namespace AdmisState

/-- The queue and the busy times are the same, and no table of a thread has
been freed. -/
structure SameRun (s s' : AdmisState K R F) : Prop where
  queue : s'.queue = s.queue
  timedTime : s'.timedTime = s.timedTime
  timedTimeSum : s'.timedTimeSum = s.timedTimeSum
  freed : s'.log.freed = s.log.freed
  freedRes : s.log.freedRes ⊆ s'.log.freedRes

theorem SameRun.trans {s s' s'' : AdmisState K R F} (h : SameRun s s') (h' : SameRun s' s'') :
    SameRun s s'' where
  queue := h'.queue.trans h.queue
  timedTime := h'.timedTime.trans h.timedTime
  timedTimeSum := h'.timedTimeSum.trans h.timedTimeSum
  freed := h'.freed.trans h.freed
  freedRes := fun _ hx => h'.freedRes (h.freedRes hx)

theorem SameThreads.sameRun {s s' : AdmisState K R F} (h : SameThreads s s') : SameRun s s' :=
  ⟨h.queue, h.timedTime, h.timedTimeSum, h.freed, h.freedRes⟩

variable [DecidableEq K]

/-- The priority that an attempt gives to `k`. -/
def GetsPrio (s : AdmisState K R F) (k : K) (prio : Nat) : Prop :=
  if s.firstThread = true then prio = FIRST_PRIO else s.midPrio k = some prio

theorem midPrio_congr {s s' : AdmisState K R F} (hqueue : s'.queue = s.queue)
    (hprio : ∀ j, (s'.ctl j).prio = (s.ctl j).prio) (k : K) : s'.midPrio k = s.midPrio k := by
  unfold midPrio prevOf nextOf
  simp only [hqueue, hprio]

variable [DecidableEq R]

/-- The state in which `k` has been tried on `cpu`. -/
structure Tries (s s' : AdmisState K R F) (k : K) (cpu prio : Nat) : Prop where
  run : SameRun s s'
  firstThread : s'.firstThread = false
  thisIsFirst : s'.thisIsFirst = s.firstThread
  reports : s'.log.reports = s.log.reports
  created : s'.log.created = s.log.created
  entry : ∃ wcrt, s'.ctl k = { s.ctl k with cpu := cpu, prio := prio, wcrt := wcrt }
  other : ∀ j ≠ k, (s.ctl j).SameEntry (s'.ctl j)
  tried : ∀ x ∈ (s.ctl k).resQueue,
    (s'.resAt x.dpcp).Tried ∧ (s.resAt x.dpcp).SameCount (s'.resAt x.dpcp)
  rest : ∀ r ∉ (s.ctl k).resQueue.map AdmisResData.dpcp, s'.resAt r = s.resAt r

omit [DecidableEq R] in
/-- `is_new` is taken away for the analysis and put back. -/
theorem analysed_eq {s : AdmisState K R F} {k : K} (hnew : (s.ctl k).isNew = true)
    (wcrt : K → Nat) :
    ({ s with toAdmisTables :=
        (s.setCtl k { s.ctl k with isNew := false }).withWcrt wcrt } : AdmisState K R F).setCtl k
      { (s.setCtl k { s.ctl k with isNew := false }).ctl k with
        wcrt := wcrt k, isNew := true } =
      { s with toAdmisTables := s.withWcrt wcrt } := by
  have hctl : Function.update
      ((s.setCtl k { s.ctl k with isNew := false }).withWcrt wcrt).ctl k
      { (s.setCtl k { s.ctl k with isNew := false }).ctl k with wcrt := wcrt k, isNew := true } =
      (s.withWcrt wcrt).ctl := by
    funext j
    by_cases hj : j = k
    · subst hj
      simp [setCtl, AdmisTables.withWcrt, ← hnew]
    · simp [setCtl, AdmisTables.withWcrt, hj]
  unfold setCtl at hctl ⊢
  dsimp only
  rw [hctl]
  rfl

section
variable [Add F] [Div F] [NatCast F]

theorem assign_spec {s : AdmisState K R F} {k : K} {prio : Nat} (hprio : s.GetsPrio k prio)
    (hthis : s.thisIsFirst = false) (cpu : Nat) :
    ∃ s', s.assign k cpu = some s' ∧ SameRun s s' ∧ s'.firstThread = false ∧
      s'.thisIsFirst = s.firstThread ∧ s'.log = s.log ∧
      s'.ctl = Function.update s.ctl k { s.ctl k with cpu := cpu, prio := prio } ∧
      s'.resAt = s.resAt := by
  unfold assign
  dsimp only
  unfold GetsPrio at hprio
  split
  · rename_i hfirst
    rw [if_pos hfirst] at hprio
    subst hprio
    exact ⟨_, rfl, ⟨rfl, rfl, rfl, rfl, fun _ h => h⟩, rfl, hfirst.symm, rfl, rfl, rfl⟩
  · rename_i hfirst
    rw [if_neg hfirst] at hprio
    rw [Bool.not_eq_true] at hfirst
    rw [hprio]
    exact ⟨_, rfl, ⟨rfl, rfl, rfl, rfl, fun _ h => h⟩, hfirst, hthis.trans hfirst.symm, rfl, rfl,
      rfl⟩

variable [Zero F] [Sub F]

theorem tryCpu_spec {ansys : AdmisTables K R → Option (Bool × AdmisTables K R)}
    {s : AdmisState K R F} {k : K} {cpu prio : Nat} (hansys : Analysis ansys s.toAdmisTables)
    (hprio : s.GetsPrio k prio) (hthis : s.thisIsFirst = false) (hcpu : cpu < CFG_MAX_CPU)
    (hnew : (s.ctl k).isNew = true) (hnodup : ((s.ctl k).resQueue.map AdmisResData.dpcp).Nodup)
    (hsettled : ∀ x ∈ (s.ctl k).resQueue, (s.resAt x.dpcp).Settled) :
    ∃ ok s', s.tryCpu ansys k cpu = some (ok, s') ∧ Tries s s' k cpu prio ∧
      ∃ t t', ansys t = some (ok, t') := by
  obtain ⟨s₁, h₁, hrun₁, hfirst₁, hthis₁, hlog₁, hctl₁, hres₁⟩ := assign_spec hprio hthis cpu
  have hk₁ : s₁.ctl k = { s.ctl k with cpu := cpu, prio := prio } := by
    rw [hctl₁, Function.update_self]
  have hj₁ : ∀ j ≠ k, s₁.ctl j = s.ctl j := fun j hj => by
    rw [hctl₁, Function.update_of_ne hj]
  obtain ⟨s₂, h₂, hsame₂, htried₂, hrest₂⟩ := foldlM_views s₁ hnodup
    (fun s' x v hsame hv h => tryRes_acts (k := k) hv (by rw [hsame.ctl, hk₁]; exact hcpu) h)
    (fun x hx => by rw [hres₁]; exact hsettled x hx)
  -- what the analysis is given has the jobs of `s`
  have hjobs : s.SameJobs (s₂.setCtl k { s₂.ctl k with isNew := false }).toAdmisTables := by
    refine ⟨?_, hsame₂.timedTime.trans hrun₁.timedTime,
      hsame₂.timedTimeSum.trans hrun₁.timedTimeSum, fun j _ => ?_⟩
    · intro j hj
      rwa [← hrun₁.queue, ← hsame₂.queue]
    · show (Function.update s₂.ctl k { s₂.ctl k with isNew := false } j).dlTime = _
      by_cases hj : j = k
      · subst hj
        rw [Function.update_self, hsame₂.ctl, hk₁]
      · rw [Function.update_of_ne hj, hsame₂.ctl, hj₁ j hj]
  obtain ⟨ok, wcrt, h₃⟩ := hansys _ hjobs
  have hnew₂ : (s₂.ctl k).isNew = true := by rw [hsame₂.ctl, hk₁]; exact hnew
  refine ⟨ok, { s₂ with toAdmisTables := s₂.withWcrt wcrt }, ?_, ?_, _, _, h₃⟩
  · unfold tryCpu
    rw [h₁, Option.bind_some, hk₁, h₂, Option.bind_some, h₃]
    exact congrArg (fun s' => some (ok, s')) (analysed_eq hnew₂ wcrt)
  · have hrun₂ := hrun₁.trans hsame₂.sameRun
    refine ⟨⟨hrun₂.queue, hrun₂.timedTime, hrun₂.timedTimeSum, hrun₂.freed, hrun₂.freedRes⟩,
      hsame₂.firstThread.trans hfirst₁, hsame₂.thisIsFirst.trans hthis₁,
      hsame₂.reports.trans (congrArg AdmisLog.reports hlog₁),
      hsame₂.created.trans (congrArg AdmisLog.created hlog₁), ⟨wcrt k, ?_⟩, fun j hj => ?_,
      fun x hx => ?_, fun r hr => ?_⟩
    · show ({ s₂.ctl k with wcrt := wcrt k } : AdmisCtlData R) = _
      rw [hsame₂.ctl, hk₁]
    · show (s.ctl j).SameEntry { s₂.ctl j with wcrt := wcrt j }
      rw [hsame₂.ctl, hj₁ j hj]
      exact ⟨_, _, rfl⟩
    · have hx₂ := htried₂ x hx
      rwa [hres₁] at hx₂
    · exact (hrest₂ r hr).trans (congrFun hres₁ r)

end

/-! ### Making an attempt real, or taking it back -/

omit [DecidableEq K] [DecidableEq R] in
theorem foldlM_skip {step : AdmisState K R F → K → Option (AdmisState K R F)} {l : List K}
    {s : AdmisState K R F} (h : ∀ j ∈ l, step s j = some s) : l.foldlM step s = some s := by
  induction l with
  | nil => rfl
  | cons j l ih =>
      rw [List.foldlM_cons, h j List.mem_cons_self]
      exact ih fun j' hj' => h j' (List.mem_cons_of_mem j hj')

omit [DecidableEq K] [DecidableEq R] in
/-- A loop that acts on `k` alone. -/
theorem foldlM_only {step : AdmisState K R F → K → Option (AdmisState K R F)} {l : List K} {k : K}
    {s s' : AdmisState K R F} (hk : k ∈ l) (hnodup : l.Nodup)
    (hbefore : ∀ j ∈ l, j ≠ k → step s j = some s) (hstep : step s k = some s')
    (hafter : ∀ j ∈ l, j ≠ k → step s' j = some s') : l.foldlM step s = some s' := by
  obtain ⟨l₁, l₂, rfl⟩ := List.append_of_mem hk
  rw [List.nodup_append, List.nodup_cons] at hnodup
  obtain ⟨-, ⟨hk₂, -⟩, hdisj⟩ := hnodup
  have hskip₁ : l₁.foldlM step s = some s := foldlM_skip fun j hj =>
    hbefore j (List.mem_append_left _ hj) fun h => hdisj j hj k List.mem_cons_self h
  have hskip₂ : l₂.foldlM step s' = some s' := foldlM_skip fun j hj =>
    hafter j (List.mem_append_right _ (List.mem_cons_of_mem k hj)) fun h => hk₂ (h ▸ hj)
  rw [List.foldlM_append, hskip₁, Option.bind_eq_bind, Option.bind_some, List.foldlM_cons, hstep]
  exact hskip₂

/-- The attempt on `k` is over: its entry is `d`, its resources are settled. -/
structure Settles (s s' : AdmisState K R F) (k : K) (d : AdmisCtlData R) : Prop where
  run : SameRun s s'
  firstThread : s'.firstThread = s.firstThread
  thisIsFirst : s'.thisIsFirst = s.thisIsFirst
  reports : s'.log.reports = s.log.reports
  ctl : s'.ctl = Function.update s.ctl k d
  settled : ∀ x ∈ (s.ctl k).resQueue,
    (s'.resAt x.dpcp).Settled ∧ (s.resAt x.dpcp).SameCount (s'.resAt x.dpcp)
  rest : ∀ r ∉ (s.ctl k).resQueue.map AdmisResData.dpcp, s'.resAt r = s.resAt r

/-- What holds of the entries while `k` is tried. -/
structure OnlyChanged (s : AdmisState K R F) (k : K) : Prop where
  mem : k ∈ s.queue
  nodup : s.queue.Nodup
  resNodup : ((s.ctl k).resQueue.map AdmisResData.dpcp).Nodup
  other : ∀ j ∈ s.queue, j ≠ k → (s.ctl j).prio = (s.ctl j).prioOrigin
  tried : ∀ x ∈ (s.ctl k).resQueue, (s.resAt x.dpcp).Tried

theorem createThread_pass (s : AdmisState K R F) (j : K)
    (h : (s.ctl j).prio = (s.ctl j).prioOrigin) : createThread s j = some s := if_pos h

theorem restoreThread_pass (s : AdmisState K R F) (j : K)
    (h : (s.ctl j).prio = (s.ctl j).prioOrigin) : restoreThread s j = some s := if_pos h

theorem createThread_spec {s : AdmisState K R F} {k : K} (h : s.OnlyChanged k)
    (hnew : (s.ctl k).isNew = true) (hprio : (s.ctl k).prio ≠ (s.ctl k).prioOrigin) :
    ∃ s', createThread s k = some s' ∧ s'.log.created = s.log.created ++ [k] ∧
      Settles s s' k { s.ctl k with prioOrigin := (s.ctl k).prio, isNew := false } := by
  obtain ⟨s', hs', hsame, hsettled, hrest⟩ := foldlM_views
    ({ s.setCtl k { s.ctl k with prioOrigin := (s.ctl k).prio, isNew := false } with
      log := { s.log with created := s.log.created ++ [k] } })
    h.resNodup (fun s' x v _ hv h => createRes_acts hv h) h.tried
  refine ⟨s', ?_, hsame.created, ⟨hsame.queue, hsame.timedTime, hsame.timedTimeSum, hsame.freed,
    hsame.freedRes⟩, hsame.firstThread, hsame.thisIsFirst, hsame.reports, hsame.ctl, hsettled,
    hrest⟩
  unfold createThread
  dsimp only
  rw [if_neg hprio, if_pos hnew]
  exact hs'

theorem restoreThread_spec {s : AdmisState K R F} {k : K} (h : s.OnlyChanged k)
    (hprio : (s.ctl k).prio ≠ (s.ctl k).prioOrigin) :
    ∃ s', restoreThread s k = some s' ∧ s'.log.created = s.log.created ∧
      Settles s s' k { s.ctl k with prio := (s.ctl k).prioOrigin } := by
  obtain ⟨s', hs', hsame, hsettled, hrest⟩ := foldlM_views
    (s.setCtl k { s.ctl k with prio := (s.ctl k).prioOrigin })
    h.resNodup (fun s' x v _ hv h => restoreRes_acts hv h) h.tried
  refine ⟨s', ?_, hsame.created, ⟨hsame.queue, hsame.timedTime, hsame.timedTimeSum, hsame.freed,
    hsame.freedRes⟩, hsame.firstThread, hsame.thisIsFirst, hsame.reports, hsame.ctl, hsettled,
    hrest⟩
  unfold restoreThread
  dsimp only
  rw [if_neg hprio]
  exact hs'

/-- The loops over the queue pass by all entries but `k`. -/
theorem queueLoop_eq {step : AdmisState K R F → K → Option (AdmisState K R F)}
    {s s' : AdmisState K R F} {k : K} {d : AdmisCtlData R} (h : s.OnlyChanged k)
    (hpass : ∀ s j, (s.ctl j).prio = (s.ctl j).prioOrigin → step s j = some s)
    (hstep : step s k = some s') (hset : Settles s s' k d) :
    s.queue.reverse.foldlM step s = some s' := by
  refine foldlM_only (List.mem_reverse.mpr h.mem) (List.nodup_reverse.mpr h.nodup)
    (fun j hj hne => hpass s j (h.other j (List.mem_reverse.mp hj) hne)) hstep
    fun j hj hne => hpass s' j ?_
  rw [hset.ctl, Function.update_of_ne hne]
  exact h.other j (List.mem_reverse.mp hj) hne

/-- `admis_ctl_create` makes a thread of `k`, whose priority has changed. -/
theorem admisCtlCreate_spec {s : AdmisState K R F} {k : K} (h : s.OnlyChanged k)
    (hnew : (s.ctl k).isNew = true) (hprio : (s.ctl k).prio ≠ (s.ctl k).prioOrigin) :
    ∃ s', s.admisCtlCreate = some s' ∧ s'.log.created = s.log.created ++ [k] ∧
      Settles s s' k { s.ctl k with prioOrigin := (s.ctl k).prio, isNew := false } := by
  obtain ⟨s', hs', hcreated, hset⟩ := createThread_spec h hnew hprio
  have hloop := queueLoop_eq h createThread_pass hs' hset
  unfold admisCtlCreate
  rw [hloop]
  exact ⟨_, rfl, hcreated, ⟨hset.run.queue, hset.run.timedTime, hset.run.timedTimeSum,
    hset.run.freed, hset.run.freedRes⟩, hset.firstThread, hset.thisIsFirst, hset.reports,
    hset.ctl, hset.settled, hset.rest⟩

/-- `admis_ctl_restore` gives `k` its priority back. -/
theorem admisCtlRestore_spec {s : AdmisState K R F} {k : K} (h : s.OnlyChanged k)
    (hprio : (s.ctl k).prio ≠ (s.ctl k).prioOrigin) :
    ∃ s', s.admisCtlRestore = some s' ∧ s'.log.created = s.log.created ∧
      Settles s s' k { s.ctl k with prio := (s.ctl k).prioOrigin } := by
  obtain ⟨s', hs', hcreated, hset⟩ := restoreThread_spec h hprio
  have hloop := queueLoop_eq h restoreThread_pass hs' hset
  unfold admisCtlRestore
  rw [hloop]
  exact ⟨_, rfl, hcreated, ⟨hset.run.queue, hset.run.timedTime, hset.run.timedTimeSum,
    hset.run.freed, hset.run.freedRes⟩, hset.firstThread, hset.thisIsFirst, hset.reports,
    hset.ctl, hset.settled, hset.rest⟩

/-! ### Between two attempts -/

/-- The thread has a table for the resource. -/
def uses (s : AdmisState K R F) (r : R) (k : K) : Bool :=
  decide (r ∈ (s.ctl k).resQueue.map AdmisResData.dpcp)

/-- What holds of the queue between two attempts. A new entry has
`ACORAL_MINI_PRIO`, an admitted one has been given a priority before that, and
each resource counts its users. -/
structure AdmisInv (s : AdmisState K R F) : Prop where
  nodup : s.queue.Nodup
  resNodup : ∀ k ∈ s.queue, ((s.ctl k).resQueue.map AdmisResData.dpcp).Nodup
  prio : ∀ k ∈ s.queue, (s.ctl k).prio = (s.ctl k).prioOrigin
  newPrio : ∀ k ∈ s.queue, (s.ctl k).isNew = true → (s.ctl k).prio = ACORAL_MINI_PRIO
  admittedPrio : ∀ k ∈ s.queue, (s.ctl k).isNew = false → (s.ctl k).prio < ACORAL_MINI_PRIO
  firstThread : s.firstThread = false → ∃ k ∈ s.queue, (s.ctl k).isNew = false
  thisIsFirst : s.thisIsFirst = false
  settled : ∀ k ∈ s.queue, ∀ x ∈ (s.ctl k).resQueue, (s.resAt x.dpcp).Settled
  count : ∀ k ∈ s.queue, ∀ x ∈ (s.ctl k).resQueue,
    (s.dpcp x.dpcp).bindCnt = s.queue.countP (s.uses x.dpcp)
  /-- only a thread that runs holds a resource -/
  stacked : ∀ r, (s.resAt r).stacked = true →
    ∃ k ∈ s.queue, (s.ctl k).isNew = false ∧ s.uses r k = true

/-- Resources that were settled still are, and have the same users. -/
def KeepsRes (s s' : AdmisState K R F) : Prop :=
  ∀ r, ((s.resAt r).Settled → (s'.resAt r).Settled) ∧ (s.resAt r).SameCount (s'.resAt r)

/-- The attempts on `k` up to `s'` have failed. -/
structure Rejected (s s' : AdmisState K R F) : Prop where
  run : SameRun s s'
  firstThread : s'.firstThread = s.firstThread
  thisIsFirst : s'.thisIsFirst = false
  created : s'.log.created = s.log.created
  entry : ∀ j, (s.ctl j).SameEntry (s'.ctl j)
  res : KeepsRes s s'

/-- `k` has become a thread of priority `prio`. -/
structure Accepted (s s' : AdmisState K R F) (k : K) (prio : Nat) : Prop where
  run : SameRun s s'
  firstThread : s'.firstThread = false
  thisIsFirst : s'.thisIsFirst = false
  created : s'.log.created = s.log.created ++ [k]
  entry : ∃ cpu wcrt, s'.ctl k =
    { s.ctl k with cpu := cpu, wcrt := wcrt, prio := prio, prioOrigin := prio, isNew := false }
  other : ∀ j ≠ k, (s.ctl j).SameEntry (s'.ctl j)
  res : KeepsRes s s'

omit [DecidableEq K] in
theorem KeepsRes.trans {s s' s'' : AdmisState K R F} (h : KeepsRes s s') (h' : KeepsRes s' s'') :
    KeepsRes s s'' :=
  fun r => ⟨fun hr => (h' r).1 ((h r).1 hr), (h r).2.trans (h' r).2⟩

omit [DecidableEq K] in
theorem Rejected.trans {s s' s'' : AdmisState K R F} (h : Rejected s s') (h' : Rejected s' s'') :
    Rejected s s'' where
  run := h.run.trans h'.run
  firstThread := h'.firstThread.trans h.firstThread
  thisIsFirst := h'.thisIsFirst
  created := h'.created.trans h.created
  entry j := (h.entry j).trans (h'.entry j)
  res := h.res.trans h'.res

omit [DecidableEq K] in
theorem Rejected.trans_accepted {s s' s'' : AdmisState K R F} {k : K} {prio : Nat}
    (h : Rejected s s') (h' : Accepted s' s'' k prio) : Accepted s s'' k prio where
  run := h.run.trans h'.run
  firstThread := h'.firstThread
  thisIsFirst := h'.thisIsFirst
  created := h'.created.trans (by rw [h.created])
  entry := by
    obtain ⟨cpu, wcrt, hk⟩ := h.entry k
    obtain ⟨cpu', wcrt', hk'⟩ := h'.entry
    exact ⟨cpu', wcrt', by rw [hk', hk]⟩
  other j hj := (h.entry j).trans (h'.other j hj)
  res := h.res.trans h'.res

omit [DecidableEq K] in
/-- The users are read from the queue and the tables. -/
theorem uses_congr {s s' : AdmisState K R F} (h : ∀ j, (s'.ctl j).resQueue = (s.ctl j).resQueue)
    (r : R) : s'.uses r = s.uses r := by
  funext j
  unfold uses
  rw [h j]

omit [DecidableEq K] in
theorem AdmisInv.rejected {s s' : AdmisState K R F} (h : s.AdmisInv) (hrej : Rejected s s') :
    s'.AdmisInv := by
  have hres : ∀ j, (s'.ctl j).resQueue = (s.ctl j).resQueue := fun j => by
    obtain ⟨cpu, wcrt, hj⟩ := hrej.entry j
    rw [hj]
  have hprio : ∀ j, (s'.ctl j).prio = (s.ctl j).prio := fun j => by
    obtain ⟨cpu, wcrt, hj⟩ := hrej.entry j
    rw [hj]
  have hnew : ∀ j, (s'.ctl j).isNew = (s.ctl j).isNew := fun j => by
    obtain ⟨cpu, wcrt, hj⟩ := hrej.entry j
    rw [hj]
  have horigin : ∀ j, (s'.ctl j).prioOrigin = (s.ctl j).prioOrigin := fun j => by
    obtain ⟨cpu, wcrt, hj⟩ := hrej.entry j
    rw [hj]
  have hbind : ∀ r, (s'.dpcp r).bindCnt = (s.dpcp r).bindCnt := fun r => (hrej.res r).2.bindCnt
  constructor
  · rw [hrej.run.queue]; exact h.nodup
  · simp only [hrej.run.queue, hres]; exact h.resNodup
  · simp only [hrej.run.queue, hprio, horigin]; exact h.prio
  · simp only [hrej.run.queue, hprio, hnew]; exact h.newPrio
  · simp only [hrej.run.queue, hprio, hnew]; exact h.admittedPrio
  · simp only [hrej.run.queue, hrej.firstThread, hnew]; exact h.firstThread
  · exact hrej.thisIsFirst
  · simp only [hrej.run.queue, hres]
    exact fun k hk x hx => (hrej.res _).1 (h.settled k hk x hx)
  · simp only [hrej.run.queue, hres, hbind, uses_congr hres]; exact h.count
  · intro r hr
    rw [(hrej.res r).2.stacked] at hr
    simp only [hrej.run.queue, hnew, uses_congr hres]
    exact h.stacked r hr

omit [DecidableEq K] in
theorem Accepted.resQueue {s s' : AdmisState K R F} {k : K} {prio : Nat}
    (h : Accepted s s' k prio) (j : K) : (s'.ctl j).resQueue = (s.ctl j).resQueue := by
  by_cases hj : j = k
  · obtain ⟨cpu, wcrt, hk⟩ := h.entry
    rw [hj, hk]
  · obtain ⟨cpu, wcrt, hj'⟩ := h.other j hj
    rw [hj']

omit [DecidableEq K] in
/-- The entry of `k` is now that of an admitted thread. -/
theorem AdmisInv.accepted {s s' : AdmisState K R F} {k : K} {prio : Nat} (h : s.AdmisInv)
    (hacc : Accepted s s' k prio) (hk : k ∈ s.queue) (hnew : (s.ctl k).isNew = true)
    (hprio : prio < ACORAL_MINI_PRIO) : s'.AdmisInv := by
  have hres := hacc.resQueue
  obtain ⟨cpu, wcrt, hentry⟩ := hacc.entry
  have hnew' : (s'.ctl k).isNew = false := by rw [hentry]
  have hother : ∀ j ≠ k, (s'.ctl j).prio = (s.ctl j).prio ∧
      (s'.ctl j).prioOrigin = (s.ctl j).prioOrigin ∧ (s'.ctl j).isNew = (s.ctl j).isNew := by
    intro j hj
    obtain ⟨cpu', wcrt', hj'⟩ := hacc.other j hj
    rw [hj']
    exact ⟨rfl, rfl, rfl⟩
  have hbind : ∀ r, (s'.dpcp r).bindCnt = (s.dpcp r).bindCnt := fun r => (hacc.res r).2.bindCnt
  refine ⟨?_, ?_, ?_, ?_, ?_, ?_, hacc.thisIsFirst, ?_, ?_, ?_⟩
  · rw [hacc.run.queue]; exact h.nodup
  · simp only [hacc.run.queue, hres]; exact h.resNodup
  · intro j hj
    rw [hacc.run.queue] at hj
    by_cases hjk : j = k
    · rw [hjk, hentry]
    · rw [(hother j hjk).1, (hother j hjk).2.1]
      exact h.prio j hj
  · intro j hj hjnew
    rw [hacc.run.queue] at hj
    by_cases hjk : j = k
    · rw [hjk, hnew'] at hjnew
      exact absurd hjnew Bool.false_ne_true
    · rw [(hother j hjk).1]
      exact h.newPrio j hj ((hother j hjk).2.2 ▸ hjnew)
  · intro j hj hjnew
    rw [hacc.run.queue] at hj
    by_cases hjk : j = k
    · rw [hjk, hentry]
      exact hprio
    · rw [(hother j hjk).1]
      exact h.admittedPrio j hj ((hother j hjk).2.2 ▸ hjnew)
  · exact fun _ => ⟨k, hacc.run.queue ▸ hk, hnew'⟩
  · simp only [hacc.run.queue, hres]
    exact fun j hj x hx => (hacc.res _).1 (h.settled j hj x hx)
  · simp only [hacc.run.queue, hres, hbind, uses_congr hres]; exact h.count
  · intro r hr
    rw [(hacc.res r).2.stacked] at hr
    obtain ⟨j, hj, hjnew, huses⟩ := h.stacked r hr
    have hjk : j ≠ k := by
      rintro rfl
      exact absurd (hnew.symm.trans hjnew) Bool.noConfusion
    refine ⟨j, hacc.run.queue ▸ hj, (hother j hjk).2.2.trans hjnew, ?_⟩
    rw [uses_congr hres]
    exact huses

/-! ### The turn of one thread -/

omit [DecidableEq K] in
/-- What is tried and then settled keeps the resources. -/
theorem Tries.keepsRes {s s₁ s₂ : AdmisState K R F} {k : K} {cpu prio : Nat}
    (h : Tries s s₁ k cpu prio)
    (hsettled : ∀ x ∈ (s₁.ctl k).resQueue,
      (s₂.resAt x.dpcp).Settled ∧ (s₁.resAt x.dpcp).SameCount (s₂.resAt x.dpcp))
    (hrest : ∀ r ∉ (s₁.ctl k).resQueue.map AdmisResData.dpcp, s₂.resAt r = s₁.resAt r) :
    KeepsRes s s₂ := by
  have hres : (s₁.ctl k).resQueue = (s.ctl k).resQueue := by
    obtain ⟨wcrt, hk⟩ := h.entry
    rw [hk]
  intro r
  by_cases hr : r ∈ (s.ctl k).resQueue.map AdmisResData.dpcp
  · obtain ⟨x, hx, rfl⟩ := List.mem_map.mp hr
    obtain ⟨hx', hcount⟩ := hsettled x (hres ▸ hx)
    exact ⟨fun _ => hx', (h.tried x hx).2.trans hcount⟩
  · have hview : s₂.resAt r = s.resAt r := (hrest r (by rwa [hres])).trans (h.rest r hr)
    rw [hview]
    exact ⟨fun hr => hr, ⟨rfl, rfl⟩⟩

omit [DecidableEq K] in
theorem Tries.onlyChanged {s s₁ : AdmisState K R F} {k : K} {cpu prio : Nat}
    (h : Tries s s₁ k cpu prio) (hinv : s.AdmisInv) (hk : k ∈ s.queue) : OnlyChanged s₁ k := by
  obtain ⟨wcrt, hentry⟩ := h.entry
  refine ⟨h.run.queue ▸ hk, h.run.queue ▸ hinv.nodup, ?_, fun j hj hne => ?_, fun x hx => ?_⟩
  · rw [hentry]
    exact hinv.resNodup k hk
  · obtain ⟨cpu', wcrt', hj'⟩ := h.other j hne
    rw [hj']
    exact hinv.prio j (h.run.queue ▸ hj)
  · rw [hentry] at hx
    exact (h.tried x hx).1

omit [DecidableEq K] [DecidableEq R] in
theorem forgetFirst_eq {s : AdmisState K R F} {first : Bool} (hfirst : s.firstThread = false)
    (hthis : s.thisIsFirst = first) :
    s.forgetFirst = { s with thisIsFirst := false, firstThread := first } := by
  subst hthis
  unfold forgetFirst
  split
  · rename_i h
    rw [h]
  · rename_i h
    rw [Bool.not_eq_true] at h
    cases s
    simp_all

omit [DecidableEq K] in
theorem Tries.prio_ne {s s₁ : AdmisState K R F} {k : K} {cpu prio : Nat}
    (h : Tries s s₁ k cpu prio) (hinv : s.AdmisInv) (hk : k ∈ s.queue)
    (hnew : (s.ctl k).isNew = true) (hlt : prio < ACORAL_MINI_PRIO) :
    (s₁.ctl k).prio ≠ (s₁.ctl k).prioOrigin := by
  obtain ⟨wcrt, hentry⟩ := h.entry
  have horigin : (s.ctl k).prioOrigin = ACORAL_MINI_PRIO :=
    (hinv.prio k hk).symm.trans (hinv.newPrio k hk hnew)
  rw [hentry]
  show prio ≠ (s.ctl k).prioOrigin
  omega

/-- An answer that accepts makes a thread of `k`. -/
theorem Tries.create {s s₁ : AdmisState K R F} {k : K} {cpu prio : Nat}
    (h : Tries s s₁ k cpu prio) (hinv : s.AdmisInv) (hk : k ∈ s.queue)
    (hnew : (s.ctl k).isNew = true) (hlt : prio < ACORAL_MINI_PRIO) :
    ∃ s', ({ s₁ with thisIsFirst := false } : AdmisState K R F).admisCtlCreate = some s' ∧
      Accepted s (s'.report k true) k prio ∧
      (s'.report k true).log.reports = s.log.reports ++ [(k, cpu, true)] := by
  have honly := h.onlyChanged hinv hk
  obtain ⟨wcrt, hentry⟩ := h.entry
  have hnew₁ : (s₁.ctl k).isNew = true := by rw [hentry]; exact hnew
  obtain ⟨s', hs', hcreated, hset⟩ := admisCtlCreate_spec
    (s := { s₁ with thisIsFirst := false }) (k := k)
    ⟨honly.mem, honly.nodup, honly.resNodup, honly.other, honly.tried⟩ hnew₁
    (h.prio_ne hinv hk hnew hlt)
  have hctl : s'.ctl k = { s₁.ctl k with prioOrigin := (s₁.ctl k).prio, isNew := false } := by
    rw [hset.ctl, Function.update_self]
  rw [hentry] at hctl
  refine ⟨s', hs', ⟨?_, ?_, ?_, ?_, ⟨cpu, wcrt, hctl⟩, fun j hj => ?_, ?_⟩, ?_⟩
  · exact h.run.trans ⟨hset.run.queue, hset.run.timedTime, hset.run.timedTimeSum, hset.run.freed,
      hset.run.freedRes⟩
  · exact hset.firstThread.trans h.firstThread
  · exact hset.thisIsFirst
  · exact hcreated.trans (congrArg (· ++ [k]) h.created)
  · show (s.ctl j).SameEntry (s'.ctl j)
    rw [hset.ctl, Function.update_of_ne hj]
    exact h.other j hj
  · exact h.keepsRes hset.settled hset.rest
  · show s'.log.reports ++ [(k, (s'.ctl k).cpu, true)] = _
    rw [hctl, hset.reports]
    exact congrArg (· ++ [(k, cpu, true)]) h.reports

/-- An answer that rejects leaves `k` as it was. -/
theorem Tries.restore {s s₁ : AdmisState K R F} {k : K} {cpu prio : Nat}
    (h : Tries s s₁ k cpu prio) (hinv : s.AdmisInv) (hk : k ∈ s.queue)
    (hnew : (s.ctl k).isNew = true) (hlt : prio < ACORAL_MINI_PRIO) :
    ∃ s', (s₁.forgetFirst.report k false).admisCtlRestore = some s' ∧ Rejected s s' ∧
      s'.log.reports = s.log.reports ++ [(k, cpu, false)] := by
  have honly := h.onlyChanged hinv hk
  obtain ⟨wcrt, hentry⟩ := h.entry
  rw [forgetFirst_eq h.firstThread h.thisIsFirst]
  obtain ⟨s', hs', hcreated, hset⟩ := admisCtlRestore_spec
    (s := report { s₁ with thisIsFirst := false, firstThread := s.firstThread } k false) (k := k)
    ⟨honly.mem, honly.nodup, honly.resNodup, honly.other, honly.tried⟩
    (h.prio_ne hinv hk hnew hlt)
  have hctl : s'.ctl k = { s₁.ctl k with prio := (s₁.ctl k).prioOrigin } := by
    rw [hset.ctl, Function.update_self]
    rfl
  refine ⟨s', hs', ⟨?_, hset.firstThread, hset.thisIsFirst, hcreated.trans h.created,
    fun j => ?_, h.keepsRes hset.settled hset.rest⟩, ?_⟩
  · exact h.run.trans ⟨hset.run.queue, hset.run.timedTime, hset.run.timedTimeSum, hset.run.freed,
      hset.run.freedRes⟩
  · by_cases hj : j = k
    · subst hj
      refine ⟨cpu, wcrt, ?_⟩
      rw [hctl, hentry, hinv.prio j hk]
    · rw [hset.ctl, Function.update_of_ne hj]
      exact h.other j hj
  · rw [hset.reports]
    show s₁.log.reports ++ [(k, (s₁.ctl k).cpu, false)] = _
    rw [hentry, h.reports]

omit [DecidableEq K] in
theorem Rejected.refl {s : AdmisState K R F} (hthis : s.thisIsFirst = false) : Rejected s s :=
  ⟨⟨rfl, rfl, rfl, rfl, fun _ h => h⟩, rfl, hthis, rfl, fun _ => .refl _, fun _ => ⟨id, rfl, rfl⟩⟩

omit [DecidableEq K] in
theorem Rejected.setTaskCnt {s : AdmisState K R F} (hthis : s.thisIsFirst = false) (n : BitVec 8) :
    Rejected s { s with taskCnt := n } :=
  ⟨⟨rfl, rfl, rfl, rfl, fun _ h => h⟩, rfl, hthis, rfl, fun _ => .refl _, fun _ => ⟨id, rfl, rfl⟩⟩

omit [DecidableEq K] in
theorem Rejected.sameJobs {s s' : AdmisState K R F} (h : Rejected s s') :
    s.SameJobs s'.toAdmisTables where
  queue := by rw [h.run.queue]; exact fun _ hj => hj
  timedTime := h.run.timedTime
  timedTimeSum := h.run.timedTimeSum
  dlTime j _ := by
    obtain ⟨cpu, wcrt, hj⟩ := h.entry j
    rw [hj]

omit [DecidableEq K] in
theorem Accepted.sameJobs {s s' : AdmisState K R F} {k : K} {prio : Nat}
    (h : Accepted s s' k prio) : s.SameJobs s'.toAdmisTables where
  queue := by rw [h.run.queue]; exact fun _ hj => hj
  timedTime := h.run.timedTime
  timedTimeSum := h.run.timedTimeSum
  dlTime j _ := by
    by_cases hj : j = k
    · obtain ⟨cpu, wcrt, hk⟩ := h.entry
      rw [hj, hk]
    · obtain ⟨cpu, wcrt, hj'⟩ := h.other j hj
      rw [hj']

/-- A failed attempt does not change the priority that `k` gets. -/
theorem Rejected.getsPrio {s s' : AdmisState K R F} {k : K} {prio : Nat} (h : Rejected s s')
    (hprio : s.GetsPrio k prio) : s'.GetsPrio k prio := by
  have hmid : s'.midPrio k = s.midPrio k := midPrio_congr h.run.queue
    (fun j => by
      obtain ⟨cpu, wcrt, hj⟩ := h.entry j
      rw [hj]) k
  unfold GetsPrio
  rw [h.firstThread, hmid]
  exact hprio

section
variable [Zero F] [Add F] [Sub F] [Div F] [NatCast F]

/-- The loop over the CPUs stops at the first one that is accepted. -/
theorem tryCpus_spec {ansys : AdmisTables K R → Option (Bool × AdmisTables K R)} {k : K}
    {prio : Nat} (hlt : prio < ACORAL_MINI_PRIO) (cpus : List Nat)
    (hcpus : ∀ cpu ∈ cpus, cpu < CFG_MAX_CPU) {s : AdmisState K R F} (hinv : s.AdmisInv)
    (hansys : Analysis ansys s.toAdmisTables) (hk : k ∈ s.queue) (hnew : (s.ctl k).isNew = true)
    (hprio : s.GetsPrio k prio) :
    ∃ s', tryCpus ansys k cpus s = some s' ∧
      ((Rejected s s' ∧ s'.log.reports = s.log.reports ++ cpus.map fun cpu => (k, cpu, false)) ∨
        ∃ cpus₁ cpu cpus₂, cpus = cpus₁ ++ cpu :: cpus₂ ∧ Accepted s s' k prio ∧
          s'.log.reports =
            s.log.reports ++ (cpus₁.map fun cpu => (k, cpu, false)) ++ [(k, cpu, true)]) := by
  induction cpus generalizing s with
  | nil => exact ⟨s, rfl, .inl ⟨.refl hinv.thisIsFirst, (List.append_nil _).symm⟩⟩
  | cons cpu cpus ih =>
      obtain ⟨ok, s₁, h₁, htries, -⟩ := tryCpu_spec hansys hprio hinv.thisIsFirst
        (hcpus cpu List.mem_cons_self) hnew (hinv.resNodup k hk) (hinv.settled k hk)
      unfold tryCpus
      rw [h₁, Option.bind_some]
      dsimp only
      cases ok with
      | true =>
          obtain ⟨s', hs', hacc, hreports⟩ := htries.create hinv hk hnew hlt
          rw [if_pos rfl, hs', Option.map_some]
          refine ⟨_, rfl, .inr ⟨[], cpu, cpus, rfl, hacc, ?_⟩⟩
          rw [hreports, List.map_nil, List.append_nil]
      | false =>
          obtain ⟨s₂, h₂, hrej, hreports⟩ := htries.restore hinv hk hnew hlt
          have hnew₂ : (s₂.ctl k).isNew = true := by
            obtain ⟨cpu', wcrt, hk'⟩ := hrej.entry k
            rw [hk']
            exact hnew
          obtain ⟨s', hs', hout⟩ := ih (fun c hc => hcpus c (List.mem_cons_of_mem cpu hc))
            (hinv.rejected hrej) (hansys.of_sameJobs hrej.sameJobs) (hrej.run.queue ▸ hk) hnew₂
            (hrej.getsPrio hprio)
          rw [if_neg Bool.false_ne_true, h₂, Option.bind_some]
          refine ⟨s', hs', ?_⟩
          rcases hout with ⟨hrej', hreports'⟩ | ⟨cpus₁, c, cpus₂, rfl, hacc, hreports'⟩
          · refine .inl ⟨hrej.trans hrej', ?_⟩
            rw [hreports', hreports, List.map_cons, List.append_assoc, List.singleton_append]
          · refine .inr ⟨cpu :: cpus₁, c, cpus₂, rfl, hrej.trans_accepted hacc, ?_⟩
            simp [hreports', hreports]

end

end AdmisState

end ACoral
