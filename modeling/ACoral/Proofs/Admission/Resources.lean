import ACoral.Kernel.AdmisTask
import Mathlib.Data.List.Nodup

/-!
# `ACoral.Proofs.Admission.Resources`: the resources in an attempt

Each loop over the resources of a thread does one thing to every resource
and leaves the other resources alone. What it does to a resource is stated
on `ResView`, which is all that the loops read of it.

A resource is `Settled` between two attempts, and `Tried` from the moment an
attempt has seen it until it is made real or taken back.

- `tryRes_acts`, `createRes_acts`, `restoreRes_acts`, `releaseRes_acts`: what
  each loop does to one resource.
- `foldlM_acts`: what it does to all of them.
-/

set_option autoImplicit false

namespace ACoral

namespace AdmisState

variable {K R F : Type}

/-! ### Frames -/

/-- Only resources, loads and requests have changed, and some of their tables
may have been freed. -/
structure SameThreads (s s' : AdmisState K R F) : Prop where
  queue : s'.queue = s.queue
  ctl : s'.ctl = s.ctl
  timedTime : s'.timedTime = s.timedTime
  timedTimeSum : s'.timedTimeSum = s.timedTimeSum
  firstThread : s'.firstThread = s.firstThread
  thisIsFirst : s'.thisIsFirst = s.thisIsFirst
  reports : s'.log.reports = s.log.reports
  created : s'.log.created = s.log.created
  freed : s'.log.freed = s.log.freed
  freedRes : s.log.freedRes ⊆ s'.log.freedRes

theorem SameThreads.refl (s : AdmisState K R F) : SameThreads s s :=
  ⟨rfl, rfl, rfl, rfl, rfl, rfl, rfl, rfl, rfl, fun _ h => h⟩

theorem SameThreads.trans {s s' s'' : AdmisState K R F} (h : SameThreads s s')
    (h' : SameThreads s' s'') : SameThreads s s'' where
  queue := h'.queue.trans h.queue
  ctl := h'.ctl.trans h.ctl
  timedTime := h'.timedTime.trans h.timedTime
  timedTimeSum := h'.timedTimeSum.trans h.timedTimeSum
  firstThread := h'.firstThread.trans h.firstThread
  thisIsFirst := h'.thisIsFirst.trans h.thisIsFirst
  reports := h'.reports.trans h.reports
  created := h'.created.trans h.created
  freed := h'.freed.trans h.freed
  freedRes := fun _ hx => h'.freedRes (h.freedRes hx)

variable [DecidableEq R]

/-! ### Queues -/

theorem lifoMem_iff {q : CeilingType → Nat → List R} {r : R} :
    lifoMem q r = true ↔ ∃ t, ∃ cpu < CFG_MAX_CPU, r ∈ q t cpu := by
  unfold lifoMem
  rw [List.any_eq_true]
  constructor
  · rintro ⟨cpu, hcpu, h⟩
    rw [Bool.or_eq_true, decide_eq_true_iff, decide_eq_true_iff] at h
    rcases h with h | h
    · exact ⟨.LOCAL, cpu, List.mem_range.mp hcpu, h⟩
    · exact ⟨.GLOBAL, cpu, List.mem_range.mp hcpu, h⟩
  · rintro ⟨t, cpu, hcpu, h⟩
    refine ⟨cpu, List.mem_range.mpr hcpu, ?_⟩
    cases t <;> simp [h]

theorem lifoMem_lifoDel (q : CeilingType → Nat → List R) (r : R) : lifoMem (lifoDel q r) r = false := by
  rw [← Bool.not_eq_true, lifoMem_iff]
  rintro ⟨t, cpu, -, h⟩
  exact absurd rfl (of_decide_eq_true (List.mem_filter.mp h).2)

theorem lifoMem_lifoDel_of_ne (q : CeilingType → Nat → List R) {r r' : R} (h : r' ≠ r) :
    lifoMem (lifoDel q r) r' = lifoMem q r' := by
  rw [Bool.eq_iff_iff, lifoMem_iff, lifoMem_iff]
  simp [lifoDel, List.mem_filter, h]

theorem lifoMem_lifoAdd (q : CeilingType → Nat → List R) (type : CeilingType) {cpu : Nat}
    (hcpu : cpu < CFG_MAX_CPU) (r : R) : lifoMem (lifoAdd q type cpu r) r = true :=
  lifoMem_iff.mpr ⟨type, cpu, hcpu, by simp [lifoAdd]⟩

theorem lifoMem_lifoAdd_of_ne (q : CeilingType → Nat → List R) (type : CeilingType) (cpu : Nat)
    {r r' : R} (h : r' ≠ r) : lifoMem (lifoAdd q type cpu r) r' = lifoMem q r' := by
  have hmem : ∀ t c, r' ∈ lifoAdd q type cpu r t c ↔ r' ∈ q t c := by
    intro t c
    unfold lifoAdd
    split <;> simp [h]
  rw [Bool.eq_iff_iff, lifoMem_iff, lifoMem_iff]
  simp [hmem]

/-! ### Views -/

/-- What a loop reads of one resource. -/
structure ResView where
  live : Bool
  dpcp : AdmisDpcp
  linked : Bool
  stacked : Bool

/-- The view of `r`. -/
def resAt (s : AdmisState K R F) (r : R) : ResView := 
  ⟨s.live r, s.dpcp r, lifoMem s.dpcpQueue r, lifoMem s.dpcpStack r⟩

/-- Of the resources only `r` has changed, and its view is `v` now. -/
structure Acts (r : R) (s s' : AdmisState K R F) (v : ResView) : Prop where
  same : SameThreads s s'
  view : s'.resAt r = v
  other : ∀ r' ≠ r, s'.resAt r' = s.resAt r'

theorem Acts.refl {s : AdmisState K R F} {r : R} {v : ResView} (hv : s.resAt r = v) :
    Acts r s s v := ⟨.refl s, hv, fun _ _ => rfl⟩

theorem Acts.trans {r : R} {s s' s'' : AdmisState K R F} {v v' : ResView} (h : Acts r s s' v)
    (h' : Acts r s' s'' v') : Acts r s s'' v' where
  same := h.same.trans h'.same
  view := h'.view
  other r' hr := (h'.other r' hr).trans (h.other r' hr)

theorem Acts.dpcp {r : R} {s s' : AdmisState K R F} {v : ResView} (h : Acts r s s' v) :
    s'.dpcp r = v.dpcp := congrArg ResView.dpcp h.view

theorem setDpcp_acts {s : AdmisState K R F} {r : R} {v : ResView} (hv : s.resAt r = v)
    (d : AdmisDpcp) : Acts r s (s.setDpcp r d) { v with dpcp := d } where
  same := ⟨rfl, rfl, rfl, rfl, rfl, rfl, rfl, rfl, rfl, fun _ h => h⟩
  view := by
    rw [← hv]
    simp [resAt, setDpcp]
  other r' hr := by simp [resAt, setDpcp, hr]

theorem addLoad_acts {s : AdmisState K R F} {r : R} {v : ResView} (hv : s.resAt r = v) (cpu : Nat)
    (op : F → F) : Acts r s (s.addLoad cpu op) v :=
  ⟨⟨rfl, rfl, rfl, rfl, rfl, rfl, rfl, rfl, rfl, fun _ h => h⟩, hv, fun _ _ => rfl⟩

theorem request_acts {s : AdmisState K R F} {r : R} {v : ResView} (hv : s.resAt r = v)
    (q : AdmisRequest K R) : Acts r s (s.request q) v :=
  ⟨⟨rfl, rfl, rfl, rfl, rfl, rfl, rfl, rfl, rfl, fun _ h => h⟩, hv, fun _ _ => rfl⟩

theorem lifoQueueDel_acts {s : AdmisState K R F} {cpu : Nat} {r : R} {v : ResView}
    (hv : s.resAt r = v) (hcpu : cpu < CFG_MAX_CPU) (hlinked : v.linked = true) :
    ∃ s', s.lifoQueueDel cpu r = some s' ∧ Acts r s s' { v with linked := false } := by
  subst hv
  refine ⟨_, if_pos ⟨hcpu, hlinked⟩, ⟨rfl, rfl, rfl, rfl, rfl, rfl, rfl, rfl, rfl, fun _ h => h⟩,
    ?_, fun r' hr => ?_⟩
  · simp [resAt, lifoMem_lifoDel]
  · simp [resAt, lifoMem_lifoDel_of_ne _ hr]

theorem lifoQueueAdd_acts {s : AdmisState K R F} {cpu : Nat} {r : R} {v : ResView}
    (hv : s.resAt r = v) (type : CeilingType) (hcpu : cpu < CFG_MAX_CPU)
    (hlinked : v.linked = false) :
    ∃ s', s.lifoQueueAdd type cpu r = some s' ∧ Acts r s s' { v with linked := true } := by
  subst hv
  refine ⟨_, if_pos ⟨hcpu, hlinked⟩, ⟨rfl, rfl, rfl, rfl, rfl, rfl, rfl, rfl, rfl, fun _ h => h⟩,
    ?_, fun r' hr => ?_⟩
  · simp [resAt, lifoMem_lifoAdd _ _ hcpu]
  · simp [resAt, lifoMem_lifoAdd_of_ne _ _ _ hr]

/-- A node is moved to the queue of another type. -/
theorem lifoQueueMove_acts {s : AdmisState K R F} {cpu : Nat} {r : R} {v : ResView}
    (hv : s.resAt r = v) (type : CeilingType) (hcpu : cpu < CFG_MAX_CPU)
    (hlinked : v.linked = true) :
    ∃ s', ((s.lifoQueueDel cpu r).bind fun s => s.lifoQueueAdd type cpu r) = some s' ∧
      Acts r s s' v := by
  obtain ⟨s₁, h₁, hacts₁⟩ := lifoQueueDel_acts hv hcpu hlinked
  obtain ⟨s₂, h₂, hacts₂⟩ := lifoQueueAdd_acts hacts₁.view type hcpu rfl
  have hback : ({ v with linked := true } : ResView) = v := by rw [← hlinked]
  exact ⟨s₂, by rw [h₁]; exact h₂, hback ▸ hacts₁.trans hacts₂⟩

theorem dpcpSet_acts {s : AdmisState K R F} {r : R} {v : ResView} (hv : s.resAt r = v)
    (type : CeilingType) (prioCeiling : Nat) (hcpu : v.dpcp.cpu < CFG_MAX_CPU)
    (hlinked : v.linked = true) :
    ∃ s', s.dpcpSet r type prioCeiling = some s' ∧
      Acts r s s' { v with dpcp := { v.dpcp with type := type, prioCeiling := prioCeiling } } := by
  have hd : s.dpcp r = v.dpcp := congrArg ResView.dpcp hv
  unfold dpcpSet
  dsimp only
  rw [hd]
  split
  · rename_i htop
    -- the node leaves its stack and enters another, so it is `stacked` as before
    have hstack : Acts r s
        { s with dpcpStack := lifoAdd (lifoDel s.dpcpStack r) type v.dpcp.cpu r } v := by
      refine ⟨⟨rfl, rfl, rfl, rfl, rfl, rfl, rfl, rfl, rfl, fun _ h => h⟩, ?_, fun r' hr => ?_⟩
      · have hmem : lifoMem s.dpcpStack r = true :=
          lifoMem_iff.mpr ⟨_, _, hcpu, List.mem_of_mem_head? htop.1⟩
        rw [← hd] at hcpu ⊢
        rw [← hv]
        simp [resAt, lifoMem_lifoAdd _ _ hcpu, hmem]
      · simp [resAt, lifoMem_lifoAdd_of_ne _ _ _ hr, lifoMem_lifoDel_of_ne _ hr]
    obtain ⟨s₁, h₁, hacts₁⟩ := lifoQueueMove_acts hstack.view type hcpu hlinked
    exact ⟨_, by rw [h₁]; rfl, (hstack.trans hacts₁).trans (setDpcp_acts hacts₁.view _)⟩
  · exact ⟨_, rfl, setDpcp_acts hv _⟩

theorem dpcpDel_acts {s : AdmisState K R F} {r : R} {v : ResView} (hv : s.resAt r = v)
    (hstacked : v.stacked = false) :
    ∃ s', s.dpcpDel r = some s' ∧ Acts r s s' { v with live := false } := by
  subst hv
  refine ⟨_, if_pos hstacked, ⟨rfl, rfl, rfl, rfl, rfl, rfl, rfl, rfl, rfl, fun _ h => h⟩,
    ?_, fun r' hr => ?_⟩
  · simp [resAt]
  · simp [resAt, hr]

/-! ### Settled and tried -/

/-- A resource between two attempts: a bound one is in a queue of its CPU,
any other in none. -/
structure ResView.Settled (v : ResView) : Prop where
  live : v.live = true
  bound : v.dpcp.cpuIsBind = true → v.dpcp.cpu < CFG_MAX_CPU ∧ v.linked = true
  free : v.dpcp.cpuIsBind = false →
    v.dpcp.cpu = UNBIND_CPU ∧ v.dpcp.typeCache = v.dpcp.type ∧ v.linked = false

/-- A resource that an attempt has seen. -/
structure ResView.Tried (v : ResView) : Prop where
  live : v.live = true
  cpu : v.dpcp.cpu < CFG_MAX_CPU
  linked : v.linked = true
  free : v.dpcp.cpuIsBind = false → v.dpcp.typeCache = v.dpcp.type

/-- The number of users and the place in the stacks are the same. -/
structure ResView.SameCount (v v' : ResView) : Prop where
  bindCnt : v'.dpcp.bindCnt = v.dpcp.bindCnt
  stacked : v'.stacked = v.stacked

omit [DecidableEq R] in
theorem ResView.SameCount.trans {v v' v'' : ResView} (h : v.SameCount v') (h' : v'.SameCount v'') :
    v.SameCount v'' :=
  ⟨h'.bindCnt.trans h.bindCnt, h'.stacked.trans h.stacked⟩

section
variable [Zero F] [Add F] [Div F] [NatCast F]

theorem bindRes_acts {s : AdmisState K R F} {cpu : Nat} {r : R} {v : ResView}
    (hv : s.resAt r = v) (hcpu : cpu < CFG_MAX_CPU) (h : v.Settled) :
    ∃ s' v', s.bindRes cpu r = some s' ∧ Acts r s s' v' ∧ v'.Tried ∧ v.SameCount v' := by
  have hd : s.dpcp r = v.dpcp := congrArg ResView.dpcp hv
  unfold bindRes
  dsimp only
  rw [hd]
  rcases Bool.eq_false_or_eq_true v.dpcp.cpuIsBind with hbind | hbind
  · obtain ⟨hbound, hlinked⟩ := h.bound hbind
    have htried : ∀ d : AdmisDpcp, d.cpu = v.dpcp.cpu → d.cpuIsBind = v.dpcp.cpuIsBind →
        ({ v with dpcp := d } : ResView).Tried := by
      intro d hcpu' hbind'
      exact ⟨h.live, hcpu' ▸ hbound, hlinked,
        fun h' => absurd (h'.symm.trans (hbind'.trans hbind)) Bool.false_ne_true⟩
    have hnot : v.dpcp.cpu ≠ UNBIND_CPU := by
      intro h'
      exact absurd (h' ▸ hbound : UNBIND_CPU < CFG_MAX_CPU) (by decide)
    rw [if_neg hnot]
    split
    · have hset := (setDpcp_acts hv { v.dpcp with typeCache := .GLOBAL })
      have hload := hset.trans (addLoad_acts hset.view v.dpcp.cpu
        (· + (s.setDpcp r { v.dpcp with typeCache := .GLOBAL }).uGTime r))
      obtain ⟨s', hs', hacts⟩ := lifoQueueMove_acts hload.view .GLOBAL hbound hlinked
      exact ⟨s', _, hs', hload.trans hacts, htried _ rfl rfl, ⟨rfl, rfl⟩⟩
    · exact ⟨s, v, rfl, .refl hv, htried _ rfl rfl, ⟨rfl, rfl⟩⟩
  · obtain ⟨hunbind, htype, hlinked⟩ := h.free hbind
    rw [if_pos hunbind]
    have hset := setDpcp_acts hv { v.dpcp with cpu := cpu }
    obtain ⟨s', hs', hacts⟩ := lifoQueueAdd_acts hset.view .LOCAL hcpu hlinked
    exact ⟨s', _, hs', hset.trans hacts, ⟨h.live, hcpu, rfl, fun _ => htype⟩, ⟨rfl, rfl⟩⟩

variable [Sub F]

omit [Zero F] [Add F] in
theorem cacheRes_acts {s : AdmisState K R F} {x : AdmisResData R} {v : ResView}
    (hv : s.resAt x.dpcp = v) (k : K) :
    ∃ c, Acts x.dpcp s (s.cacheRes k x) { v with dpcp := { v.dpcp with ceilingCache := c } } := by
  have hd : s.dpcp x.dpcp = v.dpcp := congrArg ResView.dpcp hv
  unfold cacheRes
  dsimp only
  rw [hd]
  have hset := setDpcp_acts hv { v.dpcp with
    ceilingCache := if (s.ctl k).prio < v.dpcp.ceilingCache then (s.ctl k).prio
      else v.dpcp.ceilingCache }
  split
  · exact ⟨_, hset.trans (addLoad_acts hset.view _ _)⟩
  · exact ⟨_, hset⟩

theorem tryRes_acts {s : AdmisState K R F} {k : K} {x : AdmisResData R} {v : ResView}
    (hv : s.resAt x.dpcp = v) (hcpu : (s.ctl k).cpu < CFG_MAX_CPU) (h : v.Settled) :
    ∃ s' v', tryRes k s x = some s' ∧ Acts x.dpcp s s' v' ∧ v'.Tried ∧ v.SameCount v' := by
  have hlive : s.live x.dpcp = true := (congrArg ResView.live hv).trans h.live
  obtain ⟨s₁, v₁, h₁, hacts₁, htried, hcount⟩ := bindRes_acts hv hcpu h
  obtain ⟨c, hacts⟩ := cacheRes_acts hacts₁.view k
  refine ⟨s₁.cacheRes k x, _, ?_, hacts₁.trans hacts,
    ⟨htried.live, htried.cpu, htried.linked, htried.free⟩, ⟨hcount.bindCnt, hcount.stacked⟩⟩
  unfold tryRes
  rw [if_neg (by rw [hlive]; exact Bool.noConfusion), h₁]
  rfl

end

theorem createRes_acts {s : AdmisState K R F} {x : AdmisResData R} {v : ResView}
    (hv : s.resAt x.dpcp = v) (h : v.Tried) :
    ∃ s' v', createRes s x = some s' ∧ Acts x.dpcp s s' v' ∧ v'.Settled ∧ v.SameCount v' := by
  have hlive : s.live x.dpcp = true := (congrArg ResView.live hv).trans h.live
  have hd : s.dpcp x.dpcp = v.dpcp := congrArg ResView.dpcp hv
  have hset := setDpcp_acts hv { v.dpcp with cpuIsBind := true }
  have hsettled : ∀ d : AdmisDpcp, d.cpu = v.dpcp.cpu → d.cpuIsBind = true →
      ({ v with dpcp := d } : ResView).Settled := by
    intro d hcpu hbind
    exact ⟨h.live, fun _ => ⟨hcpu ▸ h.cpu, h.linked⟩,
      fun h' => absurd (h'.symm.trans hbind) Bool.false_ne_true⟩
  unfold createRes
  dsimp only
  rw [if_neg (by rw [hlive]; exact Bool.noConfusion), hd, hset.dpcp]
  dsimp only
  split
  · split
    · have hreq := hset.trans (request_acts hset.view
        (.changeRes x.dpcp v.dpcp.typeCache v.dpcp.ceilingCache))
      obtain ⟨s', hs', hacts⟩ := dpcpSet_acts hreq.view v.dpcp.typeCache v.dpcp.ceilingCache
        h.cpu h.linked
      exact ⟨s', _, hs', hreq.trans hacts, hsettled _ rfl rfl, ⟨rfl, rfl⟩⟩
    · exact ⟨_, _, rfl, hset.trans (request_acts hset.view _), hsettled _ rfl rfl, ⟨rfl, rfl⟩⟩
  · exact ⟨_, _, rfl, hset, hsettled _ rfl rfl, ⟨rfl, rfl⟩⟩

theorem unbindRes_acts {s : AdmisState K R F} {r : R} {v : ResView} (hv : s.resAt r = v)
    (h : v.Tried) :
    ∃ s' v', s.unbindRes r = some s' ∧ Acts r s s' v' ∧ v'.Settled ∧ v.SameCount v' := by
  have hd : s.dpcp r = v.dpcp := congrArg ResView.dpcp hv
  unfold unbindRes
  dsimp only
  rw [hd]
  rcases Bool.eq_false_or_eq_true v.dpcp.cpuIsBind with hbind | hbind
  · rw [if_neg (by rw [hbind]; exact Bool.noConfusion)]
    exact ⟨s, v, rfl, .refl hv, ⟨h.live, fun _ => ⟨h.cpu, h.linked⟩,
      fun h' => absurd (h'.symm.trans hbind) Bool.false_ne_true⟩, ⟨rfl, rfl⟩⟩
  · rw [if_pos hbind]
    obtain ⟨s₁, h₁, hacts₁⟩ := lifoQueueDel_acts hv h.cpu h.linked
    have hset := hacts₁.trans (setDpcp_acts hacts₁.view { v.dpcp with cpu := UNBIND_CPU })
    refine ⟨_, _, by rw [h₁]; rfl, hset, ⟨h.live, fun h' => ?_,
      fun _ => ⟨rfl, h.free hbind, rfl⟩⟩, ⟨rfl, rfl⟩⟩
    exact absurd (hbind.symm.trans h') Bool.false_ne_true

theorem uncacheRes_acts {s : AdmisState K R F} {r : R} {v : ResView} (hv : s.resAt r = v)
    (h : v.Settled) :
    ∃ s' v', s.uncacheRes r = some s' ∧ Acts r s s' v' ∧ v'.Settled ∧ v.SameCount v' := by
  have hd : s.dpcp r = v.dpcp := congrArg ResView.dpcp hv
  have hset := setDpcp_acts hv { v.dpcp with ceilingCache := v.dpcp.prioCeiling }
  unfold uncacheRes
  dsimp only
  rw [hd, hset.dpcp]
  dsimp only
  split
  · rename_i htype
    -- only a bound resource has changed its type
    have hbind : v.dpcp.cpuIsBind = true := by
      by_contra hbind
      exact htype (h.free (Bool.not_eq_true _ ▸ hbind)).2.1
    obtain ⟨hbound, hlinked⟩ := h.bound hbind
    have hset' := hset.trans (setDpcp_acts hset.view
      { v.dpcp with ceilingCache := v.dpcp.prioCeiling, typeCache := v.dpcp.type })
    obtain ⟨s', hs', hacts⟩ := lifoQueueMove_acts hset'.view v.dpcp.type hbound hlinked
    exact ⟨s', _, hs', hset'.trans hacts, ⟨h.live, fun _ => ⟨hbound, hlinked⟩,
      fun h' => absurd (h'.symm.trans hbind) Bool.false_ne_true⟩, ⟨rfl, rfl⟩⟩
  · exact ⟨_, _, rfl, hset, ⟨h.live, h.bound, h.free⟩, ⟨rfl, rfl⟩⟩

theorem restoreRes_acts {s : AdmisState K R F} {x : AdmisResData R} {v : ResView}
    (hv : s.resAt x.dpcp = v) (h : v.Tried) :
    ∃ s' v', restoreRes s x = some s' ∧ Acts x.dpcp s s' v' ∧ v'.Settled ∧ v.SameCount v' := by
  have hlive : s.live x.dpcp = true := (congrArg ResView.live hv).trans h.live
  obtain ⟨s₁, v₁, h₁, hacts₁, hsettled₁, hcount₁⟩ := unbindRes_acts hv h
  unfold restoreRes
  dsimp only
  rw [if_neg (by rw [hlive]; exact Bool.noConfusion), h₁, Option.bind_some]
  split
  · obtain ⟨s₂, v₂, h₂, hacts₂, hsettled₂, hcount₂⟩ := uncacheRes_acts hacts₁.view hsettled₁
    exact ⟨s₂, v₂, h₂, hacts₁.trans hacts₂, hsettled₂, hcount₁.trans hcount₂⟩
  · exact ⟨s₁, v₁, rfl, hacts₁, hsettled₁, hcount₁⟩

theorem deleteRes_acts {s : AdmisState K R F} {r : R} {v : ResView} (hv : s.resAt r = v)
    (h : v.Settled) (hstacked : v.stacked = false) :
    ∃ s' v', s.deleteRes r = some s' ∧ Acts r s s' v' ∧ v'.stacked = false := by
  have hd : s.dpcp r = v.dpcp := congrArg ResView.dpcp hv
  unfold deleteRes
  dsimp only
  rw [hd]
  split
  · rename_i hbind
    obtain ⟨hbound, hlinked⟩ := h.bound hbind
    obtain ⟨s₁, h₁, hacts₁⟩ := lifoQueueDel_acts hv hbound hlinked
    have hset := hacts₁.trans (setDpcp_acts hacts₁.view { v.dpcp with cpu := UNBIND_CPU })
    obtain ⟨s', hs', hacts⟩ := dpcpDel_acts hset.view hstacked
    exact ⟨s', _, by rw [h₁]; exact hs', hset.trans hacts, hstacked⟩
  · obtain ⟨s', hs', hacts⟩ := dpcpDel_acts hv hstacked
    exact ⟨s', _, hs', hacts, hstacked⟩

/-- Giving back a resource with other users only lowers their number. -/
theorem releaseRes_acts {s : AdmisState K R F} {x : AdmisResData R} {v : ResView} (k : K)
    (hv : s.resAt x.dpcp = v) (h : v.Settled) (hstacked : v.dpcp.bindCnt ≤ 1 → v.stacked = false) :
    ∃ s' v', releaseRes k s x = some s' ∧ Acts x.dpcp s s' v' ∧
      (k, x.dpcp) ∈ s'.log.freedRes ∧ v'.stacked = v.stacked ∧
      (2 ≤ v.dpcp.bindCnt →
        v' = { v with dpcp := { v.dpcp with bindCnt := v.dpcp.bindCnt - 1 } }) := by
  have hlive : s.live x.dpcp = true := (congrArg ResView.live hv).trans h.live
  have hd : s.dpcp x.dpcp = v.dpcp := congrArg ResView.dpcp hv
  have hset := setDpcp_acts hv { v.dpcp with bindCnt := v.dpcp.bindCnt - 1 }
  have hfreed : ∀ (s₁ : AdmisState K R F) (v₁ : ResView), Acts x.dpcp s s₁ v₁ → Acts x.dpcp s
      { s₁ with log := { s₁.log with freedRes := s₁.log.freedRes ++ [(k, x.dpcp)] } } v₁ := by
    intro s₁ v₁ hacts
    exact hacts.trans ⟨⟨rfl, rfl, rfl, rfl, rfl, rfl, rfl, rfl, rfl,
      fun _ h => List.mem_append_left _ h⟩, hacts.view, fun _ _ => rfl⟩
  unfold releaseRes
  dsimp only
  rw [if_neg (by rw [hlive]; exact Bool.noConfusion), hd, hset.dpcp]
  dsimp only
  split
  · rename_i hzero
    obtain ⟨s₁, v₁, h₁, hacts₁, hstacked₁⟩ := deleteRes_acts hset.view
      ⟨h.live, h.bound, h.free⟩ (hstacked (by omega))
    refine ⟨_, v₁, by rw [h₁]; rfl, hfreed _ _ (hset.trans hacts₁), ?_, ?_, fun h' => by omega⟩
    · exact List.mem_append_right _ (List.mem_singleton.mpr rfl)
    · exact hstacked₁.trans (hstacked (by omega)).symm
  · exact ⟨_, _, rfl, hfreed _ _ hset, List.mem_append_right _ (List.mem_singleton.mpr rfl), rfl,
      fun _ => rfl⟩

/-! ### All resources of a thread -/

/-- A loop over different resources, each found as it was at the start,
leaves what its step leaves. -/
theorem foldlM_acts {step : AdmisState K R F → AdmisResData R → Option (AdmisState K R F)}
    {Q : AdmisResData R → AdmisState K R F → Prop} (s₀ : AdmisState K R F)
    {l : List (AdmisResData R)} (hnodup : (l.map AdmisResData.dpcp).Nodup)
    (hQ : ∀ x s s' r v, x.dpcp ≠ r → Acts r s s' v → Q x s → Q x s')
    (hstep : ∀ s, ∀ x ∈ l, SameThreads s₀ s → s.resAt x.dpcp = s₀.resAt x.dpcp →
      ∃ s' v, step s x = some s' ∧ Acts x.dpcp s s' v ∧ Q x s') :
    ∃ s', l.foldlM step s₀ = some s' ∧ SameThreads s₀ s' ∧ (∀ x ∈ l, Q x s') ∧
      ∀ r ∉ l.map AdmisResData.dpcp, s'.resAt r = s₀.resAt r := by
  suffices h : ∀ (l' : List (AdmisResData R)) (s : AdmisState K R F), l' ⊆ l →
      (l'.map AdmisResData.dpcp).Nodup → SameThreads s₀ s →
      (∀ x ∈ l', s.resAt x.dpcp = s₀.resAt x.dpcp) →
      ∃ s', l'.foldlM step s = some s' ∧ SameThreads s₀ s' ∧ (∀ x ∈ l', Q x s') ∧
        (∀ r ∉ l'.map AdmisResData.dpcp, s'.resAt r = s.resAt r) ∧
        ∀ x, x.dpcp ∉ l'.map AdmisResData.dpcp → Q x s → Q x s' by
    obtain ⟨s', hs', hsame, hq, hother, -⟩ :=
      h l s₀ (fun _ hx => hx) hnodup (.refl s₀) fun _ _ => rfl
    exact ⟨s', hs', hsame, hq, hother⟩
  intro l'
  induction l' with
  | nil => exact fun s _ _ hsame _ => ⟨s, rfl, hsame, by simp, fun _ _ => rfl, fun _ _ h => h⟩
  | cons x l' ih =>
      intro s hsub hnodup' hsame hview
      rw [List.map_cons, List.nodup_cons] at hnodup'
      obtain ⟨s₁, v, h₁, hacts, hq⟩ := hstep s x (hsub List.mem_cons_self) hsame
        (hview x List.mem_cons_self)
      have hne : ∀ y ∈ l', y.dpcp ≠ x.dpcp := by
        rintro y hy heq
        exact hnodup'.1 (heq ▸ List.mem_map_of_mem hy)
      obtain ⟨s', hs', hsame', hq', hother, hkeep⟩ := ih s₁
        (fun y hy => hsub (List.mem_cons_of_mem x hy)) hnodup'.2 (hsame.trans hacts.same)
        (fun y hy => (hacts.other _ (hne y hy)).trans (hview y (List.mem_cons_of_mem x hy)))
      refine ⟨s', by rw [List.foldlM_cons, h₁]; exact hs', hsame', ?_, ?_, ?_⟩
      · intro y hy
        rcases List.mem_cons.mp hy with rfl | hy
        · exact hkeep y hnodup'.1 hq
        · exact hq' y hy
      · intro r hr
        rw [List.map_cons, List.mem_cons, not_or] at hr
        exact (hother r hr.2).trans (hacts.other r hr.1)
      · intro y hy hqy
        rw [List.map_cons, List.mem_cons, not_or] at hy
        exact hkeep y hy.2 (hQ y s s₁ _ v hy.1 hacts hqy)

/-- A loop whose step takes each view of a resource from `P` to `Q`. -/
theorem foldlM_views {step : AdmisState K R F → AdmisResData R → Option (AdmisState K R F)}
    {P Q : ResView → Prop} (s₀ : AdmisState K R F) {l : List (AdmisResData R)}
    (hnodup : (l.map AdmisResData.dpcp).Nodup)
    (hstep : ∀ s x v, SameThreads s₀ s → s.resAt x.dpcp = v → P v →
      ∃ s' v', step s x = some s' ∧ Acts x.dpcp s s' v' ∧ Q v' ∧ v.SameCount v')
    (hP : ∀ x ∈ l, P (s₀.resAt x.dpcp)) :
    ∃ s', l.foldlM step s₀ = some s' ∧ SameThreads s₀ s' ∧
      (∀ x ∈ l, Q (s'.resAt x.dpcp) ∧ (s₀.resAt x.dpcp).SameCount (s'.resAt x.dpcp)) ∧
      ∀ r ∉ l.map AdmisResData.dpcp, s'.resAt r = s₀.resAt r := by
  refine foldlM_acts (Q := fun x s => Q (s.resAt x.dpcp) ∧
    (s₀.resAt x.dpcp).SameCount (s.resAt x.dpcp)) s₀ hnodup ?_ ?_
  · intro x s s' r v hne hacts h
    rwa [hacts.other x.dpcp hne]
  · intro s x hx hsame hview
    obtain ⟨s', v', hs', hacts, hq, hcount⟩ := hstep s x _ hsame hview (hP x hx)
    obtain rfl := hacts.view
    exact ⟨s', _, hs', hacts, hq, hcount⟩

end AdmisState

end ACoral
