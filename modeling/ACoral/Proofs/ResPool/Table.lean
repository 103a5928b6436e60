import ACoral.Proofs.ResPool.CreateFail
import ACoral.Proofs.ResPool.Run

/-!
# `ACoral.Proofs.ResPool.Table`: what the pools have, and what of it is free

`ResPools.table` is what the descriptors and the control blocks say about pools,
whatever is free in them. Taking a resource and giving it back leave it as it is,
and adding a pool does not. `free_of_table` is the other half: of two states with the
same table and the same held resources the free resources are the same.
-/

set_option autoImplicit false

namespace ACoral

variable {C : Type} {k k' : ResPools C} {c : C} {i : Fin ACORAL_MAX_POOLS}

/-- The free descriptors, and the control blocks and the pools without their locks and
without what is free. -/
def ResPools.table (k : ResPools C) :
    PoolPtr × (C → AcoralPoolCtrl) × (Fin ACORAL_MAX_POOLS → AcoralPool C) :=
  (k.freeResPool, fun c => { k.ctrl c with locked := false },
    fun i => { k.pools i with resFree := 0, freeNum := 0 })

/-- The free resources of a pool, in the order in which they will be handed out. -/
def ResPools.freeRes (k : ResPools C) (i : Fin ACORAL_MAX_POOLS) : List Nat :=
  match (k.pools i).baseAdr with
  | .mem base => freeChain k.word base (k.pools i).size (k.pools i).resFree (k.pools i).freeNum
  | _         => []

theorem table_baseAdr (h : k'.table = k.table) (i : Fin ACORAL_MAX_POOLS) :
    (k'.pools i).baseAdr = (k.pools i).baseAdr :=
  congrArg (fun t => (t.2.2 i).baseAdr) h

theorem mem_freeRes {held : List Nat} {base r : Nat}
    (hu : UsedPool k held c i base) :
    r ∈ k.freeRes i ↔ ∃ n < (k.pools i).num, r = base + n * (k.pools i).size ∧ r ∉ held := by
  rw [ResPools.freeRes, hu.baseEq]
  exact hu.good.mem r

/-- The same table and the same held resources leave the same free. -/
theorem free_of_table {inited inited' : List C} {held : List Nat} (h : PoolInv k inited held)
    (h' : PoolInv k' inited' held) (htable : k'.table = k.table) (i : Fin ACORAL_MAX_POOLS) (r : Nat) :
    r ∈ k'.freeRes i ↔ r ∈ k.freeRes i := by
  have hctrl : (k'.pools i).ctrl = (k.pools i).ctrl := congrArg (fun t => (t.2.2 i).ctrl) htable
  have hsize : (k'.pools i).size = (k.pools i).size := congrArg (fun t => (t.2.2 i).size) htable
  have hnum : (k'.pools i).num = (k.pools i).num := congrArg (fun t => (t.2.2 i).num) htable
  cases hc : (k.pools i).ctrl with
  | none =>
      have hnone : k.freeRes i = [] := by
        have hzero := (h.unused i hc).2
        unfold ResPools.freeRes
        split
        · rw [hzero]
          rfl
        · rfl
      have hnone' : k'.freeRes i = [] := by
        have hzero := (h'.unused i (hctrl.trans hc)).2
        unfold ResPools.freeRes
        split
        · rw [hzero]
          rfl
        · rfl
      rw [hnone, hnone']
  | some c =>
      obtain ⟨-, base, hu⟩ := h.pool i c hc
      obtain ⟨-, base', hu'⟩ := h'.pool i c (hctrl.trans hc)
      have hbase : base' = base := by
        have heq := (hu'.baseEq.symm.trans (table_baseAdr htable i)).trans hu.baseEq
        exact PoolPtr.mem.inj heq
      rw [mem_freeRes hu, mem_freeRes hu', hbase, hsize, hnum]

/-! ### What the operations do to the table -/

variable [DecidableEq C]

theorem table_setLocked (k : ResPools C) (c : C) (b : Bool) :
    (k.setCtrl c { k.ctrl c with locked := b }).table = k.table := by
  unfold ResPools.table ResPools.setCtrl
  congr 2
  funext c'
  by_cases hc : c' = c
  · simp [hc]
  · simp [hc]

omit [DecidableEq C] in
/-- Taking a resource or giving one back. -/
theorem table_setFree (k : ResPools C) (i : Fin ACORAL_MAX_POOLS) (resFree freeNum : Nat) :
    (k.setPool i { k.pools i with resFree := resFree, freeNum := freeNum }).table = k.table := by
  unfold ResPools.table ResPools.setPool
  congr 3
  funext j
  by_cases hj : j = i
  · simp [hj]
  · simp [hj]

theorem getResFrom_table {res : Nat} (h : getResFrom k i = some (k', res)) : k'.table = k.table := by
  unfold getResFrom at h
  dsimp only at h
  obtain ⟨base, -, h⟩ := Option.bind_eq_some_iff.mp h
  split at h
  · obtain ⟨links, -, heq⟩ := Option.map_eq_some_iff.mp h
    obtain rfl := congrArg Prod.fst heq
    exact table_setFree k i _ _
  · obtain rfl := congrArg Prod.fst (Option.some.inj h)
    exact table_setFree k i _ _

theorem poolFifoAdd_table {queue node : PoolNode C} (h : poolFifoAdd k queue node = some k') :
    k'.table = k.table := by
  obtain ⟨links, -, rfl⟩ := Option.map_eq_some_iff.mp h
  rfl

theorem acoralReleaseRes_table {res : Nat} (h : acoralReleaseRes k res = some k') :
    k'.table = k.table := by
  unfold acoralReleaseRes at h
  split at h
  · obtain rfl := Option.some.inj h
    rfl
  rename_i i _
  dsimp only at h
  obtain ⟨c, -, h⟩ := Option.bind_eq_some_iff.mp h
  obtain ⟨k₁, hlock, h⟩ := Option.bind_eq_some_iff.mp h
  have h₁ : k₁.table = k.table := by
    unfold ResPools.lockCtrl at hlock
    split at hlock
    · cases hlock
    · obtain rfl := Option.some.inj hlock
      exact table_setLocked k c true
  have hpool : k₁.pools i = k.pools i := by
    unfold ResPools.lockCtrl at hlock
    split at hlock
    · cases hlock
    · obtain rfl := Option.some.inj hlock
      rfl
  obtain ⟨base, -, h⟩ := Option.bind_eq_some_iff.mp h
  split at h
  · obtain rfl := Option.some.inj h
    exact h₁
  split at h
  · obtain rfl := Option.some.inj h
    exact h₁
  obtain ⟨k₂, hadd, rfl⟩ := Option.map_eq_some_iff.mp h
  refine (table_setLocked k₂ c false).trans (Eq.trans ?_ h₁)
  rw [← hpool] at hadd
  split at hadd
  · exact (poolFifoAdd_table hadd).trans (table_setFree k₁ i _ _)
  · obtain rfl := Option.some.inj hadd
    exact table_setFree k₁ i _ _

/-- A new pool takes a descriptor that was free. -/
theorem acoralCreatePool_table {malloc : Option Nat}
    (h : acoralCreatePool k c malloc = some (k', .KR_OK)) : k'.table ≠ k.table := by
  intro htable
  unfold acoralCreatePool at h
  dsimp only at h
  split at h
  · cases h
  obtain ⟨⟨k₁, r⟩, hget, h⟩ := Option.bind_eq_some_iff.mp h
  rcases acoralGetFreePool_cases hget with ⟨-, -, rfl⟩ | ⟨i, j, -, hlink, rfl, -⟩
  · cases h
  · cases malloc with
    | none => cases h
    | some base =>
        obtain ⟨k₂, hadd, h⟩ := Option.bind_eq_some_iff.mp h
        obtain ⟨k₃, hadd', h⟩ := Option.map_eq_some_iff.mp h
        obtain rfl := congrArg Prod.fst h
        obtain ⟨links, -, rfl⟩ := Option.map_eq_some_iff.mp hadd
        obtain ⟨links', -, rfl⟩ := Option.map_eq_some_iff.mp hadd'
        have hbase := table_baseAdr htable i
        rw [hlink] at hbase
        simp [ResPools.setPool, ResPools.setCtrl] at hbase

/-- Where a creation fails early, there is no new pool. -/
theorem FailsEarly.not_created {malloc : Option Nat} (h : FailsEarly k c) :
    acoralCreatePool k c malloc ≠ some (k', .KR_OK) := by
  intro hcreate
  unfold acoralCreatePool at hcreate
  dsimp only at hcreate
  split at hcreate
  · cases hcreate
  rename_i hmax
  have hnull : k.freeResPool = .null := h.resolve_left hmax
  rw [acoralGetFreePool, hnull] at hcreate
  cases hcreate

/-! ### Getting a resource -/

variable {malloc : Option Nat}

/-- What is taken from a pool behind the lock. -/
theorem getResFrom_unlock_table {k₁ : ResPools C} {res : Option Nat}
    (h : (freeListEntry (k.links.next (.freeHead c))).bind (fun i =>
      (getResFrom k i).map fun (s, res) => (s.unlockCtrl c, some res)) = some (k₁, res)) :
    k₁.table = k.table ∧ res ≠ none := by
  obtain ⟨i, -, h⟩ := Option.bind_eq_some_iff.mp h
  obtain ⟨⟨k₂, r⟩, hget, heq⟩ := Option.map_eq_some_iff.mp h
  obtain ⟨rfl, rfl⟩ := Prod.mk.inj heq
  exact ⟨(table_setLocked k₂ c false).trans (getResFrom_table hget), by simp⟩

/-- The lock of a control block. -/
theorem lockCtrl_eq {k₁ : ResPools C} (h : k.lockCtrl c = some k₁) :
    (k.ctrl c).locked = false ∧ k₁ = k.setCtrl c { k.ctrl c with locked := true } := by
  unfold ResPools.lockCtrl at h
  split at h
  · cases h
  · rename_i hfree
    exact ⟨by simpa using hfree, (Option.some.inj h).symm⟩

/-- A pool has a free resource: it is taken, and `acoral_malloc` is not asked. -/
theorem acoralGetRes_of_free {res : Option Nat}
    (hfree : k.links.next (k.links.next (.freeHead c)) ≠ k.links.next (.freeHead c))
    (h : acoralGetRes k c malloc = some (k', res)) : k'.table = k.table ∧ res ≠ none := by
  unfold acoralGetRes at h
  obtain ⟨k₁, hlock, h⟩ := Option.bind_eq_some_iff.mp h
  obtain ⟨-, hk₁⟩ := lockCtrl_eq hlock
  have hlinks : k₁.links = k.links := by rw [hk₁]; rfl
  dsimp only at h
  rw [hlinks, if_neg hfree, Option.bind_some] at h
  obtain ⟨htable, hres⟩ := getResFrom_unlock_table h
  rw [hk₁] at htable
  exact ⟨htable.trans (table_setLocked k c true), hres⟩

/-- No pool has a free resource: one from a new pool. -/
theorem acoralGetRes_of_new {res : Nat}
    (hnone : k.links.next (k.links.next (.freeHead c)) = k.links.next (.freeHead c))
    (h : acoralGetRes k c malloc = some (k', some res)) :
    k'.table ≠ k.table ∧ ¬ FailsEarly k c := by
  unfold acoralGetRes at h
  obtain ⟨k₁, hlock, h⟩ := Option.bind_eq_some_iff.mp h
  obtain ⟨-, hk₁⟩ := lockCtrl_eq hlock
  have hlinks : k₁.links = k.links := by rw [hk₁]; rfl
  dsimp only at h
  rw [hlinks, if_pos hnone] at h
  obtain ⟨⟨k₂, err⟩, hcreate, h⟩ := Option.bind_eq_some_iff.mp h
  by_cases herr : err = .KR_OK
  · subst herr
    obtain ⟨htable, -⟩ := getResFrom_unlock_table h
    have hearly : FailsEarly k c → FailsEarly k₁ c := by
      rw [hk₁]
      simp [FailsEarly, ResPools.setCtrl]
    refine ⟨?_, fun he => (hearly he).not_created hcreate⟩
    rw [htable, ← table_setLocked k c true, ← hk₁]
    exact acoralCreatePool_table hcreate
  · cases err <;> first | exact absurd rfl herr | cases h

/-- No resource at all. -/
theorem acoralGetRes_of_none (h : acoralGetRes k c malloc = some (k', none)) :
    (k'.table = k.table ↔ FailsEarly k c) ∧ (FailsEarly k c → k' = k) := by
  obtain ⟨hlocked, k₁, err, hcreate, herr, rfl⟩ := acoralGetRes_none h
  have hsame : FailsEarly (k.setCtrl c { k.ctrl c with locked := true }) c ↔ FailsEarly k c := by
    simp [FailsEarly, ResPools.setCtrl]
  rcases createPool_failed hcreate herr with ⟨hearly, rfl⟩ | ⟨hearly, i, hob, hnull⟩
  · have hback : (k.setCtrl c { k.ctrl c with locked := true }).unlockCtrl c = k := by
      simp [ResPools.unlockCtrl, ResPools.setCtrl, ← hlocked]
    rw [hback]
    exact ⟨iff_of_true rfl (hsame.mp hearly), fun _ => rfl⟩
  · have hnot : ¬ FailsEarly k c := fun he => hearly (hsame.mpr he)
    refine ⟨iff_of_false (fun htable => ?_) hnot, fun he => absurd he hnot⟩
    -- the descriptor was linked to another one
    obtain ⟨j, hlink⟩ := hob.linked
    have hbase := table_baseAdr htable i
    rw [show ((k₁.unlockCtrl c).pools i).baseAdr = .null from hnull,
      show (k.pools i).baseAdr = .pool j from hlink] at hbase
    cases hbase

end ACoral
