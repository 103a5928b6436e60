import ACoral.Proofs.ResPool.FreePools

/-!
# `ACoral.Proofs.ResPool.CreateFail`: a creation that fails

`acoral_create_pool` takes a descriptor before it asks for memory, and does not
give it back when there is none: it writes `NULL` over the link of the
descriptor, so that no call returns it any more.

- `Untouched`: what a failed creation must leave.
- `createPool_failed`: what it leaves.
- `createPool_atomic_iff`: the failures that leave everything, for a call of
  `acoral_create_pool` and for one of `acoral_get_res`.
-/

set_option autoImplicit false

namespace ACoral

variable {C : Type} {s s' : ResPools C} {i : Fin ACORAL_MAX_POOLS}

/-! ### What can be obtained -/

/-- What `acoral_get_free_pool` does: nothing, or it takes the first descriptor,
which is linked to another one. -/
theorem acoralGetFreePool_cases {r : Option (Fin ACORAL_MAX_POOLS)}
    (hget : acoralGetFreePool s = some (s', r)) :
    s.freeResPool = .null ∧ s' = s ∧ r = none ∨
      ∃ i j, s.freeResPool = .pool i ∧ (s.pools i).baseAdr = .pool j ∧ r = some i ∧
        s' = { s with freeResPool := (s.pools j).baseAdr } := by
  unfold acoralGetFreePool at hget
  cases hfree : s.freeResPool with
  | null =>
      rw [hfree, Option.some.injEq, Prod.mk.injEq] at hget
      exact Or.inl ⟨rfl, hget.1.symm, hget.2.symm⟩
  | mem adr =>
      rw [hfree] at hget
      cases hget
  | pool i =>
      rw [hfree] at hget
      obtain ⟨next, hderef, hnext⟩ := Option.map_eq_some_iff.mp hget
      obtain ⟨rfl, rfl⟩ := Prod.mk.inj hnext
      unfold ResPools.deref at hderef
      cases hbase : (s.pools i).baseAdr with
      | pool j =>
          rw [hbase] at hderef
          obtain rfl := Option.some.inj hderef
          exact Or.inr ⟨i, j, rfl, hbase, rfl, rfl⟩
      | null | mem _ =>
          rw [hbase] at hderef
          cases hderef

/-- A descriptor that can be obtained is linked to another one. -/
theorem Obtainable.linked (hob : Obtainable s i) : ∃ j, (s.pools i).baseAdr = .pool j := by
  induction hob with
  | first hget =>
      rcases acoralGetFreePool_cases hget with ⟨-, -, hnone⟩ | ⟨i', j, -, hbase, hi, -⟩
      · cases hnone
      · obtain rfl := Option.some.inj hi
        exact ⟨j, hbase⟩
  | later hget _ ih =>
      rcases acoralGetFreePool_cases hget with ⟨-, -, hnone⟩ | ⟨_, _, -, -, -, rfl⟩
      · cases hnone
      · exact ih

/-- Without a link to another one it cannot be obtained. -/
theorem not_obtainable (hnull : (s.pools i).baseAdr = .null) : ¬ Obtainable s i := by
  intro hob
  obtain ⟨j, hj⟩ := hob.linked
  rw [hnull] at hj
  cases hj

/-- Only the table and its first free descriptor matter. -/
theorem acoralGetFreePool_congr (hpools : s'.pools = s.pools)
    (hfree : s'.freeResPool = s.freeResPool) :
    acoralGetFreePool s' =
      (acoralGetFreePool s).map fun r => ({ s' with freeResPool := r.1.freeResPool }, r.2) := by
  unfold acoralGetFreePool ResPools.deref
  rw [hpools, hfree]
  cases hhead : s.freeResPool with
  | null =>
      simp only [Option.map_some, hhead]
      rw [← hhead, ← hfree, ← hpools]
  | mem adr => rfl
  | pool i =>
      simp only
      cases (s.pools i).baseAdr <;> rfl

theorem Obtainable.congr (hob : Obtainable s i) (hpools : s'.pools = s.pools)
    (hfree : s'.freeResPool = s.freeResPool) : Obtainable s' i := by
  induction hob generalizing s' with
  | first hget => exact .first (by rw [acoralGetFreePool_congr hpools hfree, hget]; rfl)
  | @later k k' _ _ hget _ ih =>
      have hkeep : k'.pools = k.pools := by
        rcases acoralGetFreePool_cases hget with ⟨-, -, hnone⟩ | ⟨_, _, -, -, -, rfl⟩
        · cases hnone
        · rfl
      exact .later (by rw [acoralGetFreePool_congr hpools hfree, hget]; rfl)
        (ih (show ({ s' with freeResPool := k'.freeResPool } : ResPools C).pools = k'.pools from
          hpools.trans hkeep.symm) rfl)

/-! ### A failed creation -/

/-- The obtainable descriptors, the counters and the lists of the control blocks and the
ids of the pools are as before. -/
structure Untouched (s s' : ResPools C) : Prop where
  obtainable : ∀ i, Obtainable s' i ↔ Obtainable s i
  ctrl : s'.ctrl = s.ctrl
  links : s'.links = s.links
  ids : ∀ i, (s'.pools i).id = (s.pools i).id

theorem Untouched.refl (s : ResPools C) : Untouched s s :=
  ⟨fun _ => Iff.rfl, rfl, rfl, fun _ => rfl⟩

/-- The creation fails before it takes a descriptor: no more pools are allowed, or
there is no free descriptor. -/
def FailsEarly (s : ResPools C) (c : C) : Prop :=
  (s.ctrl c).maxPools ≤ (s.ctrl c).num ∨ s.freeResPool = .null

variable [DecidableEq C] {c : C} {malloc : Option Nat} {err : KernelError}

/-- What a failed creation leaves: the state, or one in which the first free
descriptor is taken and linked to nothing. -/
theorem createPool_failed (hfail : acoralCreatePool s c malloc = some (s', err))
    (herr : err ≠ .KR_OK) :
    FailsEarly s c ∧ s' = s ∨
      ¬ FailsEarly s c ∧ ∃ i, Obtainable s i ∧ (s'.pools i).baseAdr = .null := by
  unfold acoralCreatePool at hfail
  by_cases hmax : (s.ctrl c).num ≥ (s.ctrl c).maxPools
  · rw [if_pos hmax, Option.some.injEq, Prod.mk.injEq] at hfail
    exact Or.inl ⟨Or.inl hmax, hfail.1.symm⟩
  rw [if_neg hmax] at hfail
  obtain ⟨⟨k, r⟩, hget, hfail⟩ := Option.bind_eq_some_iff.mp hfail
  rcases acoralGetFreePool_cases hget with ⟨hnull, rfl, rfl⟩ | ⟨i, j, hfree, -, rfl, rfl⟩
  · cases hfail
    exact Or.inl ⟨Or.inr hnull, rfl⟩
  · have hearly : ¬ FailsEarly s c := by
      rintro (hle | hnull)
      · exact hmax hle
      · rw [hfree] at hnull
        cases hnull
    refine Or.inr ⟨hearly, i, .first hget, ?_⟩
    cases malloc with
    | none =>
        obtain rfl := (Prod.mk.inj (Option.some.inj hfail)).1
        simp [ResPools.setPool]
    | some base =>
        obtain ⟨s₁, -, hfail⟩ := Option.bind_eq_some_iff.mp hfail
        obtain ⟨s₂, -, hfail⟩ := Option.map_eq_some_iff.mp hfail
        exact absurd (Prod.mk.inj hfail).2.symm herr

theorem createPool_untouched_iff (hfail : acoralCreatePool s c malloc = some (s', err))
    (herr : err ≠ .KR_OK) : Untouched s s' ↔ FailsEarly s c := by
  rcases createPool_failed hfail herr with ⟨hearly, rfl⟩ | ⟨hearly, i, hob, hnull⟩
  · exact iff_of_true (Untouched.refl _) hearly
  · exact iff_of_false (fun h => not_obtainable hnull ((h.obtainable i).mpr hob)) hearly

/-- `acoral_get_res` returns nothing only if its creation fails. -/
theorem acoralGetRes_none (hget : acoralGetRes s c malloc = some (s', none)) :
    (s.ctrl c).locked = false ∧
      ∃ k err, acoralCreatePool (s.setCtrl c { s.ctrl c with locked := true }) c malloc =
          some (k, err) ∧ err ≠ .KR_OK ∧ s' = k.unlockCtrl c := by
  obtain ⟨s₁, hlock, hget⟩ := Option.bind_eq_some_iff.mp hget
  unfold ResPools.lockCtrl at hlock
  split at hlock
  · cases hlock
  rename_i hfree
  obtain rfl := Option.some.inj hlock
  refine ⟨by simpa using hfree, ?_⟩
  obtain ⟨⟨k, err⟩, hcreated, hget⟩ := Option.bind_eq_some_iff.mp hget
  by_cases herr : err = .KR_OK
  · subst herr
    obtain ⟨i, -, hget⟩ := Option.bind_eq_some_iff.mp hget
    obtain ⟨r, -, hget⟩ := Option.map_eq_some_iff.mp hget
    cases hget
  · split at hcreated
    · refine ⟨k, err, hcreated, herr, ?_⟩
      cases err <;> first | exact absurd rfl herr | cases hget; rfl
    · cases hcreated
      exact absurd rfl herr

/-- A failed creation, called directly or from `acoral_get_res`, leaves everything as it
was exactly when it fails before it takes a descriptor. -/
theorem createPool_atomic_iff (s : ResPools C) (c : C) (malloc : Option Nat) :
    (∀ s' err, acoralCreatePool s c malloc = some (s', err) → err ≠ .KR_OK →
      (Untouched s s' ↔ FailsEarly s c)) ∧
    (∀ s', acoralGetRes s c malloc = some (s', none) → (Untouched s s' ↔ FailsEarly s c)) := by
  refine ⟨fun s' err hfail herr => createPool_untouched_iff hfail herr, fun s' hget => ?_⟩
  obtain ⟨hlocked, k, err, hfail, herr, rfl⟩ := acoralGetRes_none hget
  have hsame : FailsEarly (s.setCtrl c { s.ctrl c with locked := true }) c ↔ FailsEarly s c := by
    simp [FailsEarly, ResPools.setCtrl]
  rw [← hsame]
  rcases createPool_failed hfail herr with ⟨hearly, rfl⟩ | ⟨hearly, i, hob, hnull⟩
  · have hback : (s.setCtrl c { s.ctrl c with locked := true }).unlockCtrl c = s := by
      simp [ResPools.unlockCtrl, ResPools.setCtrl, ← hlocked]
    rw [hback]
    exact iff_of_true (Untouched.refl _) hearly
  · refine iff_of_false (fun h => not_obtainable (s := k.unlockCtrl c) hnull ?_) hearly
    exact (h.obtainable i).mpr (hob.congr rfl rfl)

/-- A control block that may have no pools. -/
theorem createPool_atomic_iff_limit :
    (Untouched reuseStart.kernel reuseStart.kernel ↔ FailsEarly reuseStart.kernel ()) ∧
      ∃ k, acoralGetRes reuseStart.kernel () none = some (k, none) ∧
        (Untouched reuseStart.kernel k ↔ FailsEarly reuseStart.kernel ()) :=
  ⟨(createPool_atomic_iff reuseStart.kernel () none).1 _ .KR_RES_ERR_MAX_POOL rfl (by decide),
    _, rfl, (createPool_atomic_iff reuseStart.kernel () none).2 _ rfl⟩

/-- One pool of four resources, none of them held. -/
def onePoolRun : List (PoolOp Unit) := [.ctrlInit () ACORAL_RES_IPC 8 4 4 32 (some 4096)]

/-- The next creation finds no memory: the descriptor 2 is gone, and has another id. -/
theorem createPool_atomic_fails :
    ∃ s k, reuseStart.run 1 onePoolRun = some s ∧
      acoralCreatePool s.kernel () none = some (k, .KR_RES_ERR_NO_MEM) ∧
      Obtainable s.kernel ⟨2, by decide⟩ ∧ ¬ Obtainable k ⟨2, by decide⟩ ∧
      (k.pools ⟨2, by decide⟩).id ≠ (s.kernel.pools ⟨2, by decide⟩).id ∧
      ¬ Untouched s.kernel k := by
  have heval : (reuseStart.run 1 onePoolRun).any (fun s =>
      (acoralCreatePool s.kernel () none).any fun r =>
        decide (r.2 = .KR_RES_ERR_NO_MEM) &&
        decide (s.kernel.freeResPool = .pool ⟨2, by decide⟩) &&
        decide ((r.1.pools ⟨2, by decide⟩).baseAdr = .null) &&
        decide ((r.1.pools ⟨2, by decide⟩).id ≠ (s.kernel.pools ⟨2, by decide⟩).id) &&
        (acoralGetFreePool s.kernel).any fun r => decide (r.2 = some ⟨2, by decide⟩)) = true := by
    decide +kernel
  obtain ⟨s, hrun, h⟩ := (Option.any_eq_true ..).mp heval
  obtain ⟨⟨k, err⟩, hcreate, h⟩ := (Option.any_eq_true ..).mp h
  simp only [Bool.and_eq_true, decide_eq_true_eq] at h
  obtain ⟨⟨⟨⟨rfl, -⟩, hnull⟩, hid⟩, hget⟩ := h
  obtain ⟨⟨k', r⟩, hget, hr⟩ := (Option.any_eq_true ..).mp hget
  obtain rfl : r = some ⟨2, by decide⟩ := of_decide_eq_true hr
  exact ⟨s, k, hrun, hcreate, .first hget, not_obtainable hnull, hid,
    fun hun => not_obtainable hnull ((hun.obtainable _).mpr (.first hget))⟩

end ACoral
