import ACoral.Proofs.ResPool.Run

/-!
# `ACoral.Proofs.ResPool.FreePools`: descriptors that are lost

`acoral_get_free_pool` takes the first word of the descriptor behind the
one it returns, which is the address of the descriptor after that. So the
descriptor in between is skipped: no call returns it any more, and no
control block has it.

- `Obtainable`: the descriptors that calls of `acoral_get_free_pool` still
  return.
- `lost_of_odd`: in every reachable state the odd ones are in no use, and
  cannot be obtained.
- `freePools_lost`: so in no reachable state every descriptor is in use or
  obtainable.
-/

set_option autoImplicit false

namespace ACoral

variable {C : Type} [DecidableEq C]

/-- A descriptor that `acoral_get_free_pool` returns, now or after it has
returned others. -/
inductive Obtainable : ResPools C → Fin ACORAL_MAX_POOLS → Prop
  | first {k k' : ResPools C} {i : Fin ACORAL_MAX_POOLS} :
      acoralGetFreePool k = some (k', some i) → Obtainable k i
  | later {k k' : ResPools C} {i j : Fin ACORAL_MAX_POOLS} :
      acoralGetFreePool k = some (k', some j) → Obtainable k' i → Obtainable k i

/-- A descriptor is on the list of the pools of exactly one control block. -/
def PoolInUse (s : PoolSystem C) (i : Fin ACORAL_MAX_POOLS) : Prop :=
  ∃! c, c ∈ s.inited ∧ ∃ nodes, s.kernel.links.IsRing (.totalHead c) nodes ∧ .total i ∈ nodes

/-- No descriptor is lost: each is in use, or can be obtained. -/
def NoPoolLost (s : PoolSystem C) : Prop :=
  ∀ i, PoolInUse s i ∨ Obtainable s.kernel i

omit [DecidableEq C] in
/-- Only even descriptors are obtained. The induction is on the calls. -/
theorem Obtainable.even {k : ResPools C} {i : Fin ACORAL_MAX_POOLS} (h : Obtainable k i)
    (htable : FreeTable k) : i.val % 2 = 0 := by
  induction h with
  | first hget =>
      rcases htable.getFreePool with hnone | ⟨j, next, hsome, heven, -⟩
      · rw [hnone] at hget
        cases hget
      · rw [hsome] at hget
        cases hget
        exact heven
  | later hget _ ih =>
      rcases htable.getFreePool with hnone | ⟨j, next, hsome, -, -, -, hnext⟩
      · rw [hnone] at hget
        cases hget
      · rw [hsome] at hget
        cases hget
        exact ih (hnext _ rfl fun _ _ => rfl)

/-- In every reachable state the odd descriptors are on no list, and no
call returns them. -/
theorem lost_of_odd {s : PoolSystem C} (h : PoolSystem.Inv s) {i : Fin ACORAL_MAX_POOLS}
    (hi : i.val % 2 = 1) : ¬ PoolInUse s i ∧ ¬ Obtainable s.kernel i := by
  constructor
  · rintro ⟨c, ⟨hc, nodes, hring, hmem⟩, -⟩
    obtain ⟨members, hl⟩ := h.pools.lists
    have hsame : nodes = members (.totalHead c) := hring.unique (hl.rings.ring _ hc)
    rw [hsame] at hmem
    obtain ⟨j, he, hj⟩ := (hl.total c hc _).mp hmem
    cases he
    obtain ⟨m, -, hfresh⟩ := h.pools.table
    rw [(hfresh i (Or.inr hi)).ctrl] at hj
    cases hj
  · intro hob
    have heven := hob.even h.pools.table
    omega

/-- In no reachable state every descriptor is in use or obtainable. -/
theorem freePools_lost {fuel : Nat} {ctrl : C → AcoralPoolCtrl} {links : Lib.Links (PoolNode C)}
    {word : Nat → BitVec 32} {ops : List (PoolOp C)} {s : PoolSystem C}
    (hrun : (PoolSystem.start ctrl links word).run fuel ops = some s) : ¬ NoPoolLost s := by
  intro h
  have hlost := lost_of_odd (PoolSystem.inv_of_run hrun) (i := ⟨1, by decide⟩) rfl
  exact (h ⟨1, by decide⟩).elim hlost.1 hlost.2

theorem freePools_lost_reuse :
    ∃ s, reuseStart.run 1 reuseRun = some s ∧ ¬ NoPoolLost s := by
  obtain ⟨s, hrun, -⟩ := Option.map_eq_some_iff.mp reuseRun_held
  exact ⟨s, hrun, freePools_lost hrun⟩

/-- Twenty pools of four resources each. -/
def twentyPools : List (PoolOp Unit) :=
  .ctrlInit () ACORAL_RES_IPC 8 4 40 32 (some 4096) ::
    (List.range 19).map fun n => .createPool () (some (8192 + 32 * n))

/-- The next creation fails for want of a descriptor, with twenty of them
in no use. -/
theorem twentyPools_exhausted :
    ∃ s, reuseStart.run 1 twentyPools = some s ∧
      (acoralCreatePool s.kernel () (some 65536)).map Prod.snd = some .KR_RES_ERR_NO_POOL ∧
      (∀ i : Fin ACORAL_MAX_POOLS, i.val % 2 = 1 → (s.kernel.pools i).ctrl = none) ∧
      ¬ NoPoolLost s := by
  have heval : (reuseStart.run 1 twentyPools).any (fun s =>
      decide ((acoralCreatePool s.kernel () (some 65536)).map Prod.snd =
        some .KR_RES_ERR_NO_POOL)) = true := by
    decide +kernel
  obtain ⟨s, hrun, hfail⟩ := (Option.any_eq_true ..).mp heval
  have hinv := PoolSystem.inv_of_run hrun
  obtain ⟨m, -, hfresh⟩ := hinv.pools.table
  have hlost := lost_of_odd hinv (i := ⟨1, by decide⟩) rfl
  refine ⟨s, hrun, of_decide_eq_true hfail, fun i hi => (hfresh i (Or.inr hi)).ctrl, fun h => ?_⟩
  exact (h ⟨1, by decide⟩).elim hlost.1 hlost.2

end ACoral
