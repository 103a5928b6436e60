import ACoral.Lib.Chain
import ACoral.Proofs.ResPool.CreateFail

/-!
# `ACoral.Proofs.ResPool.Collect`: giving pools back

The loops of `acoral_collect_pool` and `acoral_release_pool` unlink the pool they
are at, and go on from its node, which is linked to itself by then. So they come
to the same pool again, and unlinking it twice takes one lock twice.
`acoral_release_pool` moreover walks the list of the `total_list` nodes and takes
them for `free_list` nodes.

- `CtrlPools`: the pools of a control block and the list of free descriptors.
  Every reachable state is of this form (`PoolSystem.Inv.ctrlPools`).
- `Collected`: what a collection must leave.
- `poolSweep_idle`, `poolSweep_stuck`: the loop where nothing is to go, and where
  something is.
- `collectPool_iff`: the states in which the calls do what they must.
-/

set_option autoImplicit false

namespace ACoral

open Lib (Chain Links)
open Lib.Links (IsRing)

variable {C : Type} {s s' : ResPools C} {c : C} {i : Fin ACORAL_MAX_POOLS}

/-! ### The list of free descriptors -/

/-- The link of a free descriptor. -/
def ResPools.nextFree (s : ResPools C) : PoolPtr → PoolPtr
  | .pool i => (s.pools i).baseAdr
  | p       => p

/-- The free descriptors, in the order of their links. -/
def ResPools.FreeList (s : ResPools C) (l : List (Fin ACORAL_MAX_POOLS)) : Prop :=
  Chain s.nextFree .null s.freeResPool (l.map .pool)

/-- In a table as `acoral_pools_init` and the calls of `acoral_get_free_pool`
leave it, the descriptors from some place on are linked. -/
theorem FreeTable.freeList (h : FreeTable s) : ∃ l, s.FreeList l := by
  obtain ⟨m, hhead, hfresh⟩ := h
  -- downwards from the end of the table
  have hfrom : ∀ left n, n + left = ACORAL_MAX_POOLS → 2 * m ≤ n → ∃ l : List (Fin ACORAL_MAX_POOLS),
      Chain s.nextFree .null (if h : n < ACORAL_MAX_POOLS then .pool ⟨n, h⟩ else .null)
        (l.map .pool) := by
    intro left
    induction left with
    | zero =>
        intro n hn _
        exact ⟨[], dif_neg (by omega)⟩
    | succ left ih =>
        intro n hn hm
        have hlt : n < ACORAL_MAX_POOLS := by omega
        obtain ⟨l, hl⟩ := ih (n + 1) (by omega) (by omega)
        have hbase : s.nextFree (.pool ⟨n, hlt⟩) = nextPool n := (hfresh ⟨n, hlt⟩ (Or.inl hm)).base
        refine ⟨⟨n, hlt⟩ :: l, ?_⟩
        rw [dif_pos hlt]
        refine ⟨rfl, by simp, ?_⟩
        rw [hbase]
        exact hl
  unfold ResPools.FreeList
  rw [hhead]
  by_cases hm : 2 * m < ACORAL_MAX_POOLS
  · exact hfrom (ACORAL_MAX_POOLS - 2 * m) (2 * m) (by omega) (Nat.le_refl _)
  · exact ⟨[], dif_neg hm⟩

/-! ### The pools of a control block -/

/-- The pools `total` of a control block, those with a free resource, and the
descriptors that are free. -/
structure CtrlPools (s : ResPools C) (c : C) (total free unused : List (Fin ACORAL_MAX_POOLS)) :
    Prop where
  totalRing : s.links.IsRing (.totalHead c) (total.map .total)
  freeRing : s.links.IsRing (.freeHead c) (free.map .free)
  mem_free : ∀ i, i ∈ free ↔ i ∈ total ∧ 0 < (s.pools i).freeNum
  num_pos : ∀ i ∈ total, 0 < (s.pools i).num
  table : s.FreeList unused

/-- No resource of the pool is held. -/
def ResPools.Idle (s : ResPools C) (i : Fin ACORAL_MAX_POOLS) : Prop :=
  (s.pools i).freeNum = (s.pools i).num

instance (s : ResPools C) : DecidablePred s.Idle := fun i =>
  inferInstanceAs (Decidable ((s.pools i).freeNum = (s.pools i).num))

/-- The idle pools are unlinked, their memory is freed and their descriptors are
linked to the free ones, once each. The others stay on both lists as they are, and so do
all other lists. -/
structure Collected (s s' : ResPools C) (freed : List PoolPtr) (c : C)
    (total free unused : List (Fin ACORAL_MAX_POOLS)) : Prop where
  totalRing : s'.links.IsRing (.totalHead c) ((total.filter fun i => ¬ s.Idle i).map .total)
  freeRing : s'.links.IsRing (.freeHead c) ((free.filter fun i => ¬ s.Idle i).map .free)
  otherRings : ∀ h l, h ≠ .totalHead c → h ≠ .freeHead c → s.links.IsRing h l → s'.links.IsRing h l
  freed : freed.Perm ((total.filter fun i => s.Idle i).map fun i => (s.pools i).baseAdr)
  table : ∃ l, s'.FreeList l ∧ l.Perm ((total.filter fun i => s.Idle i) ++ unused)
  others : ∀ i, ¬ (i ∈ total ∧ s.Idle i) → s'.pools i = s.pools i

section
variable {total free unused : List (Fin ACORAL_MAX_POOLS)}

/-- Where no pool is idle, nothing has to change. -/
theorem CtrlPools.collected (h : CtrlPools s c total free unused) (hidle : ∀ i ∈ total, ¬ s.Idle i) :
    Collected s s [] c total free unused := by
  have htotal : (total.filter fun i => ¬ s.Idle i) = total :=
    List.filter_eq_self.mpr fun i hi => decide_eq_true (hidle i hi)
  have hfree : (free.filter fun i => ¬ s.Idle i) = free :=
    List.filter_eq_self.mpr fun i hi => decide_eq_true (hidle i ((h.mem_free i).mp hi).1)
  have hnone : (total.filter fun i => s.Idle i) = [] :=
    List.filter_eq_nil_iff.mpr fun i hi => by simpa using hidle i hi
  refine ⟨by rw [htotal]; exact h.totalRing, by rw [hfree]; exact h.freeRing,
    fun _ _ _ _ hring => hring, ?_, ⟨unused, h.table, ?_⟩, fun _ _ => rfl⟩
  · rw [hnone]
    exact List.Perm.refl _
  · rw [hnone]
    exact List.Perm.refl _

/-- An idle pool has a free resource. -/
theorem CtrlPools.idle_mem_free (h : CtrlPools s c total free unused) (hi : i ∈ total)
    (hidle : s.Idle i) : i ∈ free := by
  refine (h.mem_free i).mpr ⟨hi, ?_⟩
  have hpos := h.num_pos i hi
  unfold ResPools.Idle at hidle
  omega

variable [DecidableEq C]

/-! ### The loop -/

/-- What unlinking a pool leaves. -/
theorem unlinkPool_eq (hunlink : unlinkPool s i = some s') :
    s'.links = (s.links.unlink (.total i)).unlink (.free i) ∧
      (s'.pools i).freeNum = (s.pools i).freeNum ∧ (s'.pools i).num = (s.pools i).num := by
  obtain ⟨L₁, hdel₁, hunlink⟩ := Option.bind_eq_some_iff.mp hunlink
  obtain ⟨L₂, hdel₂, rfl⟩ := Option.map_eq_some_iff.mp hunlink
  obtain rfl := acoralListDel_some hdel₁
  obtain rfl := acoralListDel_some hdel₂
  exact ⟨rfl, by simp [ResPools.setPool], by simp [ResPools.setPool]⟩

/-- Both nodes of an unlinked pool are linked to themselves. -/
theorem CtrlPools.unlinked (h : CtrlPools s c total free unused) (hi : i ∈ free) :
    ((s.links.unlink (.total i)).unlink (.free i)).next (.free i) = .free i ∧
      ((s.links.unlink (.total i)).unlink (.free i)).prev (.total i) = .total i := by
  have hself₁ := s.links.unlink_self (.total i)
  have hself₂ := (s.links.unlink (.total i)).unlink_self (.free i)
  refine ⟨hself₂.next_head, ?_⟩
  -- the nodes around the one are not nodes of the other kind
  obtain ⟨t₁, t₂, ht⟩ := List.append_of_mem ((h.mem_free i).mp hi).1
  obtain ⟨f₁, f₂, hf⟩ := List.append_of_mem hi
  have htotal := h.totalRing
  have hfree := h.freeRing
  rw [ht, List.map_append, List.map_cons] at htotal
  rw [hf, List.map_append, List.map_cons] at hfree
  have hprev : s.links.prev (.total i) = (t₁.map PoolNode.total).getLastD (.totalHead c) :=
    htotal.prev_headD
  have hnext : s.links.next (.free i) = (f₂.map PoolNode.free).headD (.freeHead c) :=
    hfree.next_mem
  have hne : (.free i : PoolNode C) ≠ s.links.prev (.total i) := by
    rw [hprev]
    intro he
    have hmem := Links.getLastD_mem (.totalHead c) (t₁.map PoolNode.total)
    rw [← he] at hmem
    simp at hmem
  have hkeep : (s.links.unlink (.total i)).next (.free i) = s.links.next (.free i) :=
    Links.unlink_next_of_ne _ hne (by simp)
  rw [Links.unlink_prev_of_ne _ _ (by simp)]
  · have hp : (s.links.unlink (.total i)).prev (.total i) = ([] : List (PoolNode C)).getLastD (.total i) :=
      @IsRing.prev_headD _ _ _ [] [] hself₁
    exact hp
  · rw [hkeep, hnext]
    intro he
    cases f₂ with
    | nil => simp at he
    | cons j f₂ => simp at he

/-- Where no pool is to go, the loop comes back to the head. The induction is on the rest
of the ring. -/
theorem poolSweep_idle {goes : AcoralPool C → Bool} {head : PoolNode C} {fuel : Nat}
    {l₁ : List (PoolNode C)} {l₂ : List (Fin ACORAL_MAX_POOLS)} {freed : List PoolPtr}
    (hr : s.links.IsRing head (l₁ ++ l₂.map .free)) (hstay : ∀ i ∈ l₂, goes (s.pools i) = false)
    (hfuel : l₂.length < fuel) :
    poolSweep goes head fuel ((l₂.map .free).headD head) s freed = some (s, freed) := by
  induction l₂ generalizing fuel l₁ with
  | nil =>
      obtain ⟨n, rfl⟩ := Nat.exists_eq_add_of_lt hfuel
      simp [poolSweep]
  | cons i l ih =>
      obtain ⟨n, rfl⟩ := Nat.exists_eq_succ_of_ne_zero (Nat.ne_zero_of_lt hfuel)
      have hne : (.free i : PoolNode C) ≠ head := fun he =>
        (List.nodup_cons.mp hr.nodup).1 (by simp [← he])
      have hnext : s.links.next (.free i) = (l.map PoolNode.free).headD head := hr.next_mem
      have hr' : s.links.IsRing head ((l₁ ++ [.free i]) ++ l.map .free) := by simpa using hr
      rw [List.map_cons, List.headD_cons, poolSweep, if_neg hne, freeListEntry, Option.bind_some,
        if_neg (by simp [hstay i List.mem_cons_self]), hnext]
      exact ih hr' (fun j hj => hstay j (List.mem_cons_of_mem _ hj)) (by simpa using hfuel)

/-- A pool that was unlinked is met again, and cannot be unlinked again. -/
theorem poolSweep_again {goes : AcoralPool C → Bool} {fuel : Nat} {freed : List PoolPtr}
    (hgoes : goes (s.pools i) = true) (hself : s.links.prev (.total i) = .total i) :
    poolSweep goes (.freeHead c) fuel (.free i) s freed = none := by
  cases fuel with
  | zero => rfl
  | succ fuel =>
      rw [poolSweep, if_neg (by simp), freeListEntry, Option.bind_some, if_pos hgoes]
      unfold unlinkPool
      rw [acoralListDel_self hself]
      rfl

/-- Where an idle pool is on the list, the loop does not come back. The induction is on
the rest of the ring. -/
theorem poolSweep_stuck (h : CtrlPools s c total free unused) {fuel : Nat}
    {l₁ l₂ : List (Fin ACORAL_MAX_POOLS)} {freed : List PoolPtr} (hsplit : free = l₁ ++ l₂)
    (hidle : ∃ i ∈ l₂, s.Idle i) :
    poolSweep (fun pool => pool.freeNum = pool.num) (.freeHead c) fuel
      ((l₂.map .free).headD (.freeHead c)) s freed = none := by
  induction l₂ generalizing fuel l₁ with
  | nil =>
      obtain ⟨i, hi, -⟩ := hidle
      cases hi
  | cons i l ih =>
      cases fuel with
      | zero => rfl
      | succ fuel =>
          rw [List.map_cons, List.headD_cons, poolSweep, if_neg (by simp), freeListEntry,
            Option.bind_some]
          by_cases hi : (s.pools i).freeNum = (s.pools i).num
          · rw [if_pos (decide_eq_true hi)]
            cases hunlink : unlinkPool s i with
            | none => rfl
            | some s' =>
                obtain ⟨hlinks, hfree, hnum⟩ := unlinkPool_eq hunlink
                obtain ⟨hnext, hprev⟩ := h.unlinked (i := i) (by simp [hsplit])
                rw [Option.bind_some, hlinks, hnext]
                refine poolSweep_again (decide_eq_true ?_) ?_
                · rw [hfree, hnum]
                  exact hi
                · rw [hlinks]
                  exact hprev
          · have hnext : s.links.next (.free i) = (l.map PoolNode.free).headD (.freeHead c) := by
              have hr := h.freeRing
              rw [hsplit, List.map_append, List.map_cons] at hr
              exact hr.next_mem
            obtain ⟨j, hj, hjidle⟩ := hidle
            have hne : j ≠ i := fun he => hi (he ▸ hjidle)
            rw [if_neg (mt of_decide_eq_true hi), hnext]
            exact ih (show free = (l₁ ++ [i]) ++ l by simp [hsplit])
              ⟨j, (List.mem_cons.mp hj).resolve_left hne, hjidle⟩

/-! ### The two functions -/

/-- `acoral_collect_pool` returns and does what it must. -/
def Collects (s : ResPools C) (c : C) (total free unused : List (Fin ACORAL_MAX_POOLS)) : Prop :=
  ∃ fuel s' freed, acoralCollectPool fuel s c = some (s', freed) ∧
    Collected s s' freed c total free unused

/-- `acoral_release_pool` returns and does what it must. -/
def Releases (s : ResPools C) (c : C) (total free unused : List (Fin ACORAL_MAX_POOLS)) : Prop :=
  ∃ fuel s' freed, acoralReleasePoolFreed fuel s c = some (s', freed) ∧
    Collected s s' freed c total free unused

theorem collects_iff (h : CtrlPools s c total free unused) :
    Collects s c total free unused ↔ ∀ i ∈ total, ¬ s.Idle i := by
  have hfirst : s.links.next (.freeHead c) = (free.map PoolNode.free).headD (.freeHead c) :=
    h.freeRing.next_head
  constructor
  · rintro ⟨fuel, s', freed, hrun, -⟩ i hi hidle
    unfold acoralCollectPool at hrun
    rw [hfirst, poolSweep_stuck h (List.nil_append free).symm ⟨i, h.idle_mem_free hi hidle, hidle⟩] at hrun
    cases hrun
  · intro hnone
    refine ⟨free.length + 1, s, [], ?_, h.collected hnone⟩
    unfold acoralCollectPool
    rw [hfirst]
    refine poolSweep_idle (show s.links.IsRing _ ([] ++ free.map .free) from h.freeRing) (fun i hi => ?_) (Nat.lt_succ_self _)
    exact decide_eq_false (hnone i ((h.mem_free i).mp hi).1)

theorem releases_iff (h : CtrlPools s c total free unused) :
    Releases s c total free unused ↔ total = [] := by
  have hfirst : s.links.next (.totalHead c) = (total.map PoolNode.total).headD (.totalHead c) :=
    h.totalRing.next_head
  constructor
  · rintro ⟨fuel, s', freed, hrun, -⟩
    unfold acoralReleasePoolFreed at hrun
    rw [hfirst] at hrun
    cases fuel with
    | zero => cases hrun
    | succ fuel =>
        cases total with
        | nil => rfl
        | cons i l => simp [poolSweep, freeListEntry] at hrun
  · rintro rfl
    refine ⟨1, s, [], ?_, h.collected (by simp)⟩
    unfold acoralReleasePoolFreed
    rw [hfirst]
    simp [poolSweep]

/-- The calls return and do what they must exactly where there is nothing to do: for
`acoral_collect_pool` no pool is idle, and for `acoral_release_pool` there is no pool. -/
theorem collectPool_iff (h : CtrlPools s c total free unused) :
    (Collects s c total free unused ↔ ∀ i ∈ total, ¬ s.Idle i) ∧
      (Releases s c total free unused ↔ total = []) :=
  ⟨collects_iff h, releases_iff h⟩

end

/-! ### Reachable states -/

/-- A list of nodes of one kind is a list of descriptors. -/
theorem exists_map_eq {A B : Type} {f : A → B} {l : List B} (h : ∀ x ∈ l, ∃ a, x = f a) :
    ∃ t : List A, l = t.map f := by
  induction l with
  | nil => exact ⟨[], rfl⟩
  | cons x l ih =>
      obtain ⟨a, rfl⟩ := h x List.mem_cons_self
      obtain ⟨t, rfl⟩ := ih fun y hy => h y (List.mem_cons_of_mem _ hy)
      exact ⟨a :: t, rfl⟩

/-- The pools of an initialised control block in a reachable state. -/
theorem PoolSystem.Inv.ctrlPools [DecidableEq C] {x : PoolSystem C} (h : PoolSystem.Inv x)
    (hc : c ∈ x.inited) : ∃ total free unused, CtrlPools x.kernel c total free unused := by
  obtain ⟨members, hl⟩ := h.pools.lists
  obtain ⟨unused, htable⟩ := h.pools.table.freeList
  have htotal := hl.rings.ring (.totalHead c) hc
  have hfree := hl.rings.ring (.freeHead c) hc
  obtain ⟨total, ht⟩ := exists_map_eq (f := PoolNode.total) (l := members (.totalHead c))
    fun y hy => by
      obtain ⟨i, rfl, -⟩ := (hl.total c hc y).mp hy
      exact ⟨i, rfl⟩
  obtain ⟨free, hf⟩ := exists_map_eq (f := PoolNode.free) (l := members (.freeHead c))
    fun y hy => by
      obtain ⟨i, rfl, -⟩ := (hl.free c hc y).mp hy
      exact ⟨i, rfl⟩
  have hmemTotal : ∀ i, i ∈ total ↔ (x.kernel.pools i).ctrl = some c := by
    intro i
    have hiff := hl.total c hc (.total i)
    rw [ht, List.mem_map_of_injective fun _ _ he => by cases he; rfl] at hiff
    rw [hiff]
    constructor
    · rintro ⟨j, he, hj⟩
      cases he
      exact hj
    · exact fun hi => ⟨i, rfl, hi⟩
  have hmemFree : ∀ i, i ∈ free ↔
      (x.kernel.pools i).ctrl = some c ∧ 0 < (x.kernel.pools i).freeNum := by
    intro i
    have hiff := hl.free c hc (.free i)
    rw [hf, List.mem_map_of_injective fun _ _ he => by cases he; rfl] at hiff
    rw [hiff]
    constructor
    · rintro ⟨j, he, hj⟩
      cases he
      exact hj
    · exact fun hi => ⟨i, rfl, hi⟩
  refine ⟨total, free, unused, ht ▸ htotal, hf ▸ hfree, fun i => ?_, fun i hi => ?_, htable⟩
  · rw [hmemFree, hmemTotal]
  · obtain ⟨-, base, hu⟩ := h.pools.pool i c ((hmemTotal i).mp hi)
    exact hu.shape.pos

/-- One pool of four resources, two of them held. -/
theorem collectPool_iff_reuse :
    ∃ s total free unused, reuseStart.run 1 reuseRun = some s ∧
      CtrlPools s.kernel () total free unused ∧
      (Collects s.kernel () total free unused ↔ ∀ i ∈ total, ¬ s.kernel.Idle i) ∧
      (Releases s.kernel () total free unused ↔ total = []) := by
  have hinited : (reuseStart.run 1 reuseRun).map PoolSystem.inited = some [()] := by decide +kernel
  obtain ⟨s, hrun, hs⟩ := Option.map_eq_some_iff.mp hinited
  obtain ⟨total, free, unused, h⟩ :=
    (PoolSystem.inv_of_run hrun).ctrlPools (c := ()) (by rw [hs]; exact List.mem_singleton_self ())
  exact ⟨s, total, free, unused, hrun, h, collectPool_iff h⟩

/-- The memory of a pool without held resources is not given back: neither call
returns. -/
theorem collectPool_fails :
    ∃ s total free unused, reuseStart.run 1 onePoolRun = some s ∧
      CtrlPools s.kernel () total free unused ∧ ⟨0, by decide⟩ ∈ total ∧
      s.kernel.Idle ⟨0, by decide⟩ ∧ ¬ Collects s.kernel () total free unused ∧
      ¬ Releases s.kernel () total free unused := by
  have heval : (reuseStart.run 1 onePoolRun).any (fun s =>
      decide (s.inited = [()]) && decide (s.kernel.Idle ⟨0, by decide⟩) &&
        decide (s.kernel.links.next (.totalHead ()) = .total ⟨0, by decide⟩)) = true := by
    decide +kernel
  obtain ⟨s, hrun, hs⟩ := (Option.any_eq_true ..).mp heval
  simp only [Bool.and_eq_true, decide_eq_true_eq] at hs
  obtain ⟨⟨hinited, hidle⟩, hnext⟩ := hs
  obtain ⟨total, free, unused, h⟩ :=
    (PoolSystem.inv_of_run hrun).ctrlPools (c := ())
      (by rw [hinited]; exact List.mem_singleton_self ())
  have hmem : ⟨0, by decide⟩ ∈ total := by
    rw [h.totalRing.next_head] at hnext
    cases total with
    | nil => simp at hnext
    | cons i l =>
        cases hnext
        exact List.mem_cons_self
  refine ⟨s, total, free, unused, hrun, h, hmem, hidle, ?_, ?_⟩
  · rw [collects_iff h]
    exact fun hnone => hnone _ hmem hidle
  · rw [releases_iff h]
    exact List.ne_nil_of_mem hmem

end ACoral
