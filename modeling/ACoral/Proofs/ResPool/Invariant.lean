import ACoral.Proofs.ResPool.Lists
import ACoral.Proofs.ResPool.Pool
import Mathlib.Algebra.BigOperators.Fin

/-!
# `ACoral.Proofs.ResPool.Invariant`: the invariant of the resource pools

`PoolInv` says that the pools of the control blocks are in order, lie
apart from each other and are on the right lists, that a held resource
belongs to one of them, and what the table of free descriptors holds.

`acoral_get_free_pool` goes from a descriptor to the one after the next.
So the descriptors it returns are the even ones, in order
(`FreeTable.getFreePool`).

Each call of `res_pool.c` returns and keeps the invariant:
`PoolInv.createPool`, `PoolInv.ctrlInit`, `PoolInv.getRes`,
`PoolInv.releaseRes`.
-/

set_option autoImplicit false

namespace ACoral

variable {C : Type} [DecidableEq C]

/-! ### Free descriptors -/

/-- The descriptor after `i`. -/
def nextPool (i : Nat) : PoolPtr :=
  if h : i + 1 < ACORAL_MAX_POOLS then .pool ⟨i + 1, h⟩ else .null

/-- A descriptor as `acoral_pools_init` leaves it. -/
structure FreshPool (p : AcoralPool C) (i : Fin ACORAL_MAX_POOLS) : Prop where
  base : p.baseAdr = nextPool i
  id : i.val + 1 < ACORAL_MAX_POOLS → p.id = BitVec.ofNat 32 i
  ctrl : p.ctrl = none
  freeNum : p.freeNum = 0

/-- After `m` calls of `acoral_get_free_pool`. -/
def FreeTable (k : ResPools C) : Prop :=
  ∃ m, k.freeResPool =
      (if h : 2 * m < ACORAL_MAX_POOLS then PoolPtr.pool ⟨2 * m, h⟩ else .null) ∧
    ∀ i : Fin ACORAL_MAX_POOLS, 2 * m ≤ i.val ∨ i.val % 2 = 1 → FreshPool (k.pools i) i

omit [DecidableEq C] in
theorem freeTable_start (s : ResPools C) (hs : ∀ i, s.pools i = poolsStart) :
    FreeTable (acoralPoolsInit s) := by
  refine ⟨0, rfl, fun i _ => ?_⟩
  by_cases hi : i.val + 1 < ACORAL_MAX_POOLS
  · have hpool : (acoralPoolsInit s).pools i =
        { s.pools i with baseAdr := .pool ⟨i.val + 1, hi⟩, id := BitVec.ofNat 32 i.val } :=
      dif_pos hi
    rw [hpool, hs]
    exact ⟨by rw [nextPool, dif_pos hi], fun _ => rfl, rfl, rfl⟩
  · have hpool : (acoralPoolsInit s).pools i = { s.pools i with baseAdr := .null } := dif_neg hi
    rw [hpool, hs]
    exact ⟨by rw [nextPool, dif_neg hi], fun h => absurd h hi, rfl, rfl⟩

omit [DecidableEq C] in
/-- A call of `acoral_get_free_pool` finds the table empty, or returns an
even descriptor. The one behind it is lost. -/
theorem FreeTable.getFreePool {k : ResPools C} (h : FreeTable k) :
    (acoralGetFreePool k = some (k, none)) ∨
    ∃ i next, acoralGetFreePool k = some ({ k with freeResPool := next }, some i) ∧
      i.val % 2 = 0 ∧ FreshPool (k.pools i) i ∧ i.val + 1 < ACORAL_MAX_POOLS ∧
      ∀ k' : ResPools C, k'.freeResPool = next → (∀ j, j ≠ i → k'.pools j = k.pools j) →
        FreeTable k' := by
  obtain ⟨m, hhead, hfresh⟩ := h
  by_cases hm : 2 * m < ACORAL_MAX_POOLS
  · -- the table has an even number of descriptors, so there is one behind
    have hm1 : 2 * m + 1 < ACORAL_MAX_POOLS := by
      have hmax : ACORAL_MAX_POOLS = 40 := rfl
      omega
    rw [dif_pos hm] at hhead
    have hthis := hfresh ⟨2 * m, hm⟩ (Or.inl (Nat.le_refl _))
    have hbehind := hfresh ⟨2 * m + 1, hm1⟩ (Or.inl (Nat.le_succ _))
    have hnext : nextPool (2 * m) = .pool ⟨2 * m + 1, hm1⟩ := by rw [nextPool, dif_pos hm1]
    refine Or.inr ⟨⟨2 * m, hm⟩, nextPool (2 * m + 1), ?_, Nat.mul_mod_right 2 m, hthis, hm1, ?_⟩
    · simp only [acoralGetFreePool, hhead, hthis.base, hnext, ResPools.deref, hbehind.base,
        Option.map_some]
    · refine fun k' hhead' hpools => ⟨m + 1, hhead', fun i hi => ?_⟩
      have hne : i ≠ ⟨2 * m, hm⟩ := by
        intro he
        rw [he] at hi
        have hval : 2 * (m + 1) ≤ 2 * m ∨ 2 * m % 2 = 1 := hi
        omega
      rw [hpools i hne]
      exact hfresh i (hi.imp (fun hle => by omega) id)
  · rw [dif_neg hm] at hhead
    left
    simp only [acoralGetFreePool, hhead]

/-! ### What is left -/

/-- The free resources of a pool of `c`. -/
def ResPools.freeOf (k : ResPools C) (c : C) (i : Fin ACORAL_MAX_POOLS) : Nat :=
  if (k.pools i).ctrl = some c then (k.pools i).freeNum else 0

/-- The resources that `c` can still hand out: the free ones of its pools,
and those of the pools that it may still create. -/
def ResPools.capacity (k : ResPools C) (c : C) : Nat :=
  (Finset.univ.sum fun i => k.freeOf c i) +
    ((k.ctrl c).maxPools - (k.ctrl c).num) * (k.ctrl c).numPerPool

theorem capacity_congr {k k' : ResPools C} {c : C} (hfree : ∀ i, k'.freeOf c i = k.freeOf c i)
    (hmax : (k'.ctrl c).maxPools = (k.ctrl c).maxPools) (hnum : (k'.ctrl c).num = (k.ctrl c).num)
    (hper : (k'.ctrl c).numPerPool = (k.ctrl c).numPerPool) : k'.capacity c = k.capacity c := by
  rw [ResPools.capacity, ResPools.capacity, hmax, hnum, hper,
    Finset.sum_congr rfl fun i _ => hfree i]

/-- If one pool changes, the sum changes by its free resources. -/
theorem sum_freeOf {k k' : ResPools C} {c : C} {i : Fin ACORAL_MAX_POOLS}
    (h : ∀ j, j ≠ i → k'.pools j = k.pools j) :
    (Finset.univ.sum fun j => k'.freeOf c j) + k.freeOf c i =
      (Finset.univ.sum fun j => k.freeOf c j) + k'.freeOf c i := by
  have hrest : ((Finset.univ.erase i).sum fun j => k'.freeOf c j) =
      (Finset.univ.erase i).sum fun j => k.freeOf c j := by
    refine Finset.sum_congr rfl fun j hj => ?_
    rw [ResPools.freeOf, h j (Finset.ne_of_mem_erase hj), ResPools.freeOf]
  have hsplit := Finset.sum_erase_add Finset.univ (fun j => k.freeOf c j) (Finset.mem_univ i)
  have hsplit' := Finset.sum_erase_add Finset.univ (fun j => k'.freeOf c j) (Finset.mem_univ i)
  rw [hrest] at hsplit'
  omega

/-! ### The invariant -/

/-- The pool `i` belongs to `c`, and its resources are in order. -/
structure UsedPool (k : ResPools C) (held : List Nat) (c : C) (i : Fin ACORAL_MAX_POOLS)
    (base : Nat) : Prop where
  baseEq : (k.pools i).baseAdr = .mem base
  idEq : (k.pools i).id = poolId (k.ctrl c).type i
  sizeEq : (k.pools i).size = (k.ctrl c).size
  numEq : (k.pools i).num = (k.ctrl c).numPerPool
  shape : PoolShape (k.pools i).size (k.pools i).num base
  good : GoodPool (k.pools i).size (k.pools i).num base (k.pools i).id (k.pools i).resFree
    (k.pools i).freeNum k.word held

omit [DecidableEq C] in
/-- The block of a pool in use. -/
theorem UsedPool.block {k : ResPools C} {held : List Nat} {c : C} {i : Fin ACORAL_MAX_POOLS}
    {base : Nat} (h : UsedPool k held c i base) :
    (k.pools i).block = some (base, (k.pools i).size * (k.pools i).num) := by
  rw [AcoralPool.block, h.baseEq]
  rfl

/-- The fields of a control block that its owner has written. -/
def AcoralPoolCtrl.SameOwn (b b' : AcoralPoolCtrl) : Prop :=
  b'.type = b.type ∧ b'.size = b.size ∧ b'.numPerPool = b.numPerPool

omit [DecidableEq C] in
/-- What a pool in use depends on. -/
theorem UsedPool.congr {k k' : ResPools C} {held held' : List Nat} {c : C}
    {i : Fin ACORAL_MAX_POOLS} {base : Nat} (h : UsedPool k held c i base)
    (hpool : k'.pools i = k.pools i) (hctrl : (k.ctrl c).SameOwn (k'.ctrl c))
    (hword : ∀ n < (k.pools i).num,
      k'.word (base + n * (k.pools i).size) = k.word (base + n * (k.pools i).size))
    (hheld : ∀ n < (k.pools i).num,
      base + n * (k.pools i).size ∈ held' ↔ base + n * (k.pools i).size ∈ held) :
    UsedPool k' held' c i base := by
  obtain ⟨htype, hsize, hnum⟩ := hctrl
  constructor
  · rw [hpool, h.baseEq]
  · rw [hpool, htype, h.idEq]
  · rw [hpool, hsize, h.sizeEq]
  · rw [hpool, hnum, h.numEq]
  · rw [hpool]
    exact h.shape
  · rw [hpool]
    exact h.good.congr hword hheld

/-- The invariant of the resource pools. -/
structure PoolInv (k : ResPools C) (inited : List C) (held : List Nat) : Prop where
  ctrl : ∀ c ∈ inited, 4 ≤ (k.ctrl c).size ∧ 1 ≤ (k.ctrl c).numPerPool ∧
    (k.ctrl c).numPerPool ≤ RES_INDEX_NUM
  pool : ∀ i c, (k.pools i).ctrl = some c → c ∈ inited ∧ ∃ base, UsedPool k held c i base
  unused : ∀ i, (k.pools i).ctrl = none → (k.pools i).block = none ∧ (k.pools i).freeNum = 0
  apart : ∀ i j bi bj, i ≠ j → (k.pools i).block = some bi → (k.pools j).block = some bj →
    bi.1 + bi.2 ≤ bj.1 ∨ bj.1 + bj.2 ≤ bi.1
  heldNodup : held.Nodup
  held : ∀ r ∈ held, ∃ i c base n, (k.pools i).ctrl = some c ∧ UsedPool k held c i base ∧
    n < (k.pools i).num ∧ r = base + n * (k.pools i).size
  lists : ∃ members, PoolLists k.links inited (fun i => (k.pools i).ctrl)
    (fun i => 0 < (k.pools i).freeNum) members
  selfLinked : ∀ i c, (k.pools i).ctrl = some c → (k.pools i).freeNum = 0 →
    k.links.next (.free i) = .free i
  table : FreeTable k

namespace PoolInv

variable {k : ResPools C} {inited : List C} {held : List Nat} {c : C}

omit [DecidableEq C] in
/-- Control blocks may change beside the fields of their owners. -/
theorem congrCtrl (h : PoolInv k inited held) {k' : ResPools C} (hpools : k'.pools = k.pools)
    (hlinks : k'.links = k.links) (hword : k'.word = k.word)
    (hfree : k'.freeResPool = k.freeResPool)
    (hctrl : ∀ c ∈ inited, (k.ctrl c).SameOwn (k'.ctrl c)) : PoolInv k' inited held := by
  have hused : ∀ i c base, c ∈ inited → UsedPool k held c i base → UsedPool k' held c i base := by
    intro i c base hc hu
    exact hu.congr (by rw [hpools]) (hctrl c hc) (fun _ _ => by rw [hword]) fun _ _ => Iff.rfl
  constructor
  · intro c hc
    obtain ⟨-, hsize, hnum⟩ := hctrl c hc
    rw [hsize, hnum]
    exact h.ctrl c hc
  · intro i c hi
    rw [hpools] at hi
    obtain ⟨hc, base, hu⟩ := h.pool i c hi
    exact ⟨hc, base, hused i c base hc hu⟩
  · rw [hpools]
    exact h.unused
  · rw [hpools]
    exact h.apart
  · exact h.heldNodup
  · intro r hr
    obtain ⟨i, c, base, n, hi, hu, hn, he⟩ := h.held r hr
    rw [hpools]
    exact ⟨i, c, base, n, hi, hused i c base (h.pool i c hi).1 hu, hn, he⟩
  · rw [hlinks, hpools]
    exact h.lists
  · rw [hlinks, hpools]
    exact h.selfLinked
  · obtain ⟨m, hhead, hfresh⟩ := h.table
    exact ⟨m, by rw [hfree, hhead], by rw [hpools]; exact hfresh⟩

/-- Taking or giving back the lock of a control block. -/
theorem setLocked (h : PoolInv k inited held) (c : C) (b : Bool) :
    PoolInv (k.setCtrl c { k.ctrl c with locked := b }) inited held := by
  refine h.congrCtrl rfl rfl rfl rfl fun c' _ => ?_
  by_cases he : c' = c
  · subst he
    simp [ResPools.setCtrl, AcoralPoolCtrl.SameOwn]
  · simp [ResPools.setCtrl, AcoralPoolCtrl.SameOwn, he]

omit [DecidableEq C] in
/-- The resources of two pools are different. -/
theorem resAdr_ne (h : PoolInv k inited held) {i j : Fin ACORAL_MAX_POOLS} {bi bj ni nj : Nat}
    {ci cj : C} (hij : i ≠ j) (hi : UsedPool k held ci i bi) (hj : UsedPool k held cj j bj)
    (hni : ni < (k.pools i).num) (hnj : nj < (k.pools j).num) :
    bi + ni * (k.pools i).size ≠ bj + nj * (k.pools j).size := by
  have hlt : ∀ {n num size : Nat}, n < num → 0 < size → n * size < size * num := by
    intro n num size hn hsize
    rw [Nat.mul_comm size num]
    exact Nat.mul_lt_mul_of_pos_right hn hsize
  have hi' := hlt hni hi.shape.size_pos
  have hj' := hlt hnj hj.shape.size_pos
  have hapart := h.apart i j _ _ hij hi.block hj.block
  simp only at hapart
  omega

omit [DecidableEq C] in
/-- One pool changes: its free resources, their words, and which of them
are held. The other pools keep what they have. -/
theorem updatePool (h : PoolInv k inited held) {k' : ResPools C} {held' : List Nat}
    {i : Fin ACORAL_MAX_POOLS} {base : Nat} (hi : (k.pools i).ctrl = some c)
    (hu : UsedPool k held c i base) (hpools : ∀ j, j ≠ i → k'.pools j = k.pools j)
    (hsame : ∃ resFree freeNum,
      k'.pools i = { k.pools i with resFree := resFree, freeNum := freeNum })
    (hctrl : k'.ctrl = k.ctrl) (hfree : k'.freeResPool = k.freeResPool)
    (hword : ∀ r, (∀ n < (k.pools i).num, r ≠ base + n * (k.pools i).size) → k'.word r = k.word r)
    (hheld : ∀ r, (∀ n < (k.pools i).num, r ≠ base + n * (k.pools i).size) →
      (r ∈ held' ↔ r ∈ held))
    (hnodup : held'.Nodup)
    (hgood : GoodPool (k.pools i).size (k.pools i).num base (k.pools i).id (k'.pools i).resFree
      (k'.pools i).freeNum k'.word held')
    (hlists : ∃ members, PoolLists k'.links inited (fun i => (k.pools i).ctrl)
      (fun i => 0 < (k'.pools i).freeNum) members)
    (hself : ∀ i c, (k.pools i).ctrl = some c → (k'.pools i).freeNum = 0 →
      k'.links.next (.free i) = .free i) : PoolInv k' inited held' := by
  obtain ⟨resFree, freeNum, hpool⟩ := hsame
  have hfields : ∀ j, (k'.pools j).ctrl = (k.pools j).ctrl ∧
      (k'.pools j).block = (k.pools j).block ∧ (k'.pools j).num = (k.pools j).num ∧
      (k'.pools j).size = (k.pools j).size := by
    intro j
    by_cases hj : j = i
    · rw [hj, hpool]
      exact ⟨rfl, rfl, rfl, rfl⟩
    · rw [hpools j hj]
      exact ⟨rfl, rfl, rfl, rfl⟩
  -- the pool that changes, and the others
  have hthis : UsedPool k' held' c i base := by
    constructor
    · rw [hpool, ← hu.baseEq]
    · rw [hpool, hctrl, ← hu.idEq]
    · rw [hpool, hctrl, ← hu.sizeEq]
    · rw [hpool, hctrl, ← hu.numEq]
    · rw [hpool]
      exact hu.shape
    · rw [hpool] at hgood ⊢
      exact hgood
  have hother : ∀ j c' b, j ≠ i → UsedPool k held c' j b → UsedPool k' held' c' j b := by
    intro j c' b hj hu'
    have hne : ∀ n < (k.pools j).num, ∀ n' < (k.pools i).num,
        b + n * (k.pools j).size ≠ base + n' * (k.pools i).size :=
      fun n hn n' hn' => h.resAdr_ne hj hu' hu hn hn'
    refine hu'.congr (hpools j hj) ⟨by rw [hctrl], by rw [hctrl], by rw [hctrl]⟩ ?_ ?_
    · exact fun n hn => hword _ (hne n hn)
    · exact fun n hn => hheld _ (hne n hn)
  have hused : ∀ j c' b, (k.pools j).ctrl = some c' → UsedPool k held c' j b →
      UsedPool k' held' c' j b := by
    intro j c' b hj hu'
    by_cases hji : j = i
    · subst hji
      obtain rfl : c' = c := by
        rw [hi, Option.some.injEq] at hj
        exact hj.symm
      obtain rfl : b = base := by
        have hb := hu'.baseEq
        rw [hu.baseEq, PoolPtr.mem.injEq] at hb
        exact hb.symm
      exact hthis
    · exact hother j c' b hji hu'
  constructor
  · rw [hctrl]
    exact h.ctrl
  · intro j c' hj
    rw [(hfields j).1] at hj
    obtain ⟨hc', b, hu'⟩ := h.pool j c' hj
    exact ⟨hc', b, hused j c' b hj hu'⟩
  · intro j hj
    rw [(hfields j).1] at hj
    have hji : j ≠ i := by
      intro he
      rw [he, hi] at hj
      cases hj
    rw [hpools j hji]
    exact h.unused j hj
  · intro j j' bj bj' hne hj hj'
    rw [(hfields j).2.1] at hj
    rw [(hfields j').2.1] at hj'
    exact h.apart j j' bj bj' hne hj hj'
  · exact hnodup
  · intro r hr
    by_cases hin : ∃ n < (k.pools i).num, r = base + n * (k.pools i).size
    · obtain ⟨n, hn, he⟩ := hin
      refine ⟨i, c, base, n, ?_, hthis, ?_, ?_⟩
      · rw [(hfields i).1, hi]
      · rw [(hfields i).2.2.1]
        exact hn
      · rw [(hfields i).2.2.2]
        exact he
    · have hout : ∀ n < (k.pools i).num, r ≠ base + n * (k.pools i).size :=
        fun n hn he => hin ⟨n, hn, he⟩
      obtain ⟨j, c', b, n, hj, hu', hn, he⟩ := h.held r ((hheld r hout).mp hr)
      refine ⟨j, c', b, n, ?_, hused j c' b hj hu', ?_, ?_⟩
      · rw [(hfields j).1, hj]
      · rw [(hfields j).2.2.1]
        exact hn
      · rw [(hfields j).2.2.2]
        exact he
  · have howner : (fun i => (k'.pools i).ctrl) = fun i => (k.pools i).ctrl :=
      funext fun j => (hfields j).1
    rw [howner]
    exact hlists
  · intro j c' hj hzero
    rw [(hfields j).1] at hj
    exact hself j c' hj hzero
  · obtain ⟨m, hhead, hfresh⟩ := h.table
    refine ⟨m, by rw [hfree, hhead], fun j hj => ?_⟩
    have hji : j ≠ i := by
      intro he
      have hnone := (hfresh j hj).ctrl
      rw [he, hi] at hnone
      cases hnone
    rw [hpools j hji]
    exact hfresh j hj

end PoolInv

end ACoral
