import ACoral.Proofs.ResPool.Invariant

/-!
# `ACoral.Proofs.ResPool.Ops`: the calls of `res_pool.c` keep the invariant

Each call returns, and keeps `PoolInv`. The locks of the control blocks
are as they were.

- `PoolInv.getRes`: `acoral_get_res` returns a resource that is not held,
  or `NULL`.
- `PoolInv.releaseRes`: `acoral_release_res` of a held resource.
- `PoolInv.createPool`: `acoral_create_pool`, whatever `acoral_malloc`
  answers.
- `PoolInv.ctrlInit`: `acoral_pool_ctrl_init`.
-/

set_option autoImplicit false

namespace ACoral

variable {C : Type} [DecidableEq C] {k : ResPools C} {inited : List C} {held : List Nat} {c : C}

omit [DecidableEq C] in
theorem PoolLists.congr {L : Lib.Links (PoolNode C)} {owner : Fin ACORAL_MAX_POOLS → Option C}
    {hasFree hasFree' : Fin ACORAL_MAX_POOLS → Prop} {members : PoolNode C → List (PoolNode C)}
    (h : PoolLists L inited owner hasFree members) (heq : ∀ j, hasFree' j ↔ hasFree j) :
    PoolLists L inited owner hasFree' members := by
  have hfun : hasFree' = hasFree := funext fun j => propext (heq j)
  rw [hfun]
  exact h

/-- The lock of a control block has nothing to do with its resources. -/
theorem capacity_setLocked (k : ResPools C) (c c' : C) (b : Bool) :
    (k.setCtrl c { k.ctrl c with locked := b }).capacity c' = k.capacity c' := by
  by_cases he : c' = c
  · refine capacity_congr (fun _ => rfl) ?_ ?_ ?_ <;> simp [ResPools.setCtrl, he]
  · refine capacity_congr (fun _ => rfl) ?_ ?_ ?_ <;> simp [ResPools.setCtrl, he]

namespace PoolInv

variable {i : Fin ACORAL_MAX_POOLS} {base : Nat}

omit [DecidableEq C] in
/-- A pool has at most as many free resources as the index field tells
apart. -/
theorem freeNum_le (hu : UsedPool k held c i base) : (k.pools i).freeNum ≤ RES_INDEX_NUM := by
  rw [hu.good.freeNum_eq hu.shape]
  refine Nat.le_trans (List.length_filter_le _ _) ?_
  rw [List.length_range]
  exact hu.shape.small

omit [DecidableEq C] in
/-- One resource of a pool is taken or given back. -/
theorem updateFree (h : PoolInv k inited held) (L' : Lib.Links (PoolNode C)) (held' : List Nat)
    (hi : (k.pools i).ctrl = some c) (hu : UsedPool k held c i base) {n res : Nat}
    (hn : n < (k.pools i).num) (hres : res = base + n * (k.pools i).size)
    {resFree freeNum : Nat} {w : BitVec 32} (hheld : ∀ r, r ≠ res → (r ∈ held' ↔ r ∈ held)) (hnodup : held'.Nodup)
    (hgood : GoodPool (k.pools i).size (k.pools i).num base (k.pools i).id resFree freeNum
      (Function.update k.word res w) held')
    (hlists : ∃ members, PoolLists L' inited (fun j => (k.pools j).ctrl)
      (fun j => 0 < if j = i then freeNum else (k.pools j).freeNum) members)
    (hself : ∀ j c, (k.pools j).ctrl = some c →
      (if j = i then freeNum else (k.pools j).freeNum) = 0 → L'.next (.free j) = .free j) :
    PoolInv
      { (k.setPool i { k.pools i with resFree := resFree, freeNum := freeNum }).setWord res w with
        links := L' } inited held' := by
  have hnum : ∀ j, ((Function.update k.pools i
      { k.pools i with resFree := resFree, freeNum := freeNum }) j).freeNum =
      if j = i then freeNum else (k.pools j).freeNum := by
    intro j
    by_cases hj : j = i
    · rw [hj, Function.update_self, if_pos rfl]
    · rw [Function.update_of_ne hj, if_neg hj]
  have hne : ∀ r, (∀ n < (k.pools i).num, r ≠ base + n * (k.pools i).size) → r ≠ res :=
    fun r hr he => hr n hn (he.trans hres)
  refine h.updatePool hi hu ?_ ⟨resFree, freeNum, Function.update_self ..⟩ rfl rfl ?_ ?_ hnodup ?_
    ?_ ?_
  · intro j hj
    exact Function.update_of_ne hj _ _
  · intro r hr
    exact Function.update_of_ne (hne r hr) _ _
  · intro r hr
    exact hheld r (hne r hr)
  · simp only [ResPools.setWord, ResPools.setPool, Function.update_self]
    exact hgood
  · simp only [ResPools.setWord, ResPools.setPool, hnum]
    exact hlists
  · intro j c' hj hzero
    simp only [ResPools.setWord, ResPools.setPool, hnum] at hzero
    exact hself j c' hj hzero

/-- The part of `acoral_get_res` on the pool it has chosen. -/
theorem getResFrom (h : PoolInv k inited held) (hi : (k.pools i).ctrl = some c)
    (hfree : 0 < (k.pools i).freeNum) :
    ∃ k', ACoral.getResFrom k i = some (k', (k.pools i).resFree) ∧
      PoolInv k' inited ((k.pools i).resFree :: held) ∧ (k.pools i).resFree ∉ held ∧
      k'.ctrl = k.ctrl ∧ k'.capacity c + 1 = k.capacity c := by
  obtain ⟨hc, base, hu⟩ := h.pool i c hi
  obtain ⟨n, hn, hres, hnot⟩ := hu.good.first hfree
  have hle : (k.pools i).freeNum ≤ 1024 := freeNum_le hu
  have hnum : ((k.pools i).freeNum + 2 ^ 32 - 1) % 2 ^ 32 = (k.pools i).freeNum - 1 := by omega
  have hgood := hu.good.take hu.shape hfree hu.idEq
  obtain ⟨members, hlists⟩ := h.lists
  have hupdate : ∀ L', _ → _ → PoolInv _ inited ((k.pools i).resFree :: held) := fun L' =>
    h.updateFree L' ((k.pools i).resFree :: held) hi hu hn hres
      (fun r hr => by rw [List.mem_cons, or_iff_right hr])
      (List.nodup_cons.mpr ⟨hnot, h.heldNodup⟩) hgood
  -- the pool has one free resource less
  have hcapacity : ∀ k' : ResPools C, (∀ j, j ≠ i → k'.pools j = k.pools j) →
      (k'.pools i).ctrl = some c → (k'.pools i).freeNum = (k.pools i).freeNum - 1 →
      k'.ctrl = k.ctrl → k'.capacity c + 1 = k.capacity c := by
    intro k' hpools hctrl' hfree' hctrl
    have hsum := sum_freeOf (c := c) hpools
    simp only [ResPools.freeOf, if_pos hi, if_pos hctrl', hfree'] at hsum
    simp only [ResPools.capacity, ResPools.freeOf, hctrl]
    omega
  have hadr : (k.pools i).baseAdr.adr = some base := by rw [hu.baseEq, PoolPtr.adr]
  simp only [ACoral.getResFrom, hadr, Option.bind_some, hnum]
  by_cases hlast : (k.pools i).freeNum - 1 = 0
  · -- the last free resource: the pool leaves the list
    rw [if_pos hlast]
    obtain ⟨L', members', hdel, hlists', hselfi, hnext⟩ := hlists.delFree hc hi hfree
    refine ⟨_, ?_, hupdate L' ⟨members', hlists'.congr fun j => ?_⟩ ?_, hnot, rfl,
      hcapacity _ (fun j hj => Function.update_of_ne hj _ _) ?_ ?_ rfl⟩
    · simp only [ResPools.setWord, ResPools.setPool, hdel, Option.map_some, nextFree]
    · by_cases hj : j = i
      · simp [hj, hlast]
      · simp [hj]
    · intro j c' hj hzero
      by_cases hji : j = i
      · rw [hji]
        exact hselfi
      · rw [if_neg hji] at hzero
        rw [hnext j (by omega)]
        exact h.selfLinked j c' hj hzero
    · simp only [ResPools.setWord, ResPools.setPool, Function.update_self, hi]
    · simp only [ResPools.setWord, ResPools.setPool, Function.update_self]
  · rw [if_neg hlast]
    refine ⟨_, rfl, hupdate k.links ⟨members, hlists.congr fun j => ?_⟩ ?_, hnot, rfl,
      hcapacity _ (fun j hj => Function.update_of_ne hj _ _) ?_ ?_ rfl⟩
    · by_cases hj : j = i
      · simp only [hj, if_pos]
        omega
      · simp [hj]
    · intro j c' hj hzero
      by_cases hji : j = i
      · rw [if_pos hji] at hzero
        exact absurd hzero hlast
      · rw [if_neg hji] at hzero
        exact h.selfLinked j c' hj hzero
    · simp only [ResPools.setWord, ResPools.setPool, Function.update_self, hi]
    · simp only [ResPools.setWord, ResPools.setPool, Function.update_self]

omit [DecidableEq C] in
/-- `acoral_get_pool_by_id` finds the pool of a held resource. -/
theorem getPoolById (hu : UsedPool k held c i base) {n : Nat} (hn : n < (k.pools i).num)
    (hheld : base + n * (k.pools i).size ∈ held) :
    acoralGetPoolById (k.word (base + n * (k.pools i).size)) = some i := by
  have hid := hu.good.heldId n hn hheld
  rw [hu.idEq] at hid
  have hpool : poolIndex (k.word (base + n * (k.pools i).size)) = i := by
    rw [← poolIndex_coreId, hid, poolIndex_resId]
  have hlt : poolIndex (k.word (base + n * (k.pools i).size)) < ACORAL_MAX_POOLS := by
    rw [hpool]
    exact i.isLt
  exact (dif_pos hlt).trans (congrArg some (Fin.ext hpool))

/-- `acoral_release_res` of a held resource, with the lock of its control
block free. -/
theorem releaseRes (h : PoolInv k inited held) {res : Nat} (hres : res ∈ held)
    (hlock : ∀ c ∈ inited, (k.ctrl c).locked = false) :
    ∃ k', acoralReleaseRes k res = some k' ∧ PoolInv k' inited (held.erase res) ∧
      ∀ c ∈ inited, (k'.ctrl c).locked = false := by
  obtain ⟨i, c, base, n, hi, hu, hn, he⟩ := h.held res hres
  obtain ⟨hc, -⟩ := h.pool i c hi
  have hsize := hu.shape.size_pos
  have hgetPool : acoralGetPoolById (k.word res) = some i := by
    rw [he] at hres ⊢
    exact getPoolById hu hn hres
  -- everything after the lock has been taken happens in `k₁`
  let k₁ := k.setCtrl c { k.ctrl c with locked := true }
  have hlocked : k.lockCtrl c = some k₁ := by
    rw [ResPools.lockCtrl, hlock c hc]
    rfl
  have h₁ : PoolInv k₁ inited held := h.setLocked c true
  have hu₁ : UsedPool k₁ held c i base := by
    refine hu.congr rfl ?_ (fun _ _ => rfl) fun _ _ => Iff.rfl
    simp [k₁, ResPools.setCtrl, AcoralPoolCtrl.SameOwn]
  have hadr : (k.pools i).baseAdr.adr = some base := by rw [hu.baseEq, PoolPtr.adr]
  have hbelow : ¬ res < base := by omega
  have hindex : (res - base) / (k.pools i).size = n := by rw [he, resAdr_index hsize]
  have hin : ¬ n ≥ (k.pools i).num := by omega
  have hle : (k.pools i).freeNum ≤ 1024 := freeNum_le hu
  have hnum : ((k.pools i).freeNum + 1) % 2 ^ 32 = (k.pools i).freeNum + 1 := by omega
  obtain ⟨members, hlists⟩ := h₁.lists
  let index := BitVec.ofNat 32 n <<< ACORAL_RES_INDEX_INIT_BIT
  let next := ((Function.update k₁.word res index (k₁.pools i).resFree).sshiftRight
    ACORAL_RES_INDEX_INIT_BIT).setWidth 16
  have hgood := hu₁.good.give hu₁.shape h₁.heldNodup hn (he ▸ hres) next
    fun hpos => hu₁.good.next_of_first hu₁.shape hpos hres index
  rw [show (k₁.pools i).size = (k.pools i).size from rfl, ← he] at hgood
  have hupdate : ∀ L', _ → _ → PoolInv _ inited (held.erase res) := fun L' =>
    h₁.updateFree L' (held.erase res) hi hu₁ hn he
      (fun r hr => by rw [h.heldNodup.mem_erase_iff, and_iff_right hr])
      (h.heldNodup.erase res) hgood
  have hunlock : ∀ k' : ResPools C, k'.ctrl = k₁.ctrl →
      ∀ c' ∈ inited, ((k'.unlockCtrl c).ctrl c').locked = false := by
    intro k' hk' c' hc'
    by_cases hcc : c' = c
    · simp [ResPools.unlockCtrl, ResPools.setCtrl, hcc]
    · simp [ResPools.unlockCtrl, ResPools.setCtrl, hcc, hk', k₁, hlock c' hc']
  have hbind : ∀ f : C → Option (ResPools C), (k.pools i).ctrl.bind f = f c := by
    intro f
    rw [hi, Option.bind_some]
  rw [acoralReleaseRes, hgetPool]
  simp only [hbind, Option.bind_some, hlocked, hadr, if_neg hbelow, hindex, if_neg hin, hnum]
  rcases Nat.eq_zero_or_pos (k.pools i).freeNum with hzero | hpos
  · -- the pool had no free resource: it enters the list
    have hself : k.links.next (.free i) = .free i := h.selfLinked i c hi hzero
    obtain ⟨L', members', hadd, hlists', hnext⟩ := hlists.addFree (i := i) hc hi (by
      rw [show (k₁.pools i).freeNum = (k.pools i).freeNum from rfl, hzero]
      exact Nat.lt_irrefl 0)
    have hinv := (hupdate L' ⟨members', hlists'.congr fun j => ?_⟩ ?_).setLocked c false
    · refine ⟨_, ?_, hinv, hunlock _ rfl⟩
      have hcond : k₁.links.next (.free i) = .free i := hself
      simp only [ResPools.setWord, ResPools.setPool, if_pos hcond, poolFifoAdd, hadd,
        Option.map_some, Function.update_self]
      rw [Function.update_idem]
      rfl
    · by_cases hj : j = i
      · simp [hj, hzero, k₁, ResPools.setCtrl]
      · simp [hj]
    · intro j c' hj hjzero
      by_cases hji : j = i
      · rw [if_pos hji] at hjzero
        omega
      · rw [if_neg hji] at hjzero
        rw [hnext j hji (by omega)]
        exact h₁.selfLinked j c' hj hjzero
  · have hself : k.links.next (.free i) ≠ .free i := hlists.next_ne hc hi hpos
    have hinv := (hupdate k.links ⟨members, hlists.congr fun j => ?_⟩ ?_).setLocked c false
    · refine ⟨_, ?_, hinv, hunlock _ rfl⟩
      have hcond : ¬ k₁.links.next (.free i) = .free i := hself
      simp only [ResPools.setWord, ResPools.setPool, if_neg hcond, Option.map_some,
        Function.update_self]
      rw [Function.update_idem]
      rfl
    · by_cases hj : j = i
      · simp [hj, hpos, k₁, ResPools.setCtrl]
      · simp [hj]
    · intro j c' hj hjzero
      by_cases hji : j = i
      · rw [if_pos hji] at hjzero
        omega
      · rw [if_neg hji] at hjzero
        exact h₁.selfLinked j c' hj hjzero

/-! ### Creating a pool -/

omit [DecidableEq C] in
/-- A descriptor that is in no use is written, and is still in no use. -/
theorem changeUnused (h : PoolInv k inited held) (hi : (k.pools i).ctrl = none)
    (k' : ResPools C) (hpools : ∀ j, j ≠ i → k'.pools j = k.pools j) (hctrl : k'.ctrl = k.ctrl)
    (hlinks : k'.links = k.links) (hword : k'.word = k.word) (hnone : (k'.pools i).ctrl = none)
    (hblock : (k'.pools i).block = none) (hfree : (k'.pools i).freeNum = 0)
    (htable : FreeTable k') : PoolInv k' inited held := by
  have hsame : ∀ j, (k'.pools j).ctrl = (k.pools j).ctrl ∧
      (k'.pools j).freeNum = (k.pools j).freeNum ∧ (k'.pools j).block = (k.pools j).block := by
    intro j
    by_cases hj : j = i
    · obtain ⟨hb, hf⟩ := h.unused i hi
      rw [hj, hnone, hfree, hblock, hi, hb, hf]
      exact ⟨rfl, rfl, rfl⟩
    · rw [hpools j hj]
      exact ⟨rfl, rfl, rfl⟩
  have hne : ∀ j c, (k.pools j).ctrl = some c → j ≠ i := by
    intro j c hj he
    rw [he, hi] at hj
    cases hj
  have hused : ∀ j c b, (k.pools j).ctrl = some c → UsedPool k held c j b →
      UsedPool k' held c j b := by
    intro j c b hj hu
    refine hu.congr (hpools j (hne j c hj)) ?_ (fun _ _ => by rw [hword]) fun _ _ => Iff.rfl
    rw [hctrl]
    exact ⟨rfl, rfl, rfl⟩
  constructor
  · rw [hctrl]
    exact h.ctrl
  · intro j c hj
    rw [(hsame j).1] at hj
    obtain ⟨hc, b, hu⟩ := h.pool j c hj
    exact ⟨hc, b, hused j c b hj hu⟩
  · intro j hj
    rw [(hsame j).1] at hj
    rw [(hsame j).2.1, (hsame j).2.2]
    exact h.unused j hj
  · intro j j' bj bj' hjj hj hj'
    rw [(hsame j).2.2] at hj
    rw [(hsame j').2.2] at hj'
    exact h.apart j j' bj bj' hjj hj hj'
  · exact h.heldNodup
  · intro r hr
    obtain ⟨j, c, b, n, hj, hu, hn, he⟩ := h.held r hr
    have hpool := hpools j (hne j c hj)
    rw [← hpool] at hn he
    exact ⟨j, c, b, n, (hsame j).1.trans hj, hused j c b hj hu, hn, he⟩
  · have howner : (fun j => (k'.pools j).ctrl) = fun j => (k.pools j).ctrl :=
      funext fun j => (hsame j).1
    have hnum : (fun j => 0 < (k'.pools j).freeNum) = fun j => 0 < (k.pools j).freeNum :=
      funext fun j => by rw [(hsame j).2.1]
    rw [hlinks, howner, hnum]
    exact h.lists
  · intro j c hj hzero
    rw [(hsame j).1] at hj
    rw [(hsame j).2.1] at hzero
    rw [hlinks]
    exact h.selfLinked j c hj hzero
  · exact htable

omit [DecidableEq C] in
/-- The block that `acoral_malloc` returns is apart from the resources of
the pools. -/
theorem malloc_apart {size base b : Nat} (hm : k.mallocOk size (some base) = true)
    (hu : UsedPool k held c i b) {n : Nat} (hn : n < (k.pools i).num) :
    b + n * (k.pools i).size < base ∨ base + size ≤ b + n * (k.pools i).size := by
  simp only [ResPools.mallocOk, Bool.and_eq_true, decide_eq_true_eq] at hm
  have hmul : n * (k.pools i).size < (k.pools i).size * (k.pools i).num := by
    rw [Nat.mul_comm (k.pools i).size]
    exact Nat.mul_lt_mul_of_pos_right hn hu.shape.size_pos
  have hapart := hm.2 i _ (Option.mem_def.mpr hu.block)
  simp only at hapart
  omega

omit [DecidableEq C] in
/-- `acoral_malloc` looks at the pools only. -/
theorem mallocOk_congr {k' : ResPools C} (hpools : k'.pools = k.pools) (size : Nat)
    (malloc : Option Nat) : k'.mallocOk size malloc = k.mallocOk size malloc := by
  cases malloc with
  | none => rfl
  | some base => simp only [ResPools.mallocOk, hpools]

omit [DecidableEq C] in
/-- A descriptor becomes a pool of `c`, in a block that no pool uses. -/
theorem addPool (h : PoolInv k inited held) (hc : c ∈ inited) (hi : (k.pools i).ctrl = none)
    (hid : (k.pools i).id = BitVec.ofNat 32 i) {base : Nat}
    (hm : k.mallocOk ((k.ctrl c).size * (k.ctrl c).numPerPool) (some base) = true)
    {k' : ResPools C} (hpools : ∀ j, j ≠ i → k'.pools j = k.pools j)
    (hpool : k'.pools i =
      { baseAdr := .mem base, resFree := base, id := poolId (k.ctrl c).type i
        size := (k.ctrl c).size, num := (k.ctrl c).numPerPool
        freeNum := (k.ctrl c).numPerPool, ctrl := some c })
    (hctrl : ∀ c', (k.ctrl c').SameOwn (k'.ctrl c'))
    (hword : k'.word = acoralPoolResInit base (k.ctrl c).size (k.ctrl c).numPerPool k.word)
    (hlists : ∃ members, PoolLists k'.links inited
      (Function.update (fun j => (k.pools j).ctrl) i (some c))
      (fun j => j = i ∨ 0 < (k.pools j).freeNum) members)
    (hnext : ∀ j, j ≠ i → (k.pools j).freeNum = 0 →
      k'.links.next (.free j) = k.links.next (.free j))
    (htable : FreeTable k') : PoolInv k' inited held := by
  obtain ⟨hsize, hpos, hsmall⟩ := h.ctrl c hc
  have hm' := hm
  simp only [ResPools.mallocOk, Bool.and_eq_true, decide_eq_true_eq] at hm'
  have hshape : PoolShape (k.ctrl c).size (k.ctrl c).numPerPool base :=
    ⟨hsize, hpos, hsmall, hm'.1.2⟩
  obtain ⟨-, hold⟩ := acoralPoolResInit_word hshape k.word
  have hnew : ∀ n < (k.ctrl c).numPerPool,
      base + n * (k.ctrl c).size < base + (k.ctrl c).size * (k.ctrl c).numPerPool := by
    intro n hn
    rw [Nat.mul_comm (k.ctrl c).size]
    exact Nat.add_lt_add_left (Nat.mul_lt_mul_of_pos_right hn hshape.size_pos) base
  -- no resource of another pool is one of the new ones
  have hapart : ∀ j c' b, UsedPool k held c' j b → ∀ m < (k.pools j).num,
      ∀ n < (k.ctrl c).numPerPool,
        b + m * (k.pools j).size ≠ base + n * (k.ctrl c).size := by
    intro j c' b hu m hmn n hn
    have h1 := malloc_apart hm hu hmn
    have h2 := hnew n hn
    omega
  have hnone : ∀ j c', (k.pools j).ctrl = some c' → j ≠ i := by
    intro j c' hj he
    rw [he, hi] at hj
    cases hj
  have hthis : UsedPool k' held c i base := by
    obtain ⟨htype, hs, hn⟩ := hctrl c
    refine ⟨?_, ?_, ?_, ?_, ?_, ?_⟩ <;> rw [hpool]
    · rw [htype]
    · rw [hs]
    · rw [hn]
    · exact hshape
    · rw [hword]
      refine GoodPool.init hshape k.word _ fun n hn hheld => ?_
      obtain ⟨j, c', b, m, -, hu, hm, he⟩ := h.held _ hheld
      exact hapart j c' b hu m hm n hn he.symm
  have hother : ∀ j c' b, (k.pools j).ctrl = some c' → UsedPool k held c' j b →
      UsedPool k' held c' j b := by
    intro j c' b hj hu
    refine hu.congr (hpools j (hnone j c' hj)) (hctrl c') (fun m hm => ?_) fun _ _ => Iff.rfl
    rw [hword]
    exact hold _ fun n hn => hapart j c' b hu m hm n hn
  constructor
  · intro c' hc'
    obtain ⟨-, hs, hn⟩ := hctrl c'
    rw [hs, hn]
    exact h.ctrl c' hc'
  · intro j c' hj
    by_cases hji : j = i
    · subst hji
      rw [hpool, Option.some.injEq] at hj
      subst hj
      exact ⟨hc, base, hthis⟩
    · rw [hpools j hji] at hj
      obtain ⟨hc', b, hu⟩ := h.pool j c' hj
      exact ⟨hc', b, hother j c' b hj hu⟩
  · intro j hj
    have hji : j ≠ i := by
      intro he
      rw [he, hpool] at hj
      cases hj
    rw [hpools j hji] at hj ⊢
    exact h.unused j hj
  · -- the new block against the others, in both orders
    have hblock : ∀ j bj, j ≠ i → (k.pools j).block = some bj →
        base + (k.ctrl c).size * (k.ctrl c).numPerPool ≤ bj.1 ∨ bj.1 + bj.2 ≤ base :=
      fun j bj _ hj => hm'.2 j bj hj
    have hblocki : (k'.pools i).block =
        some (base, (k.ctrl c).size * (k.ctrl c).numPerPool) := by
      rw [hpool]
      rfl
    intro j j' bj bj' hne hj hj'
    by_cases hji : j = i
    · subst hji
      rw [hblocki, Option.some.injEq] at hj
      rw [hpools j' (Ne.symm hne)] at hj'
      subst hj
      exact hblock j' bj' (Ne.symm hne) hj'
    · rw [hpools j hji] at hj
      by_cases hji' : j' = i
      · subst hji'
        rw [hblocki, Option.some.injEq] at hj'
        subst hj'
        exact (hblock j bj hji hj).symm
      · rw [hpools j' hji'] at hj'
        exact h.apart j j' bj bj' hne hj hj'
  · exact h.heldNodup
  · intro r hr
    obtain ⟨j, c', b, n, hj, hu, hn, he⟩ := h.held r hr
    have hsame := hpools j (hnone j c' hj)
    rw [← hsame] at hn he
    exact ⟨j, c', b, n, by rw [hsame, hj], hother j c' b hj hu, hn, he⟩
  · obtain ⟨members, hl⟩ := hlists
    have howner : (fun j => (k'.pools j).ctrl) =
        Function.update (fun j => (k.pools j).ctrl) i (some c) := by
      funext j
      by_cases hj : j = i
      · rw [hj, hpool, Function.update_self]
      · rw [hpools j hj, Function.update_of_ne hj]
    rw [howner]
    refine ⟨members, hl.congr fun j => ?_⟩
    by_cases hj : j = i
    · simp only [hj, hpool, true_or, iff_true]
      exact hpos
    · simp only [hpools j hj, hj, false_or]
  · intro j c' hj hzero
    by_cases hji : j = i
    · rw [hji, hpool] at hzero
      simp only at hzero
      omega
    · rw [hpools j hji] at hj hzero
      rw [hnext j hji hzero]
      exact h.selfLinked j c' hj hzero
  · exact htable

/-- `acoral_create_pool`. If it reports success, the control block has a
pool with a free resource. -/
theorem createPool (h : PoolInv k inited held) (hc : c ∈ inited) {malloc : Option Nat}
    (hm : k.mallocOk ((k.ctrl c).size * (k.ctrl c).numPerPool) malloc = true) :
    ∃ k' e, acoralCreatePool k c malloc = some (k', e) ∧ PoolInv k' inited held ∧
      (∀ c', (k'.ctrl c').locked = (k.ctrl c').locked) ∧
      (e = .KR_OK → ∃ i, (k'.pools i).ctrl = some c ∧ 0 < (k'.pools i).freeNum) ∧
      k'.capacity c = k.capacity c := by
  by_cases hmax : (k.ctrl c).num ≥ (k.ctrl c).maxPools
  · exact ⟨k, .KR_RES_ERR_MAX_POOL, by rw [acoralCreatePool, if_pos hmax], h, fun _ => rfl,
      nofun, rfl⟩
  rcases h.table.getFreePool with hget | ⟨i, next, hget, -, hfresh, hlt, htable⟩
  · refine ⟨k, .KR_RES_ERR_NO_POOL, ?_, h, fun _ => rfl, nofun, rfl⟩
    rw [acoralCreatePool, if_neg hmax, hget]
    rfl
  have hnone := hfresh.ctrl
  cases malloc with
  | none =>
      refine ⟨_, .KR_RES_ERR_NO_MEM, ?_, h.changeUnused (i := i) hnone
        (({ k with freeResPool := next } : ResPools C).setPool i
          { k.pools i with
            id := BitVec.ofNat 32 (k.ctrl c).type <<< ACORAL_RES_TYPE_BIT ||| (k.pools i).id
            size := (k.ctrl c).size, num := (k.ctrl c).numPerPool, baseAdr := .null })
        ?_ rfl rfl rfl ?_ ?_ ?_ ?_, fun _ => rfl, nofun, ?_⟩
      · rw [acoralCreatePool, if_neg hmax, hget]
        rfl
      · exact fun j hj => Function.update_of_ne hj _ _
      · simp only [ResPools.setPool, Function.update_self]
        exact hnone
      · simp only [ResPools.setPool, Function.update_self]
        rfl
      · simp only [ResPools.setPool, Function.update_self]
        exact hfresh.freeNum
      · exact htable _ rfl fun j hj => Function.update_of_ne hj _ _
      · -- a descriptor without a control block counts nowhere
        refine capacity_congr (fun j => ?_) rfl rfl rfl
        by_cases hj : j = i
        · simp [ResPools.freeOf, ResPools.setPool, hj, hnone]
        · simp [ResPools.freeOf, ResPools.setPool, hj]
  | some base =>
      obtain ⟨members, hl⟩ := h.lists
      have hzero : ¬ 0 < (k.pools i).freeNum := by
        rw [hfresh.freeNum]
        exact Nat.lt_irrefl 0
      obtain ⟨L', members', hadd, hl', hnext'⟩ := hl.addTotal hc hnone hzero
      obtain ⟨L'', members'', hadd', hl'', hnext''⟩ :=
        hl'.addFree hc (Function.update_self ..) hzero
      have hid := hfresh.id hlt
      let pool : AcoralPool C :=
        { baseAdr := .mem base, resFree := base, id := poolId (k.ctrl c).type i
          size := (k.ctrl c).size, num := (k.ctrl c).numPerPool
          freeNum := (k.ctrl c).numPerPool, ctrl := some c }
      let k' : ResPools C :=
        { pools := Function.update k.pools i pool
          freeResPool := next
          ctrl := Function.update k.ctrl c { k.ctrl c with num := (k.ctrl c).num + 1 }
          links := L''
          word := acoralPoolResInit base (k.ctrl c).size (k.ctrl c).numPerPool k.word }
      have hpools : ∀ j, j ≠ i → k'.pools j = k.pools j := fun j hj => Function.update_of_ne hj _ _
      have hpool : k'.pools i = pool := Function.update_self ..
      have hword : k'.word =
          acoralPoolResInit base (k.ctrl c).size (k.ctrl c).numPerPool k.word := by
        dsimp only [k']
      refine ⟨k', .KR_OK, ?_, h.addPool hc hnone hid hm hpools hpool ?_ hword ⟨members'', hl''⟩ ?_
        (htable k' rfl hpools), ?_, fun _ => ⟨i, ?_, ?_⟩, ?_⟩
      · rw [acoralCreatePool, if_neg hmax, hget]
        simp only [Option.bind_some, poolFifoAdd, ResPools.setPool, ResPools.setCtrl, hadd,
          Option.map_some, hadd', hid]
        rfl
      · intro c'
        by_cases hcc : c' = c
        · simp [k', hcc, AcoralPoolCtrl.SameOwn]
        · simp [k', hcc, AcoralPoolCtrl.SameOwn]
      · intro j hj hjzero
        have hnot : ¬ 0 < (k.pools j).freeNum := by omega
        exact (hnext'' j hj hnot).trans (hnext' j hnot)
      · intro c'
        by_cases hcc : c' = c
        · simp [k', hcc]
        · simp [k', hcc]
      · rw [hpool]
      · rw [hpool]
        exact (h.ctrl c hc).2.1
      · -- one pool less may be created, and its resources are free
        have hsum := sum_freeOf (c := c) hpools
        have hctrl : k'.ctrl c = { k.ctrl c with num := (k.ctrl c).num + 1 } :=
          Function.update_self ..
        have hold : k.freeOf c i = 0 := by simp [ResPools.freeOf, hnone]
        have hnew : k'.freeOf c i = (k.ctrl c).numPerPool := by
          simp [ResPools.freeOf, hpool, pool]
        have hone : (k.ctrl c).maxPools - (k.ctrl c).num =
            ((k.ctrl c).maxPools - ((k.ctrl c).num + 1)) + 1 := by omega
        rw [hold, hnew, Nat.add_zero] at hsum
        rw [ResPools.capacity, ResPools.capacity, hsum, hctrl, hone, Nat.succ_mul]
        simp only
        omega

/-- `acoral_get_res`, with the lock of the control block free. It returns
`NULL` or a resource that is not held. -/
theorem getRes (h : PoolInv k inited held) (hc : c ∈ inited) {malloc : Option Nat}
    (hm : k.mallocOk ((k.ctrl c).size * (k.ctrl c).numPerPool) malloc = true)
    (hlock : ∀ c ∈ inited, (k.ctrl c).locked = false) :
    ∃ k' res, acoralGetRes k c malloc = some (k', res) ∧
      PoolInv k' inited (res.toList ++ held) ∧ (∀ r ∈ res, r ∉ held) ∧
      (∀ c ∈ inited, (k'.ctrl c).locked = false) ∧
      k'.capacity c + res.toList.length = k.capacity c := by
  -- everything after the lock has been taken happens in `k₁`
  let k₁ := k.setCtrl c { k.ctrl c with locked := true }
  have hlocked : k.lockCtrl c = some k₁ := by
    rw [ResPools.lockCtrl, hlock c hc]
    rfl
  have h₁ : PoolInv k₁ inited held := h.setLocked c true
  have hcap₁ : k₁.capacity c = k.capacity c := capacity_setLocked k c c true
  have hunlock : ∀ k' : ResPools C, (∀ c', (k'.ctrl c').locked = (k₁.ctrl c').locked) →
      ∀ c' ∈ inited, ((k'.unlockCtrl c).ctrl c').locked = false := by
    intro k' hk' c' hc'
    by_cases hcc : c' = c
    · simp [ResPools.unlockCtrl, ResPools.setCtrl, hcc]
    · have hold := hk' c'
      simp [ResPools.unlockCtrl, ResPools.setCtrl, hcc, hold, k₁, hlock c' hc']
  -- what happens once there is a pool with a free resource
  have htake : ∀ k₂ : ResPools C, PoolInv k₂ inited held →
      (∀ c', (k₂.ctrl c').locked = (k₁.ctrl c').locked) →
      (∃ i, (k₂.pools i).ctrl = some c ∧ 0 < (k₂.pools i).freeNum) →
      k₂.capacity c = k₁.capacity c →
      ∃ k' res, ((freeListEntry (k₂.links.next (.freeHead c))).bind fun i =>
          (ACoral.getResFrom k₂ i).map fun r => (r.1.unlockCtrl c, some r.2)) =
            some (k', res) ∧
        PoolInv k' inited (res.toList ++ held) ∧ (∀ r ∈ res, r ∉ held) ∧
        (∀ c ∈ inited, (k'.ctrl c).locked = false) ∧
        k'.capacity c + res.toList.length = k.capacity c := by
    intro k₂ h₂ hlocks hsome hcap
    obtain ⟨i₀, hi₀, hfree₀⟩ := hsome
    obtain ⟨members, hl⟩ := h₂.lists
    rcases hl.first hc with ⟨-, -, hnone⟩ | ⟨-, i, hfirst, hi, hfree⟩
    · exact absurd hfree₀ (hnone i₀ hi₀)
    · obtain ⟨k₃, htaken, h₃, hnot, hctrl, hcap₃⟩ := h₂.getResFrom hi hfree
      refine ⟨k₃.unlockCtrl c, some (k₂.pools i).resFree, ?_, h₃.setLocked c false, ?_, ?_, ?_⟩
      · rw [hfirst, freeListEntry, Option.bind_some, htaken]
        rfl
      · intro r hr
        rw [Option.mem_def, Option.some.injEq] at hr
        exact hr ▸ hnot
      · exact hunlock k₃ fun c' => by rw [hctrl, hlocks]
      · rw [ResPools.unlockCtrl, capacity_setLocked, ← hcap₁, ← hcap]
        exact hcap₃
  obtain ⟨members, hl⟩ := h₁.lists
  rw [acoralGetRes, hlocked]
  simp only [Option.bind_some]
  rcases hl.first hc with ⟨hhead, hself, -⟩ | ⟨hne, i, hfirst, hi, hfree⟩
  · -- no pool has a free resource: another one is created
    rw [if_pos hself]
    have hm₁ : k₁.mallocOk ((k₁.ctrl c).size * (k₁.ctrl c).numPerPool) malloc = true := by
      have hsame : (k₁.ctrl c).size = (k.ctrl c).size ∧
          (k₁.ctrl c).numPerPool = (k.ctrl c).numPerPool := by
        simp [k₁, ResPools.setCtrl]
      rw [hsame.1, hsame.2]
      exact (mallocOk_congr rfl _ _).trans hm
    obtain ⟨k₂, e, hcreate, h₂, hlocks, hsome, hcap⟩ := h₁.createPool hc hm₁
    rw [hcreate, Option.bind_some]
    by_cases he : e = .KR_OK
    · subst he
      exact htake k₂ h₂ hlocks (hsome rfl) hcap
    · refine ⟨k₂.unlockCtrl c, none, ?_, h₂.setLocked c false, by simp, hunlock k₂ hlocks, ?_⟩
      · cases e <;> first | rfl | exact absurd rfl he
      · rw [ResPools.unlockCtrl, capacity_setLocked, hcap, hcap₁, Option.toList_none,
          List.length_nil, Nat.add_zero]
  · rw [if_neg hne, Option.bind_some]
    exact htake k₁ h₁ (fun _ => rfl) ⟨i, hi, hfree⟩ rfl

/-- A control block gets its fields and two empty lists. -/
theorem initLists (h : PoolInv k inited held) (hc : c ∉ inited) {b : AcoralPoolCtrl}
    (hb : 4 ≤ b.size ∧ 1 ≤ b.numPerPool ∧ b.numPerPool ≤ RES_INDEX_NUM) :
    PoolInv (({ k with
      links := acoralListInit (acoralListInit k.links (.totalHead c)) (.freeHead c) } :
        ResPools C).setCtrl c b) (c :: inited) held := by
  have hother : ∀ c', c' ∈ inited → Function.update k.ctrl c b c' = k.ctrl c' := by
    intro c' hc'
    have hne : c' ≠ c := fun he => hc (he ▸ hc')
    exact Function.update_of_ne hne _ _
  have hused : ∀ j c' base, c' ∈ inited → UsedPool k held c' j base →
      UsedPool (({ k with
        links := acoralListInit (acoralListInit k.links (.totalHead c)) (.freeHead c) } :
          ResPools C).setCtrl c b) held c' j base := by
    intro j c' base hc' hu
    refine hu.congr rfl ?_ (fun _ _ => rfl) fun _ _ => Iff.rfl
    simp only [ResPools.setCtrl, AcoralPoolCtrl.SameOwn, hother c' hc', and_self]
  obtain ⟨members, hl⟩ := h.lists
  obtain ⟨members', hl', hnext⟩ := hl.initCtrl hc fun j hj => hc (h.pool j c hj).1
  constructor
  · intro c' hc'
    by_cases he : c' = c
    · subst he
      simpa only [ResPools.setCtrl, Function.update_self] using hb
    · have hmem := (List.mem_cons.mp hc').resolve_left he
      simp only [ResPools.setCtrl, hother c' hmem]
      exact h.ctrl c' hmem
  · intro j c' hj
    obtain ⟨hc', base, hu⟩ := h.pool j c' hj
    exact ⟨List.mem_cons_of_mem c hc', base, hused j c' base hc' hu⟩
  · exact h.unused
  · exact h.apart
  · exact h.heldNodup
  · intro r hr
    obtain ⟨j, c', base, n, hj, hu, hn, he⟩ := h.held r hr
    exact ⟨j, c', base, n, hj, hused j c' base (h.pool j c' hj).1 hu, hn, he⟩
  · exact ⟨members', hl'⟩
  · intro j c' hj hzero
    exact (hnext j).trans (h.selfLinked j c' hj hzero)
  · obtain ⟨m, hhead, hfresh⟩ := h.table
    exact ⟨m, hhead, hfresh⟩

/-- `acoral_pool_ctrl_init`, of a control block that is not initialised
yet. -/
theorem ctrlInit (h : PoolInv k inited held) (hc : c ∉ inited) (mallocSize : Nat)
    (malloc : Option Nat) (hsize : 4 ≤ (k.ctrl c).size) (hpos : 1 ≤ mallocSize / (k.ctrl c).size)
    (hsmall : mallocSize / (k.ctrl c).size ≤ RES_INDEX_NUM)
    (hm : k.mallocOk ((k.ctrl c).size * (mallocSize / (k.ctrl c).size)) malloc = true) :
    ∃ k', acoralPoolCtrlInit k c mallocSize malloc = some k' ∧ PoolInv k' (c :: inited) held ∧
      (k'.ctrl c).locked = false ∧ ∀ c', c' ≠ c → (k'.ctrl c').locked = (k.ctrl c').locked := by
  have hlarge : ¬ mallocSize < (k.ctrl c).size := by
    intro hlt
    rw [Nat.div_eq_of_lt hlt] at hpos
    exact absurd hpos (by decide)
  let b : AcoralPoolCtrl :=
    { k.ctrl c with num := 0, locked := false, numPerPool := mallocSize / (k.ctrl c).size }
  let k₁ : ResPools C := ({ k with
    links := acoralListInit (acoralListInit k.links (.totalHead c)) (.freeHead c) } :
      ResPools C).setCtrl c b
  have h₁ : PoolInv k₁ (c :: inited) held := h.initLists hc (b := b) ⟨hsize, hpos, hsmall⟩
  have hctrl : k₁.ctrl c = b := Function.update_self ..
  have hm₁ : k₁.mallocOk ((k₁.ctrl c).size * (k₁.ctrl c).numPerPool) malloc = true := by
    rw [hctrl]
    exact (mallocOk_congr rfl _ _).trans hm
  obtain ⟨k₂, e, hcreate, h₂, hlocks, -, -⟩ := h₁.createPool List.mem_cons_self hm₁
  refine ⟨k₂, ?_, h₂, ?_, ?_⟩
  · rw [acoralPoolCtrlInit]
    simp only [if_neg hlarge]
    rw [show (({ k with links := _ } : ResPools C).setCtrl c _) = k₁ from rfl, hcreate]
    rfl
  · rw [hlocks, hctrl]
  · intro c' hc'
    have hold : k₁.ctrl c' = k.ctrl c' := Function.update_of_ne hc' _ _
    rw [hlocks, hold]

end PoolInv

end ACoral
