import ACoral.Proofs.ResPool.Ops

/-!
# `ACoral.Proofs.ResPool.Run`: the resource pools over whole runs

Every reachable state meets `PoolSystem.Inv` (`PoolSystem.inv_of_run`),
and in it the calls return (`PoolSystem.getRes_returns`,
`PoolSystem.releaseRes_returns`).

- `resPool_accounting`: the free resources of a pool are chained from
  `res_free` on, `free_num` of them, and `acoral_get_res` never returns a
  held one.
- `resId_roundTrip`: `acoral_get_res_by_id` leads from the id of a held
  resource back to it, and no two held resources have the same id.
-/

set_option autoImplicit false

namespace ACoral

open Lib (Links)

variable {C : Type} [DecidableEq C]

namespace PoolInv

variable {k : ResPools C} {inited : List C} {held : List Nat} {c : C} {i : Fin ACORAL_MAX_POOLS}
  {base : Nat}

omit [DecidableEq C] in
/-- The owners of the resources write their memory. -/
theorem write (h : PoolInv k inited held) {word : Nat → BitVec 32}
    (hword : k.writeOk word = true) : PoolInv { k with word := word } inited held := by
  rw [ResPools.writeOk, decide_eq_true_eq] at hword
  have hused : ∀ j c b, UsedPool k held c j b →
      UsedPool ({ k with word := word } : ResPools C) held c j b := by
    intro j c b hu
    refine hu.congr rfl ⟨rfl, rfl, rfl⟩ (fun n hn => ?_) fun _ _ => Iff.rfl
    refine hword j b ?_ n hn
    rw [hu.baseEq]
    rfl
  obtain ⟨m, hhead, hfresh⟩ := h.table
  refine ⟨h.ctrl, fun j c hj => ?_, h.unused, h.apart, h.heldNodup, fun r hr => ?_, h.lists,
    h.selfLinked, ⟨m, hhead, hfresh⟩⟩
  · obtain ⟨hc, b, hu⟩ := h.pool j c hj
    exact ⟨hc, b, hused j c b hu⟩
  · obtain ⟨j, c, b, n, hj, hu, hn, he⟩ := h.held r hr
    exact ⟨j, c, b, n, hj, hused j c b hu, hn, he⟩

omit [DecidableEq C] in
/-- The scheduler writes the CPU field of a held id. -/
theorem rdyqueueAdd (h : PoolInv k inited held) {res : Nat} (hres : res ∈ held) (cpu : Nat) :
    PoolInv (k.setWord res (rdyqueueAddId (k.word res) cpu)) inited held := by
  obtain ⟨i, c, base, n, hi, hu, hn, he⟩ := h.held res hres
  refine h.updatePool hi hu (fun _ _ => rfl) ⟨_, _, rfl⟩ rfl rfl (fun r hr => ?_)
    (fun _ _ => Iff.rfl) h.heldNodup (hu.good.setCpu hres cpu) h.lists h.selfLinked
  have hne : r ≠ res := fun hr' => hr n hn (hr'.trans he)
  exact Function.update_of_ne hne _ _

/-- `acoral_release_pool` returns only if the control block has no pool,
and then it does nothing. On a pool it takes its `total_list` for the
`free_list` of another. -/
theorem releasePool (h : PoolInv k inited held) (hc : c ∈ inited) {fuel : Nat} {k' : ResPools C}
    (hrun : acoralReleasePool fuel k c = some k') : k' = k := by
  cases fuel with
  | zero => cases hrun
  | succ fuel =>
      obtain ⟨members, hl⟩ := h.lists
      have hfirst := (hl.rings.ring (.totalHead c) hc).next_head
      rw [acoralReleasePool, releasePoolLoop] at hrun
      by_cases hempty : k.links.next (.totalHead c) = .totalHead c
      · rw [if_pos hempty, Option.some.injEq] at hrun
        exact hrun.symm
      · -- the first node of the list is a `total_list`
        rw [if_neg hempty] at hrun
        cases hm : members (.totalHead c) with
        | nil =>
            rw [hm] at hfirst
            exact absurd hfirst hempty
        | cons x l =>
            obtain ⟨j, rfl, -⟩ := (hl.total c hc x).mp (by rw [hm]; exact List.mem_cons_self)
            rw [hm, List.headD_cons] at hfirst
            rw [hfirst] at hrun
            cases hrun

end PoolInv

namespace PoolSystem

/-- The invariant of a run: the pools are in order, and no lock of a
control block is taken between the calls. -/
structure Inv (s : PoolSystem C) : Prop where
  pools : PoolInv s.kernel s.inited s.held
  unlocked : ∀ c ∈ s.inited, (s.kernel.ctrl c).locked = false

omit [DecidableEq C] in
theorem inv_start (ctrl : C → AcoralPoolCtrl) (links : Links (PoolNode C))
    (word : Nat → BitVec 32) : Inv (start ctrl links word) := by
  have hpools : ∀ i, ((start ctrl links word).kernel.pools i).ctrl = none ∧
      ((start ctrl links word).kernel.pools i).block = none ∧
      ((start ctrl links word).kernel.pools i).freeNum = 0 := by
    intro i
    by_cases hi : i.val + 1 < ACORAL_MAX_POOLS
    · simp [start, acoralPoolsInit, poolsStart, hi, AcoralPool.block, PoolPtr.adr]
    · simp [start, acoralPoolsInit, poolsStart, hi, AcoralPool.block, PoolPtr.adr]
  have hnone : ∀ i c, ((start ctrl links word).kernel.pools i).ctrl ≠ some c := by
    intro i c hi
    rw [(hpools i).1] at hi
    cases hi
  refine ⟨⟨?_, ?_, ?_, ?_, List.nodup_nil, ?_, ⟨fun _ => [], ⟨⟨?_, ?_⟩, ?_, ?_⟩⟩, ?_, ?_⟩, ?_⟩
  · exact fun c hc => absurd hc List.not_mem_nil
  · exact fun i c hi => absurd hi (hnone i c)
  · exact fun i _ => (hpools i).2
  · intro i j bi bj _ hi _
    rw [(hpools i).2.1] at hi
    cases hi
  · exact fun r hr => absurd hr List.not_mem_nil
  · exact fun hd hhd => absurd hhd (by cases hd <;> simp [PoolHead, start])
  · exact fun hd hhd => absurd hhd (by cases hd <;> simp [PoolHead, start])
  · exact fun c hc => absurd hc List.not_mem_nil
  · exact fun c hc => absurd hc List.not_mem_nil
  · exact fun i c hi => absurd hi (hnone i c)
  · exact freeTable_start _ fun _ => rfl
  · exact fun c hc => absurd hc List.not_mem_nil

/-- A call of `acoral_get_res` returns, and not with a held resource. -/
theorem getRes_returns {s : PoolSystem C} (h : Inv s) {c : C} {malloc : Option Nat}
    (hguard : s.guard (.getRes c malloc) = true) :
    ∃ k' res, acoralGetRes s.kernel c malloc = some (k', res) ∧
      Inv { s with kernel := k', held := res.toList ++ s.held } ∧ ∀ r ∈ res, r ∉ s.held := by
  simp only [guard, Bool.and_eq_true, decide_eq_true_eq] at hguard
  obtain ⟨k', res, hget, hinv, hnot, hlock, -⟩ := h.pools.getRes hguard.1 hguard.2 h.unlocked
  exact ⟨k', res, hget, ⟨hinv, hlock⟩, hnot⟩

/-- A call of `acoral_release_res` with a held resource returns. -/
theorem releaseRes_returns {s : PoolSystem C} (h : Inv s) {res : Nat} (hres : res ∈ s.held) :
    ∃ k', acoralReleaseRes s.kernel res = some k' ∧
      Inv { s with kernel := k', held := s.held.erase res } := by
  obtain ⟨k', hrelease, hinv, hlock⟩ := h.pools.releaseRes hres h.unlocked
  exact ⟨k', hrelease, ⟨hinv, hlock⟩⟩

/-- Each step keeps the invariant. -/
theorem inv_step {fuel : Nat} {s s' : PoolSystem C} {op : PoolOp C} (h : Inv s)
    (hguard : s.guard op = true) (hstep : s.step fuel op = some s') : Inv s' := by
  cases op with
  | ctrlInit c type size numPerPool maxPools mallocSize malloc =>
      simp only [guard, Bool.and_eq_true, decide_eq_true_eq] at hguard
      obtain ⟨⟨⟨⟨hc, hsize⟩, hpos⟩, hsmall⟩, hm⟩ := hguard
      let b : AcoralPoolCtrl :=
        { type := type, size := size, numPerPool := numPerPool, num := 0, maxPools := maxPools
          locked := false }
      have hb : (s.kernel.setCtrl c b).ctrl c = b := Function.update_self ..
      have hother : ∀ c', c' ≠ c → (s.kernel.setCtrl c b).ctrl c' = s.kernel.ctrl c' :=
        fun c' hc' => Function.update_of_ne hc' _ _
      have h₁ : PoolInv (s.kernel.setCtrl c b) s.inited s.held := by
        refine h.pools.congrCtrl rfl rfl rfl rfl fun c' hc' => ?_
        rw [hother c' fun he => hc (he ▸ hc')]
        exact ⟨rfl, rfl, rfl⟩
      obtain ⟨k', hinit, hinv, hunlocked, hlocks⟩ := h₁.ctrlInit hc mallocSize malloc
        (by rw [hb]; exact hsize) (by rw [hb]; exact hpos)
        (by rw [hb]; exact hsmall) (by rw [hb]; exact (PoolInv.mallocOk_congr rfl _ _).trans hm)
      simp only [step] at hstep
      rw [hinit, Option.map_some, Option.some.injEq] at hstep
      subst hstep
      refine ⟨hinv, fun c' hc' => ?_⟩
      by_cases he : c' = c
      · rw [he]
        exact hunlocked
      · rw [hlocks c' he, hother c' he]
        exact h.unlocked c' ((List.mem_cons.mp hc').resolve_left he)
  | createPool c malloc =>
      simp only [guard, Bool.and_eq_true, decide_eq_true_eq] at hguard
      obtain ⟨k', e, hcreate, hinv, hlocks, -⟩ := h.pools.createPool hguard.1 hguard.2
      simp only [step, hcreate, Option.map_some, Option.some.injEq] at hstep
      subst hstep
      exact ⟨hinv, fun c' hc' => (hlocks c').trans (h.unlocked c' hc')⟩
  | releasePool c =>
      simp only [guard, decide_eq_true_eq] at hguard
      obtain ⟨k', hrelease, rfl⟩ := Option.map_eq_some_iff.mp hstep
      rw [h.pools.releasePool hguard hrelease]
      exact h
  | getRes c malloc =>
      obtain ⟨k', res, hget, hinv, -⟩ := getRes_returns h hguard
      simp only [step, hget, Option.map_some, Option.some.injEq] at hstep
      exact hstep ▸ hinv
  | releaseRes res =>
      simp only [guard, decide_eq_true_eq] at hguard
      obtain ⟨k', hrelease, hinv⟩ := releaseRes_returns h hguard
      simp only [step, hrelease, Option.map_some, Option.some.injEq] at hstep
      exact hstep ▸ hinv
  | rdyqueueAdd res cpu =>
      simp only [guard, decide_eq_true_eq] at hguard
      simp only [step, Option.some.injEq] at hstep
      subst hstep
      exact ⟨h.pools.rdyqueueAdd hguard cpu, h.unlocked⟩
  | write word =>
      simp only [step, Option.some.injEq] at hstep
      subst hstep
      exact ⟨h.pools.write hguard, h.unlocked⟩

/-- Every reachable state meets the invariant. -/
theorem inv_of_run {fuel : Nat} {ctrl : C → AcoralPoolCtrl} {links : Links (PoolNode C)}
    {word : Nat → BitVec 32} {ops : List (PoolOp C)} {s : PoolSystem C}
    (hrun : (start ctrl links word).run fuel ops = some s) : Inv s :=
  Lib.guarded_induct (fun _ _ _ h hguard hstep => inv_step h hguard hstep)
    (inv_start ctrl links word) hrun

end PoolSystem

/-! ### Accounting -/

/-- The resources of the pools are accounted for. -/
structure PoolAccounting (s : PoolSystem C) : Prop where
  /-- `acoral_get_res` returns, and not with a held resource -/
  getRes : ∀ c malloc, s.guard (.getRes c malloc) = true →
    ∃ k res, acoralGetRes s.kernel c malloc = some (k, res) ∧ ∀ r ∈ res, r ∉ s.held
  /-- a pool counts and chains its free resources -/
  pool : ∀ i c, (s.kernel.pools i).ctrl = some c →
    let p := s.kernel.pools i
    ∃ base, p.baseAdr = .mem base ∧
      p.freeNum = ((List.range p.num).filter fun n => base + n * p.size ∉ s.held).length ∧
      (freeChain s.kernel.word base p.size p.resFree p.freeNum).Nodup ∧
      ∀ r, r ∈ freeChain s.kernel.word base p.size p.resFree p.freeNum ↔
        ∃ n, n < p.num ∧ r = base + n * p.size ∧ r ∉ s.held
  /-- the list of the pools with free resources -/
  freePools : ∀ c ∈ s.inited, ∃ nodes, s.kernel.links.IsRing (.freeHead c) nodes ∧
    ∀ i, .free i ∈ nodes ↔ (s.kernel.pools i).ctrl = some c ∧ 0 < (s.kernel.pools i).freeNum

/-- In every reachable state `acoral_get_res` returns only resources that
are not held. Each pool counts its free resources in `free_num`, and the
chain from `res_free` on meets each of them once. The pools with a free
resource are those on the second list of their control block. -/
theorem resPool_accounting {fuel : Nat} {ctrl : C → AcoralPoolCtrl} {links : Links (PoolNode C)}
    {word : Nat → BitVec 32} {ops : List (PoolOp C)} {s : PoolSystem C}
    (hrun : (PoolSystem.start ctrl links word).run fuel ops = some s) : PoolAccounting s := by
  have hinv := PoolSystem.inv_of_run hrun
  constructor
  · intro c malloc hguard
    obtain ⟨k, res, hget, -, hnot⟩ := PoolSystem.getRes_returns hinv hguard
    exact ⟨k, res, hget, hnot⟩
  · intro i c hi
    obtain ⟨-, base, hu⟩ := hinv.pools.pool i c hi
    exact ⟨base, hu.baseEq, hu.good.freeNum_eq hu.shape, hu.good.nodup, hu.good.mem⟩
  · intro c hc
    obtain ⟨members, hl⟩ := hinv.pools.lists
    refine ⟨members (.freeHead c), hl.rings.ring _ hc, fun i => ?_⟩
    rw [hl.free c hc]
    constructor
    · rintro ⟨j, he, hj⟩
      cases he
      exact hj
    · exact fun hi => ⟨i, rfl, hi⟩

/-- A pool of four resources: three are taken and two given back. -/
def reuseRun : List (PoolOp Unit) :=
  [.ctrlInit () ACORAL_RES_IPC 8 4 4 32 (some 4096), .getRes () none, .getRes () none,
    .rdyqueueAdd 4104 1, .getRes () none, .releaseRes 4096, .releaseRes 4104, .getRes () none]

/-- The state before a run, with all memory cleared. -/
def reuseStart : PoolSystem Unit :=
  PoolSystem.start
    (fun _ => { type := 0, size := 0, numPerPool := 0, num := 0, maxPools := 0, locked := false })
    { next := id, prev := id } (fun _ => 0)

theorem reuseRun_held :
    (reuseStart.run 1 reuseRun).map PoolSystem.held = some [4104, 4112] := by decide +kernel

theorem resPool_accounting_reuse :
    ∃ s, reuseStart.run 1 reuseRun = some s ∧ s.held = [4104, 4112] ∧ PoolAccounting s := by
  obtain ⟨s, hrun, hheld⟩ := Option.map_eq_some_iff.mp reuseRun_held
  exact ⟨s, hrun, hheld, resPool_accounting hrun⟩

/-! ### Ids -/

omit [DecidableEq C] in
/-- `acoral_get_res_by_id` reads the pool and the index from an id, and
not the CPU. -/
theorem PoolInv.getResById {k : ResPools C} {inited : List C} {held : List Nat}
    (h : PoolInv k inited held) {r : Nat} (hr : r ∈ held) {id : BitVec 32}
    (hid : coreId id = coreId (k.word r)) : acoralGetResById k id = some r := by
  obtain ⟨i, c, base, n, hi, hu, hn, rfl⟩ := h.held r hr
  have hcore : coreId id = resId n (poolId (k.ctrl c).type i) := by
    rw [hid, hu.good.heldId n hn hr, hu.idEq]
  have hsmall : n < RES_INDEX_NUM := Nat.lt_of_lt_of_le hn hu.shape.small
  have hpool : poolIndex id = i := by rw [← poolIndex_coreId, hcore, poolIndex_resId]
  have hindex : resIndex id = n := by rw [← resIndex_coreId, hcore, resIndex_resId hsmall]
  have hlt : poolIndex id < ACORAL_MAX_POOLS := by
    rw [hpool]
    exact i.isLt
  have hget : acoralGetPoolById id = some i :=
    (dif_pos hlt).trans (congrArg some (Fin.ext hpool))
  rw [acoralGetResById, hget, Option.bind_some]
  simp only [hu.baseEq, PoolPtr.adr, Option.map_some]
  rw [show ((id &&& ACORAL_RES_INDEX_MASK) >>> ACORAL_RES_INDEX_BIT).toNat = n from hindex,
    ptrAdd_of_lt hu.shape.fits hu.shape.size_pos hn]

/-- In every reachable state `acoral_get_res_by_id` leads from the id of a
held resource back to it, also when the scheduler rewrites the CPU field.
Two held resources have different ids. -/
theorem resId_roundTrip {fuel : Nat} {ctrl : C → AcoralPoolCtrl} {links : Links (PoolNode C)}
    {word : Nat → BitVec 32} {ops : List (PoolOp C)} {s : PoolSystem C}
    (hrun : (PoolSystem.start ctrl links word).run fuel ops = some s) :
    (∀ r ∈ s.held, acoralGetResById s.kernel (s.kernel.word r) = some r ∧
      ∀ cpu, acoralGetResById s.kernel (rdyqueueAddId (s.kernel.word r) cpu) = some r) ∧
    ∀ r ∈ s.held, ∀ r' ∈ s.held, r ≠ r' → s.kernel.word r ≠ s.kernel.word r' := by
  have hinv := PoolSystem.inv_of_run hrun
  have hround : ∀ r ∈ s.held, acoralGetResById s.kernel (s.kernel.word r) = some r :=
    fun r hr => hinv.pools.getResById hr rfl
  refine ⟨fun r hr => ⟨hround r hr, fun cpu => ?_⟩, fun r hr r' hr' hne he => hne ?_⟩
  · exact hinv.pools.getResById hr (coreId_rdyqueueAddId _ cpu)
  · have hsame := hround r hr
    rw [he, hround r' hr', Option.some.injEq] at hsame
    exact hsame.symm

theorem resId_roundTrip_reuse :
    ∃ s, reuseStart.run 1 reuseRun = some s ∧ s.held = [4104, 4112] ∧
      acoralGetResById s.kernel (s.kernel.word 4104) = some 4104 ∧
      s.kernel.word 4104 ≠ s.kernel.word 4112 := by
  obtain ⟨s, hrun, hheld⟩ := Option.map_eq_some_iff.mp reuseRun_held
  obtain ⟨hround, hne⟩ := resId_roundTrip hrun
  rw [hheld] at hround hne
  exact ⟨s, hrun, hheld, (hround 4104 (by decide)).1,
    hne 4104 (by decide) 4112 (by decide) (by decide)⟩

end ACoral
