import ACoral.Kernel.IpcObjects
import ACoral.Proofs.ResPool.Run

/-!
# `ACoral.Proofs.ResPool.IpcObjects`: IPC objects are not given back

Creating an IPC object takes a resource of `acoral_ipc_pool_ctrl`, and no
deletion releases it. So what the control block can still hand out goes
down with every creation, and never up (`IpcObjRun.Balance`).

- `ipcObjects_conserved_iff`: the balance of created and deleted objects
  is right exactly in the runs without a deletion.
- `semCycles_exhaust`: with no object in existence none can be created.
-/

set_option autoImplicit false

namespace ACoral

variable {T : Type} [DecidableEq T]

/-- The control block of the IPC objects is in order. -/
def IpcObjects.PoolsOk (s : IpcObjects T) : Prop :=
  ∃ inited held, PoolInv s.pools inited held ∧ .acoral_ipc_pool_ctrl ∈ inited ∧
    ∀ c ∈ inited, (s.pools.ctrl c).locked = false

/-- The IPC objects that can still be created. -/
def IpcObjects.available (s : IpcObjects T) : Nat := s.pools.capacity .acoral_ipc_pool_ctrl

/-! ### Creating -/

omit [DecidableEq T] in
/-- `acoral_ipc_alloc` takes one of the objects that are left, or none. -/
theorem acoralIpcAlloc_available {s s' : IpcObjects T} {malloc : Option Nat} {ipc : Option Nat}
    (h : s.PoolsOk)
    (hm : s.pools.mallocOk ((s.pools.ctrl .acoral_ipc_pool_ctrl).size *
      (s.pools.ctrl .acoral_ipc_pool_ctrl).numPerPool) malloc = true)
    (hcall : acoralIpcAlloc malloc s = some (s', ipc)) :
    s'.PoolsOk ∧ s'.available + ipc.toList.length = s.available := by
  obtain ⟨inited, held, hinv, hmem, hlock⟩ := h
  obtain ⟨k, res, hget, hinv', -, hlock', hcap⟩ := hinv.getRes hmem hm hlock
  rw [acoralIpcAlloc, hget, Option.map_some, Option.some.injEq, Prod.mk.injEq] at hcall
  obtain ⟨rfl, rfl⟩ := hcall
  exact ⟨⟨inited, _, hinv', hmem, hlock'⟩, hcap⟩

/-- `acoral_mutex_create` initializes the object that it takes, and leaves
the pools alone. -/
theorem acoralMutexCreate_available {s s' : IpcObjects T} {malloc : Option Nat}
    {ipc : Option Nat} (h : s.PoolsOk)
    (hm : s.pools.mallocOk ((s.pools.ctrl .acoral_ipc_pool_ctrl).size *
      (s.pools.ctrl .acoral_ipc_pool_ctrl).numPerPool) malloc = true)
    (hcall : acoralMutexCreate malloc s = some (s', ipc)) :
    s'.PoolsOk ∧ s'.available + ipc.toList.length = s.available := by
  obtain ⟨⟨s₁, ipc₁⟩, halloc, hret⟩ := Option.map_eq_some_iff.mp hcall
  have hstep := acoralIpcAlloc_available h hm halloc
  cases ipc₁ with
  | none =>
      cases hret
      exact hstep
  | some a =>
      cases hret
      exact hstep

/-- So does `acoral_sem_create`. -/
theorem acoralSemCreate_available {semNum : BitVec 32} {s s' : IpcObjects T}
    {malloc : Option Nat} {ipc : Option Nat} (h : s.PoolsOk)
    (hm : s.pools.mallocOk ((s.pools.ctrl .acoral_ipc_pool_ctrl).size *
      (s.pools.ctrl .acoral_ipc_pool_ctrl).numPerPool) malloc = true)
    (hcall : acoralSemCreate semNum malloc s = some (s', ipc)) :
    s'.PoolsOk ∧ s'.available + ipc.toList.length = s.available := by
  obtain ⟨⟨s₁, ipc₁⟩, halloc, hret⟩ := Option.map_eq_some_iff.mp hcall
  have hstep := acoralIpcAlloc_available h hm halloc
  cases ipc₁ with
  | none =>
      cases hret
      exact hstep
  | some a =>
      cases hret
      exact hstep

/-- A ceiling resource is created with its semaphore. -/
theorem ceilingCreate_available {s s' : IpcObjects T} {malloc obj : Option Nat} {adr : Nat}
    {res : CeilingRes} (h : s.PoolsOk)
    (hm : s.pools.mallocOk ((s.pools.ctrl .acoral_ipc_pool_ctrl).size *
      (s.pools.ctrl .acoral_ipc_pool_ctrl).numPerPool) malloc = true)
    (hcall : ((acoralSemCreate 1 malloc s).map fun (s, sem) =>
      (s.setCeiling adr { sem := sem, res := res }, some adr)) = some (s', obj)) :
    s'.PoolsOk ∧ s'.available + (obj.bind fun obj => (s'.ceiling obj).sem).toList.length =
      s.available := by
  obtain ⟨⟨s₁, ipc⟩, hsem, hret⟩ := Option.map_eq_some_iff.mp hcall
  have hstep := acoralSemCreate_available h hm hsem
  cases hret
  have hblock : ((s₁.setCeiling adr { sem := ipc, res := res }).ceiling adr).sem = ipc := by
    simp only [IpcObjects.setCeiling, Function.update_self]
  rw [Option.bind_some, hblock]
  exact hstep

/-- What a creation leaves: one object less if there is a new one. -/
theorem IpcCreate.available {call : IpcCreate} {s s' : IpcObjects T} {malloc obj : Option Nat}
    (h : s.PoolsOk)
    (hm : s.pools.mallocOk ((s.pools.ctrl .acoral_ipc_pool_ctrl).size *
      (s.pools.ctrl .acoral_ipc_pool_ctrl).numPerPool) malloc = true)
    (hcall : call.call malloc s = some (s', obj)) :
    s'.PoolsOk ∧
      s'.available + (obj.bind fun obj => s'.ipcOf call.kind obj).toList.length = s.available := by
  have hself : (obj.bind fun obj => some obj) = obj := Option.bind_fun_some obj
  cases call with
  | mutex =>
      have hstep := acoralMutexCreate_available h hm hcall
      rw [← hself] at hstep
      exact hstep
  | sem semNum =>
      have hstep := acoralSemCreate_available h hm hcall
      rw [← hself] at hstep
      exact hstep
  | mpcp cur type ceiling block =>
      obtain ⟨mpcp, -, hcall⟩ := Option.bind_eq_some_iff.mp hcall
      simp only at hcall
      split at hcall
      · exact ceilingCreate_available h hm hcall
      split at hcall
      · exact ceilingCreate_available h hm hcall
      · cases hcall
        rw [Option.bind_none, Option.toList_none, List.length_nil, Nat.add_zero]
        exact ⟨h, Eq.refl s.available⟩
  | dpcp block =>
      obtain ⟨dpcp, -, hcall⟩ := Option.bind_eq_some_iff.mp hcall
      exact ceilingCreate_available h hm hcall

/-! ### Deleting -/

/-- A deletion changes nothing. -/
theorem IpcKind.del_eq (kind : IpcKind) (obj : Nat) (s : IpcObjects T) : (kind.del obj s).2 = s := by
  have hdel : ∀ type done intrNesting ipc, (ipcDel type done intrNesting ipc s).2 = s := by
    intro type done intrNesting ipc
    rw [ipcDel]
    split
    · rfl
    · split <;> rfl
  cases kind <;> exact hdel _ _ _ _

/-! ### Runs -/

/-- Each object that has been created has taken one of those that were
left, also if it has been deleted since. -/
structure IpcObjRun.Balance (initial : Nat) (s : IpcObjRun T) : Prop where
  pools : s.objs.PoolsOk
  taken : s.objs.available + s.live.length + s.deleted = initial

theorem IpcObjRun.balance_step {initial : Nat} {s s' : IpcObjRun T} {op : IpcObjOp}
    (h : Balance initial s) (hguard : s.guard op = true) (hstep : s.step op = some s') :
    Balance initial s' := by
  cases op with
  | create call malloc =>
      obtain ⟨⟨objs, obj⟩, hcall, hret⟩ := Option.map_eq_some_iff.mp hstep
      obtain ⟨hok, hleft⟩ := IpcCreate.available h.pools hguard hcall
      have htaken := h.taken
      cases obj with
      | none =>
          cases hret
          exact ⟨hok, by simpa [← hleft] using htaken⟩
      | some obj =>
          simp only at hret
          rw [Option.bind_some] at hleft
          split at hret
          · rename_i hsome
            obtain ⟨ipc, hipc⟩ := Option.isSome_iff_exists.mp hsome
            rw [hipc, Option.toList_some, List.length_singleton] at hleft
            cases hret
            refine ⟨hok, ?_⟩
            simp only [List.length_cons]
            omega
          · rename_i hnone
            rw [Option.not_isSome_iff_eq_none.mp hnone] at hleft
            cases hret
            exact ⟨hok, by simpa [← hleft] using htaken⟩
  | del kind obj =>
      simp only [guard, Bool.and_eq_true, decide_eq_true_eq] at hguard
      simp only [step, Option.some.injEq] at hstep
      subst hstep
      have hlen := List.length_erase_of_mem hguard.1
      have hpos := List.length_pos_of_mem hguard.1
      have htaken := h.taken
      refine ⟨?_, ?_⟩
      · rw [IpcKind.del_eq]
        exact h.pools
      · simp only [IpcKind.del_eq, hlen]
        omega

/-- Take any reachable state of the pools, and any run of creations and
deletions from it. The objects that can still be created are those of the
start without those in existence if and only if the run deletes none. -/
theorem ipcObjects_conserved_iff {fuel : Nat} {ctrl : KernelPool → AcoralPoolCtrl}
    {links : Lib.Links (PoolNode KernelPool)} {word : Nat → BitVec 32}
    {poolOps : List (PoolOp KernelPool)} {p : PoolSystem KernelPool}
    (hpools : (PoolSystem.start ctrl links word).run fuel poolOps = some p)
    (hinited : .acoral_ipc_pool_ctrl ∈ p.inited) {s₀ : IpcObjects T} (hs₀ : s₀.pools = p.kernel)
    {ops : List IpcObjOp} {s : IpcObjRun T} (hrun : (IpcObjRun.start s₀).run ops = some s) :
    s.objs.available = s₀.available - s.live.length ↔ s.deleted = 0 := by
  have hinv := PoolSystem.inv_of_run hpools
  have hstart : (IpcObjRun.start s₀).Balance s₀.available := by
    refine ⟨⟨p.inited, p.held, ?_, hinited, ?_⟩, ?_⟩
    · exact hs₀ ▸ hinv.pools
    · exact fun c hc => (congrArg (fun k => (k.ctrl c).locked) hs₀).trans (hinv.unlocked c hc)
    · rw [IpcObjRun.start, List.length_nil, Nat.add_zero, Nat.add_zero]
  have htaken := (Lib.guarded_induct (fun _ _ _ h hguard hstep =>
    IpcObjRun.balance_step h hguard hstep) hstart hrun).taken
  omega

/-- `acoral_ipc_pool_init`, with 44 bytes for an object. -/
def ipcPoolInit : List (PoolOp KernelPool) :=
  [.ctrlInit .acoral_ipc_pool_ctrl ACORAL_RES_IPC 44 8 4 512 (some 4096)]

/-- The state before it, with all memory cleared. -/
def ipcPoolStart : PoolSystem KernelPool :=
  PoolSystem.start
    (fun _ => { type := 0, size := 0, numPerPool := 0, num := 0, maxPools := 0, locked := false })
    { next := id, prev := id } (fun _ => 0)

/-- No IPC object exists yet. -/
def noIpcObjects (pools : ResPools KernelPool) : IpcObjects Unit :=
  { pools := pools
    ipc :=
      { sched := acoralSchedRdyqueueInit fun _ => { resId := 0, state := 0, prio := 0, cpu := 0 }
        ipc := fun _ => { type := .ACORAL_IPC_SEM, count := 0, number := 0, data := none }
        links := { next := id, prev := id }
        pendingValue := fun _ => 0
        threadIpc := fun _ => none }
    ceiling := fun _ =>
      { sem := none
        res := { type := .LOCAL, cpu := 0, prioCeiling := 0, prioSwitch := 0
                 stackingValue := 0 } } }

theorem ipcPoolStart_inited :
    (ipcPoolStart.run 1 ipcPoolInit).map PoolSystem.inited = some [.acoral_ipc_pool_ctrl] := by
  decide +kernel

/-- Two semaphores, a mutex and a DPCP resource. -/
def fourObjects : List IpcObjOp :=
  [.create (.sem 1) none, .create .mutex none, .create (.dpcp (some 64)) none,
    .create (.sem 3) none]

theorem ipcObjects_conserved_fourObjects :
    ∃ p s, ipcPoolStart.run 1 ipcPoolInit = some p ∧
      (IpcObjRun.start (noIpcObjects p.kernel)).run fourObjects = some s ∧ s.live.length = 4 ∧
      s.objs.available = (noIpcObjects p.kernel).available - s.live.length := by
  have heval : ((ipcPoolStart.run 1 ipcPoolInit).bind fun p =>
      (IpcObjRun.start (noIpcObjects p.kernel)).run fourObjects).any (fun s =>
        decide (s.deleted = 0 ∧ s.live.length = 4)) = true := by
    decide +kernel
  obtain ⟨s, hs, hcount⟩ := (Option.any_eq_true ..).mp heval
  obtain ⟨p, hp, hrun⟩ := Option.bind_eq_some_iff.mp hs
  obtain ⟨hdeleted, hlive⟩ := of_decide_eq_true hcount
  have hinited : p.inited = [.acoral_ipc_pool_ctrl] := by
    have h := ipcPoolStart_inited
    rw [hp] at h
    exact Option.some.inj h
  refine ⟨p, s, hp, hrun, hlive, ?_⟩
  exact (ipcObjects_conserved_iff hp (hinited ▸ List.mem_singleton_self _) rfl hrun).mpr hdeleted

/-- A semaphore is created and deleted, 44 times. Every eleventh creation
allocates a pool. -/
def semCycles : List IpcObjOp :=
  (List.range 44).flatMap fun n =>
    let malloc := if n % 11 = 0 ∧ n ≠ 0 then some (4096 * (n / 11 + 1)) else none
    [.create (.sem 1) malloc, .del .sem (4096 * (n / 11 + 1) + 44 * (n % 11))]

/-- No object exists then, and none can be created. -/
theorem semCycles_exhaust :
    ∃ p s, ipcPoolStart.run 1 ipcPoolInit = some p ∧
      (IpcObjRun.start (noIpcObjects p.kernel)).run semCycles = some s ∧ s.live = [] ∧
      s.deleted = 44 ∧ (acoralSemCreate 1 none s.objs).map Prod.snd = some none ∧
      ¬ s.objs.available = (noIpcObjects p.kernel).available - s.live.length := by
  have heval : ((ipcPoolStart.run 1 ipcPoolInit).bind fun p =>
      ((IpcObjRun.start (noIpcObjects p.kernel)).run semCycles).map fun s => (p, s)).any
        (fun (p, s) => decide (s.live = [] ∧ s.deleted = 44 ∧
          (acoralSemCreate 1 none s.objs).map Prod.snd = some none ∧
          s.objs.available = 0 ∧ (noIpcObjects p.kernel).available = 44)) = true := by
    decide +kernel
  obtain ⟨⟨p, s⟩, hps, hend⟩ := (Option.any_eq_true ..).mp heval
  obtain ⟨p', hp, hmap⟩ := Option.bind_eq_some_iff.mp hps
  obtain ⟨s', hrun, he⟩ := Option.map_eq_some_iff.mp hmap
  cases he
  obtain ⟨hlive, hdeleted, hnone, hleft, hstart⟩ := of_decide_eq_true hend
  refine ⟨p, s, hp, hrun, hlive, hdeleted, hnone, ?_⟩
  rw [hleft, hstart, hlive]
  decide

end ACoral
