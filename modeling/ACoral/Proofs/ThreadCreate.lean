import ACoral.Kernel.ThreadCreate
import ACoral.Proofs.ResPool.IpcObjects
import ACoral.Proofs.ResPool.Table

/-!
# `ACoral.Proofs.ThreadCreate`: what a failed creation leaves behind

A policy that fails gives the control block back, and nothing else. So it leaves what
there was before only if the control block was all that it had
(`createThread_atomic_iff`):

- No control block is left, and no pool can be added: nothing happens.
- A control block is at hand, and the policy is not known, the private data is refused,
  or the stack of a common thread.

In all other cases something is lost. The private data of a periodic or timed thread is
not freed, nor are the table and the semaphores of a timed one. The loop over its
semaphores tests neither the table nor the semaphores. A pool for the control block stays
(`acoralGetRes_of_new`), and one without memory loses its descriptor.
-/

set_option autoImplicit false

namespace ACoral.Creation

variable {s s' s₁ : CreateState} {call : CreateCall} {a : Answers} {thread : Nat}
  {e : KernelError}

/-! ### Failure points -/

/-- The policy of the thread. -/
def CreateCall.policy (call : CreateCall) : Option SchedPolicy :=
  acoralGetPolicyCtrl (call.policyType.setWidth 8)

/-- A pool has a free control block. -/
def CreateState.TcbAtHand (s : CreateState) : Prop :=
  ∃ i, (s.pools.pools i).ctrl = some .acoral_thread_pool_ctrl ∧ 0 < (s.pools.pools i).freeNum

/-- One of the semaphores of a timed thread is refused. -/
def SemRefused (s : CreateState) (call : CreateCall) (a : Answers) : Prop :=
  ∃ s₁ thread objs sems, acoralAllocThread s a.threadPool = some (s₁, some thread) ∧
    createSems a.ipcPool call.pData.timed.sectionNum.toNat 0 s₁.objs = some (objs, sems) ∧
    none ∈ sems

/-- The points at which a creation can fail. -/
inductive CreateFails (s : CreateState) (call : CreateCall) (a : Answers) : Prop where
  | noTcb (hnone : ¬ s.TcbAtHand)
      (hpool : FailsEarly s.pools .acoral_thread_pool_ctrl ∨ a.threadPool = none)
  | noPolicy (hpolicy : call.policy = none)
  | noPrivateData (hpolicy : call.policy = some .period ∨ call.policy = some .timed)
      (hdata : a.privateData = none)
  | noTable (hpolicy : call.policy = some .timed) (htable : a.ipcTable = none)
  | noSem (hpolicy : call.policy = some .timed) (hsem : SemRefused s call a)
  | noStack (hstack : call.stack = none) (hmalloc : a.stack = none)

/-! ### Atomicity -/

/-- The queues that threads wait in. -/
def CreateState.queues (s : CreateState) :
    (Nat → PrioArray Nat) × List Nat × List (Nat × Int) × (Nat → List (Nat × Int)) :=
  (s.objs.ipc.sched.readyQueues, s.threadsQueue, s.periodTimeQueue, s.timedTimeQueue)

/-- The pools, both allocators and the queues hold what they held before. -/
structure Unchanged (s s' : CreateState) : Prop where
  table : s'.pools.table = s.pools.table
  free : ∀ i r, r ∈ s'.pools.freeRes i ↔ r ∈ s.pools.freeRes i
  heapHeld : s'.heapHeld.Perm s.heapHeld
  volHeld : s'.volHeld.Perm s.volHeld
  queues : s'.queues = s.queues

/-- The call reports an error, and nothing has changed. -/
def Atomic (s : CreateState) (call : CreateCall) (a : Answers) : Prop :=
  ∃ e s', createThreadByPolicy s call a = some (.error e, s') ∧ Unchanged s s'

/-- All that the creation had is the control block, or it had nothing. -/
def FailsClean (s : CreateState) (call : CreateCall) (a : Answers) : Prop :=
  ¬ s.TcbAtHand ∧ FailsEarly s.pools .acoral_thread_pool_ctrl ∨
  s.TcbAtHand ∧ (call.policy = none ∨ call.policy = some .comm ∨ a.privateData = none)

/-! ### The functions -/

/-- Only the control blocks of threads differ. -/
structure SameHoldings (s s₁ : CreateState) : Prop where
  pools : s₁.pools = s.pools
  heapHeld : s₁.heapHeld = s.heapHeld
  volHeld : s₁.volHeld = s.volHeld
  queues : s₁.queues = s.queues

theorem SameHoldings.setTcb (s : CreateState) (thread : Nat) (t : Tcb) :
    SameHoldings s (s.setTcb thread t) :=
  ⟨rfl, rfl, rfl, rfl⟩

theorem releaseThread_error {err : KernelError} {r : Except KernelError (BitVec 32)}
    (h : releaseThread s thread err = some (r, s')) :
    ∃ k, acoralReleaseRes s.pools thread = some k ∧ r = .error err ∧ s' = s.setPools k := by
  obtain ⟨k, hrelease, heq⟩ := Option.map_eq_some_iff.mp h
  obtain ⟨rfl, rfl⟩ := Prod.mk.inj heq
  exact ⟨k, hrelease, rfl, rfl⟩

/-- Without a stack, and without memory for one, the control block is released. -/
theorem initOrRelease_noStack {next : CreateState → Outcome}
    (hstack : (s.thread thread).stackButtom = none) :
    initOrRelease s thread none next = releaseThread s thread .KR_THREAD_ERR_NO_STACK := by
  simp only [initOrRelease, acoralThreadInit, hstack]

/-- A policy that goes on without an error reports one only if there is no stack. -/
theorem initOrRelease_error {malloc : Option Nat} {next : CreateState → Outcome}
    (hnext : ∀ s₁ e s', next s₁ ≠ some (.error e, s'))
    (h : initOrRelease s thread malloc next = some (.error e, s')) :
    ∃ err, releaseThread s thread err = some (.error e, s') := by
  unfold initOrRelease acoralThreadInit at h
  cases hstack : (s.thread thread).stackButtom with
  | some stack =>
      simp only [hstack] at h
      exact absurd h (hnext _ _ _)
  | none =>
      cases malloc with
      | some stack =>
          simp only [hstack] at h
          exact absurd h (hnext _ _ _)
      | none =>
          simp only [hstack] at h
          exact ⟨_, h⟩

theorem rdyNewThread_ne (s s' : CreateState) (thread : Nat) (e : KernelError) :
    some (rdyNewThread s thread) ≠ some (.error e, s') := by
  intro h
  cases congrArg Prod.fst (Option.some.inj h)

/-- The private data of a periodic thread is not freed. -/
theorem periodPolicyThreadInit_leaks {pData : PeriodPolicyData} {privateData : Nat}
    (hdata : a.privateData = some privateData)
    (h : periodPolicyThreadInit s thread pData a = some (.error e, s')) :
    s.volHeld.length < s'.volHeld.length := by
  unfold periodPolicyThreadInit at h
  simp only [hdata] at h
  obtain ⟨err, h⟩ := initOrRelease_error (fun _ _ _ => rdyNewThread_ne _ _ _ _) h
  obtain ⟨k, -, -, rfl⟩ := releaseThread_error h
  exact Nat.lt_succ_self _

theorem fillIpcTable_volHeld {privateData sectionNum : Nat}
    (h : fillIpcTable s privateData sectionNum a = some s₁) :
    s₁.volHeld = a.ipcTable.toList ++ s.volHeld := by
  unfold fillIpcTable at h
  split at h
  · cases h
  · obtain ⟨⟨objs, sems⟩, -, rfl⟩ := Option.map_eq_some_iff.mp h
    rfl

/-- Nor is that of a timed thread. -/
theorem timedPolicyThreadInit_leaks {pData : TimedPolicyData} {privateData : Nat}
    (hdata : a.privateData = some privateData)
    (h : timedPolicyThreadInit s thread pData a = some (.error e, s')) :
    s.volHeld.length < s'.volHeld.length := by
  unfold timedPolicyThreadInit at h
  simp only [hdata] at h
  obtain ⟨s₁, hfill, h⟩ := Option.bind_eq_some_iff.mp h
  have hvol := fillIpcTable_volHeld hfill
  refine (initOrRelease_error (fun s₂ e s₃ hnext => ?_) h).elim fun err h => ?_
  · obtain ⟨⟨time, tick⟩, -, heq⟩ := Option.map_eq_some_iff.mp hnext
    cases congrArg Prod.fst heq
  · obtain ⟨k, -, -, rfl⟩ := releaseThread_error h
    have hlen : s.volHeld.length < s₁.volHeld.length := by
      rw [hvol, List.length_append]
      exact Nat.lt_add_left _ (Nat.lt_succ_self _)
    exact hlen

/-! ### The policies -/

/-- With private data, a periodic or timed thread loses it. -/
theorem policyThreadInit_leaks {privateData : Nat}
    (hpolicy : call.policy = some .period ∨ call.policy = some .timed)
    (hdata : a.privateData = some privateData)
    (h : acoralPolicyThreadInit s thread call a = some (.error e, s')) :
    s.volHeld.length < s'.volHeld.length := by
  unfold acoralPolicyThreadInit at h
  rcases hpolicy with hpolicy | hpolicy
  · rw [show acoralGetPolicyCtrl (call.policyType.setWidth 8) = some .period from hpolicy] at h
    exact periodPolicyThreadInit_leaks hdata h
  · rw [show acoralGetPolicyCtrl (call.policyType.setWidth 8) = some .timed from hpolicy] at h
    exact timedPolicyThreadInit_leaks hdata h

/-- Without private data nothing is tried. -/
theorem policyThreadInit_noData (hpolicy : call.policy ≠ some .comm)
    (hdata : a.privateData = none) :
    ∃ s₁ err, SameHoldings s s₁ ∧
      acoralPolicyThreadInit s thread call a = releaseThread s₁ thread err := by
  unfold acoralPolicyThreadInit
  cases hp : acoralGetPolicyCtrl (call.policyType.setWidth 8) with
  | none => exact ⟨s, _, ⟨rfl, rfl, rfl, rfl⟩, rfl⟩
  | some policy =>
      cases policy with
      | comm => exact absurd hp hpolicy
      | period =>
          simp only [periodPolicyThreadInit, hdata]
          exact ⟨_, _, SameHoldings.setTcb s thread _, rfl⟩
      | timed =>
          simp only [timedPolicyThreadInit, hdata]
          exact ⟨_, _, SameHoldings.setTcb s thread _, rfl⟩

/-- A policy that has nothing but the control block, and fails, releases it. -/
theorem policyThreadInit_releases
    (hclean : call.policy = none ∨ call.policy = some .comm ∨ a.privateData = none)
    (hcomm : call.policy = some .comm →
      (s.thread thread).stackButtom = none ∧ a.stack = none) :
    ∃ s₁ err, SameHoldings s s₁ ∧
      acoralPolicyThreadInit s thread call a = releaseThread s₁ thread err := by
  by_cases hpolicy : call.policy = some .comm
  · obtain ⟨hstack, hmalloc⟩ := hcomm hpolicy
    unfold acoralPolicyThreadInit
    rw [show acoralGetPolicyCtrl (call.policyType.setWidth 8) = some .comm from hpolicy]
    simp only [commPolicyThreadInit, hmalloc]
    exact ⟨_, _, SameHoldings.setTcb s thread _, initOrRelease_noStack hstack⟩
  rcases hclean with hnone | hcomm' | hdata
  · unfold acoralPolicyThreadInit
    rw [show acoralGetPolicyCtrl (call.policyType.setWidth 8) = none from hnone]
    exact ⟨s, _, ⟨rfl, rfl, rfl, rfl⟩, rfl⟩
  · exact absurd hcomm' hpolicy
  · exact policyThreadInit_noData hpolicy hdata

/-- No policy gives a pool back. -/
theorem policyThreadInit_table
    (h : acoralPolicyThreadInit s thread call a = some (.error e, s')) :
    s'.pools.table = s.pools.table ∨ s.volHeld.length < s'.volHeld.length := by
  have hrelease : ∀ {s₁ err}, SameHoldings s s₁ →
      releaseThread s₁ thread err = some (.error e, s') → s'.pools.table = s.pools.table := by
    intro s₁ err hsame hrelease
    obtain ⟨k, hk, -, rfl⟩ := releaseThread_error hrelease
    rw [hsame.pools] at hk
    exact acoralReleaseRes_table hk
  cases hp : call.policy with
  | none =>
      unfold acoralPolicyThreadInit at h
      rw [show acoralGetPolicyCtrl (call.policyType.setWidth 8) = none from hp] at h
      exact Or.inl (hrelease ⟨rfl, rfl, rfl, rfl⟩ h)
  | some policy =>
      have hother : call.policy = some .period ∨ call.policy = some .timed →
          s'.pools.table = s.pools.table ∨ s.volHeld.length < s'.volHeld.length := by
        intro hother
        cases hdata : a.privateData with
        | none =>
            have hcomm : call.policy ≠ some .comm := by
              rcases hother with hother | hother <;> rw [hother] <;> decide
            obtain ⟨s₁, err, hsame, heq⟩ := policyThreadInit_noData hcomm hdata
            exact Or.inl (hrelease hsame (heq.symm.trans h))
        | some privateData => exact Or.inr (policyThreadInit_leaks hother hdata h)
      cases policy with
      | comm =>
          unfold acoralPolicyThreadInit at h
          rw [show acoralGetPolicyCtrl (call.policyType.setWidth 8) = some .comm from hp] at h
          obtain ⟨err, h⟩ := initOrRelease_error (fun _ _ _ => rdyNewThread_ne _ _ _ _) h
          exact Or.inl (hrelease (SameHoldings.setTcb s thread _) h)
      | period => exact hother (Or.inl hp)
      | timed => exact hother (Or.inr hp)

/-! ### The call -/

/-- What `create_thread_by_policy` writes into the control block. -/
def CreateState.started (s : CreateState) (pools : ResPools KernelPool) (thread : Nat)
    (call : CreateCall) : CreateState :=
  let s := (s.setPools pools).setTcb thread { s.tcb thread with resId := pools.word thread }
  s.setThread thread
    { s.thread thread with
      stackSize := call.stackSize &&& ~~~3#32
      stackButtom := call.stack
      policy := call.policyType.setWidth 8 }

theorem createThread_noTcb {k : ResPools KernelPool}
    (hget : acoralGetRes s.pools .acoral_thread_pool_ctrl a.threadPool = some (k, none)) :
    createThreadByPolicy s call a = some (.error .KR_POLICY_ERR_THREAD, s.setPools k) := by
  simp only [createThreadByPolicy, acoralAllocThread, hget, Option.map_some, Option.bind_some]

theorem createThread_tcb {k : ResPools KernelPool}
    (hget : acoralGetRes s.pools .acoral_thread_pool_ctrl a.threadPool = some (k, some thread)) :
    createThreadByPolicy s call a = acoralPolicyThreadInit (s.started k thread call) thread call a := by
  simp only [createThreadByPolicy, acoralAllocThread, hget, Option.map_some, Option.bind_some]
  rfl

/-- The control block is back, and the rest is as it was. -/
theorem release_unchanged {inited : List KernelPool} {held : List Nat} {k : ResPools KernelPool}
    {err : KernelError} (h : PoolSystem.Inv { kernel := s.pools, inited := inited, held := held })
    (h' : PoolSystem.Inv { kernel := k, inited := inited, held := thread :: held })
    (htable : k.table = s.pools.table) (hsame : SameHoldings (s.started k thread call) s₁) :
    ∃ s', releaseThread s₁ thread err = some (.error err, s') ∧ Unchanged s s' := by
  obtain ⟨k', hrelease, hinv⟩ := PoolSystem.releaseRes_returns h' List.mem_cons_self
  rw [List.erase_cons_head] at hinv
  have htable' : k'.table = s.pools.table := (acoralReleaseRes_table hrelease).trans htable
  refine ⟨s₁.setPools k', ?_, htable', free_of_table h.pools hinv.pools htable', ?_, ?_, ?_⟩
  · rw [releaseThread, hsame.pools]
    exact congrArg (Option.map _) hrelease
  · exact hsame.heapHeld ▸ List.Perm.refl s.heapHeld
  · exact hsame.volHeld ▸ List.Perm.refl s.volHeld
  · exact hsame.queues

/-- A known policy without a stack. -/
theorem CreateFails.noStack_of_comm (hfails : CreateFails s call a) (htcb : s.TcbAtHand)
    (hcomm : call.policy = some .comm) : call.stack = none ∧ a.stack = none := by
  cases hfails with
  | noTcb hnone _ => exact absurd htcb hnone
  | noPolicy hpolicy => cases hpolicy.symm.trans hcomm
  | noPrivateData hpolicy _ =>
      rcases hpolicy with hpolicy | hpolicy <;> cases hpolicy.symm.trans hcomm
  | noTable hpolicy _ => cases hpolicy.symm.trans hcomm
  | noSem hpolicy _ => cases hpolicy.symm.trans hcomm
  | noStack hstack hmalloc => exact ⟨hstack, hmalloc⟩

/-- What `acoral_get_res` finds, by the pools with a free control block. -/
theorem tcbAtHand_iff {inited : List KernelPool} {held : List Nat}
    (h : PoolInv s.pools inited held) (hc : .acoral_thread_pool_ctrl ∈ inited) :
    s.TcbAtHand ↔
      s.pools.links.next (s.pools.links.next (.freeHead .acoral_thread_pool_ctrl)) ≠
        s.pools.links.next (.freeHead .acoral_thread_pool_ctrl) := by
  obtain ⟨members, hl⟩ := h.lists
  rcases hl.first hc with ⟨-, hself, hnone⟩ | ⟨hne, i, -, howner, hfree⟩
  · refine iff_of_false ?_ fun hne => hne hself
    rintro ⟨i, howner, hfree⟩
    exact hnone i howner hfree
  · exact iff_of_true ⟨i, howner, hfree⟩ hne

/-- A control block was at hand, and the call is atomic where it is all that it had. -/
theorem atomic_of_tcb {inited : List KernelPool} {held : List Nat} {k : ResPools KernelPool}
    (h : PoolSystem.Inv { kernel := s.pools, inited := inited, held := held })
    (h' : PoolSystem.Inv { kernel := k, inited := inited, held := thread :: held })
    (htable : k.table = s.pools.table)
    (hget : acoralGetRes s.pools .acoral_thread_pool_ctrl a.threadPool = some (k, some thread))
    (hcomm : call.policy = some .comm → call.stack = none ∧ a.stack = none) :
    Atomic s call a ↔ call.policy = none ∨ call.policy = some .comm ∨ a.privateData = none := by
  constructor
  · rintro ⟨e, s', hcall, hun⟩
    by_contra hnot
    obtain ⟨hknown, hne, hdata⟩ : call.policy ≠ none ∧ call.policy ≠ some .comm ∧
        a.privateData ≠ none := by
      simpa only [not_or] using hnot
    obtain ⟨privateData, hdata⟩ := Option.ne_none_iff_exists'.mp hdata
    have hpolicy : call.policy = some .period ∨ call.policy = some .timed := by
      match hp : call.policy with
      | none         => exact absurd hp hknown
      | some .comm   => exact absurd hp hne
      | some .period => exact Or.inl rfl
      | some .timed  => exact Or.inr rfl
    -- the private data stays allocated
    rw [createThread_tcb hget] at hcall
    have hlt := policyThreadInit_leaks hpolicy hdata hcall
    exact absurd hun.volHeld.length_eq (Nat.ne_of_gt hlt)
  · intro hclean
    obtain ⟨s₁, err, hsame, heq⟩ : ∃ s₁ err, SameHoldings (s.started k thread call) s₁ ∧
        acoralPolicyThreadInit (s.started k thread call) thread call a =
          releaseThread s₁ thread err := by
      refine policyThreadInit_releases hclean fun hp => ⟨?_, (hcomm hp).2⟩
      simp [CreateState.started, CreateState.setThread, (hcomm hp).1]
    obtain ⟨s', hrelease, hun⟩ : ∃ s', releaseThread s₁ thread err = some (.error err, s') ∧
        Unchanged s s' := release_unchanged h h' htable hsame
    exact ⟨err, s', (createThread_tcb hget).trans (heq.trans hrelease), hun⟩

/-- No control block was at hand. -/
theorem atomic_of_noTcb {k : ResPools KernelPool} {thread : Option Nat}
    (hnone : s.pools.links.next (s.pools.links.next (.freeHead .acoral_thread_pool_ctrl)) =
      s.pools.links.next (.freeHead .acoral_thread_pool_ctrl))
    (hget : acoralGetRes s.pools .acoral_thread_pool_ctrl a.threadPool = some (k, thread)) :
    Atomic s call a ↔ FailsEarly s.pools .acoral_thread_pool_ctrl := by
  cases thread with
  | none =>
      obtain ⟨htable, hback⟩ := acoralGetRes_of_none hget
      constructor
      · rintro ⟨e, s', hcall, hun⟩
        obtain ⟨-, rfl⟩ := Prod.mk.inj (Option.some.inj ((createThread_noTcb hget).symm.trans hcall))
        exact htable.mp hun.table
      · intro hearly
        obtain rfl := hback hearly
        exact ⟨_, _, createThread_noTcb hget, rfl, fun _ _ => Iff.rfl, List.Perm.refl _,
          List.Perm.refl _, rfl⟩
  | some thread =>
      -- the pool that was added for the control block stays
      obtain ⟨htable, hearly⟩ := acoralGetRes_of_new hnone hget
      refine iff_of_false ?_ hearly
      rintro ⟨e, s', hcall, hun⟩
      rw [createThread_tcb hget] at hcall
      rcases policyThreadInit_table hcall with hkeep | hlt
      · exact htable (hkeep.symm.trans hun.table)
      · exact absurd hun.volHeld.length_eq (Nat.ne_of_gt hlt)

/-- A creation that fails is atomic exactly when it has nothing to give back, or nothing
but a control block that was there. The pools are those of any state that the kernel
reaches. -/
theorem createThread_atomic_iff {fuel : Nat} {ctrl : KernelPool → AcoralPoolCtrl}
    {links : Lib.Links (PoolNode KernelPool)} {word : Nat → BitVec 32}
    {ops : List (PoolOp KernelPool)} {x : PoolSystem KernelPool} {s : CreateState}
    {call : CreateCall} {a : Answers}
    (hrun : (PoolSystem.start ctrl links word).run fuel ops = some x) (hpools : s.pools = x.kernel)
    (hguard : x.guard (.getRes .acoral_thread_pool_ctrl a.threadPool) = true)
    (hfails : CreateFails s call a) : Atomic s call a ↔ FailsClean s call a := by
  have hinv : PoolSystem.Inv { kernel := s.pools, inited := x.inited, held := x.held } := by
    rw [hpools]
    exact PoolSystem.inv_of_run hrun
  have hinited : .acoral_thread_pool_ctrl ∈ x.inited := by
    simp only [PoolSystem.guard, Bool.and_eq_true, decide_eq_true_eq] at hguard
    exact hguard.1
  obtain ⟨k, res, hget, hinv', -⟩ := PoolSystem.getRes_returns (PoolSystem.inv_of_run hrun) hguard
  rw [← hpools] at hget
  have htcb := tcbAtHand_iff hinv.pools hinited
  unfold FailsClean
  by_cases hhand : s.TcbAtHand
  · obtain ⟨htable, hres⟩ := acoralGetRes_of_free (htcb.mp hhand) hget
    obtain ⟨thread, rfl⟩ := Option.ne_none_iff_exists'.mp hres
    rw [atomic_of_tcb hinv hinv' htable hget (hfails.noStack_of_comm hhand)]
    simp only [hhand, not_true, false_and, false_or, true_and]
  · rw [atomic_of_noTcb (not_not.mp fun hne => hhand (htcb.mpr hne)) hget]
    simp only [hhand, not_false_eq_true, true_and, false_and, or_false]

/-! ### Runs -/

/-- The kernel with four control blocks, and one semaphore and no more. -/
def twoPools : List (PoolOp KernelPool) :=
  [.ctrlInit .acoral_thread_pool_ctrl ACORAL_RES_THREAD 128 4 4 512 (some 8192),
    .ctrlInit .acoral_ipc_pool_ctrl ACORAL_RES_IPC 44 8 1 44 (some 4096)]

/-- No thread exists yet. -/
def noThreads (pools : ResPools KernelPool) : CreateState :=
  { objs :=
      { pools := pools
        ipc :=
          { sched := acoralSchedRdyqueueInit fun _ => { resId := 0, state := 0, prio := 0, cpu := 0 }
            ipc := fun _ => { type := .ACORAL_IPC_SEM, count := 0, number := 0, data := none }
            links := { next := id, prev := id }
            pendingValue := fun _ => 0
            threadIpc := fun _ => none }
        ceiling := fun _ =>
          { sem := none
            res := { type := .LOCAL, cpu := 0, prioCeiling := 0, prioSwitch := 0
                     stackingValue := 0 } } }
    heapHeld := []
    volHeld := []
    thread := fun _ =>
      { stackSize := 0, stackButtom := none, policy := 0, privateData := none, time := 0 }
    periodTime := fun _ => 0
    timedData := fun _ =>
      { startTime := [], sectionNum := 0, frequency := 0, sectn := 0, runNum := 0 }
    ipcTable := fun _ => (none, [])
    threadsQueue := []
    periodTimeQueue := []
    timedTimeQueue := fun _ => [] }

/-- A thread of the policy, without a stack of its own. -/
def callOf (policy : SchedPolicy) : CreateCall :=
  { stackSize := 512
    stack := none
    policyType := policy.type.setWidth 32
    pData :=
      { comm := { cpu := 0, prio := 5 }
        period := { cpu := 0, prio := 5, time := 1000 }
        timed := { cpu := 0, startTime := [0, 500], sectionNum := 2, frequency := 1 } } }

/-- No memory but for the private data, the table and, where there is any, the stack. -/
def answersOf (stack : Option Nat) : Answers :=
  { threadPool := none
    privateData := some 100
    ipcTable := some 200
    ipcPool := fun _ => none
    stack := stack }

/-- A common thread without a stack. -/
theorem createThread_atomic_iff_comm :
    ∃ x, ipcPoolStart.run 1 twoPools = some x ∧
      (Atomic (noThreads x.kernel) (callOf .comm) (answersOf none) ↔
        FailsClean (noThreads x.kernel) (callOf .comm) (answersOf none)) := by
  have heval : (ipcPoolStart.run 1 twoPools).any (fun x =>
      x.guard (.getRes .acoral_thread_pool_ctrl none)) = true := by
    decide +kernel
  obtain ⟨x, hrun, hguard⟩ := (Option.any_eq_true ..).mp heval
  exact ⟨x, hrun, createThread_atomic_iff hrun rfl hguard (.noStack rfl rfl)⟩

/-- The private data of a periodic thread without a stack is lost. A timed thread with one
semaphore too few is created. -/
theorem createThread_atomic_fails :
    ∃ x s₁ s₂ id, ipcPoolStart.run 1 twoPools = some x ∧
      CreateFails (noThreads x.kernel) (callOf .period) (answersOf none) ∧
      createThreadByPolicy (noThreads x.kernel) (callOf .period) (answersOf none) =
        some (.error .KR_THREAD_ERR_NO_STACK, s₁) ∧
      s₁.volHeld = [100] ∧ (noThreads x.kernel).volHeld = [] ∧
      ¬ Atomic (noThreads x.kernel) (callOf .period) (answersOf none) ∧
      CreateFails (noThreads x.kernel) (callOf .timed) (answersOf (some 300)) ∧
      createThreadByPolicy (noThreads x.kernel) (callOf .timed) (answersOf (some 300)) =
        some (.ok id, s₂) ∧
      (s₂.ipcTable 100).2 = [some 4096, none] ∧
      ¬ Atomic (noThreads x.kernel) (callOf .timed) (answersOf (some 300)) := by
  have heval : (ipcPoolStart.run 1 twoPools).any (fun x =>
      ((createThreadByPolicy (noThreads x.kernel) (callOf .period) (answersOf none)).any
        fun (r, s) => decide (r = .error .KR_THREAD_ERR_NO_STACK ∧ s.volHeld = [100])) &&
      ((createThreadByPolicy (noThreads x.kernel) (callOf .timed) (answersOf (some 300))).any
        fun (r, s) => r.isOk && decide ((s.ipcTable 100).2 = [some 4096, none])) &&
      ((acoralAllocThread (noThreads x.kernel) none).any fun r => r.2.isSome &&
        (createSems (fun _ => none) 2 0 r.1.objs).any fun r => decide (none ∈ r.2))) =
        true := by
    decide +kernel
  obtain ⟨x, hrun, h⟩ := (Option.any_eq_true ..).mp heval
  simp only [Bool.and_eq_true, Option.any_eq_true, decide_eq_true_eq, Prod.exists] at h
  obtain ⟨⟨⟨r₁, s₁, hperiod, rfl, hvol⟩, r₂, s₂, htimed, hok, htable⟩, s₃, thread, halloc,
    hthread, objs, sems, hsems, hnone⟩ := h
  obtain ⟨thread, rfl⟩ := Option.isSome_iff_exists.mp hthread
  cases r₂ with
  | error e => cases hok
  | ok id =>
      refine ⟨x, s₁, s₂, id, hrun, .noStack rfl rfl, hperiod, hvol, rfl, ?_, ?_, htimed, htable, ?_⟩
      · rintro ⟨e, s', hcall, hun⟩
        obtain ⟨-, rfl⟩ := Prod.mk.inj (Option.some.inj (hperiod.symm.trans hcall))
        have hlen := hun.volHeld.length_eq
        rw [hvol] at hlen
        cases hlen
      · exact .noSem rfl ⟨s₃, thread, objs, sems, halloc, hsems, hnone⟩
      · rintro ⟨e, s', hcall, hun⟩
        cases congrArg Prod.fst (Option.some.inj (htimed.symm.trans hcall))

end ACoral.Creation
