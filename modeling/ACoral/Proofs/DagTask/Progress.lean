import ACoral.Proofs.DagTask.Order
import Mathlib.Algebra.Order.BigOperators.Group.List
import Mathlib.Algebra.Order.Group.Nat

/-!
# `ACoral.Proofs.DagTask.Progress`: every period comes to its end

Between two ticks the threads take a bounded number of steps, whatever the order, and as
long as one of them is not through, one of them can go on. So no thread is left waiting
for a semaphore that was posted, and there is no deadlock, provided that the edges have
no cycle.

* `DagBound.run_left`: each step of a thread takes it nearer to the end of `acoral_dag_task`;
* `DagInv.next`: among the threads that are not through, one without such a predecessor
  is READY, and its call returns.
-/

set_option autoImplicit false

namespace ACoral

open Lib (Gates GateInv Phase run)

variable {R A T : Type} [DecidableEq T]

/-! ### Each step is one less -/

/-- An upper bound of the steps that a thread has left, when it waits for `n` semaphores. -/
def DagPc.left (n : Nat) : DagPc → Nat
  | .absent | .done => 0
  | .pend i         => 2 * (n - i) + 4
  | .pends i        => 2 * (n - i) + 3
  | .route          => 3
  | .post           => 2
  | .exit           => 1

theorem DagPc.left_le (n : Nat) (pc : DagPc) : pc.left n ≤ 2 * n + 4 := by
  cases pc <;> simp only [DagPc.left] <;> omega

/-- What all threads have left. -/
def dagLeft (D : DagTasks T R A) (r : DagRun T) : Nat :=
  (D.order.map fun t => (r.pc t).left (D.task t).pendIpcCnt).sum

/-- The steps of one period. -/
def dagSteps (D : DagTasks T R A) : Nat :=
  (D.order.map fun t => 2 * (D.task t).pendIpcCnt + 4).sum

omit [DecidableEq T] in
theorem dagLeft_le (D : DagTasks T R A) (r : DagRun T) : dagLeft D r ≤ dagSteps D :=
  List.sum_le_sum fun _ _ => DagPc.left_le _ _

/-- A thread at a schedule point called for a semaphore that it has to wait for. -/
def DagBound (task : T → DagThread R A) (r : DagRun T) : Prop :=
  ∀ t i, r.pc t = .pends i → i < (task t).pendIpcCnt

/-- A step of a thread changes its own place only, and takes it nearer to the end. -/
theorem dagTask_left {fuel : Nat} {task : T → DagThread R A} {r r' : DagRun T} {cur : T}
    (h : DagBound task r) (hstep : dagTask fuel task r cur = some r') :
    r'.deal = r.deal ∧ r'.todo = r.todo ∧ ∃ place, r'.pc = Function.update r.pc cur place ∧
      (∀ i, place = .pends i → i < (task cur).pendIpcCnt) ∧
      place.left (task cur).pendIpcCnt < (r.pc cur).left (task cur).pendIpcCnt := by
  unfold dagTask at hstep
  cases hpc : r.pc cur with
  | absent => rw [hpc] at hstep; cases hstep
  | done => rw [hpc] at hstep; cases hstep
  | pend i =>
      rw [hpc] at hstep
      dsimp only at hstep
      split at hstep
      case isTrue hi =>
        obtain ⟨sem, -, hstep⟩ := Option.bind_eq_some_iff.mp hstep
        obtain ⟨res, -, rfl⟩ := Option.map_eq_some_iff.mp hstep
        refine ⟨rfl, rfl, _, rfl, ?_⟩
        cases res.1 with
        | ret e =>
            refine ⟨fun _ => DagPc.noConfusion, ?_⟩
            show 2 * ((task cur).pendIpcCnt - (i + 1)) + 4 < 2 * ((task cur).pendIpcCnt - i) + 4
            omega
        | blocked s =>
            refine ⟨fun j hj => DagPc.pends.inj hj ▸ hi, ?_⟩
            show 2 * ((task cur).pendIpcCnt - i) + 3 < 2 * ((task cur).pendIpcCnt - i) + 4
            omega
      case isFalse hi =>
        obtain rfl := Option.some.inj hstep
        refine ⟨rfl, rfl, _, rfl, fun _ => DagPc.noConfusion, ?_⟩
        show 3 < 2 * ((task cur).pendIpcCnt - i) + 4
        omega
  | pends i =>
      have hi := h cur i hpc
      rw [hpc] at hstep
      obtain ⟨res, -, rfl⟩ := Option.map_eq_some_iff.mp hstep
      refine ⟨rfl, rfl, _, rfl, fun _ => DagPc.noConfusion, ?_⟩
      show 2 * ((task cur).pendIpcCnt - (i + 1)) + 4 < 2 * ((task cur).pendIpcCnt - i) + 3
      omega
  | route =>
      rw [hpc] at hstep
      obtain rfl := Option.some.inj hstep
      exact ⟨rfl, rfl, _, rfl, fun _ => DagPc.noConfusion, Nat.lt_succ_self _⟩
  | post =>
      rw [hpc] at hstep
      obtain ⟨res, -, rfl⟩ := Option.map_eq_some_iff.mp hstep
      exact ⟨rfl, rfl, _, rfl, fun _ => DagPc.noConfusion, Nat.lt_succ_self _⟩
  | exit =>
      rw [hpc] at hstep
      obtain rfl := Option.some.inj hstep
      exact ⟨rfl, rfl, _, rfl, fun _ => DagPc.noConfusion, Nat.lt_succ_self _⟩

/-- A thread that is put somewhere keeps the bound. -/
theorem DagBound.goto {task : T → DagThread R A} {r r' : DagRun T} {cur : T} {place : DagPc}
    (h : DagBound task r) (hpc : r'.pc = Function.update r.pc cur place)
    (hplace : ∀ i, place = .pends i → i < (task cur).pendIpcCnt) : DagBound task r' := by
  intro t i ht
  rw [hpc] at ht
  by_cases hc : t = cur
  · rw [hc, Function.update_self] at ht
    rw [hc]
    exact hplace i ht
  · rw [Function.update_of_ne hc] at ht
    exact h t i ht

/-- Every step keeps the bound. -/
theorem DagBound.step {fuel : Nat} {task : T → DagThread R A} {r r' : DagRun T} {op : DagOp T}
    (h : DagBound task r) (hstep : dagStep fuel task r op = some r') : DagBound task r' := by
  have hfront : ∀ (t : T) (i : Nat), DagPc.pend 0 = .pends i → i < (task t).pendIpcCnt :=
    fun _ _ => DagPc.noConfusion
  cases op with
  | create =>
      obtain ⟨-, hstep⟩ := Option.ite_none_right_eq_some.mp hstep
      unfold dagCreate at hstep
      cases htodo : r.todo with
      | nil => rw [htodo] at hstep; cases hstep
      | cons t todo =>
          rw [htodo] at hstep
          obtain rfl := Option.some.inj hstep
          exact h.goto rfl (hfront t)
  | tick =>
      obtain ⟨-, hstep⟩ := Option.ite_none_right_eq_some.mp hstep
      obtain rfl := Option.some.inj hstep
      exact h
  | deal =>
      obtain ⟨tmp, -, rfl⟩ := Option.map_eq_some_iff.mp hstep
      cases tmp with
      | none => exact h
      | some t =>
          unfold dagDeal dagRelease
          dsimp only
          split
          · exact h
          · split
            · exact h.goto rfl (hfront t)
            · exact h
  | run thread =>
      obtain ⟨-, hstep⟩ := Option.ite_none_right_eq_some.mp hstep
      obtain ⟨-, -, place, hpc, hplace, -⟩ := dagTask_left h hstep
      exact h.goto hpc hplace

/-- It holds in every run. -/
theorem DagReaches.bound {fuel : Nat} {task : T → DagThread R A} {ipc : IpcState Nat T}
    {order : List T} {ops : List (DagOp T)} {r : DagRun T}
    (h : DagReaches fuel task ipc order ops r) : DagBound task r :=
  Lib.guarded_induct (fun _ _ _ hs _ hstep => hs.step hstep) (fun _ _ => DagPc.noConfusion) h

section

variable {D : DagTasks T R A} {r r' : DagRun T}

/-- A step of a thread is one of the steps that are left. -/
theorem DagBound.run_left (h : DagBound D.task r) {fuel : Nat} {cur : T}
    (hstep : dagStep fuel D.task r (.run cur) = some r') :
    r'.deal = r.deal ∧ r'.todo = r.todo ∧ dagLeft D r' < dagLeft D r := by
  obtain ⟨-, hstep⟩ := Option.ite_none_right_eq_some.mp hstep
  obtain ⟨hdeal, htodo, place, hpc, -, hleft⟩ := dagTask_left h hstep
  refine ⟨hdeal, htodo, List.sum_lt_sum _ _ (fun t _ => ?_) ⟨cur, D.all cur, ?_⟩⟩
  · -- the other threads stay where they are
    rw [hpc]
    by_cases ht : t = cur
    · rw [ht, Function.update_self]
      exact Nat.le_of_lt hleft
    · rw [Function.update_of_ne ht]
  · rw [hpc, Function.update_self]
    exact hleft

/-- The invariant goes with the steps of the threads, which fit into what is left. -/
theorem DagInv.run (h : DagInv D r) (hbound : DagBound D.task r) (hforward : D.Forward)
    {fuel : Nat} {threads : List T}
    (hrun : Lib.run (dagStep fuel D.task) r (threads.map .run) = some r') :
    DagInv D r' ∧ DagBound D.task r' ∧ r'.deal = r.deal ∧ r'.todo = r.todo ∧
      threads.length + dagLeft D r' ≤ dagLeft D r := by
  induction threads generalizing r with
  | nil =>
      obtain rfl := Option.some.inj hrun
      exact ⟨h, hbound, rfl, rfl, (Nat.zero_add _).le⟩
  | cons cur threads ih =>
      obtain ⟨m, hstep, hrest⟩ := Lib.run_cons_eq_some.mp hrun
      obtain ⟨hdeal, htodo, hleft⟩ := hbound.run_left hstep
      obtain ⟨g, hrel, hinv⟩ := h
      have hm : DagInv D m := by
        obtain ⟨g', hg, hrel'⟩ := dagStep_gates hrel hinv hforward rfl hstep
        rcases hg with rfl | hg
        · exact ⟨g', hrel', hinv⟩
        · exact ⟨g', hrel', hg.inv hinv⟩
      obtain ⟨hinv', hbound', hdeal', htodo', hcount⟩ := ih hm (hbound.step hstep) hrest
      refine ⟨hinv', hbound', hdeal'.trans hdeal, htodo'.trans htodo, ?_⟩
      rw [List.length_cons]
      omega

/-! ### One of them can go on -/

/-- With a step for each member, `acoral_ipc_wait_queue_add` returns. -/
theorem IpcState.Waits.add_isSome {fuel : Nat} {s : IpcState Nat T} {i : Nat} {t : T} {q : List T}
    (h : s.Waits i q) (ht : t ∉ q) (hfuel : q.length < fuel) :
    (acoralIpcWaitQueueAdd fuel s i t).isSome = true := by
  have hlen : (q.map (IpcNode.pending : T → IpcNode Nat T)).length < fuel := by
    rwa [List.length_map]
  have hadd := acoralPrioQueueAdd_isSome s.nodeValue h (notMem_ring ht) hlen
  unfold acoralIpcWaitQueueAdd
  rwa [Option.isSome_map]

/-- `acoral_ipc_wait_queue_del` of a member returns. -/
theorem IpcState.Waits.del_isSome {s : IpcState Nat T} {i : Nat} {t : T} {q : List T}
    (h : s.Waits i q) (ht : t ∈ q) : (acoralIpcWaitQueueDel s t).isSome = true := by
  obtain ⟨l₁, l₂, rfl⟩ := List.append_of_mem ht
  unfold IpcState.Waits at h
  rw [List.map_append, List.map_cons] at h
  have hdel : acoralPrioQueueDel s.links (.pending t) = _ := acoralListDel_mem h
  unfold acoralIpcWaitQueueDel
  rw [hdel]
  rfl

omit [DecidableEq T] in
/-- A wait queue is not longer than the list of the threads. -/
theorem DagIpc.length_le {pc : T → DagPc} {ipc : IpcState Nat T} {Q : Nat → List T}
    (h : DagIpc D ipc pc Q) (s : Nat) : (Q s).length ≤ D.order.length :=
  ((h.queues.waits s).nodup.subperm fun t _ => D.all t).length_le

/-- The calls of a READY thread return, when the loops over the queues have a step for each
thread. -/
theorem dagTask_isSome {Q : Nat → List T} (h : DagIpc D r.ipc r.pc Q) {fuel : Nat}
    (hfuel : D.order.length < fuel) {cur : T} (habsent : r.pc cur ≠ .absent)
    (hdone : r.pc cur ≠ .done) (hbound : DagBound D.task r) :
    (dagTask fuel D.task r cur).isSome = true := by
  unfold dagTask
  cases hpc : r.pc cur with
  | absent => exact absurd hpc habsent
  | done => exact absurd hpc hdone
  | route => rfl
  | exit => rfl
  | pend i =>
      dsimp only
      split
      case isFalse => rfl
      case isTrue hi =>
        obtain ⟨p, hgate⟩ := D.gate hi
        rw [D.pendIpc_eq, hgate, Option.map_some, Option.bind_some, Option.isSome_map]
        cases hposted : (r.pc p).posted with
        | true => rw [h.pass fuel cur hposted]; rfl
        | false =>
            rw [h.block_eq fuel cur hposted]
            have hfree : cur ∉ Q (D.task p).postIpc :=
              h.notMem (fun j he => by rw [hpc] at he; cases he) _
            have hring : (r.ipc.suspendSelf cur).Waits _ _ := h.queues.waits (D.task p).postIpc
            unfold ipcBlock
            rw [Option.isSome_map]
            exact hring.add_isSome hfree (Nat.lt_of_le_of_lt (h.length_le _) hfuel)
  | pends i =>
      obtain ⟨p, hgate⟩ := D.gate (hbound cur i hpc)
      have hin : cur ∈ Q (D.task p).postIpc := (h.waits cur _).mpr ⟨i, p, hpc, hgate, rfl⟩
      dsimp only
      unfold acoralSemPendResume
      rw [Option.isSome_map, Option.isSome_map]
      exact (h.queues.waits _).del_isSome hin
  | post =>
      have hring : (decCount r.ipc (D.task cur).postIpc).Waits (D.task cur).postIpc
          ([] ++ Q (D.task cur).postIpc) := h.queues.waits (D.task cur).postIpc
      have hloop := semRdyAll_isSome hring (Nat.lt_of_le_of_lt (h.length_le _) hfuel)
      dsimp only
      rw [Option.isSome_map, h.posts_eq fuel hpc, Option.isSome_map]
      exact hloop

/-- As long as a thread is not through, some thread can go on. The induction is on the edges: a
thread none of whose predecessors is unfinished is READY. -/
theorem DagInv.next (h : DagInv D r) (hbound : DagBound D.task r)
    (hacyclic : WellFounded fun p t => p ∈ D.before t) {fuel : Nat}
    (hfuel : D.order.length < fuel) (hdeal : r.deal = none) (htodo : r.todo = [])
    (hleft : ¬ ∀ t, r.pc t = .done) : ∃ t, (dagStep fuel D.task r (.run t)).isSome = true := by
  obtain ⟨g, hrel, hinv⟩ := h
  obtain ⟨rest, hqueue, hmode⟩ := hrel.queue
  obtain ⟨Q, hipc⟩ := hrel.ipc
  have hbehind : g.behind = [] := by
    cases hmode with
    | threads _ ht _ _ => exact ht.symm.trans htodo
    | handler hd => rw [hdeal] at hd; cases hd
  -- all threads have been created
  have habsent : ∀ t, r.pc t ≠ .absent := by
    intro t ht
    have hshut := hinv.shut t (by rw [hrel.phase t, ht]; rfl)
    rw [hbehind] at hshut
    cases hshut
  obtain ⟨first, hfirst⟩ := not_forall.mp hleft
  induction first using hacyclic.induction with
  | _ t ih =>
  -- a thread that is READY can go on itself
  by_cases hready : r.ipc.isReady t = true
  · have hsome := dagTask_isSome hipc hfuel (habsent t) hfirst hbound
    refine ⟨t, ?_⟩
    show (if _ then _ else _ : Option _).isSome = true
    rwa [if_pos ⟨hready, Or.inl hdeal⟩]
  · -- it waits for a semaphore, so that the node of that semaphore is not through
    cases hpc : r.pc t with
    | absent => exact absurd hpc (habsent t)
    | done => exact absurd hpc hfirst
    | pends i =>
        obtain ⟨p, hgate⟩ := D.gate (hbound t i hpc)
        have hblocked : g.phase t = .blocked i := by
          rw [hrel.phase t, hpc, Bool.eq_false_of_not_eq_true hready]
          rfl
        have hshut := hinv.blocked t i p hblocked hgate
        refine ih p (List.mem_of_getElem? hgate) fun hp => hshut ?_
        rw [hrel.phase p, hp]
        rfl
    | pend i => exact absurd (hipc.awake t (Or.inl (by rw [hpc]; rfl))) hready
    | route => exact absurd (hipc.awake t (Or.inl (by rw [hpc]; rfl))) hready
    | post => exact absurd (hipc.awake t (Or.inl (by rw [hpc]; rfl))) hready
    | exit => exact absurd (hipc.awake t (Or.inr hpc)) hready

end

end ACoral
