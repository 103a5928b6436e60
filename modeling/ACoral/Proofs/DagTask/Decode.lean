import ACoral.Proofs.Dag
import ACoral.Proofs.DagTask.Progress

/-!
# `ACoral.Proofs.DagTask.Decode`: the user's DAGs at run time

`dag_decode` makes the threads of the user's DAGs (`ACoral.Proofs.Dag`), and threads that
are wired keep to the semaphores that they wait for (`ACoral.Proofs.DagTask.Order`). So the
functions of the user run in the order of the user's edges.

* `dag_order`: in every period a function begins when those before it have finished, and
  none of them begins its next period while it runs;
* `dag_finishes`: every period comes to its end, when the edges have no cycle.

Both ask of a node of the other CPU that it was handed in behind its predecessors
(`DagUser.Forward`). The queue of the user has the last node in front.
-/

set_option autoImplicit false

namespace ACoral

open Lib (InRounds begun finished guarded run sources)

variable {R A : Type}

/-! ### Wired threads -/

/-- Thread `t` waits for thread `p`. -/
def WaitsFor (threads : List (DagThread R A)) (p t : Fin threads.length) : Prop :=
  some (threads.get p).postIpc ∈ (threads.get t).pendIpc

/-- Threads that wait for each other's semaphores, and share the period with those that they
wait for. -/
structure ThreadsWired (threads : List (DagThread R A)) : Prop where
  nodup : (threads.map DagThread.postIpc).Nodup
  count : ∀ t ∈ threads, t.pendIpcCnt = t.pendIpc.length
  waits : ∀ t ∈ threads, ∀ s ∈ t.pendIpc, ∃ p ∈ threads, s = some p.postIpc ∧ p.time = t.time
  period : ∀ t ∈ threads, 0 < (timeToTicks (BitVec.ofNat 32 t.time)).toNat

/-- The threads that thread `t` waits for, in the order of `pend_ipc`. -/
def threadsBefore (threads : List (DagThread R A)) (t : Fin threads.length) :
    List (Fin threads.length) :=
  (threads.get t).pendIpc.filterMap fun s =>
    (List.finRange threads.length).find? fun p => some (threads.get p).postIpc = s

namespace ThreadsWired

variable {threads : List (DagThread R A)}

/-- A semaphore says which thread posts it. -/
theorem post_inj (h : ThreadsWired threads) {p q : Fin threads.length}
    (hpost : (threads.get p).postIpc = (threads.get q).postIpc) : p = q := by
  have hget : threads.get p = threads.get q :=
    List.inj_on_of_nodup_map h.nodup (List.get_mem threads p) (List.get_mem threads q) hpost
  exact List.nodup_iff_injective_get.mp (h.nodup.of_map _) hget

theorem find (h : ThreadsWired threads) (p : Fin threads.length) :
    ((List.finRange threads.length).find? fun q =>
      some (threads.get q).postIpc = some (threads.get p).postIpc) = some p := by
  cases hfind : (List.finRange threads.length).find? fun q =>
      some (threads.get q).postIpc = some (threads.get p).postIpc with
  | none =>
      have hnone := List.find?_eq_none.mp hfind p (List.mem_finRange p)
      simp at hnone
  | some q =>
      have hq := List.find?_some hfind
      exact congrArg some (h.post_inj (Option.some.inj (of_decide_eq_true hq)))

/-- What a thread waits for are the semaphores of the threads before it. -/
theorem map_before (h : ThreadsWired threads) (t : Fin threads.length) :
    (threadsBefore threads t).map (fun p => some (threads.get p).postIpc) =
      (threads.get t).pendIpc := by
  have hposts : ∀ s ∈ (threads.get t).pendIpc,
      ∃ p : Fin threads.length, s = some (threads.get p).postIpc := by
    intro s hs
    obtain ⟨p, hp, hpost, -⟩ := h.waits _ (List.get_mem threads t) s hs
    obtain ⟨i, rfl⟩ := List.get_of_mem hp
    exact ⟨i, hpost⟩
  unfold threadsBefore
  generalize (threads.get t).pendIpc = sems at hposts
  induction sems with
  | nil => rfl
  | cons s sems ih =>
      obtain ⟨p, rfl⟩ := hposts s List.mem_cons_self
      rw [List.filterMap_cons, h.find p]
      show _ :: _ = _
      rw [ih fun s hs => hposts s (List.mem_cons_of_mem _ hs)]

theorem mem_before (h : ThreadsWired threads) {p t : Fin threads.length} :
    p ∈ threadsBefore threads t ↔ WaitsFor threads p t := by
  unfold WaitsFor
  rw [← h.map_before t, List.mem_map]
  constructor
  · exact fun hp => ⟨p, hp, rfl⟩
  · rintro ⟨q, hq, hpost⟩
    exact h.post_inj (Option.some.inj hpost) ▸ hq

/-- Wired threads, as `ACoral.Proofs.DagTask.Semaphores` has them. -/
def tasks (h : ThreadsWired threads) : DagTasks (Fin threads.length) R A where
  task := threads.get
  order := List.finRange threads.length
  before := threadsBefore threads
  nodup := List.nodup_finRange _
  all := List.mem_finRange
  wired t := (h.map_before t).symm
  count t := by
    rw [h.count _ (List.get_mem threads t), ← h.map_before t, List.length_map]
  post _ _ := h.post_inj
  time t p hp := by
    obtain ⟨p', hp', hpost, htime⟩ :=
      h.waits _ (List.get_mem threads t) _ (h.mem_before.mp hp)
    rwa [List.inj_on_of_nodup_map h.nodup (List.get_mem threads p) hp' (Option.some.inj hpost)]
  period t := h.period _ (List.get_mem threads t)

theorem before_eq (h : ThreadsWired threads) :
    (fun p t => p ∈ h.tasks.before t) = WaitsFor threads := by
  funext p t
  exact propext h.mem_before

end ThreadsWired

/-- Two members of a list, the one in front first, have their places in that order. -/
theorem sublist_finRange {α : Type} {l : List α} (hnodup : l.Nodup) {i j : Fin l.length}
    (h : [l.get i, l.get j].Sublist l) : [i, j].Sublist (List.finRange l.length) := by
  have hmap : [l.get i, l.get j].Sublist ((List.finRange l.length).map l.get) := by
    rwa [List.map_get_finRange]
  obtain ⟨l', hsub, heq⟩ := List.sublist_map_iff.mp hmap
  have hinj := List.map_injective_iff.mpr (List.nodup_iff_injective_get.mp hnodup)
  rwa [hinj (show [i, j].map l.get = l'.map l.get from heq)]

/-! ### The threads of the user's DAGs -/

/-- A node of the other CPU was handed in behind its predecessors, which the queue has in the
reverse order. -/
def DagUser.Forward (dagUser : DagUser R A) : Prop :=
  ∀ u ∈ dagUser.dagUserNodeQueue, u.processor ≠ 0 → ∀ v ∈ dagUser.dagUserNodeQueue,
    some v.route ∈ u.preds → [u, v].Sublist dagUser.dagUserNodeQueue

/-- The edge from the function `p` to the function `r`. -/
def DagUser.Edge (dagUser : DagUser R A) (p r : R) : Prop :=
  ∃ u ∈ dagUser.dagUserNodeQueue, u.route = r ∧ some p ∈ u.preds

/-- What is related member by member stays so, when the one list is cut down. -/
theorem forall₂_sublist {α β : Type} {r : α → β → Prop} {as as' : List α} {bs : List β}
    (h : List.Forall₂ r as bs) (hsub : as'.Sublist as) :
    ∃ bs', bs'.Sublist bs ∧ List.Forall₂ r as' bs' := by
  induction hsub generalizing bs with
  | slnil =>
      cases h
      exact ⟨[], List.Sublist.slnil, List.Forall₂.nil⟩
  | cons a _ ih =>
      cases h with
      | cons _ h =>
          obtain ⟨bs', hsub', hrel⟩ := ih h
          exact ⟨bs', hsub'.cons _, hrel⟩
  | cons_cons a _ ih =>
      cases h with
      | @cons _ b _ _ hab h =>
          obtain ⟨bs', hsub', hrel⟩ := ih h
          exact ⟨b :: bs', hsub'.cons_cons b, List.Forall₂.cons hab hrel⟩

section Decode
variable [DecidableEq R] {users : List (DagUser R A)} {tss : List (List (DagThread R A))}
  {dagUser : DagUser R A} {sem : R → Nat} {ts : List (DagThread R A)} {t : DagThread R A}

/-- A thread is the thread of one node of one DAG. -/
theorem node_of_thread (h : List.Forall₂ DagWired users.reverse tss) (ht : t ∈ tss.flatten) :
    ∃ d ∈ users, ∃ ts ∈ tss, ∃ sem, t ∈ ts ∧
      List.Forall₂ (NodeWired d sem) d.dagUserNodeQueue.reverse ts := by
  obtain ⟨ts, hts, ht⟩ := List.mem_flatten.mp ht
  obtain ⟨d, hd, sem, hwired⟩ := exists_of_forall₂ h.flip hts
  exact ⟨d, List.mem_reverse.mp hd, ts, hts, sem, ht, hwired⟩

/-- What the thread of a node waits for is the semaphore of a predecessor. -/
theorem NodeWired.pred (hok : DagUserOk dagUser)
    (hts : List.Forall₂ (NodeWired dagUser sem) dagUser.dagUserNodeQueue.reverse ts)
    {u : DagUserNode R A} (hu : u ∈ dagUser.dagUserNodeQueue) (ht : NodeWired dagUser sem u t)
    {s : Option Nat} (hs : s ∈ t.pendIpc) :
    ∃ v ∈ dagUser.dagUserNodeQueue, some v.route ∈ u.preds ∧
      ∃ p ∈ ts, NodeWired dagUser sem v p ∧ s = some p.postIpc := by
  have hsources : sources dagUser.edges u.route = u.preds := Lib.sources_edges _ hok.routes hu
  rw [ht.pend.mem_iff, hsources] at hs
  obtain ⟨pr, hpr, rfl⟩ := List.mem_map.mp hs
  obtain ⟨v, hv, rfl, -⟩ := hok.inDag u hu pr hpr
  obtain ⟨p, hp, hwired⟩ := exists_of_forall₂ hts (List.mem_reverse.mpr hv)
  exact ⟨v, hv, hpr, p, hp, hwired, congrArg some hwired.post.symm⟩

theorem threadsWired_of (hok : ∀ d ∈ users, DagUserOk d)
    (htime : ∀ d ∈ users, 0 < (timeToTicks (BitVec.ofNat 32 d.periodTime)).toNat)
    (h : List.Forall₂ DagWired users.reverse tss)
    (hnodup : (tss.flatten.map DagThread.postIpc).Nodup) : ThreadsWired tss.flatten := by
  constructor
  case nodup => exact hnodup
  case count =>
    intro t ht
    obtain ⟨d, -, ts, -, sem, htts, hwired⟩ := node_of_thread h ht
    obtain ⟨u, -, hnode⟩ := exists_of_forall₂ hwired.flip htts
    rw [hnode.count, hnode.pend.length_eq, List.length_map]
  case waits =>
    intro t ht s hs
    obtain ⟨d, hd, ts, hts, sem, htts, hwired⟩ := node_of_thread h ht
    obtain ⟨u, hu, hnode⟩ := exists_of_forall₂ hwired.flip htts
    obtain ⟨v, -, -, p, hp, hpre, rfl⟩ :=
      NodeWired.pred (hok d hd) hwired (List.mem_reverse.mp hu) hnode hs
    refine ⟨p, List.mem_flatten_of_mem hts hp, rfl, ?_⟩
    -- both have the period of their DAG
    rw [hpre.policy.2.2, hnode.policy.2.2]
  case period =>
    intro t ht
    obtain ⟨d, hd, ts, -, sem, htts, hwired⟩ := node_of_thread h ht
    obtain ⟨u, -, hnode⟩ := exists_of_forall₂ hwired.flip htts
    rw [hnode.policy.2.2]
    exact htime d hd

/-- The threads of a DAG that is forward are created in a forward order. -/
theorem ThreadsWired.forward (hwired : ThreadsWired tss.flatten) (hok : ∀ d ∈ users, DagUserOk d)
    (h : List.Forall₂ DagWired users.reverse tss) (hforward : ∀ d ∈ users, d.Forward) :
    hwired.tasks.Forward := by
  intro t hcpu p hp
  have ht := List.get_mem tss.flatten t
  have hpmem := List.get_mem tss.flatten p
  have hinj : ∀ {a b : DagThread R A}, a ∈ tss.flatten → b ∈ tss.flatten →
      a.postIpc = b.postIpc → a = b := fun ha hb => List.inj_on_of_nodup_map hwired.nodup ha hb
  obtain ⟨d, hd, ts, hts, sem, htts, hall⟩ := node_of_thread h ht
  obtain ⟨u, hu, hnode⟩ := exists_of_forall₂ hall.flip htts
  rw [List.mem_reverse] at hu
  obtain ⟨v, hv, hedge, q, hq, hpre, hpost⟩ :=
    NodeWired.pred (hok d hd) hall hu hnode (hwired.mem_before.mp hp)
  have hproc : u.processor ≠ 0 := by
    rw [← hnode.policy.2.1]
    exact hcpu
  -- the two threads, in the order in which `acoral_dag_to_thread` comes to them
  have hrev := (hforward d hd u hu hproc v hv hedge).reverse
  obtain ⟨pair, hsub, hpair⟩ := forall₂_sublist hall hrev
  cases hpair with
  | @cons _ q' _ _ hq' hrest =>
  cases hrest with
  | @cons _ t' _ _ ht' hnil =>
  cases hnil
  have hmem : ∀ x ∈ [q', t'], x ∈ tss.flatten :=
    fun x hx => List.mem_flatten_of_mem hts (hsub.subset hx)
  have hq'eq : q' = tss.flatten.get p := hinj (hmem q' (by simp)) hpmem (by
    rw [hq'.post, Option.some.inj hpost, hpre.post])
  have ht'eq : t' = tss.flatten.get t := hinj (hmem t' (by simp)) ht (by
    rw [ht'.post, hnode.post])
  rw [hq'eq, ht'eq] at hsub
  exact sublist_finRange (hwired.nodup.of_map _) (hsub.trans (List.sublist_flatten_of_mem hts))

/-- Edges without a cycle give threads that do not wait in a cycle. -/
theorem ThreadsWired.acyclic (hwired : ThreadsWired tss.flatten) (hok : ∀ d ∈ users, DagUserOk d)
    (h : List.Forall₂ DagWired users.reverse tss)
    (hacyclic : ∀ d ∈ users, WellFounded d.Edge) :
    WellFounded fun p t => p ∈ hwired.tasks.before t := by
  refine ⟨fun t => ?_⟩
  obtain ⟨d, hd, ts, hts, sem, htts, hall⟩ := node_of_thread h (List.get_mem tss.flatten t)
  -- a thread waits for threads of its own DAG only, so that the edges of that DAG carry it
  generalize hroute : (tss.flatten.get t).dagRoute = route
  induction (hacyclic d hd).apply route generalizing t with
  | intro route _ ih =>
      refine ⟨t, fun p hp => ?_⟩
      obtain ⟨u, hu, hnode⟩ := exists_of_forall₂ hall.flip htts
      rw [List.mem_reverse] at hu
      obtain ⟨v, hv, hedge, q, hq, hpre, hpost⟩ :=
        NodeWired.pred (hok d hd) hall hu hnode (hwired.mem_before.mp hp)
      have hqp : tss.flatten.get p = q :=
        List.inj_on_of_nodup_map hwired.nodup (List.get_mem tss.flatten p)
          (List.mem_flatten_of_mem hts hq) (Option.some.inj hpost)
      refine ih v.route ⟨u, hu, ?_, hedge⟩ p ?_ ?_
      · rw [← hroute, hnode.route]
      · rw [hqp]
        exact hq
      · rw [hqp, hpre.route]

/-- `dag_decode` makes wired threads. -/
theorem dagDecode_threads (fresh : Nat) (hok : ∀ d ∈ users, DagUserOk d)
    (htime : ∀ d ∈ users, 0 < (timeToTicks (BitVec.ofNat 32 d.periodTime)).toNat) :
    ∃ tss, dagDecode fresh users = some tss ∧ List.Forall₂ DagWired users.reverse tss ∧
      ThreadsWired tss.flatten := by
  obtain ⟨dags, high, hcreate, hdags, haddr⟩ :=
    acoralDagCreate_of users hok fresh List.Forall₂.nil (Addressed.nil fresh)
  rw [List.append_nil] at hdags
  obtain ⟨tss, hrun, hwired, hposts⟩ := mapM_forall₂ hdags fun d hd _ _ hdag =>
    dagThreads_of (hok d (List.mem_reverse.mp hd)) hdag
  refine ⟨tss, ?_, hwired, threadsWired_of hok htime hwired ?_⟩
  · show (acoralDagCreate fresh [] users).bind _ = _
    rw [hcreate]
    exact hrun
  · have hsems : tss.flatten.map DagThread.postIpc =
        (dags.flatMap Dag.dagNodeQueue).map DagNode.sem := by
      rw [List.map_flatten, List.map_flatMap, List.flatMap_def]
      exact congrArg _ (map_eq_of_forall₂ hposts fun _ _ h => h.symm).symm
    rw [hsems]
    exact haddr.nodup_sem

/-! ### Results -/

/-- The functions of the user run in the order of the user's edges: whatever the order of
the steps, as long as no period overruns, the threads keep to the rounds of their graph, and
while one runs its function, those before it are through with theirs and at rest. -/
theorem dag_order (fresh : Nat) (hok : ∀ d ∈ users, DagUserOk d)
    (htime : ∀ d ∈ users, 0 < (timeToTicks (BitVec.ofNat 32 d.periodTime)).toNat)
    (hforward : ∀ d ∈ users, d.Forward) :
    ∃ tss, dagDecode fresh users = some tss ∧ List.Forall₂ DagWired users.reverse tss ∧
      ∀ (fuel : Nat) (ipc : IpcState Nat (Fin tss.flatten.length)) (ops : List (DagOp _))
        (r : DagRun _), DagFresh tss.flatten.get ipc →
          DagReaches fuel tss.flatten.get ipc (List.finRange _) ops r →
            InRounds (WaitsFor tss.flatten) r.history ∧
              ∀ p t, WaitsFor tss.flatten p t → r.pc t = .route →
                r.pc p ≠ .route ∧ finished r.history p = begun r.history t := by
  obtain ⟨tss, hdecode, hall, hwired⟩ := dagDecode_threads fresh hok htime
  refine ⟨tss, hdecode, hall, fun fuel ipc ops r hfresh hreach => ?_⟩
  have hfresh : DagFresh hwired.tasks.task ipc := hfresh
  have hreach : DagReaches fuel hwired.tasks.task ipc hwired.tasks.order ops r := hreach
  have hinv := hreach.inv (hwired.forward hok hall hforward) hfresh
  obtain ⟨hrounds, halone⟩ := hinv.inRounds
  rw [hwired.before_eq] at hrounds
  exact ⟨hrounds, fun p t hp => halone p t (hwired.mem_before.mpr hp)⟩

end Decode

/-- Two nodes, the second one behind the first. -/
def pairDag : DagUser Nat Unit :=
  dagAddUserNode (dagAddUserNode ⟨1, []⟩ ⟨[none], 0, 1, (), 1, 13⟩) ⟨[some 1], 1, 2, (), 0, 14⟩

/-- The threads of `pairDag`. -/
def pairThreads : List (List (DagThread Nat Unit)) :=
  [[⟨[], 0, 11, 1, none, 13, 1, 1⟩, ⟨[some 11], 1, 9, 2, none, 14, 0, 1⟩]]

def pairTask : Fin 2 → DagThread Nat Unit := pairThreads.flatten.get

/-- Their semaphores and states before they are created. -/
def pairIpc : IpcState Nat (Fin 2) where
  sched := acoralSchedRdyqueueInit fun t => ⟨0, ACORAL_THREAD_STATE_SUSPEND, t.val + 13, 1 - t.val⟩
  ipc _ := ⟨.ACORAL_IPC_SEM, 1, 0, none⟩
  links := ⟨id, id⟩
  pendingValue t := t.val + 13
  threadIpc _ := none

theorem pairDag_decode : dagDecode 8 [pairDag] = some pairThreads := by decide

theorem pairDag_ok : ∀ d ∈ [pairDag], DagUserOk d :=
  List.forall_mem_singleton.mpr ⟨by decide, by decide, by decide, by decide⟩

theorem pairDag_time :
    ∀ d ∈ [pairDag], 0 < (timeToTicks (BitVec.ofNat 32 d.periodTime)).toNat := by decide

theorem pairDag_forward : ∀ d ∈ [pairDag], d.Forward :=
  List.forall_mem_singleton.mpr (by unfold DagUser.Forward; decide)

theorem pairIpc_fresh : DagFresh pairTask pairIpc where
  asleep _ := show hasFlag ACORAL_THREAD_STATE_SUSPEND ACORAL_THREAD_STATE_READY = false ∧
    hasFlag ACORAL_THREAD_STATE_SUSPEND ACORAL_THREAD_STATE_SUSPEND = true by decide
  sem _ := ⟨rfl, rfl⟩
  waits _ := Lib.Links.isRing_nil rfl rfl

/-- Two periods. In the first one the second node blocks before the first one has posted. -/
def pairOps : List (DagOp (Fin 2)) :=
  [.create, .create, .run 1, .run 0, .run 0, .run 0, .run 1, .run 0, .run 1, .run 1, .run 1, .run 1,
    .tick, .deal, .deal, .deal, .run 1, .run 0, .run 0]

theorem dag_order_pair :
    ∃ r, DagReaches 3 pairTask pairIpc (List.finRange 2) pairOps r ∧
      InRounds (WaitsFor pairThreads.flatten) r.history := by
  obtain ⟨tss, hdecode, -, hrun⟩ := dag_order 8 pairDag_ok pairDag_time pairDag_forward
  obtain rfl : pairThreads = tss := Option.some.inj (pairDag_decode.symm.trans hdecode)
  have hsome : (run (guarded dagInTime (dagStep 3 pairTask))
      (DagRun.start pairIpc (List.finRange 2)) pairOps).isSome = true := by decide +kernel
  obtain ⟨r, hr⟩ := Option.isSome_iff_exists.mp hsome
  exact ⟨r, hr, (hrun 3 pairIpc pairOps r pairIpc_fresh hr).1⟩

section Decode
variable [DecidableEq R] {users : List (DagUser R A)}

/-- Every period comes to its end, when the edges have no cycle: from every state that a run
reaches between two ticks, the threads can take only so many steps, and as long as one is not
through, one of them can go on. -/
theorem dag_finishes (fresh : Nat) (hok : ∀ d ∈ users, DagUserOk d)
    (htime : ∀ d ∈ users, 0 < (timeToTicks (BitVec.ofNat 32 d.periodTime)).toNat)
    (hforward : ∀ d ∈ users, d.Forward) (hacyclic : ∀ d ∈ users, WellFounded d.Edge) :
    ∃ tss, dagDecode fresh users = some tss ∧ List.Forall₂ DagWired users.reverse tss ∧
      ∀ (fuel : Nat) (ipc : IpcState Nat (Fin tss.flatten.length)) (ops : List (DagOp _))
        (r r' : DagRun _) (threads : List (Fin tss.flatten.length)),
        tss.flatten.length < fuel → DagFresh tss.flatten.get ipc →
          DagReaches fuel tss.flatten.get ipc (List.finRange _) ops r →
            r.deal = none → r.todo = [] →
              run (dagStep fuel tss.flatten.get) r (threads.map .run) = some r' →
                threads.length ≤ (tss.flatten.map fun t => 2 * t.pendIpcCnt + 4).sum ∧
                  ((∀ t, r'.pc t = .done) ∨
                    ∃ t, (dagStep fuel tss.flatten.get r' (.run t)).isSome = true) := by
  obtain ⟨tss, hdecode, hall, hwired⟩ := dagDecode_threads fresh hok htime
  refine ⟨tss, hdecode, hall,
    fun fuel ipc ops r r' threads hfuel hfresh hreach hdeal htodo hrun => ?_⟩
  have hfresh : DagFresh hwired.tasks.task ipc := hfresh
  have hreach : DagReaches fuel hwired.tasks.task ipc hwired.tasks.order ops r := hreach
  have hrun : run (dagStep fuel hwired.tasks.task) r (threads.map .run) = some r' := hrun
  have hfwd := hwired.forward hok hall hforward
  obtain ⟨hinv, hbound, hdeal', htodo', hsteps⟩ :=
    (hreach.inv hfwd hfresh).run hreach.bound hfwd hrun
  have hfuel : hwired.tasks.order.length < fuel := by
    show (List.finRange _).length < fuel
    rwa [List.length_finRange]
  refine ⟨?_, ?_⟩
  · have htotal : dagSteps hwired.tasks = (tss.flatten.map fun t => 2 * t.pendIpcCnt + 4).sum := by
      -- in the order of their creation the threads are the list itself
      have hmap := congrArg (fun l => (l.map fun t => 2 * DagThread.pendIpcCnt t + 4).sum)
        (List.map_get_finRange tss.flatten)
      rw [← hmap, List.map_map]
      rfl
    have hle := dagLeft_le hwired.tasks r
    omega
  · by_cases hdone : ∀ t, r'.pc t = .done
    · exact Or.inl hdone
    · exact Or.inr (hinv.next hbound (hwired.acyclic hok hall hacyclic) hfuel
        (hdeal'.trans hdeal) (htodo'.trans htodo) hdone)

end Decode

theorem pairDag_acyclic : ∀ d ∈ [pairDag], WellFounded d.Edge := by
  refine List.forall_mem_singleton.mpr (Subrelation.wf (fun {p r} h => ?_) Nat.lt_wfRel.wf)
  obtain ⟨u, hu, rfl, hp⟩ := h
  have hless : ∀ u ∈ pairDag.dagUserNodeQueue, ∀ s ∈ u.preds, ∀ p ∈ s, p < u.route := by decide
  exact hless u hu (some p) hp p rfl

/-- One period of the two threads. They take as many steps as the bound says. -/
def pairSteps : List (Fin 2) := [1, 0, 0, 0, 1, 0, 1, 1, 1, 1]

theorem dag_finishes_pair :
    ∃ r r', DagReaches 3 pairTask pairIpc (List.finRange 2) [.create, .create] r ∧
      run (dagStep 3 pairTask) r (pairSteps.map .run) = some r' ∧
        ((∀ t, r'.pc t = .done) ∨ ∃ t, (dagStep 3 pairTask r' (.run t)).isSome = true) := by
  obtain ⟨tss, hdecode, -, hfinish⟩ :=
    dag_finishes 8 pairDag_ok pairDag_time pairDag_forward pairDag_acyclic
  obtain rfl : pairThreads = tss := Option.some.inj (pairDag_decode.symm.trans hdecode)
  have hsome : ((run (guarded dagInTime (dagStep 3 pairTask))
      (DagRun.start pairIpc (List.finRange 2)) [.create, .create]).bind fun r =>
        if r.deal = none ∧ r.todo = [] then run (dagStep 3 pairTask) r (pairSteps.map .run)
        else none).isSome = true := by decide +kernel
  obtain ⟨r', hr'⟩ := Option.isSome_iff_exists.mp hsome
  obtain ⟨r, hr, hsteps⟩ := Option.bind_eq_some_iff.mp hr'
  obtain ⟨⟨hdeal, htodo⟩, hsteps⟩ := Option.ite_none_right_eq_some.mp hsteps
  exact ⟨r, r', hr, hsteps, (hfinish 3 pairIpc _ r r' pairSteps (by decide) pairIpc_fresh hr hdeal
    htodo hsteps).2⟩

end ACoral
