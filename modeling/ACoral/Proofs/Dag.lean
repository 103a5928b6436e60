import ACoral.Kernel.Dag

/-!
# `ACoral.Proofs.Dag`: every node waits for the nodes before it

`dag_decode` keeps a user DAG as two flat queues and finds the ends of each
edge by function. In a user DAG whose functions are distinct, the threads are
the nodes: each waits for the semaphores of its predecessors, as often as the
user listed them, and posts a semaphore that no other thread posts.
`dagDecode_wired` states this for any number of user DAGs.

The queues are built from the front, so that everything comes out in the
reverse of the user's order. The edges are matched up to a permutation.
-/

set_option autoImplicit false

namespace ACoral

open Lib (edgesInto sources)

variable {R A : Type}

/-! ### What the user hands in -/

/-- The predecessors that `dag_edge_init` reads. -/
def DagUserNode.preds (userNode : DagUserNode R A) : List (Option R) :=
  userNode.prevRoute.take userNode.prevCount

/-- The edges of the user's graph, source first. -/
def DagUser.edges (dagUser : DagUser R A) : List (Option R × R) :=
  Lib.edges DagUserNode.route DagUserNode.preds dagUser.dagUserNodeQueue

/-- A user DAG: every node has a function of its own, the predecessors are
other nodes, and there are at most 255 of them. -/
structure DagUserOk (dagUser : DagUser R A) : Prop where
  routes : (dagUser.dagUserNodeQueue.map DagUserNode.route).Nodup
  stored : ∀ u ∈ dagUser.dagUserNodeQueue, u.prevCount ≤ u.prevRoute.length
  few : ∀ u ∈ dagUser.dagUserNodeQueue, u.prevCount ≤ 255
  inDag : ∀ u ∈ dagUser.dagUserNodeQueue, ∀ p ∈ u.preds,
    ∃ v ∈ dagUser.dagUserNodeQueue, p = some v.route ∧ v.route ≠ u.route

/-! ### System nodes -/

/-- What `dag_node_init` copies. -/
structure NodeOf (userNode : DagUserNode R A) (node : DagNode R A) : Prop where
  route : node.route = userNode.route
  inDegree : node.inDegree = userNode.prevCount % 2 ^ 16
  processor : node.processor = userNode.processor
  prio : node.prio = userNode.prio

theorem dagNodeCreate_of (fresh : Nat) {users : List (DagUserNode R A)} :
    ∀ {done : List (DagUserNode R A)} {queue : List (DagNode R A)},
      List.Forall₂ NodeOf done queue →
        List.Forall₂ NodeOf (users.reverse ++ done) (dagNodeCreate fresh queue users) := by
  induction users generalizing fresh with
  | nil =>
      intro done queue h
      exact h
  | cons u users ih =>
      intro done queue h
      have hu : NodeOf u (dagNodeInit fresh u) := ⟨rfl, rfl, rfl, rfl⟩
      rw [List.reverse_cons, List.append_assoc]
      exact ih (fresh + 2) (List.Forall₂.cons hu h)

/-- The nodes and their semaphores lie between two addresses, the last one
made in front. -/
structure Addressed (low high : Nat) (nodes : List (DagNode R A)) : Prop where
  sem : ∀ n ∈ nodes, n.sem = n.addr + 1
  low : ∀ n ∈ nodes, low ≤ n.addr
  high : ∀ n ∈ nodes, n.addr + 2 ≤ high
  sorted : nodes.Pairwise fun n n' => n'.addr < n.addr

namespace Addressed

variable {low mid high : Nat} {nodes nodes' : List (DagNode R A)}

theorem nil (high : Nat) : Addressed low high ([] : List (DagNode R A)) :=
  ⟨fun _ h => (List.not_mem_nil h).elim, fun _ h => (List.not_mem_nil h).elim,
    fun _ h => (List.not_mem_nil h).elim, List.Pairwise.nil⟩

theorem append (hle : low ≤ mid) (hle' : mid ≤ high) (h : Addressed mid high nodes)
    (h' : Addressed low mid nodes') :
    Addressed low high (nodes ++ nodes') := by
  constructor
  case sem =>
    intro n hn
    rcases List.mem_append.mp hn with hn | hn
    · exact h.sem n hn
    · exact h'.sem n hn
  case low =>
    intro n hn
    rcases List.mem_append.mp hn with hn | hn
    · exact Nat.le_trans hle (h.low n hn)
    · exact h'.low n hn
  case high =>
    intro n hn
    rcases List.mem_append.mp hn with hn | hn
    · exact h.high n hn
    · exact Nat.le_trans (h'.high n hn) hle'
  case sorted =>
    rw [List.pairwise_append]
    refine ⟨h.sorted, h'.sorted, fun n hn n' hn' => ?_⟩
    have hlow := h.low n hn
    have hhigh := h'.high n' hn'
    omega

theorem singleton (u : DagUserNode R A) (fresh : Nat) :
    Addressed fresh (fresh + 2) [dagNodeInit fresh u] := by
  constructor
  case sorted => exact List.pairwise_singleton _ _
  all_goals
    intro n hn
    rw [List.mem_singleton.mp hn]
    simp [dagNodeInit]

theorem nodup_addr (h : Addressed low high nodes) : (nodes.map DagNode.addr).Nodup :=
  List.pairwise_map.mpr (h.sorted.imp fun hlt => Nat.ne_of_gt hlt)

theorem nodup_sem (h : Addressed low high nodes) : (nodes.map DagNode.sem).Nodup := by
  have hsem : nodes.map DagNode.sem = (nodes.map DagNode.addr).map (· + 1) := by
    rw [List.map_map]
    exact List.map_congr_left h.sem
  rw [hsem]
  exact h.nodup_addr.map fun a b hab => Nat.succ.inj hab

end Addressed

theorem dagNodeCreate_addressed {low : Nat} (users : List (DagUserNode R A)) :
    ∀ {fresh : Nat} {queue : List (DagNode R A)}, low ≤ fresh → Addressed low fresh queue →
      Addressed low (fresh + 2 * users.length) (dagNodeCreate fresh queue users) := by
  induction users with
  | nil =>
      intro fresh queue _ h
      exact h
  | cons u users ih =>
      intro fresh queue hle h
      have hnew : Addressed low (fresh + 2) ([dagNodeInit fresh u] ++ queue) :=
        (Addressed.singleton u fresh).append hle (Nat.le_add_right _ _) h
      have hrest := ih (by omega) hnew
      rwa [show fresh + 2 + 2 * users.length = fresh + 2 * (u :: users).length by
        rw [List.length_cons]; omega] at hrest

/-- The system nodes of one DAG. -/
structure NodesOk (users : List (DagUserNode R A)) (nodes : List (DagNode R A)) : Prop where
  copied : List.Forall₂ NodeOf users.reverse nodes
  addr : (nodes.map DagNode.addr).Nodup
  routes : (nodes.map DagNode.route).Nodup

theorem map_eq_of_forall₂ {α β γ : Type} {r : α → β → Prop} {f : α → γ} {g : β → γ}
    {as : List α} {bs : List β} (h : List.Forall₂ r as bs) (hr : ∀ a b, r a b → f a = g b) :
    as.map f = bs.map g := by
  induction h with
  | nil => rfl
  | cons hab _ ih => rw [List.map_cons, List.map_cons, hr _ _ hab, ih]

theorem dagNodeCreate_ok {users : List (DagUserNode R A)}
    (hnodup : (users.map DagUserNode.route).Nodup) (fresh : Nat) :
    NodesOk users (dagNodeCreate fresh [] users) := by
  have hcopied : List.Forall₂ NodeOf (users.reverse ++ []) (dagNodeCreate fresh [] users) :=
    dagNodeCreate_of fresh List.Forall₂.nil
  rw [List.append_nil] at hcopied
  constructor
  case copied => exact hcopied
  case addr =>
    exact (dagNodeCreate_addressed users (Nat.le_refl fresh) (Addressed.nil fresh)).nodup_addr
  case routes =>
    rw [← map_eq_of_forall₂ hcopied fun _ _ hof => hof.route.symm, List.map_reverse]
    exact List.nodup_reverse.mpr hnodup

theorem exists_of_forall₂ {α β : Type} {r : α → β → Prop} {as : List α} {bs : List β}
    (h : List.Forall₂ r as bs) {a : α} (ha : a ∈ as) : ∃ b ∈ bs, r a b := by
  induction h with
  | nil => cases ha
  | @cons a' b' as bs hr _ ih =>
      rcases List.mem_cons.mp ha with rfl | ha
      · exact ⟨b', List.mem_cons_self, hr⟩
      · obtain ⟨b, hb, hab⟩ := ih ha
        exact ⟨b, List.mem_cons_of_mem _ hb, hab⟩

theorem NodesOk.exists_node {users : List (DagUserNode R A)} {nodes : List (DagNode R A)}
    (h : NodesOk users nodes) {u : DagUserNode R A} (hu : u ∈ users) :
    ∃ n ∈ nodes, NodeOf u n :=
  exists_of_forall₂ h.copied (List.mem_reverse.mpr hu)

/-! ### The ends of an edge -/

section Search
variable [DecidableEq R] {nodes : List (DagNode R A)} {node : DagNode R A}

theorem findNextNode_eq (hnodup : (nodes.map DagNode.route).Nodup) (hn : node ∈ nodes)
    (last : Option (DagNode R A)) : findNextNode node.route last nodes = some node := by
  induction nodes generalizing last with
  | nil => cases hn
  | cons m nodes ih =>
      rw [List.map_cons, List.nodup_cons] at hnodup
      rcases List.mem_cons.mp hn with rfl | hn
      · exact if_pos rfl
      · have hne : m.route ≠ node.route := fun he => hnodup.1 (he ▸ List.mem_map_of_mem hn)
        exact (if_neg hne).trans (ih hnodup.2 hn _)

theorem findPrevNode_eq (hnodup : (nodes.map DagNode.route).Nodup) (hn : node ∈ nodes)
    {route : R} (hne : node.route ≠ route) :
    findPrevNode route node.route nodes = .node node := by
  induction nodes with
  | nil => cases hn
  | cons m nodes ih =>
      rw [List.map_cons, List.nodup_cons] at hnodup
      rcases List.mem_cons.mp hn with rfl | hn
      · exact (if_neg hne).trans (if_pos rfl)
      · have hm : m.route ≠ node.route := fun he => hnodup.1 (he ▸ List.mem_map_of_mem hn)
        have hrest := ih hnodup.2 hn
        show (if m.route = route then _ else if m.route = node.route then _ else _) = _
        rw [if_neg hm, ite_self, hrest]

/-- The semaphore of the node with a function. -/
def nodeSem (nodes : List (DagNode R A)) (route : R) : Nat :=
  ((nodes.find? fun n => n.route = route).map DagNode.sem).getD 0

theorem nodeSem_eq (hnodup : (nodes.map DagNode.route).Nodup) (hn : node ∈ nodes) :
    nodeSem nodes node.route = node.sem := by
  have hfind : (nodes.find? fun n => n.route = node.route) = some node := by
    induction nodes with
    | nil => cases hn
    | cons m nodes ih =>
        rw [List.map_cons, List.nodup_cons] at hnodup
        rcases List.mem_cons.mp hn with rfl | hn
        · exact List.find?_cons_of_pos (decide_eq_true rfl)
        · have hm : m.route ≠ node.route := fun he => hnodup.1 (he ▸ List.mem_map_of_mem hn)
          rw [List.find?_cons_of_neg (by simpa using hm), ih hnodup.2 hn]
  show (Option.map _ (nodes.find? _)).getD 0 = _
  rw [hfind]
  rfl

end Search

/-! ### System edges -/

/-- An edge as its two ends: the semaphore in front, the function behind. -/
def DagEdge.ends (edge : DagEdge R A) : Option Nat × R :=
  (edge.prevNode.sem?, edge.nextNode.route)

section Edges
variable [DecidableEq R]

/-- An edge of the user with the semaphore of its source. -/
def withSem (nodes : List (DagNode R A)) (edge : Option R × R) : Option Nat × R :=
  (edge.1.map (nodeSem nodes), edge.2)

/-- System edges that stand for edges of the user. -/
structure EdgesOf (nodes : List (DagNode R A)) (wanted : List (Option R × R))
    (es : List (DagEdge R A)) : Prop where
  next : ∀ e ∈ es, e.nextNode ∈ nodes
  ends : es.map DagEdge.ends = wanted.map (withSem nodes)

variable {users : List (DagUserNode R A)} {nodes : List (DagNode R A)}

theorem EdgesOf.nil : EdgesOf nodes [] ([] : List (DagEdge R A)) :=
  ⟨fun _ h => (List.not_mem_nil h).elim, rfl⟩

theorem EdgesOf.append {wanted wanted' : List (Option R × R)} {es es' : List (DagEdge R A)}
    (h : EdgesOf nodes wanted es) (h' : EdgesOf nodes wanted' es') :
    EdgesOf nodes (wanted ++ wanted') (es ++ es') := by
  constructor
  case next =>
    intro e he
    rcases List.mem_append.mp he with he | he
    · exact h.next e he
    · exact h'.next e he
  case ends => rw [List.map_append, List.map_append, h.ends, h'.ends]

/-- The loop of `dag_edge_init` adds an edge for each predecessor it reads. -/
theorem foldlM_dagEdgeAdd (u : DagUserNode R A) (next : DagNode R A) (queue : List (DagEdge R A))
    {n : Nat} (hn : n ≤ u.prevRoute.length) :
    (List.range n).foldlM (dagEdgeAdd nodes u next) queue =
      some (((u.prevRoute.take n).map fun p =>
        { prevNode := edgePrevNode nodes u.route p, nextNode := next }).reverse ++ queue) := by
  induction n with
  | zero => rfl
  | succ n ih =>
      have hget : u.prevRoute[n]? = some u.prevRoute[n] := List.getElem?_eq_getElem hn
      rw [List.range_succ, List.foldlM_append, ih (Nat.le_of_lt hn), List.take_add_one, hget]
      simp only [Option.bind_eq_bind, Option.bind_some, List.foldlM_cons, List.foldlM_nil]
      rw [dagEdgeAdd, hget, Option.toList_some, List.map_append, List.reverse_append]
      rfl

theorem dagEdgeInit_of {dagUser : DagUser R A} (hok : DagUserOk dagUser)
    (hnodes : NodesOk dagUser.dagUserNodeQueue nodes) {u : DagUserNode R A}
    (hu : u ∈ dagUser.dagUserNodeQueue) (queue : List (DagEdge R A)) :
    ∃ es, dagEdgeInit nodes queue u = some (es.reverse ++ queue) ∧
      EdgesOf nodes (edgesInto DagUserNode.route DagUserNode.preds u) es := by
  obtain ⟨next, hnext, hof⟩ := hnodes.exists_node hu
  have hdeg : next.inDegree = u.prevCount := by
    rw [hof.inDegree]
    exact Nat.mod_eq_of_lt (by have := hok.few u hu; omega)
  have hfind := findNextNode_eq hnodes.routes hnext none
  rw [hof.route] at hfind
  refine ⟨u.preds.map fun p =>
    { prevNode := edgePrevNode nodes u.route p, nextNode := next }, ?_, ?_, ?_⟩
  · unfold dagEdgeInit
    rw [hfind, Option.bind_some, hdeg, foldlM_dagEdgeAdd u next queue (hok.stored u hu)]
    rfl
  · intro e he
    obtain ⟨p, _, rfl⟩ := List.mem_map.mp he
    exact hnext
  · show (u.preds.map _).map _ = (u.preds.map _).map _
    rw [List.map_map, List.map_map]
    refine List.map_congr_left fun p hp => ?_
    obtain ⟨v, hv, rfl, hne⟩ := hok.inDag u hu p hp
    obtain ⟨prev, hprev, hpof⟩ := hnodes.exists_node hv
    have hprevNode : findPrevNode u.route v.route nodes = .node prev := by
      rw [← hpof.route]
      exact findPrevNode_eq hnodes.routes hprev (by rw [hpof.route]; exact hne)
    have hsem : nodeSem nodes v.route = prev.sem := by
      rw [← hpof.route]
      exact nodeSem_eq hnodes.routes hprev
    show ((findPrevNode u.route v.route nodes).sem?, next.route) =
      (some (nodeSem nodes v.route), u.route)
    rw [hprevNode, hsem, hof.route]
    rfl

theorem dagEdgeCreate_of {dagUser : DagUser R A} (hok : DagUserOk dagUser)
    (hnodes : NodesOk dagUser.dagUserNodeQueue nodes) :
    ∃ es, dagEdgeCreate nodes dagUser.dagUserNodeQueue = some es.reverse ∧
      EdgesOf nodes dagUser.edges es := by
  have hrun : ∀ us ⊆ dagUser.dagUserNodeQueue, ∀ queue : List (DagEdge R A),
      ∃ es, us.foldlM (dagEdgeInit nodes) queue = some (es.reverse ++ queue) ∧
        EdgesOf nodes (Lib.edges DagUserNode.route DagUserNode.preds us) es := by
    intro us
    induction us with
    | nil =>
        intro _ queue
        exact ⟨[], rfl, EdgesOf.nil⟩
    | cons u us ih =>
        intro hsub queue
        obtain ⟨hu, hsub⟩ := List.cons_subset.mp hsub
        obtain ⟨es, hinit, hes⟩ := dagEdgeInit_of hok hnodes hu queue
        obtain ⟨es', hrest, hes'⟩ := ih hsub (es.reverse ++ queue)
        refine ⟨es ++ es', ?_, hes.append hes'⟩
        rw [List.foldlM_cons, hinit]
        show List.foldlM _ _ _ = _
        rw [hrest, List.reverse_append, List.append_assoc]
  obtain ⟨es, hes, hof⟩ := hrun _ (List.Subset.refl _) []
  rw [List.append_nil] at hes
  exact ⟨es, hes, hof⟩

end Edges

/-! ### The loop over the edges -/

/-- The places of `pend_ipc` are filled from the front, one for each edge into
the node, until the in-degree is reached. -/
theorem dagPend_eq (node : DagNode R A) (hfew : node.inDegree ≤ 255) (es : List (DagEdge R A)) :
    ∀ (found : List Nat) {sems : List Nat},
      (es.filter fun e => e.nextNode.addr = node.addr).map (fun e => e.prevNode.sem?) =
          sems.map some →
        found.length + sems.length = node.inDegree →
          dagPend node es found.length (found.map some ++ List.replicate sems.length none) =
            some ((found ++ sems).map some) := by
  induction es with
  | nil =>
      intro found sems hsems hlen
      obtain rfl : sems = [] := List.map_eq_nil_iff.mp hsems.symm
      rw [List.append_nil]
      exact congrArg some (List.append_nil _)
  | cons e es ih =>
      intro found sems hsems hlen
      by_cases haddr : e.nextNode.addr = node.addr
      · rw [List.filter_cons_of_pos (by simpa using haddr), List.map_cons] at hsems
        cases sems with
        | nil => cases hsems
        | cons sem sems =>
            obtain ⟨hsem, hsems⟩ := List.cons.inj hsems
            rw [List.length_cons] at hlen
            have hroom : found.length <
                (found.map some ++ List.replicate (sem :: sems).length none).length := by
              simp
            have hcnt : (found.length + 1) % 2 ^ 8 = found.length + 1 :=
              Nat.mod_eq_of_lt (by omega)
            have hset : (found.map some ++ List.replicate (sem :: sems).length none).set
                found.length (some sem) =
                  (found ++ [sem]).map some ++ List.replicate sems.length none := by
              simp [List.replicate_succ]
            have hnext := ih (found ++ [sem]) hsems (by simp; omega)
            rw [List.length_append, List.length_singleton] at hnext
            rw [dagPend, if_pos haddr, hsem, Option.bind_some, if_pos hroom]
            simp only [hcnt, hset]
            split
            · -- the last place: no edge into the node is left
              obtain rfl : sems = [] := List.eq_nil_of_length_eq_zero (by omega)
              simp
            · rw [hnext, List.append_assoc]
              rfl
      · rw [List.filter_cons_of_neg (by simpa using haddr)] at hsems
        rw [dagPend, if_neg haddr]
        exact ih found hsems hlen

/-! ### Threads -/

/-- The thread of a node, when `sem` names the semaphore of each function: it
waits for every edge into the node, and posts the node's own semaphore. -/
structure NodeWired [DecidableEq R] (dagUser : DagUser R A) (sem : R → Nat)
    (u : DagUserNode R A) (thread : DagThread R A) : Prop where
  route : thread.dagRoute = u.route
  pend : thread.pendIpc.Perm ((sources dagUser.edges u.route).map (Option.map sem))
  count : thread.pendIpcCnt = (sources dagUser.edges u.route).length
  post : thread.postIpc = sem u.route
  policy : thread.prio = u.prio ∧ thread.cpu = u.processor ∧ thread.time = dagUser.periodTime

/-- One thread for each node of the user, the last node first. -/
def DagWired [DecidableEq R] (dagUser : DagUser R A) (threads : List (DagThread R A)) : Prop :=
  ∃ sem : R → Nat,
    List.Forall₂ (NodeWired dagUser sem) dagUser.dagUserNodeQueue.reverse threads

section Threads
variable [DecidableEq R] {dagUser : DagUser R A} {nodes : List (DagNode R A)}

theorem exists_map_some {α : Type} {l : List (Option α)} (h : ∀ x ∈ l, ∃ a, x = some a) :
    ∃ as : List α, l = as.map some := by
  induction l with
  | nil => exact ⟨[], rfl⟩
  | cons x l ih =>
      obtain ⟨a, rfl⟩ := h x List.mem_cons_self
      obtain ⟨as, rfl⟩ := ih fun y hy => h y (List.mem_cons_of_mem _ hy)
      exact ⟨a :: as, rfl⟩

/-- What the loop over the edges finds for a node, as a multiset. -/
theorem found_perm (hok : DagUserOk dagUser) (hnodes : NodesOk dagUser.dagUserNodeQueue nodes)
    {es : List (DagEdge R A)} (hes : EdgesOf nodes dagUser.edges es) {u : DagUserNode R A}
    (hu : u ∈ dagUser.dagUserNodeQueue) {node : DagNode R A} (hn : node ∈ nodes)
    (hof : NodeOf u node) :
    ((es.reverse.filter fun e => e.nextNode.addr = node.addr).map fun e => e.prevNode.sem?).Perm
      (u.preds.map (Option.map (nodeSem nodes))) := by
  have hsame : es.reverse.filter (fun e => e.nextNode.addr = node.addr) =
      es.reverse.filter fun e => e.nextNode.route = u.route := by
    refine List.filter_congr fun e he => decide_eq_decide.mpr ?_
    have hnext := hes.next e (List.mem_reverse.mp he)
    rw [← hof.route]
    constructor
    · exact fun ha => congrArg DagNode.route (List.inj_on_of_nodup_map hnodes.addr hnext hn ha)
    · exact fun hr => congrArg DagNode.addr (List.inj_on_of_nodup_map hnodes.routes hnext hn hr)
  have hends : (es.reverse.filter fun e => e.nextNode.route = u.route).map
      (fun e => e.prevNode.sem?) = sources (es.reverse.map DagEdge.ends) u.route := by
    show _ = ((es.reverse.map DagEdge.ends).filter _).map Prod.fst
    rw [List.filter_map, List.map_map]
    rfl
  have hperm : (es.reverse.map DagEdge.ends).Perm (dagUser.edges.map (withSem nodes)) := by
    rw [← hes.ends]
    exact (List.reverse_perm es).map _
  rw [hsame, hends]
  refine (Lib.sources_perm hperm u.route).trans ?_
  show (sources (dagUser.edges.map fun e => (e.1.map (nodeSem nodes), e.2)) u.route).Perm _
  rw [Lib.sources_map, DagUser.edges, Lib.sources_edges _ hok.routes hu]

theorem dagNodeThread_of (hok : DagUserOk dagUser)
    (hnodes : NodesOk dagUser.dagUserNodeQueue nodes) {es : List (DagEdge R A)}
    (hes : EdgesOf nodes dagUser.edges es) {u : DagUserNode R A}
    (hu : u ∈ dagUser.dagUserNodeQueue) {node : DagNode R A} (hn : node ∈ nodes)
    (hof : NodeOf u node) :
    ∃ thread, dagNodeThread ⟨dagUser.periodTime, nodes, es.reverse⟩ node = some thread ∧
      NodeWired dagUser (nodeSem nodes) u thread ∧ thread.postIpc = node.sem := by
  have hfew : node.inDegree ≤ 255 := by
    rw [hof.inDegree]
    exact Nat.le_trans (Nat.mod_le _ _) (hok.few u hu)
  have hdeg : node.inDegree = u.preds.length := by
    rw [hof.inDegree, DagUserNode.preds, List.length_take, Nat.min_eq_left (hok.stored u hu)]
    exact Nat.mod_eq_of_lt (by have := hok.few u hu; omega)
  have hfound := found_perm hok hnodes hes hu hn hof
  obtain ⟨sems, hsems⟩ := exists_map_some (l := (es.reverse.filter fun e =>
      e.nextNode.addr = node.addr).map fun e => e.prevNode.sem?) fun x hx => by
    obtain ⟨p, hp, rfl⟩ := List.mem_map.mp (hfound.mem_iff.mp hx)
    obtain ⟨v, _, rfl, _⟩ := hok.inDag u hu p hp
    exact ⟨_, rfl⟩
  have hlen : sems.length = node.inDegree := by
    rw [hdeg, ← List.length_map (f := some), ← hsems, hfound.length_eq, List.length_map]
  have hpend : (if 0 < node.inDegree then
      dagPend node es.reverse 0 (List.replicate node.inDegree none)
        else some (List.replicate node.inDegree none)) = some (sems.map some) := by
    split
    · have hloop : dagPend node es.reverse 0 (List.replicate sems.length none) =
          some (sems.map some) :=
        dagPend_eq node hfew es.reverse [] hsems ((Nat.zero_add _).trans hlen)
      rwa [hlen] at hloop
    · obtain rfl : sems = [] := List.eq_nil_of_length_eq_zero (by omega)
      rw [show node.inDegree = 0 by omega]
      rfl
  have hsources : sources dagUser.edges u.route = u.preds :=
    Lib.sources_edges _ hok.routes hu
  refine ⟨{ pendIpc := sems.map some, pendIpcCnt := node.inDegree, postIpc := node.sem,
            dagRoute := node.route, dagArgs := node.args, prio := node.prio,
            cpu := node.processor, time := dagUser.periodTime },
    congrArg (Option.map _) hpend, ?_, rfl⟩
  constructor
  case route => exact hof.route
  case pend =>
    rw [hsources]
    rw [hsems] at hfound
    exact hfound
  case count => rw [hsources]; exact hdeg
  case post => rw [← hof.route]; exact (nodeSem_eq hnodes.routes hn).symm
  case policy => exact ⟨hof.prio, hof.processor, rfl⟩

/-- A run of `mapM` that succeeds on every element. -/
theorem mapM_forall₂ {α β γ : Type} {f : β → Option γ} {r : α → β → Prop} {q : α → γ → Prop}
    {p : β → γ → Prop} {as : List α} {bs : List β} (h : List.Forall₂ r as bs)
    (hf : ∀ a ∈ as, ∀ b ∈ bs, r a b → ∃ c, f b = some c ∧ q a c ∧ p b c) :
    ∃ cs, bs.mapM f = some cs ∧ List.Forall₂ q as cs ∧ List.Forall₂ p bs cs := by
  induction h with
  | nil => exact ⟨[], rfl, List.Forall₂.nil, List.Forall₂.nil⟩
  | @cons a b as bs hr _ ih =>
      obtain ⟨c, hc, hq, hp⟩ := hf a List.mem_cons_self b List.mem_cons_self hr
      obtain ⟨cs, hcs, hqs, hps⟩ := ih fun a' ha' b' hb' =>
        hf a' (List.mem_cons_of_mem _ ha') b' (List.mem_cons_of_mem _ hb')
      refine ⟨c :: cs, ?_, List.Forall₂.cons hq hqs, List.Forall₂.cons hp hps⟩
      rw [List.mapM_cons, hc, hcs]
      rfl

/-- A system DAG made of a user DAG. -/
structure DagOf (dagUser : DagUser R A) (dag : Dag R A) : Prop where
  nodes : NodesOk dagUser.dagUserNodeQueue dag.dagNodeQueue
  edges : ∃ es, EdgesOf dag.dagNodeQueue dagUser.edges es ∧ dag.dagEdgeQueue = es.reverse
  period : dag.periodTime = dagUser.periodTime

theorem dagThreads_of (hok : DagUserOk dagUser) {dag : Dag R A} (hdag : DagOf dagUser dag) :
    ∃ threads, dagThreads dag = some threads ∧ DagWired dagUser threads ∧
      threads.map DagThread.postIpc = dag.dagNodeQueue.map DagNode.sem := by
  obtain ⟨time, nodes, queue⟩ := dag
  obtain ⟨hnodes, ⟨es, hes, rfl⟩, rfl⟩ := hdag
  have hthread : ∀ u ∈ dagUser.dagUserNodeQueue.reverse, ∀ n ∈ nodes, NodeOf u n →
      ∃ t, dagNodeThread ⟨dagUser.periodTime, nodes, es.reverse⟩ n = some t ∧
        NodeWired dagUser (nodeSem nodes) u t ∧ n.sem = t.postIpc := by
    intro u hu n hn hof
    obtain ⟨t, ht, hwired, hpost⟩ :=
      dagNodeThread_of hok hnodes hes (List.mem_reverse.mp hu) hn hof
    exact ⟨t, ht, hwired, hpost.symm⟩
  obtain ⟨threads, hrun, hall, hposts⟩ := mapM_forall₂ hnodes.copied hthread
  exact ⟨threads, hrun, ⟨nodeSem nodes, hall⟩, (map_eq_of_forall₂ hposts fun _ _ h => h).symm⟩

/-- `acoral_dag_create`, in front of the DAGs that it already made. -/
theorem acoralDagCreate_of (users : List (DagUser R A)) (hok : ∀ d ∈ users, DagUserOk d) :
    ∀ (fresh : Nat) {done : List (DagUser R A)} {queue : List (Dag R A)},
      List.Forall₂ DagOf done queue → Addressed 0 fresh (queue.flatMap Dag.dagNodeQueue) →
        ∃ dags high, acoralDagCreate fresh queue users = some dags ∧
          List.Forall₂ DagOf (users.reverse ++ done) dags ∧
            Addressed 0 high (dags.flatMap Dag.dagNodeQueue) := by
  induction users with
  | nil =>
      intro fresh done queue hdone haddr
      exact ⟨queue, fresh, rfl, hdone, haddr⟩
  | cons d users ih =>
      intro fresh done queue hdone haddr
      have hd := hok d List.mem_cons_self
      have hnodes := dagNodeCreate_ok hd.routes fresh
      obtain ⟨es, hedges, hes⟩ := dagEdgeCreate_of hd hnodes
      have hnew := (dagNodeCreate_addressed d.dagUserNodeQueue (Nat.le_refl fresh)
        (Addressed.nil fresh)).append (Nat.zero_le _) (Nat.le_add_right _ _) haddr
      have hdag : DagOf d ⟨d.periodTime, dagNodeCreate fresh [] d.dagUserNodeQueue, es.reverse⟩ :=
        ⟨hnodes, ⟨es, hes, rfl⟩, rfl⟩
      have hinit : acoralDagInit fresh d =
          some ⟨d.periodTime, dagNodeCreate fresh [] d.dagUserNodeQueue, es.reverse⟩ := by
        show Option.map _ (dagEdgeCreate _ _) = _
        rw [hedges]
        rfl
      obtain ⟨dags, high, hrun, hall, hhigh⟩ :=
        ih (fun d' hd' => hok d' (List.mem_cons_of_mem _ hd')) _ (List.Forall₂.cons hdag hdone) hnew
      refine ⟨dags, high, ?_, ?_, hhigh⟩
      · rw [acoralDagCreate, hinit]
        exact hrun
      · rw [List.reverse_cons, List.append_assoc]
        exact hall

/-- `dag_decode` gives every node of every user DAG one thread, wired as the
user's edges say. No two threads post the same semaphore. -/
theorem dagDecode_wired (fresh : Nat) {users : List (DagUser R A)}
    (hok : ∀ d ∈ users, DagUserOk d) :
    ∃ threads, dagDecode fresh users = some threads ∧
      List.Forall₂ DagWired users.reverse threads ∧
        (threads.flatten.map DagThread.postIpc).Nodup := by
  obtain ⟨dags, high, hcreate, hdags, haddr⟩ :=
    acoralDagCreate_of users hok fresh List.Forall₂.nil (Addressed.nil fresh)
  rw [List.append_nil] at hdags
  obtain ⟨threads, hrun, hwired, hposts⟩ := mapM_forall₂ hdags fun d hd _ _ hdag =>
    dagThreads_of (hok d (List.mem_reverse.mp hd)) hdag
  have hflat : threads.flatten.map DagThread.postIpc =
      (dags.flatMap Dag.dagNodeQueue).map DagNode.sem := by
    rw [List.map_flatten, List.map_flatMap, List.flatMap_def]
    exact congrArg _ (map_eq_of_forall₂ hposts fun _ _ h => h.symm).symm
  refine ⟨threads, ?_, hwired, ?_⟩
  · show (acoralDagCreate fresh [] users).bind _ = _
    rw [hcreate]
    exact hrun
  · rw [hflat]
    exact haddr.nodup_sem

end Threads

/-- The nodes 1, 2, 4 and 5 of the demonstration DAG, in its order. -/
def demoDag : DagUser Nat Unit :=
  let node (route : Nat) (prevRoute : List (Option Nat)) (prevCount processor prio : Nat) :
      DagUserNode Nat Unit :=
    ⟨prevRoute, prevCount, route, (), processor, prio⟩
  dagAddUserNode (dagAddUserNode (dagAddUserNode (dagAddUserNode ⟨40000, []⟩
    (node 1 [none] 0 1 13)) (node 2 [some 1] 1 1 14)) (node 4 [some 2] 1 1 16))
      (node 5 [some 2, some 4] 2 0 17)

theorem dagDecode_wired_demo : ∃ threads, dagDecode 8 [demoDag] = some threads ∧
    List.Forall₂ DagWired [demoDag] threads ∧
      (threads.flatten.map DagThread.postIpc).Nodup :=
  dagDecode_wired 8 fun d hd => by
    obtain rfl := List.mem_singleton.mp hd
    exact ⟨by decide, by decide, by decide, by decide⟩

end ACoral
