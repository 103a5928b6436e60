import ACoral.Lib.EdgeList
import Mathlib.Algebra.Group.Nat.Defs

/-!
# `ACoral.Kernel.Dag`: the user's DAGs and their threads

`dag_decode` turns the DAGs of the user into periodic threads. It first copies
every user node to a system node with a semaphore of its own, then finds both
ends of every edge by their functions, and last makes one thread for each
node, which waits for the semaphores of the nodes before it and posts its own.

A function is a value of `R`, its arguments one of `A`. Every allocation
succeeds, and gives a new address. A system node is not written any more once
it is in its queue, so that a pointer to it is its address together with what
it holds. An access outside of an array, or through a pointer that is `NULL`
or was never set, is `none`.
-/

set_option autoImplicit false

namespace ACoral

/-- `acoral_dag_user_node`. A predecessor that is `NULL` is `none`. -/
structure DagUserNode (R A : Type) where
  prevRoute : List (Option R)
  prevCount : Nat
  route : R
  args : A
  processor : Nat
  prio : Nat
deriving DecidableEq, Repr

/-- `acoral_dag_user`, with the nodes in the order of the queue. -/
structure DagUser (R A : Type) where
  periodTime : Nat
  dagUserNodeQueue : List (DagUserNode R A)
deriving DecidableEq, Repr

/-- `acoral_dag_node`. The field `args` is `none` as long as it is not written. -/
structure DagNode (R A : Type) where
  addr : Nat
  route : R
  args : Option A
  inDegree : Nat
  sem : Nat
  processor : Nat
  prio : Nat
deriving DecidableEq, Repr

/-- What `edge->prev_node` holds. -/
inductive PrevNode (R A : Type) where
  /-- what `acoral_malloc` left there -/
  | unset
  | null
  | node (prev : DagNode R A)
deriving DecidableEq, Repr

/-- `acoral_dag_edge` -/
structure DagEdge (R A : Type) where
  prevNode : PrevNode R A
  nextNode : DagNode R A
deriving DecidableEq, Repr

/-- `acoral_dag` -/
structure Dag (R A : Type) where
  periodTime : Nat
  dagNodeQueue : List (DagNode R A)
  dagEdgeQueue : List (DagEdge R A)
deriving DecidableEq, Repr

/-- A thread as `acoral_create_thread` gets it: the fields of
`dag_task_data_t`, then those of `acoral_period_policy_data_t`. A place of
`pend_ipc` is `none` as long as it is not written. -/
structure DagThread (R A : Type) where
  pendIpc : List (Option Nat)
  pendIpcCnt : Nat
  postIpc : Nat
  dagRoute : R
  dagArgs : Option A
  prio : Nat
  cpu : Nat
  time : Nat
deriving DecidableEq, Repr

variable {R A : Type}

/-! ### The queues of the user -/

/-- `dag_add_user_node` -/
def dagAddUserNode (dagUser : DagUser R A) (userNode : DagUserNode R A) : DagUser R A :=
  { dagUser with dagUserNodeQueue := userNode :: dagUser.dagUserNodeQueue }

/-! ### System nodes -/

/-- `dag_node_init`. The first address that was not given out is `fresh`: the
node gets it, and its semaphore the one behind it. `args` is not copied. -/
def dagNodeInit (fresh : Nat) (userNode : DagUserNode R A) : DagNode R A :=
  { addr := fresh
    route := userNode.route
    args := none
    -- `prev_count` is an `unsigned int`, `in_degree` an `acoral_u16`
    inDegree := userNode.prevCount % 2 ^ 16
    sem := fresh + 1
    processor := userNode.processor
    prio := userNode.prio }

/-- The loop of `dag_node_create`, with the queue of system nodes. -/
def dagNodeCreate : Nat → List (DagNode R A) → List (DagUserNode R A) → List (DagNode R A)
  | _,     queue, []                => queue
  | fresh, queue, userNode :: users =>
      dagNodeCreate (fresh + 2) (dagNodeInit fresh userNode :: queue) users

/-! ### System edges -/

variable [DecidableEq R]

/-- The first loop of `dag_edge_init`: `next_node` is the first node with the
function `route`, or the last one of the queue. -/
def findNextNode (route : R) : Option (DagNode R A) → List (DagNode R A) → Option (DagNode R A)
  | nextNode, []            => nextNode
  | _,        node :: nodes =>
      if node.route = route then some node else findNextNode route (some node) nodes

/-- The second loop of `dag_edge_init`. -/
def findPrevNode (route prevRoute : R) : List (DagNode R A) → PrevNode R A
  | []            => .unset
  | node :: nodes =>
      if node.route = route then findPrevNode route prevRoute nodes
      else if node.route = prevRoute then .node node
      else findPrevNode route prevRoute nodes

/-- What `dag_edge_init` puts into `edge->prev_node`. -/
def edgePrevNode (nodes : List (DagNode R A)) (route : R) : Option R → PrevNode R A
  | none           => .null
  | some prevRoute => findPrevNode route prevRoute nodes

/-- The body of the loop of `dag_edge_init`. -/
def dagEdgeAdd (nodes : List (DagNode R A)) (userNode : DagUserNode R A) (nextNode : DagNode R A)
    (queue : List (DagEdge R A)) (i : Nat) : Option (List (DagEdge R A)) :=
  userNode.prevRoute[i]?.map fun prevRoute =>
    { prevNode := edgePrevNode nodes userNode.route prevRoute, nextNode := nextNode } :: queue

/-- `dag_edge_init` -/
def dagEdgeInit (nodes : List (DagNode R A)) (queue : List (DagEdge R A))
    (userNode : DagUserNode R A) : Option (List (DagEdge R A)) :=
  (findNextNode userNode.route none nodes).bind fun nextNode =>
    (List.range nextNode.inDegree).foldlM (dagEdgeAdd nodes userNode nextNode) queue

/-- `dag_edge_create` -/
def dagEdgeCreate (nodes : List (DagNode R A)) (users : List (DagUserNode R A)) :
    Option (List (DagEdge R A)) :=
  users.foldlM (dagEdgeInit nodes) []

/-- `acoral_dag_init`, without the queue that it adds the new DAG to. -/
def acoralDagInit (fresh : Nat) (dagUser : DagUser R A) : Option (Dag R A) :=
  let nodes := dagNodeCreate fresh [] dagUser.dagUserNodeQueue
  (dagEdgeCreate nodes dagUser.dagUserNodeQueue).map fun edges =>
    { periodTime := dagUser.periodTime
      dagNodeQueue := nodes
      dagEdgeQueue := edges }

/-- The loop of `acoral_dag_create`, with `acoral_dag_queue`. -/
def acoralDagCreate : Nat → List (Dag R A) → List (DagUser R A) → Option (List (Dag R A))
  | _,     queue, []               => some queue
  | fresh, queue, dagUser :: users =>
      (acoralDagInit fresh dagUser).bind fun dag =>
        acoralDagCreate (fresh + 2 * dagUser.dagUserNodeQueue.length) (dag :: queue) users

/-! ### Threads -/

/-- `dag_edge->prev_node->sem` -/
def PrevNode.sem? : PrevNode R A → Option Nat
  | .node prev => some prev.sem
  | .unset     => none
  | .null      => none

omit [DecidableEq R] in
/-- The loop of `acoral_dag_to_thread` over the edges. `edge_cnt` is an
`acoral_u8`. -/
def dagPend (node : DagNode R A) :
    List (DagEdge R A) → Nat → List (Option Nat) → Option (List (Option Nat))
  | [],            _,       pendIpc => some pendIpc
  | edge :: edges, edgeCnt, pendIpc =>
      if edge.nextNode.addr = node.addr then
        edge.prevNode.sem?.bind fun sem =>
          if edgeCnt < pendIpc.length then
            let edgeCnt' := (edgeCnt + 1) % 2 ^ 8
            let pendIpc' := pendIpc.set edgeCnt (some sem)
            if node.inDegree ≤ edgeCnt' then some pendIpc' else dagPend node edges edgeCnt' pendIpc'
          else none
      else dagPend node edges edgeCnt pendIpc

/-- The thread of one node. -/
def dagNodeThread (dag : Dag R A) (node : DagNode R A) : Option (DagThread R A) :=
  let unwritten := List.replicate node.inDegree none
  (if 0 < node.inDegree then dagPend node dag.dagEdgeQueue 0 unwritten else some unwritten).map
    fun pendIpc =>
      { pendIpc := pendIpc
        pendIpcCnt := node.inDegree
        postIpc := node.sem
        dagRoute := node.route
        dagArgs := node.args
        prio := node.prio
        cpu := node.processor
        time := dag.periodTime }

/-- The threads of one DAG, in the order of their creation. -/
def dagThreads (dag : Dag R A) : Option (List (DagThread R A)) :=
  dag.dagNodeQueue.mapM (dagNodeThread dag)

/-- `acoral_dag_to_thread`, the threads of each DAG apart. -/
def acoralDagToThread (dags : List (Dag R A)) : Option (List (List (DagThread R A))) :=
  dags.mapM dagThreads

/-- `dag_decode`, with `acoral_dag_user_queue` as `dag_user_init` leaves it. -/
def dagDecode (fresh : Nat) (users : List (DagUser R A)) :
    Option (List (List (DagThread R A))) :=
  (acoralDagCreate fresh [] users).bind acoralDagToThread

end ACoral
