import ACoral.Kernel.List

/-!
# `ACoral.Kernel.Queue`: the queues of `kernel/src/queue.c`

A priority queue is a ring of list nodes kept in ascending order of
`value`. Its loop follows the `next` pointers and is given `fuel`
steps; `none` says that it does not come back to the head in that many.

A tick queue is a list of nodes with the ticks each of them waits after
the one before it. Nodes are added to a tick queue only while they are
in none, so the list of `(node, value)` pairs is the whole ring. The
values are `acoral_32` and never negative there, so no subtraction
overflows. `tickQueueAddNode` is the insertion on the nodes and on 32-bit
values.
-/

set_option autoImplicit false

namespace ACoral

open Lib (Links)

/-! ### Priority queues -/

section
variable {N : Type} [DecidableEq N]

/-- The loop of `acoral_prio_queue_add`, from `tmp` on: the place before
which `pnode` is linked. -/
def prioQueueFind (L : Links N) (value : N → Int) (head pnode : N) : (fuel : Nat) → N → Option N
  | 0,        _   => none
  | fuel + 1, tmp =>
      if tmp = head then some tmp
      else if value tmp > value pnode then some tmp
      else if tmp = L.next tmp then some tmp
      else prioQueueFind L value head pnode fuel (L.next tmp)

/-- `acoral_prio_queue_add`. -/
def acoralPrioQueueAdd (fuel : Nat) (L : Links N) (value : N → Int) (head pnode : N) :
    Option (Links N) :=
  (prioQueueFind L value head pnode fuel (L.next head)).bind fun tmp =>
    acoralListAdd L pnode (L.prev tmp)

/-- `acoral_prio_queue_del`. -/
def acoralPrioQueueDel (L : Links N) (pnode : N) : Option (Links N) := acoralListDel L pnode

/-- A call on a priority queue. The caller stores the value in the node before it adds
it. -/
inductive PrioQueueOp (N : Type) where
  | acoralPrioQueueAdd (pnode : N) (value : Int)
  | acoralPrioQueueDel (pnode : N)
  deriving DecidableEq, Repr

/-- The nodes of a run, and those that have been added and not deleted, in the order of
their insertion. -/
structure PrioQueueRun (N : Type) where
  links : Links N
  value : N → Int
  queued : List N

/-- One call. A node that is added is in no queue, and one that is deleted is in this
one. -/
def prioQueueStep (fuel : Nat) (head : N) (q : PrioQueueRun N) :
    PrioQueueOp N → Option (PrioQueueRun N)
  | .acoralPrioQueueAdd pnode value =>
      let values := Function.update q.value pnode value
      if pnode ∉ head :: q.queued then
        (acoralPrioQueueAdd fuel q.links values head pnode).map fun links =>
          { links := links, value := values, queued := q.queued ++ [pnode] }
      else none
  | .acoralPrioQueueDel pnode       =>
      if pnode ∈ q.queued then
        (acoralPrioQueueDel q.links pnode).map fun links =>
          { q with links := links, queued := q.queued.erase pnode }
      else none

end

/-! ### Tick queues -/

section
variable {T : Type}

/-- `acoral_tick_queue_add`: walk down the queue, taking each value off
the ticks left, and link the node before the first one that expires
later. That one waits the rest. -/
def acoralTickQueueAdd : List (T × Int) → T → Int → List (T × Int)
  | [],               tnode, tick => [(tnode, tick)]
  | (t, value) :: tl, tnode, tick =>
      if tick - value < 0 then (tnode, tick) :: (t, value - tick) :: tl
      else (t, value) :: acoralTickQueueAdd tl tnode (tick - value)

/-- `acoral_tick_queue_del`: unlink the node. No value changes. -/
def acoralTickQueueDel [DecidableEq T] (queue : List (T × Int)) (tnode : T) : List (T × Int) :=
  queue.eraseP fun node => node.1 = tnode

end

section
variable {N : Type} [DecidableEq N]

/-- The loop of `acoral_tick_queue_add`, from `tmp` on: the node before which
`tnode` is linked, and `tick_tmp`. -/
def tickQueueFind (L : Links N) (value : N → BitVec 32) (head : N) :
    (fuel : Nat) → (tmp : N) → (tick : BitVec 32) → Option (N × BitVec 32)
  | 0,        _,   _    => none
  | fuel + 1, tmp, tick =>
      if tmp = head then some (tmp, tick)
      else if (tick - value tmp).slt 0 then some (tmp, tick)
      else tickQueueFind L value head fuel (L.next tmp) (tick - value tmp)

/-- The values `acoral_tick_queue_add` writes: `tnode` gets the ticks left, and
`tmp` waits them less, unless it is the head. -/
def tickQueueValues (value : N → BitVec 32) (head tnode tmp : N) (tickTmp : BitVec 32) :
    N → BitVec 32 :=
  let value := Function.update value tnode tickTmp
  if tmp ≠ head then Function.update value tmp (value tmp - tickTmp) else value

/-- `acoral_tick_queue_add`, on the nodes. -/
def tickQueueAddNode (fuel : Nat) (L : Links N) (value : N → BitVec 32) (head tnode : N) :
    Option (Links N × (N → BitVec 32)) :=
  (tickQueueFind L value head fuel (L.next head) (value tnode)).bind fun (tmp, tickTmp) =>
    (acoralListAdd L tnode (L.prev tmp)).map fun L =>
      (L, tickQueueValues value head tnode tmp tickTmp)

end

end ACoral
