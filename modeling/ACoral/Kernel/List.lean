import ACoral.Lib.Ring

/-!
# `ACoral.Kernel.List`: the linked lists of `kernel/src/list.c`

The nodes of `acoral_list_t` are elements of a type `N` and their
pointers are the `Links` of the heap. Each operation first takes the
spin locks of the nodes it touches. The lock is not recursive: an
operation that takes one node's lock twice never returns, and is
`none` here.

A run of the operations links nodes that are linked to themselves and
unlinks nodes that are not (`listStep`).
-/

set_option autoImplicit false

namespace ACoral

open Lib (Links)

variable {N : Type} [DecidableEq N]

/-- `acoral_list_init` and the pointers of `acoral_vlist_init`. -/
def acoralListInit (L : Links N) (ptr : N) : Links N :=
  (L.setNext ptr ptr).setPrev ptr ptr

/-- `acoral_list_add`: link `new` after `head`. -/
def acoralListAdd (L : Links N) (new head : N) : Option (Links N) :=
  let tempNext := L.next head
  if new = head ∨ (head ≠ tempNext ∧ new = tempNext) then none
  else
    let L := L.setPrev new head
    let L := L.setNext new (L.next head)
    let L := L.setPrev (L.next head) new
    let L := L.setNext head new
    some L

/-- `acoral_list_add_tail`: link `new` before `head`. -/
def acoralListAddTail (L : Links N) (new head : N) : Option (Links N) :=
  let tempPrev := L.prev head
  if new = head ∨ (head ≠ tempPrev ∧ new = tempPrev) then none
  else
    let L := L.setPrev new (L.prev head)
    let L := L.setNext new head
    let L := L.setNext (L.prev head) new
    let L := L.setPrev head new
    some L

/-- `acoral_list_del`. -/
def acoralListDel (L : Links N) (entry : N) : Option (Links N) :=
  let tempPrev := L.prev entry
  let tempNext := L.next entry
  if entry = tempPrev ∨ (tempPrev ≠ tempNext ∧ entry = tempNext) then none
  else
    let L := L.setNext (L.prev entry) (L.next entry)
    let L := L.setPrev (L.next entry) (L.prev entry)
    let L := L.setNext entry entry
    let L := L.setPrev entry entry
    some L

/-! ### Runs -/

/-- A call of the three operations. -/
inductive ListOp (N : Type) where
  | acoralListAdd (new head : N)
  | acoralListAddTail (new head : N)
  | acoralListDel (entry : N)
  deriving DecidableEq, Repr

/-- One call. The node that is added is linked to itself, and the one that is deleted is
linked. -/
def listStep (L : Links N) : ListOp N → Option (Links N)
  | .acoralListAdd new head     =>
      if L.next new = new ∧ L.prev new = new then acoralListAdd L new head else none
  | .acoralListAddTail new head =>
      if L.next new = new ∧ L.prev new = new then acoralListAddTail L new head else none
  | .acoralListDel entry        =>
      if L.next entry ≠ entry then acoralListDel L entry else none

end ACoral
