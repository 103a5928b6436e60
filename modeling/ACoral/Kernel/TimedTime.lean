import ACoral.Kernel.Buddy
import ACoral.Kernel.Queue

/-!
# `ACoral.Kernel.TimedTime`: the busy times of timed threads

`acoral_timed_time` has a priority queue for each CPU. `timed.c` adds two
nodes to it for each section of a timed thread, one with the time at which
the section starts and one with the time at which it ends. The last two
loops of `acoral_admis_ctl_init` in `admis_ctl.c` are here: the first one
is to put intervals together that touch, and the second one turns each end
into the length of its interval and adds the lengths up.

The loops follow the `next` pointers and are given `fuel` steps, and a list
operation that never gets its lock is `none`. The load of the CPU, a
floating-point number that the second loop also computes, is left out.
-/

set_option autoImplicit false

namespace ACoral

open Lib (Links)

/-- The nodes of the queues `acoral_timed_time`, and `timed_time_sum`. -/
structure TimedTime (N : Type) where
  links : Links N
  /-- `value` of a node -/
  value : N → Int
  /-- `timed_time_sum` -/
  timedTimeSum : Nat → Nat

variable {N : Type} [DecidableEq N]

/-! ### `timed.c` -/

/-- `acoral_vlist_init`. -/
def acoralVlistInit (s : TimedTime N) (ptr : N) (value : Int) : TimedTime N :=
  { s with
    links := acoralListInit s.links ptr
    value := Function.update s.value ptr value }

/-- A new node with a value, put into the queue at `head`. -/
def timeListAdd (fuel : Nat) (head : N) (timeList : N) (value : Int) (s : TimedTime N) :
    Option (TimedTime N) :=
  let s := acoralVlistInit s timeList value
  (acoralPrioQueueAdd fuel s.links s.value head timeList).map fun L => { s with links := L }

/-- What `timed_decode_without_fs` adds for a section: the nodes `p` for its
start and its end. -/
def timedSectionAdd (fuel : Nat) (head : N) (p : N × N) (startTime exeTime : Int)
    (s : TimedTime N) : Option (TimedTime N) :=
  (timeListAdd fuel head p.1 (i32 startTime) s).bind fun s =>
    timeListAdd fuel head p.2 (i32 (startTime + exeTime)) s

/-! ### `admis_ctl.c` -/

/-- The loop that puts the intervals of one CPU together, from `tmp` on. -/
def mergeLoop (value : N → Int) (head : N) : (fuel : Nat) → Links N → N → Option (Links N)
  | 0,        _, _   => none
  | fuel + 1, L, tmp =>
      let tmp1 := L.next (L.next tmp)
      if L.next tmp ≠ head then
        if value tmp = value (L.next tmp) then
          (acoralPrioQueueDel L tmp).bind fun L =>
            -- tmp->next is read after tmp has been deleted
            (acoralPrioQueueDel L (L.next tmp)).bind fun L => mergeLoop value head fuel L tmp1
        else mergeLoop value head fuel L tmp1
      else some L

/-- The loop over the CPUs around it. -/
def mergeTimes (fuel : Nat) (head : Nat → N) (cpus : List Nat) (s : TimedTime N) :
    Option (TimedTime N) :=
  cpus.foldlM (fun s i =>
    (mergeLoop s.value (head i) fuel s.links (s.links.next (s.links.next (head i)))).map fun L =>
      { s with links := L }) s

/-- The loop that turns the ends of one CPU into lengths, from `tmp` on. -/
def lengthLoop (i : Nat) (head : N) : (fuel : Nat) → TimedTime N → N → Option (TimedTime N)
  | 0,        _, _   => none
  | fuel + 1, s, tmp =>
      if tmp ≠ s.links.next head then
        let length := i32 (s.value tmp - s.value (s.links.prev tmp))
        lengthLoop i head fuel
          { s with
            value := Function.update s.value tmp length
            timedTimeSum := Function.update s.timedTimeSum i (u32 (s.timedTimeSum i + length)) }
          (s.links.next (s.links.next tmp))
      else some s

/-- The loop over the CPUs around it. -/
def lengthTimes (fuel : Nat) (head : Nat → N) (cpus : List Nat) (s : TimedTime N) :
    Option (TimedTime N) :=
  cpus.foldlM (fun s i =>
    lengthLoop i (head i) fuel s (s.links.next (s.links.next (head i)))) s

/-- The last two loops of `acoral_admis_ctl_init`. -/
def admisCtlTimes (fuel : Nat) (head : Nat → N) (s : TimedTime N) : Option (TimedTime N) :=
  (mergeTimes fuel head (List.range CFG_MAX_CPU) s).bind
    (lengthTimes fuel head (List.range CFG_MAX_CPU))

end ACoral
