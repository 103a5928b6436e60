import ACoral.Kernel.IpcSystem
import ACoral.Proofs.Queue
import ACoral.Proofs.Thread

/-!
# `ACoral.Proofs.WaitQueue`: the wait queue of an object

`s.Waits i q` says that the threads linked in the wait queue of `i` are
`q`, in that order. The helpers of `ipc.c` act on it as on a list:

* `Waits.add`: a thread in none of its places enters behind the last one
  of its value;
* `Waits.del`: a member leaves;
* `Waits.high`: `acoral_ipc_high_thread` is the first member.

`s.Queues Q` says so of every object, with no thread in two queues
(`Queues.add`, `Queues.del`).

The rest of the module says what the helpers do to the READY and SUSPEND
flags (`suspendSelf_flags`, `rdyThread_flags`).
-/

set_option autoImplicit false

namespace ACoral

variable {I T : Type} [DecidableEq I] [DecidableEq T]

/-- The wait queue of `i` holds the threads `q`. -/
def IpcState.Waits (s : IpcState I T) (i : I) (q : List T) : Prop :=
  s.links.IsRing (.head i) (q.map .pending)

/-- The order in which a priority wait queue inserts. -/
def IpcState.enqueue (s : IpcState I T) (t : T) (q : List T) : List T :=
  q.orderedInsert (fun a b => s.pendingValue a < s.pendingValue b) t

omit [DecidableEq I] [DecidableEq T] in
theorem mem_enqueue {s : IpcState I T} {t u : T} {q : List T} :
    u ∈ s.enqueue t q ↔ u = t ∨ u ∈ q := List.mem_orderedInsert _

omit [DecidableEq I] [DecidableEq T] in
theorem notMem_ring {i : I} {t : T} {q : List T} (ht : t ∉ q) :
    (.pending t : IpcNode I T) ∉ .head i :: q.map .pending := by
  simp [ht]

omit [DecidableEq I] [DecidableEq T] in
/-- The queue's nodes are inserted as its threads are. -/
theorem map_enqueue (s : IpcState I T) (t : T) (q : List T) :
    (s.enqueue t q).map .pending =
      prioInsert s.nodeValue (.pending t : IpcNode I T) (q.map .pending) :=
  List.map_orderedInsert _ _ _ _ _ (fun _ _ => Iff.rfl) (fun _ _ => Iff.rfl)

omit [DecidableEq I] [DecidableEq T] in
/-- The queue does not hold a thread twice. -/
theorem IpcState.Waits.nodup {s : IpcState I T} {i : I} {q : List T} (h : s.Waits i q) :
    q.Nodup :=
  ((List.nodup_cons.mp (Lib.Links.IsRing.nodup h)).2).of_map _

/-- What `acoral_ipc_wait_queue_add` does when it returns. -/
theorem IpcState.Waits.add {fuel : Nat} {s s' : IpcState I T} {i : I} {t : T} {q : List T}
    (h : s.Waits i q) (ht : t ∉ q) (hadd : acoralIpcWaitQueueAdd fuel s i t = some s') :
    s'.Waits i (s.enqueue t q) ∧ s'.sched = s.sched ∧ s'.ipc = s.ipc := by
  obtain ⟨links, hlinks, rfl⟩ := Option.map_eq_some_iff.mp hadd
  have hring := acoralPrioQueueAdd_ring h (notMem_ring ht) hlinks
  rw [← map_enqueue] at hring
  exact ⟨hring, rfl, rfl⟩

/-- What `acoral_ipc_wait_queue_del` does when it returns. -/
theorem IpcState.Waits.del {s s' : IpcState I T} {i : I} {t : T} {l₁ l₂ : List T}
    (h : s.Waits i (l₁ ++ t :: l₂)) (hdel : acoralIpcWaitQueueDel s t = some s') :
    s'.Waits i (l₁ ++ l₂) ∧ s'.sched = s.sched ∧ s'.ipc = s.ipc := by
  obtain ⟨links, hlinks, rfl⟩ := Option.map_eq_some_iff.mp hdel
  refine ⟨?_, rfl, rfl⟩
  unfold IpcState.Waits at h ⊢
  rw [List.map_append, List.map_cons] at h
  rw [List.map_append]
  exact acoralPrioQueueDel_ring h hlinks

omit [DecidableEq T] in
/-- `acoral_ipc_high_thread` is the first member. -/
theorem IpcState.Waits.high {s : IpcState I T} {i : I} {q : List T} (h : s.Waits i q) :
    acoralIpcHighThread s i = some q.head? := by
  unfold acoralIpcHighThread
  rw [h.next_head]
  cases q with
  | nil => simp
  | cons t q => rfl

/-! ### Other queues -/

/-- `acoral_ipc_wait_queue_add` keeps the queue of every other object. -/
theorem IpcState.Waits.add_other {fuel : Nat} {s s' : IpcState I T} {i j : I} {t : T}
    {q p : List T} (h : s.Waits i q) (ht : t ∉ q) (hadd : acoralIpcWaitQueueAdd fuel s i t = some s')
    (hj : s.Waits j p) (hne : j ≠ i) (hapart : ∀ u ∈ p, u ∉ q) (htp : t ∉ p) : s'.Waits j p := by
  obtain ⟨links, hlinks, rfl⟩ := Option.map_eq_some_iff.mp hadd
  have hframe : ∀ y ∈ (.head j : IpcNode I T) :: p.map .pending,
      links.next y = s.links.next y ∧ links.prev y = s.links.prev y := by
    intro y hy
    refine acoralPrioQueueAdd_frame h (notMem_ring ht) hlinks ?_ ?_
    · rcases List.mem_cons.mp hy with rfl | hy
      · simp [hne]
      · obtain ⟨u, hu, rfl⟩ := List.mem_map.mp hy
        exact notMem_ring (hapart u hu)
    · rintro rfl
      simp [htp] at hy
  exact hj.congr (fun y hy => (hframe y hy).1) fun y hy => (hframe y hy).2

/-- `acoral_ipc_wait_queue_del` keeps the queue of every other object. -/
theorem IpcState.Waits.del_other {s s' : IpcState I T} {i j : I} {t : T} {q p : List T}
    (h : s.Waits i q) (ht : t ∈ q) (hdel : acoralIpcWaitQueueDel s t = some s')
    (hj : s.Waits j p) (hne : j ≠ i) (hapart : ∀ u ∈ p, u ∉ q) : s'.Waits j p := by
  obtain ⟨links, hlinks, rfl⟩ := Option.map_eq_some_iff.mp hdel
  have hframe : ∀ y ∈ (.head j : IpcNode I T) :: p.map .pending,
      links.next y = s.links.next y ∧ links.prev y = s.links.prev y := by
    intro y hy
    refine acoralPrioQueueDel_frame h (List.mem_map_of_mem ht) hlinks ?_
    rcases List.mem_cons.mp hy with rfl | hy
    · simp [hne]
    · obtain ⟨u, hu, rfl⟩ := List.mem_map.mp hy
      exact notMem_ring (hapart u hu)
  exact hj.congr (fun y hy => (hframe y hy).1) fun y hy => (hframe y hy).2

/-! ### All queues -/

/-- The wait queues hold the threads `Q`, and no thread is in two of them. -/
structure IpcState.Queues (s : IpcState I T) (Q : I → List T) : Prop where
  waits : ∀ i, s.Waits i (Q i)
  apart : ∀ i j t, t ∈ Q i → t ∈ Q j → i = j

namespace IpcState.Queues

variable {s s' : IpcState I T} {Q : I → List T} {i : I} {t : T}

omit [DecidableEq I] [DecidableEq T] in
/-- The queues are about the list nodes only. -/
theorem congr (h : s.Queues Q) (hlinks : s'.links = s.links) : s'.Queues Q := by
  refine ⟨fun i => ?_, h.apart⟩
  unfold IpcState.Waits
  rw [hlinks]
  exact h.waits i

/-- A thread of no queue enters one. -/
theorem add (h : s.Queues Q) {fuel : Nat} (hfree : ∀ j, t ∉ Q j)
    (hadd : acoralIpcWaitQueueAdd fuel s i t = some s') :
    s'.Queues (Function.update Q i (s.enqueue t (Q i))) := by
  have hmem : ∀ {u j}, u ∈ Function.update Q i (s.enqueue t (Q i)) j →
      u = t ∧ j = i ∨ u ∈ Q j := fun {u j} hu => by
    by_cases hj : j = i
    · rw [hj, Function.update_self, mem_enqueue] at hu
      rw [hj]
      exact hu.imp (fun he => ⟨he, rfl⟩) id
    · rw [Function.update_of_ne hj] at hu
      exact Or.inr hu
  constructor
  case waits =>
    intro j
    by_cases hj : j = i
    · rw [hj, Function.update_self]
      exact ((h.waits i).add (hfree i) hadd).1
    · rw [Function.update_of_ne hj]
      exact (h.waits i).add_other (hfree i) hadd (h.waits j) hj
        (fun u hu hu' => hj (h.apart j i u hu hu')) (hfree j)
  case apart =>
    intro j k u hj hk
    rcases hmem hj with ⟨rfl, rfl⟩ | hj <;> rcases hmem hk with ⟨h1, h2⟩ | hk
    · exact h2.symm
    · exact absurd hk (hfree k)
    · exact absurd (h1 ▸ hj) (hfree j)
    · exact h.apart j k u hj hk

/-- Whoever leaves a queue leaves a part of it. -/
theorem erase_sublist (Q : I → List T) (i j : I) (t : T) :
    (Function.update Q i ((Q i).erase t) j).Sublist (Q j) := by
  by_cases hj : j = i
  · rw [hj, Function.update_self]
    exact List.erase_sublist
  · rw [Function.update_of_ne hj]

/-- A thread leaves its queue. -/
theorem del (h : s.Queues Q) (hin : t ∈ Q i) (hdel : acoralIpcWaitQueueDel s t = some s') :
    s'.Queues (Function.update Q i ((Q i).erase t)) := by
  obtain ⟨l₁, l₂, hsplit⟩ := List.append_of_mem hin
  have hnodup := (h.waits i).nodup
  have herase : (Q i).erase t = l₁ ++ l₂ := by
    rw [hsplit] at hnodup ⊢
    have hnot : t ∉ l₁ := fun hm => (List.nodup_append.mp hnodup).2.2 t hm t (by simp) rfl
    rw [List.erase_append_right _ hnot, List.erase_cons_head]
  constructor
  case waits =>
    intro j
    by_cases hj : j = i
    · rw [hj, Function.update_self, herase]
      exact (hsplit ▸ h.waits i).del hdel |>.1
    · rw [Function.update_of_ne hj]
      exact (h.waits i).del_other hin hdel (h.waits j) hj fun u hu hu' =>
        hj (h.apart j i u hu hu')
  case apart =>
    intro j k u hj hk
    exact h.apart j k u ((erase_sublist Q i j t).subset hj) ((erase_sublist Q i k t).subset hk)

end IpcState.Queues

/-! ### Flags -/

omit [DecidableEq I] in
/-- `acoral_suspend_self` of a READY thread. -/
theorem suspendSelf_flags {s : IpcState I T} {t : T} (ht : s.isReady t = true) (u : T) :
    (s.suspendSelf t).isReady u = (if u = t then false else s.isReady u) ∧
    (s.suspendSelf t).isSuspended u = (if u = t then true else s.isSuspended u) :=
  acoralSuspendThread_thread s.sched t u ht

omit [DecidableEq I] in
/-- `acoral_rdy_thread`. -/
theorem rdyThread_flags (s : IpcState I T) (t u : T) :
    (s.rdyThread t).isReady u =
      (if u = t ∧ s.isSuspended t = true then true else s.isReady u) ∧
    (s.rdyThread t).isSuspended u = (if u = t then false else s.isSuspended u) :=
  acoralRdyThread_thread s.sched t u

end ACoral
