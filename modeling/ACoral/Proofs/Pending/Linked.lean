import ACoral.Lib.RingFamily
import ACoral.Proofs.Pending.Effect

/-!
# `ACoral.Proofs.Pending.Linked`: where the `pending` nodes are

`PendLinked s Q` says that the queues hold the threads `Q`, each thread in one
of them at most, that the node of a thread in no queue is linked to itself,
and that `thread->ipc` names the semaphore queue a thread is in, if it names
any.

Each operation on a node keeps this, for the queues it leaves behind:
`PendLinked.enter` and `PendLinked.leave` for the wait queues of `ipc.c`,
`PendLinked.waitAdd` and `PendLinked.waitDel` for those of the ceiling protocols,
and `PendLinked.release` for the release queue.
-/

set_option autoImplicit false

namespace ACoral

open Lib (Links)

/-! ### All queues, as rings -/

section Rings

variable {I T : Type} [DecidableEq I] [DecidableEq T] {s s' : IpcState I T} {Q : I → List T}
  {i : I} {t : T}

/-- The members of the ring at a head. -/
def queueMembers (Q : I → List T) : IpcNode I T → List (IpcNode I T)
  | .head i    => (Q i).map .pending
  | .pending _ => []

omit [DecidableEq I] [DecidableEq T] in
theorem mem_queueMembers {n : IpcNode I T} {t : T} :
    .pending t ∈ n :: queueMembers Q n ↔ n = .pending t ∨ ∃ i, n = .head i ∧ t ∈ Q i := by
  cases n with
  | head i => simp [queueMembers]
  | pending u => simp [queueMembers, eq_comm]

omit [DecidableEq I] [DecidableEq T] in
/-- The queues are rings that share no node. -/
theorem IpcState.Queues.family (h : s.Queues Q) :
    s.links.RingFamily (fun n => ∃ i, n = .head i) (queueMembers Q) := by
  constructor
  · rintro n ⟨i, rfl⟩
    exact h.waits i
  · rintro n ⟨i, rfl⟩ m ⟨j, rfl⟩ hne x hx hx'
    rcases List.mem_cons.mp hx with rfl | hx
    · simp only [queueMembers, List.mem_cons, List.mem_map] at hx'
      rcases hx' with he | ⟨u, -, he⟩
      · exact hne he
      · cases he
    · obtain ⟨u, hu, rfl⟩ := List.mem_map.mp hx
      rcases List.mem_cons.mp hx' with he | hx'
      · cases he
      · obtain ⟨v, hv, he⟩ := List.mem_map.mp hx'
        cases he
        exact hne (congrArg _ (h.apart i j u hu hv))

omit [DecidableEq I] [DecidableEq T] in
/-- The converse. -/
theorem IpcState.Queues.of_family
    (h : s.links.RingFamily (fun n => ∃ i, n = .head i) (queueMembers Q)) : s.Queues Q := by
  constructor
  case waits => exact fun i => h.ring (.head i) ⟨i, rfl⟩
  case apart =>
    intro i j u hi hj
    have hmem : ∀ {k}, u ∈ Q k → .pending u ∈ .head k :: queueMembers Q (.head k) := fun hk =>
      mem_queueMembers.mpr (Or.inr ⟨_, rfl, hk⟩)
    have he := h.eq_of_mem ⟨i, rfl⟩ ⟨j, rfl⟩ (hmem hi) (hmem hj)
    cases he
    rfl

theorem queueMembers_update (Q : I → List T) (i : I) (q : List T) :
    queueMembers (Function.update Q i q) =
      Function.update (queueMembers Q) (.head i) (q.map .pending) := by
  funext n
  cases n with
  | head j =>
      by_cases hj : j = i
      · subst hj
        simp [queueMembers]
      · have hne : (.head j : IpcNode I T) ≠ .head i := fun he => hj (by cases he; rfl)
        simp [queueMembers, Function.update_of_ne hj, Function.update_of_ne hne]
  | pending u =>
      rw [Function.update_of_ne (by simp)]
      rfl

omit [DecidableEq I] [DecidableEq T] in
/-- A thread of no queue has a node that heads no ring and is in none. -/
theorem pending_notMem (hfree : ∀ j, t ∉ Q j) :
    ∀ n, (∃ i, n = .head i) → (.pending t : IpcNode I T) ∉ n :: queueMembers Q n := by
  rintro n ⟨i, rfl⟩ hm
  rcases mem_queueMembers.mp hm with he | ⟨j, -, hj⟩
  · cases he
  · exact hfree j hj

omit [DecidableEq T] in
/-- Who is in the queues after a thread entered one. -/
theorem mem_update_insert {u : T} {j : I} {q : List T} (hq : ∀ v, v ∈ q ↔ v = t ∨ v ∈ Q i) :
    u ∈ Function.update Q i q j ↔ (u = t ∧ j = i) ∨ u ∈ Q j := by
  by_cases hj : j = i
  · subst hj
    rw [Function.update_self, hq]
    tauto
  · rw [Function.update_of_ne hj]
    tauto

/-- Who is in the queues after a thread left its queue. -/
theorem IpcState.Queues.mem_update_erase (h : s.Queues Q) (hin : t ∈ Q i) {u : T} {j : I} :
    u ∈ Function.update Q i ((Q i).erase t) j ↔ u ∈ Q j ∧ u ≠ t := by
  by_cases hj : j = i
  · subst hj
    rw [Function.update_self, (h.waits j).nodup.mem_erase_iff]
    tauto
  · rw [Function.update_of_ne hj]
    refine ⟨fun hu => ⟨hu, ?_⟩, And.left⟩
    rintro rfl
    exact hj (h.apart j i u hu hin)

end Rings

/-! ### The nodes -/

variable {R K T : Type} [DecidableEq R] [DecidableEq K] [DecidableEq T]

/-- The queues hold the threads `Q`. -/
structure PendLinked (s : IpcState (CeilingObj R K) T) (Q : CeilingObj R K → List T) : Prop where
  queues : s.Queues Q
  free : ∀ t, (∀ i, t ∉ Q i) → s.links.next (.pending t) = .pending t
  ipc : ∀ t i, s.threadIpc t = some i → ∃ r, i = .sem r ∧ t ∈ Q (.sem r)

namespace PendLinked

variable {s s' : IpcState (CeilingObj R K) T} {Q : CeilingObj R K → List T} {i : CeilingObj R K}
  {r : R} {k : K} {t : T} {fuel : Nat}

omit [DecidableEq R] [DecidableEq K] [DecidableEq T] in
/-- `acoral_list_empty` of a node tells whether the thread is in a queue. -/
theorem unlinked_iff (h : PendLinked s Q) (t : T) :
    s.links.next (.pending t) = .pending t ↔ ∀ i, t ∉ Q i := by
  refine ⟨fun hnext i hi => ?_, h.free t⟩
  exact Links.IsRing.next_ne (h.queues.waits i) (List.mem_map_of_mem hi) hnext

omit [DecidableEq R] [DecidableEq K] [DecidableEq T] in
/-- It is about the list nodes and `thread->ipc`. -/
theorem congr (h : PendLinked s Q) (hlinks : s'.links = s.links) (hipc : s'.threadIpc = s.threadIpc) :
    PendLinked s' Q where
  queues := h.queues.congr hlinks
  free t ht := by
    rw [hlinks]
    exact h.free t ht
  ipc t i hi := h.ipc t i (by rwa [hipc] at hi)

omit [DecidableEq R] [DecidableEq K] in
theorem same (h : PendLinked s Q) (hsame : SamePend s s') : PendLinked s' Q :=
  h.congr hsame.links hsame.threadIpc

omit [DecidableEq R] [DecidableEq K] in
/-- `cur->ipc = NULL`. -/
theorem forget (h : PendLinked s Q) (t : T) :
    PendLinked { s with threadIpc := Function.update s.threadIpc t none } Q where
  queues := h.queues.congr rfl
  free := h.free
  ipc u i hi := by
    dsimp only at hi
    by_cases hu : u = t
    · rw [hu, Function.update_self] at hi
      cases hi
    · rw [Function.update_of_ne hu] at hi
      exact h.ipc u i hi

/-- The nodes of the other threads stay as they are. -/
theorem free_of_add {links : Links (IpcNode (CeilingObj R K) T)} (h : PendLinked s Q)
    (hfree : ∀ j, t ∉ Q j)
    (hadd : acoralPrioQueueAdd fuel s.links s.nodeValue (.head i) (.pending t) = some links)
    {q : List T} (hq : ∀ v, v ∈ q ↔ v = t ∨ v ∈ Q i) {u : T}
    (hu : ∀ j, u ∉ Function.update Q i q j) : links.next (.pending u) = .pending u := by
  have hout : ∀ j, u ∉ Q j := fun j hj => hu j ((mem_update_insert hq).mpr (Or.inr hj))
  have hne : u ≠ t := fun he => hu i ((mem_update_insert hq).mpr (Or.inl ⟨he, rfl⟩))
  rw [(acoralPrioQueueAdd_frame (h.queues.waits i) (notMem_ring (hfree i)) hadd
    (notMem_ring (hout i)) (by simpa using hne)).1]
  exact h.free u hout

/-- `acoral_ipc_wait_queue_add` of a thread of no queue. -/
theorem enter (h : PendLinked s Q) (hfree : ∀ j, t ∉ Q j)
    (hadd : acoralIpcWaitQueueAdd fuel s (.sem r) t = some s') :
    PendLinked s' (Function.update Q (.sem r) (s.enqueue t (Q (.sem r)))) := by
  have hqueues := h.queues.add hfree hadd
  obtain ⟨links, hlinks, rfl⟩ := Option.map_eq_some_iff.mp hadd
  have hmem : ∀ v, v ∈ s.enqueue t (Q (.sem r)) ↔ v = t ∨ v ∈ Q (.sem r) := fun v => mem_enqueue
  refine ⟨hqueues, fun u hu => h.free_of_add hfree hlinks hmem hu, fun u j hj => ?_⟩
  dsimp only at hj
  by_cases hu : u = t
  · rw [hu, Function.update_self, Option.some.injEq] at hj
    exact ⟨r, hj.symm, (mem_update_insert hmem).mpr (Or.inl ⟨hu, rfl⟩)⟩
  · rw [Function.update_of_ne hu] at hj
    obtain ⟨q, rfl, hq⟩ := h.ipc u j hj
    exact ⟨q, rfl, (mem_update_insert hmem).mpr (Or.inr hq)⟩

/-- `acoral_prio_queue_add` of a thread of no queue to that of a system. -/
theorem waitAdd {a b : CeilingState R K T} (h : PendLinked a.ipc Q) (hfree : ∀ j, t ∉ Q j)
    (hadd : a.waitAdd fuel k t = some b) :
    PendLinked b.ipc (Function.update Q (.wait k) (a.ipc.enqueue t (Q (.wait k)))) := by
  have hqueues := (CeilingState.waitAdd_queues h.queues hfree hadd).1
  obtain ⟨links, hlinks, rfl⟩ := Option.map_eq_some_iff.mp hadd
  have hmem : ∀ v, v ∈ a.ipc.enqueue t (Q (.wait k)) ↔ v = t ∨ v ∈ Q (.wait k) := fun v =>
    mem_enqueue
  refine ⟨hqueues, fun u hu => h.free_of_add hfree hlinks hmem hu, fun u j hj => ?_⟩
  obtain ⟨q, rfl, hq⟩ := h.ipc u j hj
  exact ⟨q, rfl, (mem_update_insert hmem).mpr (Or.inr hq)⟩

/-- A node that left its ring is linked to itself, and the nodes in no queue
stay as they are. -/
theorem free_of_del {links : Links (IpcNode (CeilingObj R K) T)} (h : PendLinked s Q)
    (hin : t ∈ Q i) (hdel : acoralPrioQueueDel s.links (.pending t) = some links) {u : T}
    (hu : ∀ j, u ∉ Function.update Q i ((Q i).erase t) j) :
    links.next (.pending u) = .pending u := by
  by_cases hut : u = t
  · subst hut
    obtain ⟨l₁, l₂, hsplit⟩ := List.append_of_mem hin
    have hring := h.queues.waits i
    rw [hsplit] at hring
    unfold IpcState.Waits at hring
    rw [List.map_append, List.map_cons] at hring
    obtain rfl := Option.some.inj ((acoralListDel_mem hring).symm.trans hdel)
    exact (Links.unlink_self s.links (.pending u)).next_head
  · have hout : ∀ j, u ∉ Q j := fun j hj =>
      hu j ((h.queues.mem_update_erase hin).mpr ⟨hj, hut⟩)
    rw [(acoralPrioQueueDel_frame (h.queues.waits i) (List.mem_map_of_mem hin) hdel
      (notMem_ring (hout i))).1]
    exact h.free u hout

/-- `acoral_ipc_wait_queue_del` of a member. -/
theorem leave (h : PendLinked s Q) (hin : t ∈ Q i) (hdel : acoralIpcWaitQueueDel s t = some s') :
    PendLinked s' (Function.update Q i ((Q i).erase t)) := by
  have hqueues := h.queues.del hin hdel
  obtain ⟨links, hlinks, rfl⟩ := Option.map_eq_some_iff.mp hdel
  refine ⟨hqueues, fun u hu => h.free_of_del hin hlinks hu, fun u j hj => ?_⟩
  dsimp only at hj
  by_cases hu : u = t
  · rw [hu, Function.update_self] at hj
    cases hj
  · rw [Function.update_of_ne hu] at hj
    obtain ⟨q, rfl, hq⟩ := h.ipc u j hj
    exact ⟨q, rfl, (h.queues.mem_update_erase hin).mpr ⟨hq, hu⟩⟩

/-- The unlinking of a member returns. -/
theorem del_isSome (h : PendLinked s Q) (hin : t ∈ Q i) :
    (acoralIpcWaitQueueDel s t).isSome = true := by
  obtain ⟨l₁, l₂, hsplit⟩ := List.append_of_mem hin
  have hring := h.queues.waits i
  rw [hsplit] at hring
  unfold IpcState.Waits at hring
  rw [List.map_append, List.map_cons] at hring
  rw [acoralIpcWaitQueueDel, Option.isSome_map, acoralPrioQueueDel, acoralListDel_mem hring]
  rfl

/-- `acoral_prio_queue_del` of a member of the queue of a system. -/
theorem waitDel {a b : CeilingState R K T} (h : PendLinked a.ipc Q) (hin : t ∈ Q (.wait k))
    (hdel : a.waitDel t = some b) :
    PendLinked b.ipc (Function.update Q (.wait k) ((Q (.wait k)).erase t)) := by
  have hqueues := (CeilingState.waitDel_queues h.queues hin hdel).1
  obtain ⟨links, hlinks, rfl⟩ := Option.map_eq_some_iff.mp hdel
  refine ⟨hqueues, fun u hu => h.free_of_del hin hlinks hu, fun u j hj => ?_⟩
  obtain ⟨q, rfl, hq⟩ := h.ipc u j hj
  refine ⟨q, rfl, (h.queues.mem_update_erase hin).mpr ⟨hq, ?_⟩⟩
  -- the thread is in one queue only
  rintro rfl
  cases h.queues.apart _ _ u hin hq

/-- `acoral_fifo_queue_add` of a thread that is not in the queue. -/
theorem release_eq (h : PendLinked s Q) (ht : t ∉ Q i) :
    acoralListAddTail s.links (.pending t) (.head i) =
      some (s.links.link (s.links.prev (.head i)) (.pending t) (.head i)) := by
  refine acoralListAddTail_eq (by simp) fun he => ?_
  have hmem : s.links.prev (.head i) ∈ .head i :: (Q i).map .pending := by
    rw [Links.IsRing.prev_head (h.queues.waits i)]
    exact Links.getLastD_mem _ _
  rw [← he] at hmem
  simp [ht] at hmem

/-- `acoral_fifo_queue_add` of a thread of no queue. -/
theorem release {links : Links (IpcNode (CeilingObj R K) T)} (h : PendLinked s Q)
    (hfree : ∀ j, t ∉ Q j)
    (hadd : acoralListAddTail s.links (.pending t) (.head i) = some links) :
    PendLinked { s with links := links } (Function.update Q i (Q i ++ [t])) := by
  have hfamily := h.queues.family
  have hfresh := pending_notMem hfree
  rw [h.release_eq (hfree i)] at hadd
  obtain rfl := Option.some.inj hadd
  have hmem : ∀ v, v ∈ Q i ++ [t] ↔ v = t ∨ v ∈ Q i := fun v => by
    rw [List.mem_append, List.mem_singleton]
    exact or_comm
  refine ⟨.of_family ?_, fun u hu => ?_, fun u j hj => ?_⟩
  · have hins := hfamily.insertLast (x := .pending t) ⟨i, rfl⟩ hfresh
    rw [queueMembers_update, List.map_append]
    exact hins
  · have hout : ∀ j, u ∉ Q j := fun j hj => hu j ((mem_update_insert hmem).mpr (Or.inr hj))
    have hne : u ≠ t := fun he => hu i ((mem_update_insert hmem).mpr (Or.inl ⟨he, rfl⟩))
    refine Eq.trans ?_ (h.free u hout)
    exact hfamily.insertLast_next (x := .pending t) ⟨i, rfl⟩ (pending_notMem hout)
      (by simpa using hne)
  · obtain ⟨q, rfl, hq⟩ := h.ipc u j hj
    exact ⟨q, rfl, (mem_update_insert hmem).mpr (Or.inr hq)⟩

end PendLinked

end ACoral
