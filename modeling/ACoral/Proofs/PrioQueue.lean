import ACoral.Lib.GuardedRun
import ACoral.Proofs.Queue

/-!
# `ACoral.Proofs.PrioQueue`: runs of a priority queue

`Before` is the order of the nodes in a queue: by value, and by the time of insertion for
equal values. `StableQueue` says that the ring of the queue has the queued nodes in this
order. Every call keeps it (`StableQueue.add`, `StableQueue.del`), so it holds in every run
(`prioQueue_stable`), in which each call returns.
-/

set_option autoImplicit false

namespace ACoral

open Lib (Links run)
open Lib.Links (IsRing)

variable {N : Type} {head pnode a b : N} {fuel : Nat}

/-- `a` has the smaller value, or the same value and has been inserted earlier. -/
def Before (value : N → Int) (queued : List N) (a b : N) : Prop :=
  value a < value b ∨ value a = value b ∧ [a, b].Sublist queued

theorem Before.le {value : N → Int} {queued : List N} (h : Before value queued a b) :
    value a ≤ value b :=
  h.elim Int.le_of_lt fun h => Int.le_of_eq h.1

/-- The order looks at the values of the two nodes, and more insertions do not change it. -/
theorem Before.mono {value value' : N → Int} {queued queued' : List N}
    (h : Before value queued a b) (ha : value' a = value a) (hb : value' b = value b)
    (hsub : [a, b].Sublist queued → [a, b].Sublist queued') : Before value' queued' a b := by
  unfold Before
  rw [ha, hb]
  exact h.imp id fun h => ⟨h.1, hsub h.2⟩

/-- The queue at `head` has the queued nodes, in order. -/
structure StableQueue (head : N) (q : PrioQueueRun N) (l : List N) : Prop where
  ring : q.links.IsRing head l
  perm : l.Perm q.queued
  sorted : l.Pairwise (Before q.value q.queued)

namespace StableQueue

variable {q q' : PrioQueueRun N} {l : List N} {value : Int}

theorem start {links : Links N} (hempty : links.IsRing head []) (value : N → Int) :
    StableQueue head ⟨links, value, []⟩ [] :=
  ⟨hempty, List.Perm.refl [], List.Pairwise.nil⟩

theorem nodup (h : StableQueue head q l) : q.queued.Nodup :=
  h.perm.nodup_iff.mp (List.nodup_cons.mp h.ring.nodup).2

/-- A node that is not queued is not in the ring. -/
theorem notMem (h : StableQueue head q l) (hnode : pnode ∉ head :: q.queued) :
    pnode ∉ head :: l := by
  rw [List.mem_cons, h.perm.mem_iff, ← List.mem_cons]
  exact hnode

variable [DecidableEq N]

/-- The queued nodes keep their order when another one gets its value. -/
theorem sorted_update (h : StableQueue head q l) (value : Int) (hnode : pnode ∉ q.queued) :
    l.Pairwise (Before (Function.update q.value pnode value) (q.queued ++ [pnode])) := by
  refine h.sorted.imp_of_mem ?_
  intro a b ha hb hab
  have hne : ∀ c ∈ l, c ≠ pnode := by
    rintro c hc rfl
    exact hnode (h.perm.mem_iff.mp hc)
  refine hab.mono (Function.update_of_ne (hne a ha) _ _) (Function.update_of_ne (hne b hb) _ _) ?_
  intro hsub
  exact hsub.trans (List.sublist_append_left q.queued [pnode])

/-- `acoral_prio_queue_add` keeps the queue in order: behind the nodes with its value the
new one is the last that was inserted. -/
theorem add (h : StableQueue head q l)
    (hstep : prioQueueStep fuel head q (.acoralPrioQueueAdd pnode value) = some q') :
    ∃ l', StableQueue head q' l' := by
  rw [prioQueueStep] at hstep
  split at hstep
  · rename_i hnode
    obtain ⟨links, hadd, rfl⟩ := Option.map_eq_some_iff.mp hstep
    have hqueued : pnode ∉ q.queued := fun hm => hnode (List.mem_cons_of_mem head hm)
    have hring := acoralPrioQueueAdd_ring h.ring (h.notMem hnode) hadd
    have hsorted := h.sorted_update value hqueued
    have hself : Function.update q.value pnode value pnode = value := Function.update_self _ _ _
    refine ⟨_, hring, ?_, pairwise_orderedInsert (hsorted.imp fun hab => hab.le) hsorted ?_⟩
    · have hperm := (perm_prioInsert (Function.update q.value pnode value) pnode l).trans
        (h.perm.cons pnode)
      exact hperm.trans (List.perm_append_singleton pnode q.queued).symm
    · intro y hy
      have hmem : y ∈ q.queued := h.perm.mem_iff.mp hy
      refine ⟨fun hle => ?_, fun hlt => Or.inl hlt⟩
      rcases Int.lt_or_eq_of_le hle with hlt | heq
      · exact Or.inl hlt
      · refine Or.inr ⟨heq, ?_⟩
        exact (List.singleton_sublist.mpr hmem).append (List.Sublist.refl [pnode])
  · cases hstep

/-- `acoral_prio_queue_del` takes one node out and keeps the others in order. -/
theorem del (h : StableQueue head q l)
    (hstep : prioQueueStep fuel head q (.acoralPrioQueueDel pnode) = some q') :
    ∃ l', StableQueue head q' l' := by
  rw [prioQueueStep] at hstep
  split at hstep
  · rename_i hnode
    obtain ⟨links, hdel, rfl⟩ := Option.map_eq_some_iff.mp hstep
    obtain ⟨l₁, l₂, hl⟩ := List.append_of_mem (h.perm.mem_iff.mpr hnode)
    have hring := h.ring
    have hnodup := (List.nodup_cons.mp h.ring.nodup).2
    have herase : l.erase pnode = l₁ ++ l₂ := by
      rw [hl] at hnodup ⊢
      have hnotMem : pnode ∉ l₁ := fun hm =>
        (List.nodup_append.mp hnodup).2.2 pnode hm pnode List.mem_cons_self rfl
      rw [List.erase_append_right _ hnotMem, List.erase_cons_head]
    rw [hl] at hring
    refine ⟨l.erase pnode, ?_, h.perm.erase pnode, ?_⟩
    · rw [herase]
      exact acoralPrioQueueDel_ring hring hdel
    · have hsub := h.sorted.sublist (List.erase_sublist (a := pnode))
      refine hsub.imp_of_mem ?_
      intro a b ha hb hab
      refine hab.mono rfl rfl ?_
      intro hab'
      have hane : a ≠ pnode := (hnodup.mem_erase_iff.mp ha).1
      have hbne : b ≠ pnode := (hnodup.mem_erase_iff.mp hb).1
      have hkeep : [a, b].erase pnode = [a, b] := by
        rw [List.erase_of_not_mem]
        simp [Ne.symm hane, Ne.symm hbne]
      rw [← hkeep]
      exact hab'.erase pnode
  · cases hstep

/-- Each call returns, when the loop has a step for every queued node. -/
theorem returns (h : StableQueue head q l) (hfuel : q.queued.length < fuel) :
    (pnode ∉ head :: q.queued →
      (prioQueueStep fuel head q (.acoralPrioQueueAdd pnode value)).isSome) ∧
    (pnode ∈ q.queued → (prioQueueStep fuel head q (.acoralPrioQueueDel pnode)).isSome) := by
  constructor
  · intro hnode
    rw [prioQueueStep, if_pos hnode, Option.isSome_map]
    refine acoralPrioQueueAdd_isSome _ h.ring (h.notMem hnode) ?_
    rwa [h.perm.length_eq]
  · intro hnode
    rw [prioQueueStep, if_pos hnode, Option.isSome_map]
    obtain ⟨l₁, l₂, rfl⟩ := List.append_of_mem (h.perm.mem_iff.mpr hnode)
    obtain ⟨links, hdel, -⟩ := acoralListDel_ring h.ring
    unfold acoralPrioQueueDel
    rw [hdel]
    rfl

end StableQueue

variable [DecidableEq N]

/-- In every run of calls on an empty queue, the queue has the nodes that have been added and
not deleted. They ascend by their values, and equal values are in the order of insertion.
Every further call returns, when the loop has a step for each queued node. -/
theorem prioQueue_stable {links : Links N} {q : PrioQueueRun N} (hempty : links.IsRing head [])
    (value : N → Int) (ops : List (PrioQueueOp N))
    (hrun : run (prioQueueStep fuel head) ⟨links, value, []⟩ ops = some q) :
    ∃ l, q.links.IsRing head l ∧ l.Perm q.queued ∧
      l.Pairwise (fun a b => q.value a < q.value b ∨
        q.value a = q.value b ∧ [a, b].Sublist q.queued) ∧
      ∀ pnode value fuel', q.queued.length < fuel' →
        (pnode ∉ head :: q.queued →
          (prioQueueStep fuel' head q (.acoralPrioQueueAdd pnode value)).isSome) ∧
        (pnode ∈ q.queued →
          (prioQueueStep fuel' head q (.acoralPrioQueueDel pnode)).isSome) := by
  obtain ⟨l, hl⟩ := Lib.run_induct (P := fun q => ∃ l, StableQueue head q l)
    (fun q op q' hq hstep => by
      obtain ⟨l, hl⟩ := hq
      cases op with
      | acoralPrioQueueAdd pnode value => exact hl.add hstep
      | acoralPrioQueueDel pnode => exact hl.del hstep)
    ⟨[], StableQueue.start hempty value⟩ hrun
  exact ⟨l, hl.ring, hl.perm, hl.sorted, fun _ _ _ hfuel => hl.returns hfuel⟩

/-- Nodes 1 to 4 with the values 5, 3, 5 and 3 are added to a queue at 0, and node 2 is deleted
and added again with the value 5. -/
theorem prioQueue_stable_five :
    ∃ q : PrioQueueRun (Fin 5),
      run (prioQueueStep 5 0) ⟨⟨id, id⟩, fun _ => 0, []⟩
        [.acoralPrioQueueAdd 1 5, .acoralPrioQueueAdd 2 3, .acoralPrioQueueAdd 3 5,
          .acoralPrioQueueAdd 4 3, .acoralPrioQueueDel 2, .acoralPrioQueueAdd 2 5] = some q ∧
      q.links.members 0 5 (q.links.next 0) = [4, 1, 3, 2] ∧
      ∃ l, q.links.IsRing 0 l ∧ l.Perm q.queued := by
  have hrun : (run (prioQueueStep 5 0) ⟨(⟨id, id⟩ : Links (Fin 5)), fun _ => 0, []⟩
      [.acoralPrioQueueAdd 1 5, .acoralPrioQueueAdd 2 3, .acoralPrioQueueAdd 3 5,
        .acoralPrioQueueAdd 4 3, .acoralPrioQueueDel 2, .acoralPrioQueueAdd 2 5]).map
          (fun q => q.links.members 0 5 (q.links.next 0)) = some [4, 1, 3, 2] := by decide +kernel
  obtain ⟨q, hq, hmembers⟩ := Option.map_eq_some_iff.mp hrun
  obtain ⟨l, hring, hperm, -⟩ := prioQueue_stable (Lib.Links.isRing_nil rfl rfl) _ _ hq
  exact ⟨q, hq, hmembers, l, hring, hperm⟩

end ACoral
