import ACoral.Kernel.ResPool
import ACoral.Lib.RingFamily
import ACoral.Proofs.Queue

/-!
# `ACoral.Proofs.ResPool.Lists`: the two lists of a control block

`PoolLists` says what is on the lists of the initialised control blocks:
`total_pools` holds the pools of the control block, and `free_pools` those
of them that have a free resource.

- `PoolLists.initCtrl`: `acoral_pool_ctrl_init` starts two empty lists.
- `PoolLists.addTotal`, `PoolLists.addFree`: `acoral_fifo_queue_add`.
- `PoolLists.delFree`: `acoral_list_del`, which links the node to itself.
  That is what `acoral_release_res` tests.
- `PoolLists.first`: what `acoral_get_res` finds behind the head.
-/

set_option autoImplicit false

namespace ACoral

open Lib (Links)
open Lib.Links (RingFamily)

variable {C : Type} [DecidableEq C]

/-- The heads of the lists of the initialised control blocks. -/
def PoolHead (inited : List C) : PoolNode C → Prop
  | .totalHead c | .freeHead c => c ∈ inited
  | _ => False

omit [DecidableEq C] in
theorem poolHead_cons (inited : List C) (c : C) :
    PoolHead (c :: inited) =
      fun hd => (PoolHead inited hd ∨ hd = .totalHead c) ∨ hd = .freeHead c := by
  funext hd
  cases hd <;> simp [PoolHead, or_comm]

/-- The lists hold the pools of the owners, the second one those that have
a free resource. -/
structure PoolLists (L : Links (PoolNode C)) (inited : List C)
    (owner : Fin ACORAL_MAX_POOLS → Option C) (hasFree : Fin ACORAL_MAX_POOLS → Prop)
    (members : PoolNode C → List (PoolNode C)) : Prop where
  rings : L.RingFamily (PoolHead inited) members
  total : ∀ c ∈ inited, ∀ x,
    x ∈ members (.totalHead c) ↔ ∃ i, x = .total i ∧ owner i = some c
  free : ∀ c ∈ inited, ∀ x,
    x ∈ members (.freeHead c) ↔ ∃ i, x = .free i ∧ owner i = some c ∧ hasFree i

variable {L : Links (PoolNode C)} {inited : List C} {owner : Fin ACORAL_MAX_POOLS → Option C}
  {hasFree : Fin ACORAL_MAX_POOLS → Prop} {members : PoolNode C → List (PoolNode C)} {c : C}
  {i : Fin ACORAL_MAX_POOLS}

namespace PoolLists

omit [DecidableEq C] in
/-- Where the `total_list` of a pool is. -/
theorem total_mem (h : PoolLists L inited owner hasFree members) {hd : PoolNode C}
    (hhd : PoolHead inited hd) (hi : .total i ∈ hd :: members hd) :
    ∃ c ∈ inited, owner i = some c := by
  cases hd with
  | totalHead c =>
      obtain ⟨j, he, hj⟩ := (h.total c hhd _).mp (by simpa using hi)
      cases he
      exact ⟨c, hhd, hj⟩
  | freeHead c =>
      obtain ⟨j, he, -⟩ := (h.free c hhd _).mp (by simpa using hi)
      cases he
  | total _ => exact hhd.elim
  | free _ => exact hhd.elim

omit [DecidableEq C] in
/-- Where the `free_list` of a pool is. -/
theorem free_mem (h : PoolLists L inited owner hasFree members) {hd : PoolNode C}
    (hhd : PoolHead inited hd) (hi : .free i ∈ hd :: members hd) :
    ∃ c ∈ inited, owner i = some c ∧ hasFree i := by
  cases hd with
  | totalHead c =>
      obtain ⟨j, he, -⟩ := (h.total c hhd _).mp (by simpa using hi)
      cases he
  | freeHead c =>
      obtain ⟨j, he, hj⟩ := (h.free c hhd _).mp (by simpa using hi)
      cases he
      exact ⟨c, hhd, hj⟩
  | total _ => exact hhd.elim
  | free _ => exact hhd.elim

/-- `acoral_fifo_queue_add` of a node that is on no list. -/
theorem fifoAdd {hd x : PoolNode C} (hf : L.RingFamily (PoolHead inited) members)
    (hhd : PoolHead inited hd) (hx : ∀ hd, PoolHead inited hd → x ∉ hd :: members hd) :
    acoralListAddTail L x hd = some (L.link (L.prev hd) x hd) := by
  refine acoralListAddTail_eq (fun he => ?_) (fun he => ?_)
  · exact hx hd hhd (he ▸ List.mem_cons_self)
  · apply hx hd hhd
    rw [he, (hf.ring hd hhd).prev_head]
    exact Links.getLastD_mem hd (members hd)

/-- A pool of a control block that is not on its second list enters it. -/
theorem addFree (h : PoolLists L inited owner hasFree members) (hc : c ∈ inited)
    (howner : owner i = some c) (hi : ¬ hasFree i) :
    ∃ L' members', acoralListAddTail L (.free i) (.freeHead c) = some L' ∧
      PoolLists L' inited owner (fun j => j = i ∨ hasFree j) members' ∧
      ∀ j, j ≠ i → ¬ hasFree j → L'.next (.free j) = L.next (.free j) := by
  have hx : ∀ hd, PoolHead inited hd → .free i ∉ hd :: members hd := by
    intro hd hhd hm
    obtain ⟨-, -, -, hfree⟩ := h.free_mem hhd hm
    exact hi hfree
  have hhd : PoolHead inited (.freeHead c) := hc
  refine ⟨_, _, fifoAdd h.rings hhd hx, ⟨h.rings.insertLast hhd hx, ?_, ?_⟩, ?_⟩
  · intro c' hc' x
    rw [Function.update_of_ne (by simp)]
    exact h.total c' hc' x
  · intro c' hc' x
    by_cases he : c' = c
    · subst he
      rw [Function.update_self, List.mem_append, List.mem_singleton, h.free c' hc']
      constructor
      · rintro (⟨j, rfl, hj, hfree⟩ | rfl)
        · exact ⟨j, rfl, hj, Or.inr hfree⟩
        · exact ⟨i, rfl, howner, Or.inl rfl⟩
      · rintro ⟨j, rfl, hj, rfl | hfree⟩
        · exact Or.inr rfl
        · exact Or.inl ⟨j, rfl, hj, hfree⟩
    · rw [Function.update_of_ne (by simpa using he), h.free c' hc']
      constructor
      · rintro ⟨j, rfl, hj, hfree⟩
        exact ⟨j, rfl, hj, Or.inr hfree⟩
      · rintro ⟨j, rfl, hj, rfl | hfree⟩
        · rw [howner, Option.some.injEq] at hj
          exact absurd hj.symm he
        · exact ⟨j, rfl, hj, hfree⟩
  · intro j hji hj
    refine h.rings.insertLast_next hhd ?_ (by simpa using hji)
    intro hd hhd hm
    obtain ⟨-, -, -, hfree⟩ := h.free_mem hhd hm
    exact hj hfree

/-- A pool leaves the second list, and is linked to itself. -/
theorem delFree (h : PoolLists L inited owner hasFree members) (hc : c ∈ inited)
    (howner : owner i = some c) (hi : hasFree i) :
    ∃ L' members', acoralListDel L (.free i) = some L' ∧
      PoolLists L' inited owner (fun j => j ≠ i ∧ hasFree j) members' ∧
      L'.next (.free i) = .free i ∧
      ∀ j, ¬ hasFree j → L'.next (.free j) = L.next (.free j) := by
  have hhd : PoolHead inited (.freeHead c) := hc
  have hmem : .free i ∈ members (.freeHead c) := (h.free c hc _).mpr ⟨i, rfl, howner, hi⟩
  have hring := h.rings.ring _ hhd
  have hnd := (List.nodup_cons.mp hring.nodup).2
  refine ⟨L.unlink (.free i), _, ?_, ⟨h.rings.remove hhd hmem, ?_, ?_⟩, ?_, ?_⟩
  · obtain ⟨l₁, l₂, hsplit⟩ := List.append_of_mem hmem
    rw [hsplit] at hring
    exact acoralListDel_mem hring
  · intro c' hc' x
    rw [Function.update_of_ne (by simp)]
    exact h.total c' hc' x
  · intro c' hc' x
    by_cases he : c' = c
    · subst he
      rw [Function.update_self, hnd.mem_erase_iff, h.free c' hc']
      constructor
      · rintro ⟨hne, j, rfl, hj, hfree⟩
        exact ⟨j, rfl, hj, fun he => hne (he ▸ rfl), hfree⟩
      · rintro ⟨j, rfl, hj, hne, hfree⟩
        exact ⟨by simpa using hne, j, rfl, hj, hfree⟩
    · rw [Function.update_of_ne (by simpa using he), h.free c' hc']
      constructor
      · rintro ⟨j, rfl, hj, hfree⟩
        refine ⟨j, rfl, hj, fun hji => he ?_, hfree⟩
        rw [hji, howner, Option.some.injEq] at hj
        exact hj.symm
      · rintro ⟨j, rfl, hj, -, hfree⟩
        exact ⟨j, rfl, hj, hfree⟩
  · exact (L.unlink_self (.free i)).next_head
  · intro j hj
    refine h.rings.remove_next hhd hmem ?_
    intro hd hhd hm
    obtain ⟨-, -, -, hfree⟩ := h.free_mem hhd hm
    exact hj hfree

/-- A new pool enters the first list of its control block. It is not on
the second list yet. -/
theorem addTotal (h : PoolLists L inited owner hasFree members) (hc : c ∈ inited)
    (howner : owner i = none) (hi : ¬ hasFree i) :
    ∃ L' members', acoralListAddTail L (.total i) (.totalHead c) = some L' ∧
      PoolLists L' inited (Function.update owner i (some c)) hasFree members' ∧
      ∀ j, ¬ hasFree j → L'.next (.free j) = L.next (.free j) := by
  have hx : ∀ hd, PoolHead inited hd → .total i ∉ hd :: members hd := by
    intro hd hhd hm
    obtain ⟨c', -, hown⟩ := h.total_mem hhd hm
    rw [howner] at hown
    cases hown
  have hhd : PoolHead inited (.totalHead c) := hc
  have hne : ∀ j c', owner j = some c' → j ≠ i := by
    intro j c' hj he
    rw [he, howner] at hj
    cases hj
  refine ⟨_, _, fifoAdd h.rings hhd hx, ⟨h.rings.insertLast hhd hx, ?_, ?_⟩, ?_⟩
  · intro c' hc' x
    by_cases he : c' = c
    · subst he
      rw [Function.update_self, List.mem_append, List.mem_singleton, h.total c' hc']
      constructor
      · rintro (⟨j, rfl, hj⟩ | rfl)
        · exact ⟨j, rfl, by rwa [Function.update_of_ne (hne j c' hj)]⟩
        · exact ⟨i, rfl, Function.update_self ..⟩
      · rintro ⟨j, rfl, hj⟩
        by_cases hji : j = i
        · exact Or.inr (hji ▸ rfl)
        · rw [Function.update_of_ne hji] at hj
          exact Or.inl ⟨j, rfl, hj⟩
    · rw [Function.update_of_ne (by simpa using he), h.total c' hc']
      constructor
      · rintro ⟨j, rfl, hj⟩
        exact ⟨j, rfl, by rwa [Function.update_of_ne (hne j c' hj)]⟩
      · rintro ⟨j, rfl, hj⟩
        refine ⟨j, rfl, ?_⟩
        by_cases hji : j = i
        · rw [hji, Function.update_self, Option.some.injEq] at hj
          exact absurd hj.symm he
        · rwa [Function.update_of_ne hji] at hj
  · intro c' hc' x
    rw [Function.update_of_ne (by simp), h.free c' hc']
    constructor
    · rintro ⟨j, rfl, hj, hfree⟩
      exact ⟨j, rfl, by rwa [Function.update_of_ne (hne j c' hj)], hfree⟩
    · rintro ⟨j, rfl, hj, hfree⟩
      have hji : j ≠ i := fun he => hi (he ▸ hfree)
      rw [Function.update_of_ne hji] at hj
      exact ⟨j, rfl, hj, hfree⟩
  · intro j hj
    refine h.rings.insertLast_next hhd ?_ (by simp)
    intro hd hhd hm
    obtain ⟨-, -, -, hfree⟩ := h.free_mem hhd hm
    exact hj hfree

/-- `acoral_pool_ctrl_init` starts the lists of a control block. -/
theorem initCtrl (h : PoolLists L inited owner hasFree members) (hc : c ∉ inited)
    (howner : ∀ j, owner j ≠ some c) :
    ∃ members', PoolLists (acoralListInit (acoralListInit L (.totalHead c)) (.freeHead c))
        (c :: inited) owner hasFree members' ∧
      ∀ j, (acoralListInit (acoralListInit L (.totalHead c)) (.freeHead c)).next (.free j) =
        L.next (.free j) := by
  have hnone : ∀ hd, PoolHead inited hd → ∀ x, x ∈ hd :: members hd →
      x ≠ .totalHead c ∧ x ≠ .freeHead c := by
    intro hd hhd x hx
    cases hd with
    | totalHead c' =>
        rcases List.mem_cons.mp hx with rfl | hx
        · exact ⟨fun he => hc (by cases he; exact hhd), by simp⟩
        · obtain ⟨j, rfl, -⟩ := (h.total c' hhd x).mp hx
          exact ⟨by simp, by simp⟩
    | freeHead c' =>
        rcases List.mem_cons.mp hx with rfl | hx
        · exact ⟨by simp, fun he => hc (by cases he; exact hhd)⟩
        · obtain ⟨j, rfl, -⟩ := (h.free c' hhd x).mp hx
          exact ⟨by simp, by simp⟩
    | total _ => exact hhd.elim
    | free _ => exact hhd.elim
  have h1 := h.rings.addHead (x := .totalHead c) fun hd hhd hm => (hnone hd hhd _ hm).1 rfl
  have h2 := h1.addHead (x := .freeHead c) (by
    rintro hd (hhd | rfl) hm
    · have hne : hd ≠ .totalHead c := (hnone hd hhd hd List.mem_cons_self).1
      rw [Function.update_of_ne hne] at hm
      exact (hnone hd hhd _ hm).2 rfl
    · rw [Function.update_self] at hm
      simp at hm)
  rw [← poolHead_cons] at h2
  refine ⟨_, ⟨h2, ?_, ?_⟩, fun j => by simp [acoralListInit, Links.setNext, Links.setPrev]⟩
  · intro c' hc' x
    rw [Function.update_of_ne (by simp)]
    by_cases he : c' = c
    · subst he
      simp [howner]
    · rw [Function.update_of_ne (by simpa using he)]
      exact h.total c' ((List.mem_cons.mp hc').resolve_left he) x
  · intro c' hc' x
    by_cases he : c' = c
    · subst he
      simp [howner]
    · rw [Function.update_of_ne (by simpa using he), Function.update_of_ne (by simp)]
      exact h.free c' ((List.mem_cons.mp hc').resolve_left he) x

omit [DecidableEq C] in
/-- A pool on the second list is not linked to itself. -/
theorem next_ne (h : PoolLists L inited owner hasFree members) (hc : c ∈ inited)
    (howner : owner i = some c) (hi : hasFree i) : L.next (.free i) ≠ .free i :=
  (h.rings.ring (.freeHead c) hc).next_ne ((h.free c hc _).mpr ⟨i, rfl, howner, hi⟩)

omit [DecidableEq C] in
/-- What `acoral_get_res` finds behind the head: the head itself, if no
pool has a free resource, and else a pool that has one. -/
theorem first (h : PoolLists L inited owner hasFree members) (hc : c ∈ inited) :
    let first := L.next (.freeHead c)
    (first = .freeHead c ∧ L.next first = first ∧ ∀ i, owner i = some c → ¬ hasFree i) ∨
    (L.next first ≠ first ∧ ∃ i, first = .free i ∧ owner i = some c ∧ hasFree i) := by
  have hring := h.rings.ring (.freeHead c) hc
  have hfirst := hring.next_head
  cases hm : members (.freeHead c) with
  | nil =>
      rw [hm, List.headD_nil] at hfirst
      refine Or.inl ⟨hfirst, by rw [hfirst, hfirst], fun i hown hfree => ?_⟩
      have hmem := (h.free c hc _).mpr ⟨i, rfl, hown, hfree⟩
      rw [hm] at hmem
      cases hmem
  | cons x l =>
      rw [hm] at hring hfirst
      obtain ⟨i, rfl, hown, hfree⟩ := (h.free c hc x).mp (by rw [hm]; exact List.mem_cons_self)
      refine Or.inr ⟨?_, i, hfirst, hown, hfree⟩
      rw [hfirst]
      exact hring.next_ne List.mem_cons_self

end PoolLists

end ACoral
