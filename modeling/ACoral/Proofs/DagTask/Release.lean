import ACoral.Proofs.TickQueue

/-!
# `ACoral.Proofs.DagTask.Release`: threads of one period are released in order

Two threads that wait for the same tick are released in the order in which they
were added, and added again in that order: `acoral_tick_queue_add` goes behind the
nodes that expire no later. So threads with the same period that are created at the
same tick are released together, in the order of their creation, at every tick
(`Together.due`, `together_foldl_readd`, `Together.foldl_readd`).
-/

set_option autoImplicit false

namespace ACoral

open Lib (keys expiry Ordered)

variable {T : Type} [DecidableEq T]

/-- Two threads are released at the same tick, `p` first. -/
structure Together (q : List (T × Int)) (p t : T) : Prop where
  expiry : expiry q p = expiry q t
  order : [p, t].Sublist (keys q)

/-! ### Adding -/

omit [DecidableEq T] in
/-- Adding a thread leaves the others in their order. -/
theorem keys_sublist_acoralTickQueueAdd (q : List (T × Int)) (n : T) (tick : Int) :
    (keys q).Sublist (keys (acoralTickQueueAdd q n tick)) := by
  induction q generalizing tick with
  | nil => exact List.nil_sublist _
  | cons node q ih =>
      obtain ⟨t, v⟩ := node
      unfold acoralTickQueueAdd
      split
      · exact List.sublist_cons_self _ _
      · exact (ih _).cons_cons t

/-- A new thread goes behind those that expire no later. -/
theorem sublist_acoralTickQueueAdd {q : List (T × Int)} (h : Ordered q) {x n : T} {tick : Int}
    (hx : x ∈ keys q) (hle : expiry q x ≤ tick) :
    [x, n].Sublist (keys (acoralTickQueueAdd q n tick)) := by
  induction q generalizing tick with
  | nil => cases hx
  | cons node q ih =>
      obtain ⟨t, v⟩ := node
      have htail := h.tail.expiry_nonneg x
      by_cases ht : t = x
      · subst ht
        rw [Lib.expiry_cons_self] at hle
        unfold acoralTickQueueAdd
        rw [if_neg (by omega)]
        refine List.Sublist.cons_cons t (List.singleton_sublist.mpr ?_)
        exact (keys_acoralTickQueueAdd q n _).mem_iff.mpr List.mem_cons_self
      · rw [Lib.expiry_cons_of_ne ht] at hle
        have hxq : x ∈ keys q := (List.mem_cons.mp hx).resolve_left (Ne.symm ht)
        unfold acoralTickQueueAdd
        rw [if_neg (by omega)]
        exact (ih h.tail hxq (by omega)).cons t

/-- Of a list without doubles that is cut in two, a pair is in one of the parts, or in both. -/
theorem sublist_pair_append {α : Type} {a b : α} {l₁ l₂ : List α}
    (h : [a, b].Sublist (l₁ ++ l₂)) (hnd : (l₁ ++ l₂).Nodup) :
    (a ∈ l₁ → b ∈ l₁ → [a, b].Sublist l₁) ∧ (a ∉ l₁ → [a, b].Sublist l₂) := by
  have hdisj := (List.nodup_append.mp hnd).2.2
  obtain ⟨k₁, k₂, hk, h₁, h₂⟩ := List.sublist_append_iff.mp h
  rcases List.cons_eq_append_iff.mp hk with ⟨rfl, rfl⟩ | ⟨k, rfl, hb'⟩
  · -- both are in the second part
    exact ⟨fun ha _ => absurd rfl (hdisj a ha a (h₂.subset (by simp))), fun _ => h₂⟩
  · refine ⟨fun _ hb => ?_, fun ha => absurd (h₁.subset List.mem_cons_self) ha⟩
    rcases List.cons_eq_append_iff.mp hb' with ⟨rfl, rfl⟩ | ⟨k', rfl, hnil⟩
    · exact absurd rfl (hdisj b hb b (h₂.subset (by simp)))
    · obtain ⟨rfl, -⟩ := List.append_eq_nil_iff.mp hnil.symm
      exact h₁

/-! ### One handler -/

namespace Together

variable {rearm : T → Option Int} {q : List (T × Int)} {p t : T}

omit [DecidableEq T] in
theorem mem_left (h : [p, t].Sublist (keys q)) : p ∈ keys q := h.subset (by simp)

omit [DecidableEq T] in
theorem mem_right (h : [p, t].Sublist (keys q)) : t ∈ keys q := h.subset (by simp)

/-- A thread that is added again changes nothing between two others. -/
theorem readd (h : Together q p t) {z : T} (hz : z ∉ keys q) :
    Together (ACoral.readd rearm q z) p t := by
  have hp : p ≠ z := fun he => hz (he ▸ mem_left h.order)
  have ht : t ≠ z := fun he => hz (he ▸ mem_right h.order)
  constructor
  case expiry =>
    rw [expiry_readd hp (mem_left h.order), expiry_readd ht (mem_right h.order)]
    exact h.expiry
  case order =>
    unfold ACoral.readd
    cases rearm z with
    | none => exact h.order
    | some tick => exact h.order.trans (keys_sublist_acoralTickQueueAdd q z tick)

/-- Nor does any number of them. -/
theorem foldl_readd (hre : Rearms rearm) (Z : List T) (R : List (T × Int))
    (hnd : (Z ++ keys R).Nodup) (hord : Ordered R) (h : Together R p t) :
    Together (Z.foldl (ACoral.readd rearm) R) p t := by
  induction Z generalizing R with
  | nil => exact h
  | cons z Z ih =>
      have hnd' := nodup_readd hre hnd hord
      rw [List.cons_append, List.nodup_cons, List.mem_append, not_or] at hnd
      exact ih _ hnd' (ordered_readd hre hord hnd.1.2) (h.readd hnd.1.2)

/-- Two threads that expire together are due together, and in their order. -/
theorem due (h : Together q p t) (hq : Ordered q) {Z : List T} {R : List (T × Int)}
    (hsplit : tickCountDown q = Z.map (fun z => (z, 0)) ++ R) (hnd : (Z ++ keys R).Nodup)
    (hord : Ordered R) (hR : HeadWaits R) :
    (p ∈ Z ↔ t ∈ Z) ∧ (p ∈ Z → [p, t].Sublist Z) ∧ (p ∉ Z → Together R p t) := by
  have hkeys : keys q = Z ++ keys R := by
    rw [← keys_tickCountDown q, hsplit, Lib.keys_append]
    simp [keys, Function.comp_def]
  have horder := h.order
  rw [hkeys] at horder
  have hin : ∀ {x}, x ∈ keys q → x ∈ Z ∨ x ∈ keys R := by
    intro x hx
    rwa [hkeys, List.mem_append] at hx
  have hexpiry : Lib.expiry (tickCountDown q) p = Lib.expiry (tickCountDown q) t := by
    rw [expiry_tickCountDown hq (mem_left h.order), expiry_tickCountDown hq (mem_right h.order),
      h.expiry]
  rw [hsplit] at hexpiry
  have hiff : p ∈ Z ↔ t ∈ Z := by
    rw [expiry_due_iff hnd hord hR (hin (mem_left h.order)),
      expiry_due_iff hnd hord hR (hin (mem_right h.order)), hexpiry]
  obtain ⟨hleft, hright⟩ := sublist_pair_append horder hnd
  refine ⟨hiff, fun hp => hleft hp (hiff.mp hp), fun hp => ⟨?_, hright hp⟩⟩
  rwa [expiry_rest hp, expiry_rest fun ht => hp (hiff.mpr ht)] at hexpiry

end Together

/-- A thread that is added again goes behind one with the same ticks that is there. -/
theorem together_readd {rearm : T → Option Int} (hre : Rearms rearm) {p t : T} {tick : Int}
    (ht : rearm t = some tick) (Z : List T) (R : List (T × Int)) (hnd : (Z ++ keys R).Nodup)
    (hord : Ordered R) (hp : p ∈ keys R) (hexpiry : expiry R p = tick) (hin : t ∈ Z) :
    Together (Z.foldl (readd rearm) R) p t := by
  induction Z generalizing R with
  | nil => cases hin
  | cons z Z ih =>
      have hnd' := nodup_readd hre hnd hord
      rw [List.cons_append, List.nodup_cons, List.mem_append, not_or] at hnd
      have hord' := ordered_readd hre hord hnd.1.2
      have hpz : p ≠ z := fun he => hnd.1.2 (he ▸ hp)
      by_cases hz : t = z
      · subst hz
        have hadd : readd rearm R t = acoralTickQueueAdd R t tick := by
          unfold readd
          rw [ht]
        refine Together.foldl_readd hre Z _ hnd' hord' ⟨?_, ?_⟩
        · rw [expiry_readd hpz hp, hexpiry, hadd, expiry_acoralTickQueueAdd_self hnd.1.2]
        · rw [hadd]
          exact sublist_acoralTickQueueAdd hord hp (Int.le_of_eq hexpiry)
      · exact ih _ hnd' hord' ((mem_keys_readd hpz).mpr hp) ((expiry_readd hpz hp).trans hexpiry)
          ((List.mem_cons.mp hin).resolve_left hz)

/-- Threads with the same ticks that are added one after the other expire together, in the
order in which they were added. -/
theorem together_foldl_readd {rearm : T → Option Int} (hre : Rearms rearm) {p t : T} {tick : Int}
    (hp : rearm p = some tick) (ht : rearm t = some tick) (Z : List T) (R : List (T × Int))
    (hnd : (Z ++ keys R).Nodup) (hord : Ordered R) (hpt : [p, t].Sublist Z) :
    Together (Z.foldl (readd rearm) R) p t := by
  induction Z generalizing R with
  | nil => cases hpt
  | cons z Z ih =>
      have hnd' := nodup_readd hre hnd hord
      rw [List.cons_append, List.nodup_cons, List.mem_append, not_or] at hnd
      have hord' := ordered_readd hre hord hnd.1.2
      cases hpt with
      | cons _ hpt => exact ih _ hnd' hord' hpt
      | cons_cons _ htZ =>
          have hadd : readd rearm R p = acoralTickQueueAdd R p tick := by
            unfold readd
            rw [hp]
          refine together_readd hre ht Z _ hnd' hord' ?_ ?_ (List.singleton_sublist.mp htZ)
          · rw [hadd, (keys_acoralTickQueueAdd R p tick).mem_iff]
            exact List.mem_cons_self
          · rw [hadd, expiry_acoralTickQueueAdd_self hnd.1.2]

end ACoral
