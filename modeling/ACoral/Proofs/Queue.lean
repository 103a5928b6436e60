import ACoral.Kernel.Queue
import Mathlib.Data.List.Sort

/-!
# `ACoral.Proofs.Queue`: the list operations and priority queues on rings

`acoral_list_add` and `acoral_list_del` on a well-formed ring come back,
and are `Links.link` and `Links.unlink` (`acoralListAdd_ring`,
`acoralListDel_ring`). `acoral_prio_queue_add` on a ring is the insertion
before the first member of a greater value (`acoralPrioQueueAdd_ring`),
and its loop ends within one step for each member
(`acoralPrioQueueAdd_isSome`).
-/

set_option autoImplicit false

namespace ACoral

open Lib (Links)
open Lib.Links (IsRing)

variable {N : Type} [DecidableEq N]

/-- `acoral_list_add` takes three different locks, and links the node. -/
theorem acoralListAdd_eq {L : Links N} {new head : N} (hhead : new ≠ head)
    (hnext : new ≠ L.next head) :
    acoralListAdd L new head = some (L.link head new (L.next head)) := by
  simp [acoralListAdd, hhead, hnext, Links.link, Links.setNext, Links.setPrev,
    Function.update_of_ne (Ne.symm hhead)]

/-- `acoral_list_add_tail` takes three different locks, and links the node. -/
theorem acoralListAddTail_eq {L : Links N} {new head : N} (hhead : new ≠ head)
    (hprev : new ≠ L.prev head) :
    acoralListAddTail L new head = some (L.link (L.prev head) new head) := by
  simp [acoralListAddTail, hhead, hprev, Links.link, Links.setNext, Links.setPrev,
    Function.update_of_ne (Ne.symm hhead)]

/-- `acoral_list_del` takes three different locks, and unlinks the node. -/
theorem acoralListDel_eq {L : Links N} {entry : N} (hprev : entry ≠ L.prev entry)
    (hnext : entry ≠ L.next entry) : acoralListDel L entry = some (L.unlink entry) := by
  simp [acoralListDel, hprev, hnext, Links.unlink, Links.setNext, Links.setPrev]

/-- A node that is linked to itself is not unlinked: its lock would be taken twice. -/
theorem acoralListDel_self {L : Links N} {x : N} (hx : L.prev x = x) :
    acoralListDel L x = none := by
  simp [acoralListDel, hx]

/-- What `acoral_list_del` leaves when it returns. -/
theorem acoralListDel_some {L L' : Links N} {x : N} (hdel : acoralListDel L x = some L') :
    L' = L.unlink x := by
  by_cases hprev : x = L.prev x
  · rw [acoralListDel_self hprev.symm] at hdel
    cases hdel
  by_cases hnext : x = L.next x
  · have hne : L.prev x ≠ L.next x := fun he => hprev (hnext.trans he.symm)
    simp only [acoralListDel] at hdel
    rw [if_pos (Or.inr ⟨hne, hnext⟩)] at hdel
    cases hdel
  · exact (Option.some.inj ((acoralListDel_eq hprev hnext).symm.trans hdel)).symm

/-- `acoral_list_add` of a fresh node after a place of a ring. -/
theorem acoralListAdd_ring {L : Links N} {h x : N} {l₁ l₂ : List N}
    (hr : L.IsRing h (l₁ ++ l₂)) (hx : x ∉ h :: (l₁ ++ l₂)) :
    ∃ L', acoralListAdd L x (l₁.getLastD h) = some L' ∧ L'.IsRing h (l₁ ++ x :: l₂) := by
  have hnext : L.next (l₁.getLastD h) = l₂.headD h := hr.adj.1
  refine ⟨L.link (l₁.getLastD h) x (l₂.headD h), ?_, hr.insert hx⟩
  rw [← hnext]
  refine acoralListAdd_eq (fun he => hx ?_) (fun he => hx ?_)
  · rcases List.mem_cons.mp (Links.getLastD_mem h l₁) with hm | hm
    · exact List.mem_cons.mpr (Or.inl (he.trans hm))
    · exact he ▸ List.mem_cons_of_mem _ (List.mem_append_left _ hm)
  · rw [he, hnext]
    cases l₂ with
    | nil => exact List.mem_cons_self
    | cons y l => simp

/-- `acoral_list_del` of a member unlinks it. -/
theorem acoralListDel_mem {L : Links N} {h x : N} {l₁ l₂ : List N}
    (hr : L.IsRing h (l₁ ++ x :: l₂)) : acoralListDel L x = some (L.unlink x) := by
  have hprev : L.prev x = l₁.getLastD h := hr.prev_headD
  have hnext : L.next x = l₂.headD h := hr.next_mem
  have hnd := hr.nodup
  rw [← List.cons_append] at hnd
  obtain ⟨-, hnd2, hdisj⟩ := List.nodup_append.mp hnd
  refine acoralListDel_eq (fun he => ?_) (fun he => ?_)
  · rw [hprev] at he
    exact hdisj _ (Links.getLastD_mem h l₁) x List.mem_cons_self he.symm
  · rw [hnext] at he
    cases l₂ with
    | nil => exact hdisj h List.mem_cons_self x List.mem_cons_self he.symm
    | cons y l => exact (List.nodup_cons.mp hnd2).1 (he ▸ List.mem_cons_self)

/-- `acoral_list_del` of a member. -/
theorem acoralListDel_ring {L : Links N} {h x : N} {l₁ l₂ : List N}
    (hr : L.IsRing h (l₁ ++ x :: l₂)) :
    ∃ L', acoralListDel L x = some L' ∧ L'.IsRing h (l₁ ++ l₂) :=
  ⟨L.unlink x, acoralListDel_mem hr, hr.remove⟩

/-- `acoral_list_add_tail` of a fresh node at the head of a ring. -/
theorem acoralListAddTail_ring {L : Links N} {h x : N} {l : List N} (hr : L.IsRing h l)
    (hx : x ∉ h :: l) :
    ∃ L', acoralListAddTail L x h = some L' ∧ L'.IsRing h (l ++ [x]) := by
  have hr' : L.IsRing h (l ++ []) := by rwa [List.append_nil]
  have hprev : L.prev h = l.getLastD h := hr'.prev_headD
  have hins := hr'.insert (x := x) (by rwa [List.append_nil])
  rw [← hprev] at hins
  refine ⟨_, acoralListAddTail_eq (fun he => hx (he ▸ List.mem_cons_self)) fun he => hx ?_, hins⟩
  rw [he, hprev]
  exact Links.getLastD_mem h l

/-! ### Priority queues -/

/-- Where `acoral_prio_queue_add` inserts: before the first member of a
greater value. -/
def prioInsert (value : N → Int) (x : N) (l : List N) : List N :=
  l.orderedInsert (fun a b => value a < value b) x

omit [DecidableEq N] in
/-- Insertion by a key keeps a list in an order `R`, when the new element is
in the order with the others as its key says. The induction is on the
list. -/
theorem pairwise_orderedInsert {key : N → Int} {R : N → N → Prop} {x : N} {l : List N}
    (hkey : l.Pairwise fun a b => key a ≤ key b) (hR : l.Pairwise R)
    (hagree : ∀ y ∈ l, (key y ≤ key x → R y x) ∧ (key x < key y → R x y)) :
    (l.orderedInsert (fun a b => key a < key b) x).Pairwise R := by
  induction l with
  | nil => simp
  | cons y l ih =>
      obtain ⟨hy, hkey⟩ := List.pairwise_cons.mp hkey
      obtain ⟨hry, hR⟩ := List.pairwise_cons.mp hR
      obtain ⟨hle, hlt⟩ := hagree y List.mem_cons_self
      rw [List.orderedInsert_cons]
      by_cases hxy : key x < key y
      · -- everything behind `y` has a key above that of `x` too
        rw [if_pos hxy]
        refine List.pairwise_cons.mpr ⟨fun z hz => ?_, List.pairwise_cons.mpr ⟨hry, hR⟩⟩
        rcases List.mem_cons.mp hz with rfl | hz
        · exact hlt hxy
        · exact (hagree z (List.mem_cons_of_mem _ hz)).2 (lt_of_lt_of_le hxy (hy z hz))
      · rw [if_neg hxy]
        refine List.pairwise_cons.mpr ⟨fun z hz => ?_,
          ih hkey hR fun z hz => hagree z (List.mem_cons_of_mem _ hz)⟩
        rcases (List.mem_orderedInsert _).mp hz with rfl | hz
        · exact hle (not_lt.mp hxy)
        · exact hry z hz

omit [DecidableEq N] in
/-- The insertion keeps the members in order. -/
theorem pairwise_prioInsert {value : N → Int} {x : N} {l : List N}
    (h : l.Pairwise fun a b => value a ≤ value b) :
    (prioInsert value x l).Pairwise fun a b => value a ≤ value b :=
  pairwise_orderedInsert h h fun _ _ => ⟨id, le_of_lt⟩

omit [DecidableEq N] in
theorem perm_prioInsert (value : N → Int) (x : N) (l : List N) :
    (prioInsert value x l).Perm (x :: l) := List.perm_orderedInsert _ x l

/-- The loop on a ring: it stops at the first member of a greater value,
or comes back to the head. -/
theorem prioQueueFind_ring {L : Links N} {value : N → Int} {h x : N} {fuel : Nat}
    {l₁ l₂ : List N} {tmp : N} (hr : L.IsRing h (l₁ ++ l₂))
    (hfind : prioQueueFind L value h x fuel (l₂.headD h) = some tmp) :
    ∃ a b, l₂ = a ++ b ∧ tmp = b.headD h ∧ prioInsert value x l₂ = a ++ x :: b := by
  induction l₂ generalizing fuel l₁ with
  | nil =>
      cases fuel with
      | zero => simp [prioQueueFind] at hfind
      | succ fuel =>
          simp only [prioQueueFind, List.headD_nil, if_true, Option.some.injEq] at hfind
          exact ⟨[], [], rfl, hfind.symm, rfl⟩
  | cons y l ih =>
      cases fuel with
      | zero => simp [prioQueueFind] at hfind
      | succ fuel =>
          have hnd := hr.nodup
          have hyh : y ≠ h := fun he => (List.nodup_cons.mp hnd).1 (by simp [he])
          rw [List.headD_cons, prioQueueFind, if_neg hyh] at hfind
          by_cases hv : value y > value x
          · rw [if_pos hv, Option.some.injEq] at hfind
            exact ⟨[], y :: l, rfl, hfind.symm, by simp [prioInsert, show value x < value y from hv]⟩
          · have hnext : L.next y = l.headD h := hr.next_mem
            have hself : y ≠ L.next y := by
              intro he
              rw [hnext] at he
              cases l with
              | nil => exact hyh he
              | cons z l =>
                  have hnd' := (List.nodup_append.mp (List.nodup_cons.mp hnd).2).2.1
                  exact (List.nodup_cons.mp hnd').1 (he ▸ List.mem_cons_self)
            rw [if_neg hv, if_neg hself, hnext] at hfind
            have hr' : L.IsRing h ((l₁ ++ [y]) ++ l) := by simpa using hr
            obtain ⟨a, b, hl, htmp, hins⟩ := ih hr' hfind
            refine ⟨y :: a, b, by rw [hl, List.cons_append], htmp, ?_⟩
            unfold prioInsert at hins ⊢
            rw [List.orderedInsert_cons, if_neg (show ¬ value x < value y from hv), hins,
              List.cons_append]

/-- The loop needs one step for each member, and one for the head. -/
theorem prioQueueFind_isSome {L : Links N} (value : N → Int) {h : N} (x : N) {fuel : Nat}
    {l₁ l₂ : List N} (hr : L.IsRing h (l₁ ++ l₂)) (hfuel : l₂.length < fuel) :
    (prioQueueFind L value h x fuel (l₂.headD h)).isSome = true := by
  induction l₂ generalizing fuel l₁ with
  | nil =>
      obtain ⟨n, rfl⟩ := Nat.exists_eq_add_of_lt hfuel
      simp [prioQueueFind]
  | cons y l ih =>
      obtain ⟨n, rfl⟩ := Nat.exists_eq_succ_of_ne_zero (Nat.ne_zero_of_lt hfuel)
      have hnext : L.next y = l.headD h := hr.next_mem
      have hr' : L.IsRing h ((l₁ ++ [y]) ++ l) := by simpa using hr
      rw [List.headD_cons, prioQueueFind]
      split
      · rfl
      · split
        · rfl
        · split
          · rfl
          · rw [hnext]
            exact ih hr' (by simpa using hfuel)

/-- `acoral_prio_queue_add` of a fresh node to a ring. -/
theorem acoralPrioQueueAdd_ring {L L' : Links N} {value : N → Int} {h x : N} {fuel : Nat}
    {l : List N} (hr : L.IsRing h l) (hx : x ∉ h :: l)
    (hadd : acoralPrioQueueAdd fuel L value h x = some L') :
    L'.IsRing h (prioInsert value x l) := by
  obtain ⟨tmp, hfind, hadd⟩ := Option.bind_eq_some_iff.mp hadd
  rw [hr.next_head] at hfind
  obtain ⟨a, b, rfl, rfl, hins⟩ := prioQueueFind_ring (show L.IsRing h ([] ++ l) from hr) hfind
  rw [hr.prev_headD] at hadd
  obtain ⟨L'', hL'', hring⟩ := acoralListAdd_ring hr hx
  obtain rfl := Option.some.inj (hL''.symm.trans hadd)
  rwa [hins]

/-- With a step for each member, `acoral_prio_queue_add` returns. -/
theorem acoralPrioQueueAdd_isSome {L : Links N} (value : N → Int) {h x : N} {fuel : Nat}
    {l : List N} (hr : L.IsRing h l) (hx : x ∉ h :: l) (hfuel : l.length < fuel) :
    (acoralPrioQueueAdd fuel L value h x).isSome = true := by
  have hsome := prioQueueFind_isSome value x (show L.IsRing h ([] ++ l) from hr) hfuel
  obtain ⟨tmp, hfind⟩ := Option.isSome_iff_exists.mp hsome
  obtain ⟨a, b, rfl, rfl, -⟩ := prioQueueFind_ring (show L.IsRing h ([] ++ l) from hr) hfind
  obtain ⟨L', hL', -⟩ := acoralListAdd_ring hr hx
  unfold acoralPrioQueueAdd
  rw [hr.next_head, hfind, Option.bind_some, hr.prev_headD, hL']
  rfl

/-- `acoral_prio_queue_del` of a member of a ring. -/
theorem acoralPrioQueueDel_ring {L L' : Links N} {h x : N} {l₁ l₂ : List N}
    (hr : L.IsRing h (l₁ ++ x :: l₂)) (hdel : acoralPrioQueueDel L x = some L') :
    L'.IsRing h (l₁ ++ l₂) := by
  obtain ⟨L'', hL'', hring⟩ := acoralListDel_ring hr
  obtain rfl := Option.some.inj (hL''.symm.trans hdel)
  exact hring

/-! ### Other rings -/

/-- `acoral_prio_queue_add` writes to the nodes of the ring and to the new
one only. -/
theorem acoralPrioQueueAdd_frame {L L' : Links N} {value : N → Int} {h x : N} {fuel : Nat}
    {l : List N} (hr : L.IsRing h l) (hx : x ∉ h :: l)
    (hadd : acoralPrioQueueAdd fuel L value h x = some L') {y : N} (hy : y ∉ h :: l) (hyx : y ≠ x) :
    L'.next y = L.next y ∧ L'.prev y = L.prev y := by
  obtain ⟨tmp, hfind, hadd⟩ := Option.bind_eq_some_iff.mp hadd
  rw [hr.next_head] at hfind
  obtain ⟨a, b, rfl, rfl, -⟩ := prioQueueFind_ring (show L.IsRing h ([] ++ l) from hr) hfind
  rw [hr.prev_headD] at hadd
  have hnext : L.next (a.getLastD h) = b.headD h := hr.adj.1
  -- the two neighbours of the place are nodes of the ring
  have hlast : a.getLastD h ∈ h :: (a ++ b) := by
    rcases List.mem_cons.mp (Links.getLastD_mem h a) with hm | hm
    · rw [hm]
      exact List.mem_cons_self
    · exact List.mem_cons_of_mem _ (List.mem_append_left _ hm)
  have hhead : b.headD h ∈ h :: (a ++ b) := by
    cases b <;> simp
  have hne : ∀ {z : N}, z ∈ h :: (a ++ b) → x ≠ z := fun hz he => hx (he ▸ hz)
  have hney : ∀ {z : N}, z ∈ h :: (a ++ b) → y ≠ z := fun hz he => hy (he ▸ hz)
  rw [acoralListAdd_eq (hne hlast) (by rw [hnext]; exact hne hhead), hnext] at hadd
  obtain rfl := Option.some.inj hadd
  exact ⟨Links.link_next_of_ne L (hney hlast) hyx, Links.link_prev_of_ne L (hney hhead) hyx⟩

/-- `acoral_prio_queue_del` writes to the nodes of the ring only. -/
theorem acoralPrioQueueDel_frame {L L' : Links N} {h x : N} {l : List N} (hr : L.IsRing h l)
    (hx : x ∈ l) (hdel : acoralPrioQueueDel L x = some L') {y : N} (hy : y ∉ h :: l) :
    L'.next y = L.next y ∧ L'.prev y = L.prev y := by
  obtain ⟨l₁, l₂, rfl⟩ := List.append_of_mem hx
  have hprev : L.prev x ∈ h :: (l₁ ++ x :: l₂) := by
    rw [show L.prev x = l₁.getLastD h from hr.prev_headD]
    rcases List.mem_cons.mp (Links.getLastD_mem h l₁) with hm | hm
    · rw [hm]
      exact List.mem_cons_self
    · exact List.mem_cons_of_mem _ (List.mem_append_left _ hm)
  have hnext : L.next x ∈ h :: (l₁ ++ x :: l₂) := by
    rw [hr.next_mem]
    cases l₂ <;> simp
  have hmem : x ∈ h :: (l₁ ++ x :: l₂) := List.mem_cons_of_mem _ hx
  have hney : ∀ {z : N}, z ∈ h :: (l₁ ++ x :: l₂) → y ≠ z := fun hz he => hy (he ▸ hz)
  obtain rfl := Option.some.inj ((acoralListDel_mem hr).symm.trans hdel)
  exact ⟨Links.unlink_next_of_ne L (hney hprev) (hney hmem),
    Links.unlink_prev_of_ne L (hney hnext) (hney hmem)⟩

end ACoral
