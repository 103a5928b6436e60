import ACoral.Lib.Ring
import Mathlib.Logic.Function.Iterate

/-!
# `ACoral.Lib.RingFamily`: many rings in one heap of list nodes

The nodes that meet `heads` head rings, and no node is in two of them. An
operation on one ring leaves the others alone, so each rule below changes
the members at one head.

- `RingFamily.insertLast`: link a fresh node before a head.
- `RingFamily.remove`: unlink a member.
- `RingFamily.addHead`: a node that is in no ring becomes the head of an
  empty one.
-/

set_option autoImplicit false

namespace ACoral.Lib

universe u

namespace Links

variable {N : Type u}

/-- The rings at `heads`, with the given members, share no node. -/
structure RingFamily (L : Links N) (heads : N → Prop) (members : N → List N) : Prop where
  ring : ∀ h, heads h → L.IsRing h (members h)
  apart : ∀ h, heads h → ∀ h', heads h' → h ≠ h' →
    List.Disjoint (h :: members h) (h' :: members h')

variable {L L' : Links N} {heads : N → Prop} {members : N → List N} {h x : N}

/-- A node of one ring is in no other. -/
theorem RingFamily.eq_of_mem (hf : L.RingFamily heads members) {h h' : N} (hh : heads h)
    (hh' : heads h') (hx : x ∈ h :: members h) (hx' : x ∈ h' :: members h') : h = h' := by
  by_contra hne
  exact hf.apart h hh h' hh' hne hx hx'

/-- The family depends on the pointers of its nodes only. -/
theorem RingFamily.congr (hf : L.RingFamily heads members)
    (heq : ∀ h, heads h → ∀ y ∈ h :: members h, L'.next y = L.next y ∧ L'.prev y = L.prev y) :
    L'.RingFamily heads members := by
  refine ⟨fun h hh => ?_, hf.apart⟩
  exact (hf.ring h hh).congr (fun y hy => (heq h hh y hy).1) fun y hy => (heq h hh y hy).2

variable [DecidableEq N]

/-- Changing one ring. The other rings keep their pointers, and the new
members of the ring are either old ones or in no ring. -/
theorem RingFamily.update (hf : L.RingFamily heads members) (hh : heads h) {l : List N}
    (hring : L'.IsRing h l)
    (hl : ∀ y ∈ l, y ∈ members h ∨ ∀ h', heads h' → y ∉ h' :: members h')
    (heq : ∀ h', heads h' → h' ≠ h → ∀ y ∈ h' :: members h',
      L'.next y = L.next y ∧ L'.prev y = L.prev y) :
    L'.RingFamily heads (Function.update members h l) := by
  have hnew : ∀ h', heads h' → h ≠ h' → List.Disjoint (h :: l) (h' :: members h') := by
    intro h' hh' hne y hy hy'
    rcases List.mem_cons.mp hy with rfl | hy
    · exact hne (hf.eq_of_mem hh hh' List.mem_cons_self hy')
    · rcases hl y hy with hold | hfresh
      · exact hne (hf.eq_of_mem hh hh' (List.mem_cons_of_mem h hold) hy')
      · exact hfresh h' hh' hy'
  constructor
  · intro h' hh'
    by_cases he : h' = h
    · subst he
      rw [Function.update_self]
      exact hring
    · rw [Function.update_of_ne he]
      exact (hf.ring h' hh').congr (fun y hy => (heq h' hh' he y hy).1)
        fun y hy => (heq h' hh' he y hy).2
  · intro a ha b hb hne
    by_cases hah : a = h
    · subst hah
      rw [Function.update_self, Function.update_of_ne (Ne.symm hne)]
      exact hnew b hb hne
    · rw [Function.update_of_ne hah]
      by_cases hbh : b = h
      · subst hbh
        rw [Function.update_self]
        exact List.disjoint_symm (hnew a ha (Ne.symm hne))
      · rw [Function.update_of_ne hbh]
        exact hf.apart a ha b hb hne

omit [DecidableEq N] in
/-- The last node of a ring: the one before its head. -/
theorem IsRing.prev_head {l : List N} (hr : L.IsRing h l) : L.prev h = l.getLastD h := by
  have hr' : L.IsRing h (l ++ []) := by rwa [List.append_nil]
  exact hr'.prev_headD

/-- The members of a ring are determined by its head. -/
theorem IsRing.unique {l l' : List N} (hr : L.IsRing h l) (hr' : L.IsRing h l') : l = l' := by
  have hr₀ : L.IsRing h ([] ++ l) := hr
  have hr₀' : L.IsRing h ([] ++ l') := hr'
  have hwalk := IsRing.members hr₀ (Nat.le_add_right l.length l'.length)
  have hwalk' := IsRing.members hr₀' (Nat.le_add_left l'.length l.length)
  rw [← hr.next_head] at hwalk
  rw [← hr'.next_head] at hwalk'
  exact hwalk.symm.trans hwalk'

/-- Link a node that is in no ring before the head `h`. -/
theorem RingFamily.insertLast (hf : L.RingFamily heads members) (hh : heads h)
    (hx : ∀ h', heads h' → x ∉ h' :: members h') :
    (L.link (L.prev h) x h).RingFamily heads
      (Function.update members h (members h ++ [x])) := by
  have hlast : L.prev h ∈ h :: members h := by
    rw [(hf.ring h hh).prev_head]
    exact getLastD_mem h (members h)
  refine hf.update hh ?_ ?_ ?_
  · have hr : L.IsRing h (members h ++ []) := by
      rw [List.append_nil]
      exact hf.ring h hh
    have hins := hr.insert (x := x) (by rw [List.append_nil]; exact hx h hh)
    rwa [List.headD_nil, ← (hf.ring h hh).prev_head] at hins
  · intro y hy
    rcases List.mem_append.mp hy with hy | hy
    · exact Or.inl hy
    · rw [List.mem_singleton.mp hy]
      exact Or.inr hx
  · intro h' hh' hne y hy
    have hyx : y ≠ x := fun he => hx h' hh' (he ▸ hy)
    have hyh : y ≠ h := fun he => hne (hf.eq_of_mem hh' hh hy (he ▸ List.mem_cons_self))
    have hyp : y ≠ L.prev h := fun he => hne (hf.eq_of_mem hh' hh hy (he ▸ hlast))
    exact ⟨link_next_of_ne L hyp hyx, link_prev_of_ne L hyh hyx⟩

omit [DecidableEq N] in
/-- The neighbours of a member are in its ring. -/
theorem IsRing.neighbours {l : List N} (hr : L.IsRing h l) (hx : x ∈ l) :
    L.prev x ∈ h :: l ∧ L.next x ∈ h :: l := by
  obtain ⟨l₁, l₂, rfl⟩ := List.append_of_mem hx
  have hprev : L.prev x = l₁.getLastD h := hr.prev_headD
  have hnext : L.next x = l₂.headD h := hr.next_mem
  constructor
  · rw [hprev]
    rcases List.mem_cons.mp (getLastD_mem h l₁) with he | hm
    · exact List.mem_cons.mpr (Or.inl he)
    · exact List.mem_cons_of_mem h (List.mem_append_left _ hm)
  · rw [hnext]
    cases l₂ with
    | nil => exact List.mem_cons_self
    | cons y l => simp

omit [DecidableEq N] in
/-- A member is not its own successor. -/
theorem IsRing.next_ne {l : List N} (hr : L.IsRing h l) (hx : x ∈ l) : L.next x ≠ x := by
  obtain ⟨l₁, l₂, rfl⟩ := List.append_of_mem hx
  obtain ⟨hh, hnd⟩ := List.nodup_cons.mp hr.nodup
  rw [hr.next_mem]
  cases l₂ with
  | nil => exact fun he => hh (he ▸ hx)
  | cons y l =>
      have hxy : x ∉ y :: l := (List.nodup_cons.mp (List.nodup_append.mp hnd).2.1).1
      exact fun he => hxy (he ▸ List.mem_cons_self)

omit [DecidableEq N] in
/-- A walk along `next` stays in the ring. -/
theorem IsRing.iterate_mem {l : List N} (hr : L.IsRing h l) (n : Nat) :
    L.next^[n] h ∈ h :: l := by
  induction n with
  | zero => exact List.mem_cons_self
  | succ n ih =>
      rw [Function.iterate_succ_apply']
      rcases List.mem_cons.mp ih with he | hin
      · rw [he, hr.next_head]
        cases l with
        | nil => exact List.mem_cons_self
        | cons y l => simp
      · exact (hr.neighbours hin).2

omit [DecidableEq N] in
/-- A walk along a path comes to its last node, in every heap that keeps `next`
of the nodes before it. -/
theorem Path.iterate {a : N} {l : List N} (hp : L.Path a (l ++ [x]))
    (hnext : ∀ y ∈ a :: l, L'.next y = L.next y) : L'.next^[l.length + 1] a = x := by
  have hfirst : L'.next a = L.next a := hnext a List.mem_cons_self
  induction l generalizing a with
  | nil => exact hfirst.trans hp.1.1
  | cons b l ih =>
      have hb : L.next a = b := hp.1.1
      rw [List.length_cons, Function.iterate_succ_apply, hfirst, hb]
      have htail : ∀ y ∈ b :: l, L'.next y = L.next y := fun y hy =>
        hnext y (List.mem_cons_of_mem a hy)
      exact ih hp.2 htail (htail b List.mem_cons_self)

omit [DecidableEq N] in
/-- The part of a ring up to one of its members. -/
theorem IsRing.path_mem {l₁ l₂ : List N} (hr : L.IsRing h (l₁ ++ x :: l₂)) :
    L.Path h (l₁ ++ [x]) := by
  have hp := hr.path
  have hsplit : l₁ ++ x :: l₂ ++ [h] = (l₁ ++ [x]) ++ (l₂ ++ [h]) := by simp
  rw [hsplit, path_append] at hp
  exact hp.1

/-- Unlink a member of the ring at `h`. -/
theorem RingFamily.remove (hf : L.RingFamily heads members) (hh : heads h)
    (hx : x ∈ members h) :
    (L.unlink x).RingFamily heads (Function.update members h ((members h).erase x)) := by
  have hring := hf.ring h hh
  obtain ⟨hprev, hnext⟩ := hring.neighbours hx
  refine hf.update hh ?_ (fun y hy => Or.inl (List.mem_of_mem_erase hy)) ?_
  · obtain ⟨l₁, l₂, hsplit⟩ := List.append_of_mem hx
    rw [hsplit] at hring ⊢
    have hx₁ : x ∉ l₁ := by
      have hnd := (List.nodup_cons.mp hring.nodup).2
      exact fun hm => (List.nodup_append.mp hnd).2.2 x hm x List.mem_cons_self rfl
    rw [List.erase_append_right _ hx₁, List.erase_cons_head]
    exact hring.remove
  · intro h' hh' hne y hy
    have hin : ∀ z ∈ h :: members h, y ≠ z := fun z hz he =>
      hne (hf.eq_of_mem hh' hh hy (he ▸ hz))
    have hyx : y ≠ x := hin x (List.mem_cons_of_mem h hx)
    exact ⟨unlink_next_of_ne L (hin _ hprev) hyx, unlink_prev_of_ne L (hin _ hnext) hyx⟩

/-- Linking a node before a head leaves the nodes that are in no ring
alone. -/
theorem RingFamily.insertLast_next (hf : L.RingFamily heads members) (hh : heads h) {y : N}
    (hy : ∀ h', heads h' → y ∉ h' :: members h') (hyx : y ≠ x) :
    (L.link (L.prev h) x h).next y = L.next y := by
  refine link_next_of_ne L (fun he => hy h hh ?_) hyx
  rw [he, (hf.ring h hh).prev_head]
  exact getLastD_mem h (members h)

/-- So does unlinking a member. -/
theorem RingFamily.remove_next (hf : L.RingFamily heads members) (hh : heads h)
    (hx : x ∈ members h) {y : N} (hy : ∀ h', heads h' → y ∉ h' :: members h') :
    (L.unlink x).next y = L.next y := by
  refine unlink_next_of_ne L (fun he => hy h hh ?_) fun he => hy h hh ?_
  · exact he ▸ ((hf.ring h hh).neighbours hx).1
  · exact he ▸ List.mem_cons_of_mem h hx

/-- A node that is in no ring, linked to itself, heads an empty one. -/
theorem RingFamily.addHead (hf : L.RingFamily heads members)
    (hx : ∀ h', heads h' → x ∉ h' :: members h') :
    ((L.setNext x x).setPrev x x).RingFamily (fun h => heads h ∨ h = x)
      (Function.update members x []) := by
  have hne : ∀ h', heads h' → h' ≠ x := fun h' hh' he => hx h' hh' (he ▸ List.mem_cons_self)
  have hold : ∀ h', heads h' → Function.update members x [] h' = members h' := fun h' hh' =>
    Function.update_of_ne (hne h' hh') _ _
  constructor
  · rintro h (hh | rfl)
    · rw [hold h hh]
      refine (hf.ring h hh).congr (fun y hy => ?_) fun y hy => ?_
      · have hyx : y ≠ x := fun he => hx h hh (he ▸ hy)
        simp [setNext, setPrev, hyx]
      · have hyx : y ≠ x := fun he => hx h hh (he ▸ hy)
        simp [setNext, setPrev, hyx]
    · rw [Function.update_self]
      apply isRing_nil <;> simp [setNext, setPrev]
  · have hx' : ∀ h', heads h' → List.Disjoint [x] (h' :: members h') := fun h' hh' =>
      List.singleton_disjoint.mpr (hx h' hh')
    rintro a (ha | rfl) b (hb | rfl) hab
    · rw [hold a ha, hold b hb]
      exact hf.apart a ha b hb hab
    · rw [hold a ha, Function.update_self]
      exact List.disjoint_symm (hx' a ha)
    · rw [hold b hb, Function.update_self]
      exact hx' b hb
    · exact absurd rfl hab

end Links

end ACoral.Lib
