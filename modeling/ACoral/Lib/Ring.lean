import Mathlib.Data.List.Nodup
import Mathlib.Logic.Function.Basic
import Mathlib.Tactic.Common

/-!
# `ACoral.Lib.Ring`: circular doubly linked lists in a heap of nodes

`Links N` is a heap of list nodes: each node has a `next` and a `prev`
pointer. `L.IsRing h l` says that `h` heads a circular list whose
members, in the order of `next`, are `l`: `next` and `prev` are inverse
along the ring and no node occurs twice. Many rings can live in one
heap.

* `IsRing.insert`: linking a fresh node between two neighbours of a ring
  inserts it there.
* `IsRing.remove`: unlinking a member takes it out, and leaves it linked
  to itself.
* `IsRing.congr`: a ring only depends on the pointers of its own nodes,
  so work on one ring keeps every disjoint one. `link_next_of_ne` and
  its neighbours say which pointers an operation leaves alone.

The proofs go through `Path`, the open part of a ring from a node
through a list of further nodes. A ring is a path that comes back.
-/

set_option autoImplicit false

namespace ACoral.Lib

universe u

/-- The pointers of a heap of list nodes. -/
structure Links (N : Type u) where
  next : N → N
  prev : N → N

namespace Links

variable {N : Type u}

/-- `b` follows `a`. -/
def Adj (L : Links N) (a b : N) : Prop := L.next a = b ∧ L.prev b = a

/-- The nodes of the list follow one another, from `a` on. -/
def Path (L : Links N) : N → List N → Prop
  | _, []     => True
  | a, x :: l => L.Adj a x ∧ L.Path x l

/-- `h` heads a ring with the members `l`. -/
structure IsRing (L : Links N) (h : N) (l : List N) : Prop where
  nodup : (h :: l).Nodup
  path : L.Path h (l ++ [h])

/-! ### Paths -/

/-- A path through two lists is a path through the first and, from its
last node, a path through the second. -/
theorem path_append (L : Links N) (a : N) (l₁ l₂ : List N) :
    L.Path a (l₁ ++ l₂) ↔ L.Path a l₁ ∧ L.Path (l₁.getLastD a) l₂ := by
  induction l₁ generalizing a with
  | nil => simp [Path]
  | cons x l ih =>
      rw [List.cons_append]
      simp only [Path, ih x, and_assoc, List.getLastD_cons]

/-- A path survives in a heap that keeps `next` up to its last node and
`prev` from its second. -/
theorem Path.congr {L L' : Links N} {a : N} {l : List N} (h : L.Path a l)
    (hnext : ∀ x ∈ (a :: l).dropLast, L'.next x = L.next x)
    (hprev : ∀ y ∈ l, L'.prev y = L.prev y) : L'.Path a l := by
  induction l generalizing a with
  | nil => trivial
  | cons x l ih =>
      obtain ⟨⟨hn, hp⟩, hrest⟩ := h
      rw [List.dropLast_cons_cons] at hnext
      refine ⟨⟨?_, ?_⟩, ih hrest ?_ ?_⟩
      · rw [hnext a (List.mem_cons_self), hn]
      · rw [hprev x (List.mem_cons_self), hp]
      · exact fun y hy => hnext y (List.mem_cons_of_mem _ hy)
      · exact fun y hy => hprev y (List.mem_cons_of_mem _ hy)

/-! ### Rings -/

/-- A ring depends on the pointers of its nodes only. -/
theorem IsRing.congr {L L' : Links N} {h : N} {l : List N} (hr : L.IsRing h l)
    (hnext : ∀ x ∈ h :: l, L'.next x = L.next x)
    (hprev : ∀ x ∈ h :: l, L'.prev x = L.prev x) : L'.IsRing h l := by
  refine ⟨hr.nodup, hr.path.congr (fun x hx => hnext x ?_) (fun y hy => hprev y ?_)⟩
  · rw [← List.cons_append, List.dropLast_concat] at hx
    exact hx
  · simp only [List.mem_append, List.mem_singleton] at hy
    exact List.mem_cons.mpr (hy.symm.imp id id)

/-- A node linked to itself is an empty ring. -/
theorem isRing_nil {L : Links N} {h : N} (hn : L.next h = h) (hp : L.prev h = h) :
    L.IsRing h [] :=
  ⟨List.nodup_singleton h, ⟨hn, hp⟩, trivial⟩

/-- Two neighbours of a ring: the last node before a place, and the
first node after it. -/
theorem IsRing.adj {L : Links N} {h : N} {l₁ l₂ : List N} (hr : L.IsRing h (l₁ ++ l₂)) :
    L.Adj (l₁.getLastD h) (l₂.headD h) := by
  have hp := hr.path
  rw [List.append_assoc, path_append] at hp
  cases l₂ with
  | nil => exact hp.2.1
  | cons x l => exact hp.2.1

/-- The first member is next to the head. -/
theorem IsRing.next_head {L : Links N} {h : N} {l : List N} (hr : L.IsRing h l) :
    L.next h = l.headD h :=
  (@IsRing.adj N L h [] l hr).1

/-- The node after a member. -/
theorem IsRing.next_mem {L : Links N} {h x : N} {l₁ l₂ : List N}
    (hr : L.IsRing h (l₁ ++ x :: l₂)) : L.next x = l₂.headD h := by
  have hr' : L.IsRing h ((l₁ ++ [x]) ++ l₂) := by simpa using hr
  have hadj := hr'.adj
  rw [List.getLastD_concat] at hadj
  exact hadj.1

/-- The node before the rest of a ring. -/
theorem IsRing.prev_headD {L : Links N} {h : N} {l₁ l₂ : List N}
    (hr : L.IsRing h (l₁ ++ l₂)) : L.prev (l₂.headD h) = l₁.getLastD h :=
  hr.adj.2

/-- The last node of a list is the default or a member. -/
theorem getLastD_mem (h : N) (l : List N) : l.getLastD h ∈ h :: l := by
  cases l with
  | nil => simp
  | cons x l =>
      rw [List.getLastD_cons]
      exact List.mem_cons_of_mem _ List.getLastD_mem_cons

/-! ### Walks -/

section Walk

variable [DecidableEq N]

/-- The nodes of a ring from `x` up to its head, at most as many as
`fuel`. -/
def members (L : Links N) (h : N) : (fuel : Nat) → N → List N
  | 0,        _ => []
  | fuel + 1, x => if x = h then [] else x :: L.members h fuel (L.next x)

/-- The walk over a ring gives its members. The induction is on the rest of
the ring. -/
theorem IsRing.members {L : Links N} {h : N} {fuel : Nat} {l₁ l₂ : List N}
    (hr : L.IsRing h (l₁ ++ l₂)) (hfuel : l₂.length ≤ fuel) :
    L.members h fuel (l₂.headD h) = l₂ := by
  induction l₂ generalizing fuel l₁ with
  | nil => cases fuel <;> simp [Links.members]
  | cons y l ih =>
      obtain ⟨n, rfl⟩ := Nat.exists_eq_succ_of_ne_zero (Nat.ne_zero_of_lt hfuel)
      have hyh : y ≠ h := fun he => (List.nodup_cons.mp hr.nodup).1 (by simp [he])
      have hnext : L.next y = l.headD h := hr.next_mem
      have hr' : L.IsRing h ((l₁ ++ [y]) ++ l) := by simpa using hr
      rw [List.headD_cons, Links.members, if_neg hyh, hnext, ih hr' (by simpa using hfuel)]

end Walk

/-! ### Assignments -/

variable [DecidableEq N]

/-- `a->next = b`. -/
def setNext (L : Links N) (a b : N) : Links N := { L with next := Function.update L.next a b }

/-- `a->prev = b`. -/
def setPrev (L : Links N) (a b : N) : Links N := { L with prev := Function.update L.prev a b }

/-- Link `x` between `p` and `q`. -/
def link (L : Links N) (p x q : N) : Links N :=
  (((L.setPrev x p).setNext x q).setPrev q x).setNext p x

/-- Take `x` out of its ring and link it to itself. -/
def unlink (L : Links N) (x : N) : Links N :=
  (((L.setNext (L.prev x) (L.next x)).setPrev (L.next x) (L.prev x)).setNext x x).setPrev x x

theorem link_next_of_ne (L : Links N) {p x q a : N} (hp : a ≠ p) (hx : a ≠ x) :
    (L.link p x q).next a = L.next a := by
  simp [link, setNext, setPrev, hp, hx]

theorem link_prev_of_ne (L : Links N) {p x q a : N} (hq : a ≠ q) (hx : a ≠ x) :
    (L.link p x q).prev a = L.prev a := by
  simp [link, setNext, setPrev, hq, hx]

theorem unlink_next_of_ne (L : Links N) {x a : N} (hp : a ≠ L.prev x) (hx : a ≠ x) :
    (L.unlink x).next a = L.next a := by
  simp [unlink, setNext, setPrev, hp, hx]

theorem unlink_prev_of_ne (L : Links N) {x a : N} (hn : a ≠ L.next x) (hx : a ≠ x) :
    (L.unlink x).prev a = L.prev a := by
  simp [unlink, setNext, setPrev, hn, hx]

theorem link_adj_left (L : Links N) {p x q : N} (hqx : q ≠ x) :
    (L.link p x q).Adj p x := by
  simp [Adj, link, setNext, setPrev, Ne.symm hqx]

theorem link_adj_right (L : Links N) {p x q : N} (hpx : p ≠ x) :
    (L.link p x q).Adj x q := by
  simp [Adj, link, setNext, setPrev, Ne.symm hpx]

theorem unlink_adj (L : Links N) {x : N} (hp : L.prev x ≠ x) (hn : L.next x ≠ x) :
    (L.unlink x).Adj (L.prev x) (L.next x) := by
  simp [Adj, unlink, setNext, setPrev, hp, hn]

/-- An unlinked node is linked to itself. -/
theorem unlink_self (L : Links N) (x : N) : (L.unlink x).IsRing x [] := by
  apply isRing_nil <;> simp [unlink, setNext, setPrev]

/-! ### Insertion and removal -/

omit [DecidableEq N] in
/-- In a list without repetition the last node of the front part and the
nodes of the back part differ from the others of their part. -/
private theorem ring_split_ne {h : N} {l₁ l₂ : List N} (hnd : (h :: (l₁ ++ l₂)).Nodup) :
    (∀ x ∈ (h :: l₁).dropLast, x ≠ l₁.getLastD h) ∧
    (∀ x ∈ l₁, x ≠ l₂.headD h) ∧
    (∀ x ∈ l₂, x ≠ l₁.getLastD h) ∧
    (∀ x ∈ (l₂ ++ [h]).tail, x ≠ l₂.headD h) := by
  rw [← List.cons_append] at hnd
  obtain ⟨hn1, hn2, hdisj⟩ := List.nodup_append.mp hnd
  refine ⟨fun x hx he => ?_, fun x hx he => ?_, fun x hx he => ?_, fun x hx he => ?_⟩
  · have hsplit : h :: l₁ = (h :: l₁).dropLast ++ [l₁.getLastD h] := by
      conv_lhs => rw [← List.dropLast_append_getLast (List.cons_ne_nil h l₁)]
      rw [List.getLast_eq_getLastD]
    rw [hsplit] at hn1
    exact (List.nodup_append.mp hn1).2.2 x hx (l₁.getLastD h) (List.mem_singleton_self _) he
  · cases l₂ with
    | nil => exact (List.nodup_cons.mp hn1).1 ((show x = h from he) ▸ hx)
    | cons y l => exact hdisj x (List.mem_cons_of_mem _ hx) y List.mem_cons_self he
  · exact hdisj _ (getLastD_mem h l₁) x hx he.symm
  · cases l₂ with
    | nil => simp at hx
    | cons y l =>
        simp only [List.cons_append, List.tail_cons, List.mem_append, List.mem_singleton] at hx
        simp only [List.headD_cons] at he
        rcases hx with hx | hx
        · exact (List.nodup_cons.mp hn2).1 (he ▸ hx)
        · exact hdisj h List.mem_cons_self y List.mem_cons_self (hx ▸ he)

/-- Linking a fresh node between two neighbours inserts it there. -/
theorem IsRing.insert {L : Links N} {h x : N} {l₁ l₂ : List N} (hr : L.IsRing h (l₁ ++ l₂))
    (hx : x ∉ h :: (l₁ ++ l₂)) :
    (L.link (l₁.getLastD h) x (l₂.headD h)).IsRing h (l₁ ++ x :: l₂) := by
  obtain ⟨hne1, hne2, hne3, hne4⟩ := ring_split_ne hr.nodup
  have hp := hr.path
  rw [List.append_assoc, path_append] at hp
  have hxne : ∀ y ∈ h :: (l₁ ++ l₂), y ≠ x := fun y hy he => hx (he ▸ hy)
  have hlast : l₁.getLastD h ≠ x := by
    have hmem := getLastD_mem h l₁
    rw [List.mem_cons] at hmem
    exact hxne _ (List.mem_cons.mpr (hmem.imp id fun hm => List.mem_append_left _ hm))
  have hhead : l₂.headD h ≠ x := by
    cases l₂ with
    | nil => exact hxne h List.mem_cons_self
    | cons y l => exact hxne y (by simp)
  constructor
  · rw [(List.perm_middle (a := x)).cons h |>.nodup_iff]
    simp only [List.mem_cons, not_or] at hx
    have hnd := List.nodup_cons.mp hr.nodup
    refine List.nodup_cons.mpr ⟨?_, List.nodup_cons.mpr ⟨hx.2, hnd.2⟩⟩
    exact fun hm => (List.mem_cons.mp hm).elim (fun he => hx.1 he.symm) hnd.1
  · rw [List.append_assoc, path_append]
    constructor
    · -- the part before the place
      refine hp.1.congr (fun y hy => ?_) (fun y hy => ?_)
      · refine link_next_of_ne L (hne1 y hy) (hxne y ?_)
        rcases List.mem_cons.mp (List.dropLast_subset _ hy) with he | hm
        · exact he ▸ List.mem_cons_self
        · exact List.mem_cons_of_mem _ (List.mem_append_left _ hm)
      · exact link_prev_of_ne L (hne2 y hy)
          (hxne y (List.mem_cons_of_mem _ (List.mem_append_left _ hy)))
    · -- the two new links, and the part after the place
      refine ⟨link_adj_left L hhead, ?_⟩
      cases l₂ with
      | nil => exact ⟨link_adj_right L hlast, trivial⟩
      | cons y l =>
          refine ⟨link_adj_right L hlast, hp.2.2.congr (fun z hz => ?_) (fun z hz => ?_)⟩
          · have hz' : z ∈ y :: l := by
              have hz2 : z ∈ ((y :: l) ++ [h]).dropLast := hz
              rwa [List.dropLast_concat] at hz2
            exact link_next_of_ne L (hne3 z hz')
              (hxne z (List.mem_cons_of_mem _ (List.mem_append_right _ hz')))
          · refine link_prev_of_ne L (hne4 z hz) (hxne z ?_)
            rcases List.mem_append.mp hz with hz | hz
            · simp [hz]
            · simp [List.mem_singleton.mp hz]

/-- Unlinking a member takes it out of its ring. -/
theorem IsRing.remove {L : Links N} {h x : N} {l₁ l₂ : List N}
    (hr : L.IsRing h (l₁ ++ x :: l₂)) : (L.unlink x).IsRing h (l₁ ++ l₂) := by
  have hprev : L.prev x = l₁.getLastD h := hr.prev_headD
  have hnext : L.next x = l₂.headD h := hr.next_mem
  have hnd' : (x :: h :: (l₁ ++ l₂)).Nodup := by
    have hperm : (h :: (l₁ ++ x :: l₂)).Perm (x :: h :: (l₁ ++ l₂)) :=
      (List.perm_middle.cons h).trans (List.Perm.swap x h _)
    exact hperm.nodup_iff.mp hr.nodup
  obtain ⟨hx, hnd⟩ := List.nodup_cons.mp hnd'
  obtain ⟨hne1, hne2, hne3, hne4⟩ := ring_split_ne hnd
  have hxne : ∀ y ∈ h :: (l₁ ++ l₂), y ≠ x := fun y hy he => hx (he ▸ hy)
  have hlast : l₁.getLastD h ∈ h :: (l₁ ++ l₂) := by
    rcases List.mem_cons.mp (getLastD_mem h l₁) with he | hm
    · exact he.symm ▸ List.mem_cons_self
    · exact List.mem_cons_of_mem _ (List.mem_append_left _ hm)
  have hhead : l₂.headD h ∈ h :: (l₁ ++ l₂) := by
    cases l₂ with
    | nil => exact List.mem_cons_self
    | cons y l => simp
  have hp := hr.path
  rw [List.append_assoc, path_append] at hp
  refine ⟨hnd, ?_⟩
  rw [List.append_assoc, path_append]
  constructor
  · refine hp.1.congr (fun y hy => ?_) (fun y hy => ?_)
    · refine unlink_next_of_ne L (hprev ▸ hne1 y hy) (hxne y ?_)
      rcases List.mem_cons.mp (List.dropLast_subset _ hy) with he | hm
      · exact he ▸ List.mem_cons_self
      · exact List.mem_cons_of_mem _ (List.mem_append_left _ hm)
    · exact unlink_prev_of_ne L (hnext ▸ hne2 y hy)
        (hxne y (List.mem_cons_of_mem _ (List.mem_append_left _ hy)))
  · have hadj := unlink_adj L (x := x) (by rw [hprev]; exact hxne _ hlast)
      (by rw [hnext]; exact hxne _ hhead)
    rw [hprev, hnext] at hadj
    cases l₂ with
    | nil => exact ⟨hadj, trivial⟩
    | cons y l =>
        refine ⟨hadj, hp.2.2.2.congr (fun z hz => ?_) (fun z hz => ?_)⟩
        · have hz' : z ∈ y :: l := by
            have hz2 : z ∈ ((y :: l) ++ [h]).dropLast := hz
            rwa [List.dropLast_concat] at hz2
          exact unlink_next_of_ne L (hprev ▸ hne3 z hz')
            (hxne z (List.mem_cons_of_mem _ (List.mem_append_right _ hz')))
        · refine unlink_prev_of_ne L (hnext ▸ hne4 z hz) (hxne z ?_)
          rcases List.mem_append.mp hz with hz | hz
          · simp [hz]
          · simp [List.mem_singleton.mp hz]

end Links

end ACoral.Lib
