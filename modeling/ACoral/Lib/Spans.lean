import Mathlib.Data.List.Pairwise
import Mathlib.Data.List.Sort
import Mathlib.Order.Lattice

/-!
# `ACoral.Lib.Spans`: half-open spans and the list of their ends

A span is a pair of nodes, a start and a stop, and `key` gives the place of
a node in a linear order. The span covers the places from its start up to
but not including its stop. `endpoints` lists the nodes of spans one after
the other.

- `exists_sorted`: spans that do not touch have an order in which the list
  of their nodes ascends.
- `eq_endpoints_of_sorted`: every ascending list of the nodes is that one.
- `apart_of_covers`: if an ascending list of the nodes, read as start, stop,
  start, stop and so on, covers what the spans cover, then no two of the
  spans touch.
-/

set_option autoImplicit false

namespace ACoral.Lib

universe u v

variable {N : Type u} {α : Type v} [LinearOrder α] {key : N → α}

/-- The nodes of spans. -/
def endpoints (spans : List (N × N)) : List N := spans.flatMap fun p => [p.1, p.2]

@[simp] theorem endpoints_nil : endpoints ([] : List (N × N)) = [] := rfl

@[simp] theorem endpoints_cons (p : N × N) (spans : List (N × N)) :
    endpoints (p :: spans) = p.1 :: p.2 :: endpoints spans := rfl

theorem mem_endpoints {spans : List (N × N)} {x : N} :
    x ∈ endpoints spans ↔ ∃ p ∈ spans, x = p.1 ∨ x = p.2 := by
  simp [endpoints]

/-- A list of even length is the list of the nodes of spans. -/
theorem exists_endpoints : ∀ {l : List N}, l.length % 2 = 0 → ∃ spans, l = endpoints spans
  | [],          _     => ⟨[], rfl⟩
  | [_],         heven => by simp at heven
  | x :: y :: l, heven => by
      obtain ⟨spans, rfl⟩ := exists_endpoints (l := l) (by rw [List.length_cons, List.length_cons] at heven; omega)
      exact ⟨(x, y) :: spans, rfl⟩

theorem length_endpoints (spans : List (N × N)) : (endpoints spans).length = 2 * spans.length := by
  induction spans with
  | nil => rfl
  | cons p spans ih =>
      rw [endpoints_cons, List.length_cons, List.length_cons, ih, List.length_cons]
      omega

/-- The spans cover the place `t`. -/
def Covers (key : N → α) (spans : List (N × N)) (t : α) : Prop :=
  ∃ p ∈ spans, key p.1 ≤ t ∧ t < key p.2

/-- Neither overlap nor touch. -/
def Apart (key : N → α) (p q : N × N) : Prop := key p.2 < key q.1 ∨ key q.2 < key p.1

theorem Apart.symm {p q : N × N} (h : Apart key p q) : Apart key q p := Or.symm h

/-! ### Spans that are apart -/

/-- The nodes of spans each of which ends before the next one starts
ascend. -/
theorem pairwise_endpoints {spans : List (N × N)} (hlt : ∀ p ∈ spans, key p.1 < key p.2)
    (horder : spans.Pairwise fun p q => key p.2 < key q.1) :
    (endpoints spans).Pairwise fun x y => key x < key y := by
  induction spans with
  | nil => exact List.Pairwise.nil
  | cons p spans ih =>
      obtain ⟨hp, hrest⟩ := List.pairwise_cons.mp horder
      have hpp := hlt p List.mem_cons_self
      have hstop : ∀ y ∈ endpoints spans, key p.2 < key y := fun y hy => by
        obtain ⟨q, hq, rfl | rfl⟩ := mem_endpoints.mp hy
        · exact hp q hq
        · exact (hp q hq).trans (hlt q (List.mem_cons_of_mem p hq))
      rw [endpoints_cons, List.pairwise_cons, List.pairwise_cons]
      refine ⟨fun y hy => ?_, hstop, ih (fun q hq => hlt q (List.mem_cons_of_mem p hq)) hrest⟩
      rcases List.mem_cons.mp hy with rfl | hy
      · exact hpp
      · exact hpp.trans (hstop y hy)

/-- Spans that are apart can be put in order. -/
theorem exists_sorted {spans : List (N × N)} (hlt : ∀ p ∈ spans, key p.1 < key p.2)
    (hapart : spans.Pairwise (Apart key)) :
    ∃ sorted, sorted.Perm spans ∧ (endpoints sorted).Pairwise fun x y => key x < key y := by
  classical
  let r : N × N → N × N → Prop := fun p q => key p.1 ≤ key q.1
  have : Std.Total r := ⟨fun p q => le_total (key p.1) (key q.1)⟩
  have : IsTrans (N × N) r := ⟨fun p q s hpq hqs => le_trans hpq hqs⟩
  have hperm := spans.perm_insertionSort r
  have hlt' : ∀ p ∈ spans.insertionSort r, key p.1 < key p.2 := fun p hp =>
    hlt p (hperm.mem_iff.mp hp)
  refine ⟨spans.insertionSort r, hperm, pairwise_endpoints hlt' ?_⟩
  have hsorted : (spans.insertionSort r).Pairwise r := List.pairwise_insertionSort r spans
  have hapart' : (spans.insertionSort r).Pairwise (Apart key) :=
    hperm.symm.pairwise hapart fun h => h.symm
  refine (hsorted.and hapart').imp_of_mem fun {p q} hp hq hpq => hpq.2.resolve_right fun hback => ?_
  -- the one that starts first does not end last
  exact absurd (hlt' q hq) (not_lt.mpr (hback.le.trans hpq.1))

/-- An ascending list of nodes with different keys is determined by its
members. -/
theorem eq_endpoints_of_sorted {spans : List (N × N)} {l : List N}
    (hspans : (endpoints spans).Pairwise fun x y => key x < key y)
    (hsorted : l.Pairwise fun x y => key x ≤ key y) (hperm : l.Perm (endpoints spans)) :
    l = endpoints spans := by
  have hsymm : Std.Symm fun x y : N => key x ≠ key y := ⟨fun _ _ h => h.symm⟩
  have hne : (endpoints spans).Pairwise fun x y => key x ≠ key y := hspans.imp fun h => h.ne
  have hinj : ∀ x ∈ endpoints spans, ∀ y ∈ endpoints spans, key x = key y → x = y :=
    fun x hx y hy hxy => by
      by_contra hxy'
      exact hne.forall hx hy hxy' hxy
  exact hperm.eq_of_pairwise (fun a b ha hb hab hba =>
    hinj a (hperm.mem_iff.mp ha) b hb (le_antisymm hab hba)) hsorted (hspans.imp fun h => h.le)

/-! ### Covering -/

/-- The stop of a span of an ascending list is not covered. -/
theorem not_covers_stop {spans : List (N × N)}
    (hspans : (endpoints spans).Pairwise fun x y => key x < key y) {p : N × N} (hp : p ∈ spans) :
    ¬ Covers key spans (key p.2) := by
  induction spans with
  | nil => simp at hp
  | cons q spans ih =>
      rw [endpoints_cons, List.pairwise_cons, List.pairwise_cons] at hspans
      obtain ⟨hfirst, hsecond, hrest⟩ := hspans
      rintro ⟨s, hs, hstart, hstop⟩
      rcases List.mem_cons.mp hp with rfl | hp'
      · rcases List.mem_cons.mp hs with rfl | hs'
        · exact lt_irrefl _ hstop
        · exact absurd (hsecond s.1 (mem_endpoints.mpr ⟨s, hs', Or.inl rfl⟩)) (not_lt.mpr hstart)
      · rcases List.mem_cons.mp hs with rfl | hs'
        · exact lt_asymm hstop (hsecond p.2 (mem_endpoints.mpr ⟨p, hp', Or.inr rfl⟩))
        · exact ih hrest hp' ⟨s, hs', hstart, hstop⟩

/-- Before the start of a span of an ascending list there is a place, not
before a given one, that is not covered. -/
theorem exists_not_covers_start {spans : List (N × N)}
    (hspans : (endpoints spans).Pairwise fun x y => key x < key y) {p : N × N} (hp : p ∈ spans)
    {a : α} (ha : a < key p.1) : ∃ t, a ≤ t ∧ t < key p.1 ∧ ¬ Covers key spans t := by
  induction spans generalizing a with
  | nil => simp at hp
  | cons q spans ih =>
      have hall := hspans
      rw [endpoints_cons, List.pairwise_cons, List.pairwise_cons] at hspans
      obtain ⟨hfirst, hsecond, hrest⟩ := hspans
      rcases List.mem_cons.mp hp with rfl | hp
      · -- the first span: nothing is covered before it
        refine ⟨a, le_rfl, ha, ?_⟩
        rintro ⟨s, hs, hstart, -⟩
        rcases List.mem_cons.mp hs with rfl | hs
        · exact absurd ha (not_lt.mpr hstart)
        · exact absurd (ha.trans (hfirst s.1 (List.mem_cons_of_mem _
            (mem_endpoints.mpr ⟨s, hs, Or.inl rfl⟩)))) (not_lt.mpr hstart)
      · have hq2 : key q.2 < key p.1 := hsecond p.1 (mem_endpoints.mpr ⟨p, hp, Or.inl rfl⟩)
        obtain ⟨t, hat, htp, hnot⟩ := ih hrest hp (max_lt ha hq2)
        refine ⟨t, (le_max_left _ _).trans hat, htp, ?_⟩
        rintro ⟨s, hs, hstart, hstop⟩
        rcases List.mem_cons.mp hs with rfl | hs
        · exact absurd hstop (not_lt.mpr ((le_max_right _ _).trans hat))
        · exact hnot ⟨s, hs, hstart, hstop⟩

/-- If the list of the nodes of `spans`, ascending and read as `sorted`,
covers what `spans` cover, then no two of `spans` touch. -/
theorem apart_of_covers {spans sorted : List (N × N)} (hlt : ∀ p ∈ spans, key p.1 < key p.2)
    (hsorted : (endpoints sorted).Pairwise fun x y => key x < key y)
    (hperm : (endpoints sorted).Perm (endpoints spans))
    (hcover : ∀ t, Covers key sorted t ↔ Covers key spans t) : spans.Pairwise (Apart key) := by
  -- a span that starts inside of another one
  have hinside : ∀ p ∈ spans, ∀ q ∈ spans, key p.1 < key q.1 → key q.1 < key p.2 → False := by
    intro p hp q hq hpq hqp
    have hmem : q.1 ∈ endpoints sorted :=
      hperm.mem_iff.mpr (mem_endpoints.mpr ⟨q, hq, Or.inl rfl⟩)
    have hcov : ∀ t, key p.1 ≤ t → t < key p.2 → Covers key sorted t := fun t ht ht' =>
      (hcover t).mpr ⟨p, hp, ht, ht'⟩
    obtain ⟨s, hs, heq | heq⟩ := mem_endpoints.mp hmem
    · obtain ⟨t, hpt, htq, hnot⟩ := exists_not_covers_start hsorted hs (heq ▸ hpq)
      exact hnot (hcov t hpt ((heq ▸ htq : t < key q.1).trans hqp))
    · exact not_covers_stop hsorted hs (heq ▸ hcov (key q.1) hpq.le hqp)
  -- the nodes have different keys
  have hdistinct : (endpoints spans).Pairwise fun x y => key x ≠ key y :=
    hperm.pairwise (hsorted.imp fun h => h.ne) fun h => h.symm
  have hpair : ∀ p ∈ spans, ∀ q ∈ spans, key p.1 ≠ key q.1 → key p.2 ≠ key q.1 →
      key q.2 ≠ key p.1 → Apart key p q := by
    intro p hp q hq hstart hpq hqp
    by_contra hnot
    unfold Apart at hnot
    rw [not_or, not_lt, not_lt] at hnot
    rcases lt_or_gt_of_ne hstart with hlt' | hlt'
    · exact hinside p hp q hq hlt' (lt_of_le_of_ne hnot.1 hpq.symm)
    · exact hinside q hq p hp hlt' (lt_of_le_of_ne hnot.2 hqp.symm)
  clear hcover hperm hsorted
  induction spans with
  | nil => exact List.Pairwise.nil
  | cons p spans ih =>
      rw [endpoints_cons, List.pairwise_cons, List.pairwise_cons] at hdistinct
      obtain ⟨hfirst, hsecond, hrest⟩ := hdistinct
      refine List.pairwise_cons.mpr ⟨fun q hq => ?_, ih (fun q hq => hlt q (List.mem_cons_of_mem p hq))
        (fun a ha b hb => hinside a (List.mem_cons_of_mem p ha) b (List.mem_cons_of_mem p hb)) hrest
        fun a ha b hb => hpair a (List.mem_cons_of_mem p ha) b (List.mem_cons_of_mem p hb)⟩
      have hq1 : q.1 ∈ endpoints spans := mem_endpoints.mpr ⟨q, hq, Or.inl rfl⟩
      have hq2 : q.2 ∈ endpoints spans := mem_endpoints.mpr ⟨q, hq, Or.inr rfl⟩
      exact hpair p List.mem_cons_self q (List.mem_cons_of_mem p hq)
        (hfirst q.1 (List.mem_cons_of_mem _ hq1)) (hsecond q.1 hq1)
        (hfirst q.2 (List.mem_cons_of_mem _ hq2)).symm

end ACoral.Lib
