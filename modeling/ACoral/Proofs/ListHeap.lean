import ACoral.Lib.Circles
import ACoral.Lib.GuardedRun
import ACoral.Kernel.Types
import ACoral.Proofs.Queue

/-!
# `ACoral.Proofs.ListHeap`: the list operations on a whole heap

A heap of any number of circular lists is a set of cycles (`Lib.Circles`): the lists that
the kernel's queues head, and the nodes that are in none, each of them alone.

`circlesStep` says what a call is for, on the cycles. `listStep_rel` shows that the calls
of `list.c` do this to the pointers, and return unless a node is added to itself.
`ListOp.Effect` reads one call on the lists as a caller sees them, from any head on.
`listRun_spec` is about every run.
-/

set_option autoImplicit false

namespace ACoral

open Lib (Links Circles Represents run)

variable {N : Type} [DecidableEq N]

/-! ### What a call is for -/

/-- A call on the cycles: a node that is alone goes behind or before another one, a node
that is not leaves its cycle. -/
def circlesStep (R : Circles N) : ListOp N → Option (Circles N)
  | .acoralListAdd new head     =>
      if h : R.of new = ([new] : List N) ∧ new ≠ head then some (R.insertAfter new head h.1 h.2)
      else none
  | .acoralListAddTail new head =>
      if h : R.of new = ([new] : List N) ∧ new ≠ head then some (R.insertBefore new head h.1 h.2)
      else none
  | .acoralListDel entry        =>
      if R.of entry ≠ ([entry] : List N) then some (R.remove entry) else none

variable {L L' : Links N} {R : Circles N} {new head entry : N}

/-- A node alone is not a neighbour of another one. -/
theorem ne_neighbours_of_alone (h : Represents L R) (hnew : R.of new = ([new] : List N))
    (hne : new ≠ head) : new ≠ L.next head ∧ new ≠ L.prev head := by
  obtain ⟨hnext, hprev⟩ := h.alone_iff.mp hnew
  obtain ⟨hinv, hinv'⟩ := h.inverse head
  constructor
  · intro he
    rw [← he, hprev] at hinv
    exact hne hinv
  · intro he
    rw [← he, hnext] at hinv'
    exact hne hinv'

/-- A node that is added to itself takes its own lock twice. -/
theorem acoralListAdd_same (L : Links N) (x : N) : acoralListAdd L x x = none := by
  simp [acoralListAdd]

theorem acoralListAddTail_same (L : Links N) (x : N) : acoralListAddTail L x x = none := by
  simp [acoralListAddTail]

/-- The step lemma: a call does to the pointers what it is for. -/
theorem listStep_rel (h : Represents L R) (op : ListOp N) :
    Option.Rel Represents (listStep L op) (circlesStep R op) := by
  cases op with
  | acoralListAdd new head =>
      rw [listStep, circlesStep]
      by_cases hnew : R.of new = ([new] : List N)
      · rw [if_pos (h.alone_iff.mp hnew)]
        by_cases hne : new = head
        · rw [dif_neg fun hand => hand.2 hne, hne, acoralListAdd_same]
          exact Option.Rel.none
        · rw [dif_pos ⟨hnew, hne⟩,
            acoralListAdd_eq hne (ne_neighbours_of_alone h hnew hne).1]
          exact Option.Rel.some (h.insertAfter hnew hne)
      · rw [if_neg fun hself => hnew (h.alone_iff.mpr hself), dif_neg fun hand => hnew hand.1]
        exact Option.Rel.none
  | acoralListAddTail new head =>
      rw [listStep, circlesStep]
      by_cases hnew : R.of new = ([new] : List N)
      · rw [if_pos (h.alone_iff.mp hnew)]
        by_cases hne : new = head
        · rw [dif_neg fun hand => hand.2 hne, hne, acoralListAddTail_same]
          exact Option.Rel.none
        · rw [dif_pos ⟨hnew, hne⟩,
            acoralListAddTail_eq hne (ne_neighbours_of_alone h hnew hne).2]
          exact Option.Rel.some (h.insertBefore hnew hne)
      · rw [if_neg fun hself => hnew (h.alone_iff.mpr hself), dif_neg fun hand => hnew hand.1]
        exact Option.Rel.none
  | acoralListDel entry =>
      rw [listStep, circlesStep]
      by_cases hentry : R.of entry = ([entry] : List N)
      · rw [if_neg fun hnot => hnot (h.alone_iff_next.mp hentry), if_neg fun hnot => hnot hentry]
        exact Option.Rel.none
      · have hlinked : L.next entry ≠ entry := fun he => hentry (h.alone_iff_next.mpr he)
        rw [if_pos hlinked, if_pos hentry]
        have hnext : entry ≠ L.next entry := Ne.symm hlinked
        have hprev : entry ≠ L.prev entry := by
          intro he
          have hinv := (h.inverse entry).2
          rw [← he] at hinv
          exact hentry (h.alone_iff_next.mpr hinv)
        rw [acoralListDel_eq hprev hnext]
        exact Option.Rel.some h.remove

/-! ### What a caller sees -/

/-- The members of the lists before and after a call, from any of their nodes on. -/
def ListOp.Effect : ListOp N → Links N → Links N → Prop
  | .acoralListAdd new head,     L, L' =>
      (∀ l, L.IsRing head l → L'.IsRing head (new :: l)) ∧
      ∀ h l, L.IsRing h l → head ∉ h :: l → h ≠ new → L'.IsRing h l
  | .acoralListAddTail new head, L, L' =>
      (∀ l, L.IsRing head l → L'.IsRing head (l ++ [new])) ∧
      ∀ h l, L.IsRing h l → head ∉ h :: l → h ≠ new → L'.IsRing h l
  | .acoralListDel entry,        L, L' =>
      L'.IsRing entry [] ∧
      (∀ h l₁ l₂, L.IsRing h (l₁ ++ entry :: l₂) → L'.IsRing h (l₁ ++ l₂)) ∧
      ∀ h l, L.IsRing h l → entry ∉ h :: l → L'.IsRing h l

/-- What comes of `listStep_rel` when the call returns. -/
theorem exists_of_listStep (h : Represents L R) {op : ListOp N} (hstep : listStep L op = some L') :
    ∃ R', circlesStep R op = some R' ∧ Represents L' R' := by
  have hrel := listStep_rel h op
  rw [hstep] at hrel
  generalize circlesStep R op = r at hrel
  cases hrel with
  | some hR' => exact ⟨_, rfl, hR'⟩

/-- The two ways of adding a node, as one. -/
theorem insertPair_effect {pair : List N} (h : Represents L R) {hpair : pair.Perm [head, new]}
    {hnew : R.of new = ([new] : List N)} {hne : new ≠ head}
    (h' : Represents L' (R.insertPair new head pair hpair hnew hne)) :
    (∀ l l', L.IsRing head l → ((pair ++ l : List N) : Cycle N) = ((head :: l' : List N) : Cycle N) →
      L'.IsRing head l') ∧
    ∀ y l, L.IsRing y l → head ∉ y :: l → y ≠ new → L'.IsRing y l := by
  constructor
  · intro l l' hl hplace
    rw [h'.isRing_iff, Circles.insertPair_of_head hpair hnew hne (h.isRing_iff.mp hl), hplace]
  · intro y l hl hhead hy
    have hcycle := h.isRing_iff.mp hl
    have hnot : head ∉ R.of y := by rwa [hcycle]
    rw [h'.isRing_iff, Circles.insertPair_of_notMem hpair hnew hne hy hnot, hcycle]

/-- A call that returns has its effect on the lists. -/
theorem listStep_effect (h : Represents L R) {op : ListOp N} (hstep : listStep L op = some L') :
    op.Effect L L' := by
  obtain ⟨R', hR', h'⟩ := exists_of_listStep h hstep
  cases op with
  | acoralListAdd new head =>
      rw [circlesStep] at hR'
      split at hR'
      · obtain rfl := Option.some.inj hR'
        obtain ⟨hhead, hother⟩ := insertPair_effect h h'
        exact ⟨fun l hl => hhead l _ hl rfl, hother⟩
      · cases hR'
  | acoralListAddTail new head =>
      rw [circlesStep] at hR'
      split at hR'
      · obtain rfl := Option.some.inj hR'
        obtain ⟨hhead, hother⟩ := insertPair_effect h h'
        refine ⟨fun l hl => hhead l _ hl ?_, hother⟩
        exact Cycle.coe_eq_coe.mpr (List.isRotated_concat new (head :: l)).symm
      · cases hR'
  | acoralListDel entry =>
      rw [circlesStep] at hR'
      split at hR'
      · obtain rfl := Option.some.inj hR'
        refine ⟨h'.isRing_iff.mpr Circles.remove_of_self, ?_, ?_⟩
        · intro y l₁ l₂ hl
          exact h'.isRing_iff.mpr (Circles.remove_of_mem (h.isRing_iff.mp hl))
        · intro y l hl hentry
          have hcycle := h.isRing_iff.mp hl
          have hnot : entry ∉ R.of y := by rwa [hcycle]
          rw [h'.isRing_iff, Circles.remove_of_notMem hnot, hcycle]
      · cases hR'

/-! ### Runs -/

/-- Take a heap in which every node heads a circular list. Its lists are a set of cycles, and
every run of the operations does on the pointers what it is for on the cycles. It returns
unless a node is added to itself. In the heap it ends in, `next` and `prev` are inverse
everywhere, and each further call has its effect on the list it names alone. -/
theorem listRun_spec (h : ∀ x, ∃ l, L.IsRing x l) (ops : List (ListOp N)) :
    ∃ R, Represents L R ∧
      Option.Rel Represents (run listStep L ops) (run circlesStep R ops) ∧
      ∀ L₁, run listStep L ops = some L₁ →
        (∀ x, L₁.prev (L₁.next x) = x ∧ L₁.next (L₁.prev x) = x) ∧
        ∀ op L₂, listStep L₁ op = some L₂ → op.Effect L₁ L₂ := by
  obtain ⟨R, hR⟩ := Lib.exists_represents h
  have hrel := Lib.run_rel (fun _ _ op hR => listStep_rel hR op) hR ops
  refine ⟨R, hR, hrel, ?_⟩
  intro L₁ hrun
  rw [hrun] at hrel
  generalize run circlesStep R ops = r at hrel
  cases hrel with
  | some h₁ => exact ⟨h₁.inverse, fun op L₂ hstep => listStep_effect h₁ hstep⟩

/-- Three nodes that are linked to themselves: two are added to the first one, and one is
deleted. -/
theorem listRun_spec_three :
    ∃ L₁ : Links (Fin 3),
      run listStep ⟨id, id⟩ [.acoralListAdd 1 0, .acoralListAddTail 2 0, .acoralListDel 1] =
        some L₁ ∧
      L₁.next 0 = 2 ∧ L₁.next 1 = 1 ∧ ∀ x, L₁.prev (L₁.next x) = x ∧ L₁.next (L₁.prev x) = x := by
  have hself : ∀ x : Fin 3, ∃ l, (⟨id, id⟩ : Links (Fin 3)).IsRing x l := fun _ =>
    ⟨[], Links.isRing_nil rfl rfl⟩
  have hrun : (run listStep (⟨id, id⟩ : Links (Fin 3))
      [.acoralListAdd 1 0, .acoralListAddTail 2 0, .acoralListDel 1]).map
        (fun L => (L.next 0, L.next 1)) = some (2, 1) := by decide
  obtain ⟨L₁, hL₁, hnext⟩ := Option.map_eq_some_iff.mp hrun
  obtain ⟨R, -, -, hend⟩ := listRun_spec hself
    [.acoralListAdd 1 0, .acoralListAddTail 2 0, .acoralListDel 1]
  obtain ⟨hnext0, hnext1⟩ := Prod.mk.inj hnext
  exact ⟨L₁, hL₁, hnext0, hnext1, (hend L₁ hL₁).1⟩

end ACoral
