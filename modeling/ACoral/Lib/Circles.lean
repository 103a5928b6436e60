import ACoral.Lib.RingFamily
import Mathlib.Data.List.Cycle

/-!
# `ACoral.Lib.Circles`: a heap of list nodes as a set of cycles

`Circles N` cuts the nodes into cycles: `of x` is the cycle that `x` is in. No node is in
a cycle twice or in two of them, and a node alone is a cycle of one. The three changes are

- `Circles.insertAfter`, `Circles.insertBefore`: a node that is alone goes into the cycle
  of another one, behind it or before it;
- `Circles.remove`: a node leaves its cycle and is alone.

All the other cycles stay what they are (`insertPair_of_notMem`, `remove_of_notMem`).

`Represents L R` says that the pointers of the heap `L` lead around the cycles of `R`.
Then `next` and `prev` are inverse everywhere (`Represents.inverse`), and every node heads
one ring (`Represents.isRing_iff`). Linking and unlinking a node are the changes above
(`Represents.insertAfter`, `Represents.insertBefore`, `Represents.remove`).
-/

set_option autoImplicit false

namespace ACoral.Lib

universe u v

open List (IsRotated)

/-! ### Cycles -/

section
variable {α : Type u} {β : Type v}

/-- The lists for the elements of a list, one behind the other, turn with the list. -/
theorem isRotated_flatMap {l l' : List α} (h : IsRotated l l') (f : α → List β) :
    IsRotated (l.flatMap f) (l'.flatMap f) := by
  obtain ⟨n, hn, rfl⟩ := List.isRotated_iff_mod.mp h
  rw [List.rotate_eq_drop_append_take hn, List.flatMap_append]
  conv_lhs => rw [← List.take_append_drop n l, List.flatMap_append]
  exact List.isRotated_append

/-- Put a list in the place of every element of a cycle. -/
def spread (f : α → List β) : Cycle α → Cycle β :=
  Quotient.map' (fun l => l.flatMap f) fun _ _ h => isRotated_flatMap h f

@[simp] theorem spread_coe (f : α → List β) (l : List α) :
    spread f (l : Cycle α) = (l.flatMap f : List β) := rfl

theorem mem_spread {f : α → List β} {c : Cycle α} {y : β} :
    y ∈ spread f c ↔ ∃ x ∈ c, y ∈ f x := by
  induction c using Quotient.inductionOn' with
  | h l => exact List.mem_flatMap

/-- Lists that put every element in its own place change nothing. -/
theorem flatMap_eq_self {f : α → List α} {l : List α} (h : ∀ x ∈ l, f x = [x]) :
    l.flatMap f = l := by
  have hcongr : l.flatMap f = l.flatMap fun x => [x] := List.flatMap_congr h
  rw [hcongr, List.flatMap_singleton']

theorem spread_eq_self {f : α → List α} {c : Cycle α} (h : ∀ x ∈ c, f x = [x]) :
    spread f c = c := by
  induction c using Quotient.inductionOn' with
  | h l => exact congrArg (fun l : List α => (l : Cycle α)) (flatMap_eq_self h)

/-- Lists that share nothing with each other leave no element twice. -/
theorem nodup_spread {f : α → List β} {c : Cycle α} (hc : c.Nodup)
    (hf : ∀ x ∈ c, (f x).Nodup)
    (hapart : ∀ x ∈ c, ∀ y ∈ c, x ≠ y → List.Disjoint (f x) (f y)) : (spread f c).Nodup := by
  induction c using Quotient.inductionOn' with
  | h l =>
      refine List.nodup_flatMap.mpr ⟨hf, ?_⟩
      exact (List.Pairwise.imp_of_mem fun hx hy hne => hapart _ hx _ hy hne) hc

/-- A cycle can be read from each of its elements on. -/
theorem exists_coe_cons {c : Cycle α} {x : α} (h : x ∈ c) :
    ∃ l : List α, c = ((x :: l : List α) : Cycle α) := by
  induction c using Quotient.inductionOn' with
  | h l =>
      obtain ⟨l₁, l₂, rfl⟩ := List.append_of_mem h
      exact ⟨l₂ ++ l₁, Cycle.coe_eq_coe.mpr List.isRotated_append⟩

/-- From an element on, a cycle without repetition is one list. -/
theorem coe_cons_inj {x : α} {l l' : List α} (hnodup : (x :: l).Nodup) :
    ((x :: l : List α) : Cycle α) = ((x :: l' : List α) : Cycle α) ↔ l = l' := by
  constructor
  · intro h
    obtain ⟨n, hn, hrot⟩ := List.isRotated_iff_mod.mp (Cycle.coe_eq_coe.mp h)
    rw [List.rotate_eq_drop_append_take hn] at hrot
    -- the second list starts with `x`, which is at the front of the first one only
    cases n with
    | zero =>
        rw [List.drop_zero, List.take_zero, List.append_nil] at hrot
        exact (List.cons.inj hrot).2
    | succ n =>
        rw [List.drop_succ_cons, List.take_succ_cons] at hrot
        cases hdrop : l.drop n with
        | nil =>
            have hle : l.length ≤ n := List.drop_eq_nil_iff.mp hdrop
            rw [hdrop, List.nil_append, List.take_of_length_le hle] at hrot
            exact (List.cons.inj hrot).2
        | cons y l₂ =>
            rw [hdrop, List.cons_append] at hrot
            have hx : x ∈ l := by
              refine List.mem_of_mem_drop (i := n) ?_
              rw [hdrop, (List.cons.inj hrot).1]
              exact List.mem_cons_self
            exact absurd hx (List.nodup_cons.mp hnodup).1
  · rintro rfl
    rfl

end

/-! ### The cycles of all nodes -/

section
variable {N : Type u}

/-- The nodes, cut into cycles. -/
structure Circles (N : Type u) where
  of : N → Cycle N
  mem : ∀ x, x ∈ of x
  nodup : ∀ x, (of x).Nodup
  same : ∀ x y, y ∈ of x → of y = of x

namespace Circles

variable {R : Circles N} {new head entry x y : N}

/-- A node alone is in no other node's cycle. -/
theorem eq_of_mem_of_alone (hnew : R.of new = ([new] : List N)) (h : new ∈ R.of y) : y = new := by
  have hy := R.mem y
  rw [← R.same y new h, hnew] at hy
  exact List.mem_singleton.mp hy

variable [DecidableEq N]

/-- The node whose cycle a node is in once `new` is next to `head`. -/
def host (new head y : N) : N := if y = new then head else y

theorem notMem_of_host (hnew : R.of new = ([new] : List N)) (hne : new ≠ head) (y : N) :
    new ∉ R.of (host new head y) := by
  intro hmem
  have heq := eq_of_mem_of_alone hnew hmem
  unfold host at heq
  split at heq
  · exact hne heq.symm
  · rename_i hy
    exact hy heq

/-- A member of the list that takes the place of `z` has its cycle. -/
theorem host_eq_of_mem {pair : List N} {z : N} (hpair : pair.Perm [head, new]) (hz : z ≠ new)
    (h : y ∈ if z = head then pair else [z]) : host new head y = z := by
  unfold host
  split at h
  · rename_i hzh
    rw [hzh] at hz ⊢
    rcases List.mem_cons.mp (hpair.mem_iff.mp h) with rfl | hy
    · exact if_neg hz
    · exact if_pos (List.mem_singleton.mp hy)
  · obtain rfl := List.mem_singleton.mp h
    exact if_neg hz

/-- Put `pair`, which is `head` and a node `new` that is alone, in the place of `head`. -/
def insertPair (R : Circles N) (new head : N) (pair : List N) (hpair : pair.Perm [head, new])
    (hnew : R.of new = ([new] : List N)) (hne : new ≠ head) : Circles N where
  of y := spread (fun z => if z = head then pair else [z]) (R.of (host new head y))
  mem y := by
    refine mem_spread.mpr ⟨host new head y, R.mem _, ?_⟩
    unfold host
    by_cases hy : y = new
    · rw [if_pos hy, if_pos rfl, hy]
      exact hpair.mem_iff.mpr (by simp)
    · rw [if_neg hy]
      split
      · rename_i hyh
        exact hpair.mem_iff.mpr (by simp [hyh])
      · exact List.mem_singleton_self y
  nodup y := by
    have hnot := notMem_of_host hnew hne y
    refine nodup_spread (R.nodup _) ?_ ?_
    · intro z hz
      split
      · exact hpair.nodup_iff.mpr (by simpa using Ne.symm hne)
      · exact List.nodup_singleton z
    · intro z hz z' hz' hzz' w hw hw'
      have hz₀ : z ≠ new := fun he => hnot (he ▸ hz)
      have hz₀' : z' ≠ new := fun he => hnot (he ▸ hz')
      exact hzz' ((host_eq_of_mem hpair hz₀ hw).symm.trans (host_eq_of_mem hpair hz₀' hw'))
  same x y h := by
    obtain ⟨z, hz, hy⟩ := mem_spread.mp h
    have hzn : z ≠ new := fun he => notMem_of_host hnew hne x (he ▸ hz)
    rw [host_eq_of_mem hpair hzn hy, R.same _ z hz]

/-- `new` goes behind `head`. -/
def insertAfter (R : Circles N) (new head : N) (hnew : R.of new = ([new] : List N))
    (hne : new ≠ head) : Circles N :=
  R.insertPair new head [head, new] (List.Perm.refl _) hnew hne

/-- `new` goes before `head`. -/
def insertBefore (R : Circles N) (new head : N) (hnew : R.of new = ([new] : List N))
    (hne : new ≠ head) : Circles N :=
  R.insertPair new head [new, head] (List.Perm.swap head new []) hnew hne

/-- `entry` leaves its cycle. -/
def remove (R : Circles N) (entry : N) : Circles N where
  of y :=
    if y = entry then ([entry] : List N)
    else spread (fun z => if z = entry then [] else [z]) (R.of y)
  mem y := by
    split
    · rename_i hy
      rw [hy]
      exact List.mem_singleton_self entry
    · rename_i hy
      refine mem_spread.mpr ⟨y, R.mem y, ?_⟩
      rw [if_neg hy]
      exact List.mem_singleton_self y
  nodup y := by
    split
    · exact List.nodup_singleton entry
    · refine nodup_spread (R.nodup y) ?_ ?_
      · intro z hz
        split
        · exact List.nodup_nil
        · exact List.nodup_singleton z
      · intro z hz z' hz' hne w hw hw'
        simp only [List.mem_ite_nil_left, List.mem_singleton] at hw hw'
        exact hne (hw.2.symm.trans hw'.2)
  same x y h := by
    split at h
    · rename_i hx
      rw [List.mem_singleton.mp h, if_pos rfl, if_pos hx]
    · rename_i hx
      obtain ⟨z, hz, hy⟩ := mem_spread.mp h
      simp only [List.mem_ite_nil_left, List.mem_singleton] at hy
      obtain ⟨hze, rfl⟩ := hy
      rw [if_neg hze, if_neg hx, R.same x y hz]

/-! ### What the changes do to one cycle -/

/-- The cycles of other nodes stay. -/
theorem insertPair_of_notMem {pair : List N} (hpair : pair.Perm [head, new])
    (hnew : R.of new = ([new] : List N)) (hne : new ≠ head) (hy : y ≠ new) (hhead : head ∉ R.of y) :
    (R.insertPair new head pair hpair hnew hne).of y = R.of y := by
  have hhost : host new head y = y := if_neg hy
  unfold insertPair
  dsimp only
  rw [hhost]
  refine spread_eq_self ?_
  intro z hz
  refine if_neg ?_
  rintro rfl
  exact hhead hz

/-- The cycle of `head`, and of `new`. -/
theorem insertPair_of_head {pair l : List N} (hpair : pair.Perm [head, new])
    (hnew : R.of new = ([new] : List N)) (hne : new ≠ head)
    (hl : R.of head = ((head :: l : List N) : Cycle N)) :
    (R.insertPair new head pair hpair hnew hne).of head = ((pair ++ l : List N) : Cycle N) := by
  have hhost : host new head head = head := if_neg (Ne.symm hne)
  have hnotMem : head ∉ l := by
    have hnodup := R.nodup head
    rw [hl] at hnodup
    exact (List.nodup_cons.mp hnodup).1
  have hrest : l.flatMap (fun z => if z = head then pair else [z]) = l := by
    refine flatMap_eq_self ?_
    intro z hz
    refine if_neg ?_
    rintro rfl
    exact hnotMem hz
  unfold insertPair
  dsimp only
  rw [hhost, hl, spread_coe, List.flatMap_cons, if_pos rfl, hrest]

/-- The cycles that `entry` is not in stay. -/
theorem remove_of_notMem (hentry : entry ∉ R.of y) : (R.remove entry).of y = R.of y := by
  have hy : y ≠ entry := fun he => hentry (he ▸ R.mem y)
  unfold remove
  dsimp only
  rw [if_neg hy]
  refine spread_eq_self ?_
  intro z hz
  refine if_neg ?_
  rintro rfl
  exact hentry hz

theorem remove_of_self : (R.remove entry).of entry = ([entry] : List N) := if_pos rfl

/-- The cycle that `entry` was in, from another node on. -/
theorem remove_of_mem {l₁ l₂ : List N} (hl : R.of y = ((y :: (l₁ ++ entry :: l₂) : List N) : Cycle N)) :
    (R.remove entry).of y = ((y :: (l₁ ++ l₂) : List N) : Cycle N) := by
  have hnodup := R.nodup y
  rw [hl] at hnodup
  have hperm : (y :: (l₁ ++ entry :: l₂)).Perm (entry :: y :: (l₁ ++ l₂)) :=
    (List.perm_middle.cons y).trans (List.Perm.swap entry y _)
  have hnotMem := (List.nodup_cons.mp (hperm.nodup_iff.mp hnodup)).1
  have hkeep : ∀ l : List N, entry ∉ l → l.flatMap (fun z => if z = entry then [] else [z]) = l := by
    intro l hl
    refine flatMap_eq_self ?_
    intro z hz
    refine if_neg ?_
    rintro rfl
    exact hl hz
  simp only [List.mem_cons, List.mem_append, not_or] at hnotMem
  have hy : y ≠ entry := Ne.symm hnotMem.1
  unfold remove
  dsimp only
  rw [if_neg hy, hl, spread_coe, List.flatMap_cons, if_neg hy, List.flatMap_append,
    List.flatMap_cons, if_pos rfl, hkeep l₁ hnotMem.2.1, hkeep l₂ hnotMem.2.2]
  rfl

end Circles

/-! ### Heaps -/

/-- The nodes of a cycle follow one another. -/
def Links.IsCircle (L : Links N) (c : Cycle N) : Prop := c.Nodup ∧ c.Chain L.Adj

theorem Links.path_iff_isChain {L : Links N} {a : N} {l : List N} :
    L.Path a l ↔ List.IsChain L.Adj (a :: l) := by
  induction l generalizing a with
  | nil => simp [Links.Path]
  | cons b l ih => rw [List.isChain_cons_cons, ← ih, Links.Path]

/-- A cycle, read from one of its nodes on, is the ring of that node. -/
theorem Links.isCircle_coe_cons {L : Links N} {x : N} {l : List N} :
    L.IsCircle ((x :: l : List N) : Cycle N) ↔ L.IsRing x l := by
  constructor
  · rintro ⟨hnodup, hchain⟩
    exact ⟨hnodup, Links.path_iff_isChain.mpr hchain⟩
  · rintro ⟨hnodup, hpath⟩
    exact ⟨hnodup, Links.path_iff_isChain.mp hpath⟩

/-- The pointers of `L` lead around the cycles of `R`. -/
def Represents (L : Links N) (R : Circles N) : Prop := ∀ x, L.IsCircle (R.of x)

namespace Represents

variable [DecidableEq N] {L : Links N} {R : Circles N} {new head entry h x : N} {l : List N}

/-- Every node heads one ring, which is its cycle. -/
theorem isRing_iff (hR : Represents L R) :
    L.IsRing h l ↔ R.of h = ((h :: l : List N) : Cycle N) := by
  obtain ⟨l', hl'⟩ := exists_coe_cons (R.mem h)
  have hring : L.IsRing h l' := by
    rw [← Links.isCircle_coe_cons, ← hl']
    exact hR h
  rw [hl', coe_cons_inj hring.nodup]
  constructor
  · exact hring.unique
  · rintro rfl
    exact hring

theorem exists_isRing (hR : Represents L R) (h : N) : ∃ l, L.IsRing h l := by
  obtain ⟨l, hl⟩ := exists_coe_cons (R.mem h)
  exact ⟨l, hR.isRing_iff.mpr hl⟩

/-- `next` and `prev` are inverse everywhere. -/
theorem inverse (hR : Represents L R) (x : N) : L.prev (L.next x) = x ∧ L.next (L.prev x) = x := by
  obtain ⟨l, hl⟩ := hR.exists_isRing x
  constructor
  · have hfirst : L.IsRing x ([] ++ l) := hl
    rw [hl.next_head]
    exact hfirst.prev_headD
  · have hlast : L.IsRing x (l ++ []) := by rwa [List.append_nil]
    rw [hl.prev_head]
    exact hlast.adj.1

/-- A node alone is linked to itself. -/
theorem alone_iff (hR : Represents L R) :
    R.of x = ([x] : List N) ↔ L.next x = x ∧ L.prev x = x := by
  rw [← hR.isRing_iff]
  constructor
  · intro hx
    exact ⟨hx.next_head, hx.prev_head⟩
  · rintro ⟨hnext, hprev⟩
    exact Links.isRing_nil hnext hprev

theorem alone_iff_next (hR : Represents L R) : R.of x = ([x] : List N) ↔ L.next x = x := by
  rw [hR.alone_iff]
  refine and_iff_left_of_imp ?_
  intro hnext
  have hinv := (hR.inverse x).1
  rwa [hnext] at hinv

/-- Linking a node that is alone at a place of the cycle of `head`. -/
theorem link {pair l₁ l₂ : List N} (hR : Represents L R) (hpair : pair.Perm [head, new])
    (hnew : R.of new = ([new] : List N)) (hne : new ≠ head) (hring : L.IsRing head (l₁ ++ l₂))
    (hplace : ((pair ++ (l₁ ++ l₂) : List N) : Cycle N) =
      ((head :: (l₁ ++ new :: l₂) : List N) : Cycle N)) :
    Represents (L.link (l₁.getLastD head) new (l₂.headD head))
      (R.insertPair new head pair hpair hnew hne) := by
  have hhead := hR.isRing_iff.mp hring
  have hnotMem : new ∉ head :: (l₁ ++ l₂) := by
    intro hmem
    have hmem' : new ∈ R.of head := by rwa [hhead]
    exact hne (Circles.eq_of_mem_of_alone hnew hmem').symm
  have hcycle := Circles.insertPair_of_head hpair hnew hne hhead
  rw [hplace] at hcycle
  have hlinked := Links.isCircle_coe_cons.mpr (hring.insert hnotMem)
  rw [← hcycle] at hlinked
  intro y
  by_cases hy : y ∈ (R.insertPair new head pair hpair hnew hne).of head
  · rw [Circles.same _ head y hy]
    exact hlinked
  · -- another cycle, whose pointers the operation leaves alone
    have hyn : y ≠ new := by
      rintro rfl
      refine hy ?_
      rw [hcycle]
      simp
    have hyh : head ∉ R.of y := by
      intro hmem
      refine hy ?_
      have hyhead : y ∈ R.of head := by
        rw [R.same y head hmem]
        exact R.mem y
      rw [hhead] at hyhead
      rw [hcycle]
      simp only [Cycle.mem_coe_iff, List.mem_cons, List.mem_append] at hyhead ⊢
      rcases hyhead with hyh | hyh | hyh
      · exact Or.inl hyh
      · exact Or.inr (Or.inl hyh)
      · exact Or.inr (Or.inr (Or.inr hyh))
    rw [Circles.insertPair_of_notMem hpair hnew hne hyn hyh]
    obtain ⟨l, hl⟩ := exists_coe_cons (R.mem y)
    have hyring := hR.isRing_iff.mpr hl
    rw [hl]
    have hother : ∀ z ∈ y :: l, z ∉ head :: (l₁ ++ l₂) := by
      intro z hz hzh
      have hzy : z ∈ R.of y := by rwa [hl]
      have hzhead : z ∈ R.of head := by rwa [hhead]
      refine hyh ?_
      rw [← R.same y z hzy, R.same head z hzhead]
      exact R.mem head
    have hothernew : ∀ z ∈ y :: l, z ≠ new := by
      rintro z hz rfl
      have hzy : z ∈ R.of y := by rwa [hl]
      exact hyn (Circles.eq_of_mem_of_alone hnew hzy)
    have hlast : l₁.getLastD head ∈ head :: (l₁ ++ l₂) := by
      rcases List.mem_cons.mp (Links.getLastD_mem head l₁) with he | hm
      · exact List.mem_cons.mpr (Or.inl he)
      · exact List.mem_cons_of_mem _ (List.mem_append_left _ hm)
    have hfirst : l₂.headD head ∈ head :: (l₁ ++ l₂) := by
      cases l₂ <;> simp
    refine Links.isCircle_coe_cons.mpr (hyring.congr ?_ ?_)
    · intro z hz
      exact Links.link_next_of_ne L (fun he => hother z hz (he ▸ hlast)) (hothernew z hz)
    · intro z hz
      exact Links.link_prev_of_ne L (fun he => hother z hz (he ▸ hfirst)) (hothernew z hz)

/-- Linking a node that is alone behind another one. -/
theorem insertAfter (hR : Represents L R) (hnew : R.of new = ([new] : List N))
    (hne : new ≠ head) :
    Represents (L.link head new (L.next head)) (R.insertAfter new head hnew hne) := by
  obtain ⟨l, hl⟩ := hR.exists_isRing head
  have hring : L.IsRing head ([] ++ l) := hl
  have hlink := hR.link (List.Perm.refl _) hnew hne hring rfl
  rw [← hl.next_head] at hlink
  exact hlink

/-- Linking a node that is alone before another one. -/
theorem insertBefore (hR : Represents L R) (hnew : R.of new = ([new] : List N))
    (hne : new ≠ head) :
    Represents (L.link (L.prev head) new head) (R.insertBefore new head hnew hne) := by
  obtain ⟨l, hl⟩ := hR.exists_isRing head
  have hring : L.IsRing head (l ++ []) := by rwa [List.append_nil]
  have hturn : (([new, head] ++ (l ++ []) : List N) : Cycle N) =
      ((head :: (l ++ new :: []) : List N) : Cycle N) := by
    rw [List.append_nil]
    exact Cycle.coe_eq_coe.mpr (List.isRotated_concat new (head :: l)).symm
  have hlink := hR.link (List.Perm.swap head new []) hnew hne hring hturn
  rw [← hl.prev_head] at hlink
  exact hlink

/-- Unlinking a node. -/
theorem remove (hR : Represents L R) : Represents (L.unlink entry) (R.remove entry) := by
  intro y
  by_cases hye : y = entry
  · rw [hye, Circles.remove_of_self]
    exact Links.isCircle_coe_cons.mpr (L.unlink_self entry)
  obtain ⟨l, hl⟩ := exists_coe_cons (R.mem y)
  have hring := hR.isRing_iff.mpr hl
  by_cases hmem : entry ∈ l
  · obtain ⟨l₁, l₂, rfl⟩ := List.append_of_mem hmem
    rw [Circles.remove_of_mem hl]
    exact Links.isCircle_coe_cons.mpr hring.remove
  · -- another cycle, whose pointers the operation leaves alone
    have hnot : entry ∉ R.of y := by
      rw [hl, Cycle.mem_coe_iff, List.mem_cons, not_or]
      exact ⟨Ne.symm hye, hmem⟩
    rw [Circles.remove_of_notMem hnot, hl]
    have hother : ∀ z ∈ y :: l, ∀ w ∈ R.of entry, z ≠ w := by
      rintro z hz w hw rfl
      have hzy : z ∈ R.of y := by rwa [hl]
      refine hnot ?_
      rw [← R.same y z hzy, R.same entry z hw]
      exact R.mem entry
    obtain ⟨l', hl'⟩ := exists_coe_cons (R.mem entry)
    have hentryRing := hR.isRing_iff.mpr hl'
    have hnext : L.next entry ∈ R.of entry := by
      rw [hl', hentryRing.next_head]
      cases l' <;> simp
    have hprev : L.prev entry ∈ R.of entry := by
      rw [hl', hentryRing.prev_head]
      exact Links.getLastD_mem entry l'
    refine Links.isCircle_coe_cons.mpr (hring.congr ?_ ?_)
    · intro z hz
      exact Links.unlink_next_of_ne L (hother z hz _ hprev) (hother z hz _ (R.mem entry))
    · intro z hz
      exact Links.unlink_prev_of_ne L (hother z hz _ hnext) (hother z hz _ (R.mem entry))

end Represents

/-- The other nodes of a ring head it too. -/
theorem Links.IsRing.turn {L : Links N} {h x : N} {l : List N} (hr : L.IsRing h l)
    (hx : x ∈ h :: l) :
    ∃ l', L.IsRing x l' ∧ ((x :: l' : List N) : Cycle N) = ((h :: l : List N) : Cycle N) := by
  have hmem : x ∈ ((h :: l : List N) : Cycle N) := hx
  obtain ⟨l', hl'⟩ := exists_coe_cons hmem
  refine ⟨l', Links.isCircle_coe_cons.mp ?_, hl'.symm⟩
  rw [← hl']
  exact Links.isCircle_coe_cons.mpr hr

/-- A heap in which every node heads a ring is a set of cycles. -/
theorem exists_represents [DecidableEq N] {L : Links N} (h : ∀ x, ∃ l, L.IsRing x l) :
    ∃ R, Represents L R := by
  choose members hring using h
  refine ⟨⟨fun x => (x :: members x : List N), fun x => List.mem_cons_self,
    fun x => (hring x).nodup, ?_⟩, fun x => Links.isCircle_coe_cons.mpr (hring x)⟩
  intro x y hy
  obtain ⟨l, hl, hturn⟩ := (hring x).turn hy
  rw [← hturn, (hring y).unique hl]

end

end ACoral.Lib
