import ACoral.Kernel.TimedTime
import ACoral.Lib.RingFamily
import ACoral.Lib.Spans
import ACoral.Proofs.Buddy.Invariant
import ACoral.Proofs.Queue

/-!
# `ACoral.Proofs.TimedMerge`: when the busy times are put together

`mergeLoop` deletes the end of an interval and then `tmp->next`, which at
that moment is the deleted end itself. `acoral_list_del` would take the lock
of the node twice, so the loop does not come back from the first pair of
intervals that touch. It never changes anything else.

- `mergeLoop_eq`: if the loop returns, the list is as it was.
- `lengthLoop_spec`: the second loop turns each end into a length.
- `admisCtlTimes_iff`: the two loops leave a strictly ascending list that
  covers what the intervals cover exactly when no two intervals of a CPU
  overlap or touch from the start.
- `admisCtlTimes_hangs`: two sections one right after the other.
-/

set_option autoImplicit false

namespace ACoral

open Lib (Links endpoints Covers Apart)
open Lib.Links (IsRing)

variable {N : Type} [DecidableEq N]

/-! ### The merge -/

/-- `acoral_list_del` of a node that has just been deleted never gets its
second lock. -/
theorem acoralListDel_unlink (L : Links N) (x : N) : acoralListDel (L.unlink x) x = none :=
  if_pos (Or.inl ((Function.update_self _ _ _ : (L.unlink x).prev x = x).symm))

/-- If the loop returns, it has found no two equal values and changed
nothing. -/
theorem mergeLoop_eq {L L' : Links N} {value : N → Int} {h b : N} {fuel : Nat} {l₁ : List N}
    {spans : List (N × N)} (hr : L.IsRing h (l₁ ++ b :: endpoints spans))
    (hloop : mergeLoop value h fuel L b = some L') : L' = L := by
  induction spans generalizing l₁ b fuel with
  | nil =>
      cases fuel with
      | zero => simp [mergeLoop] at hloop
      | succ fuel =>
          have hnext : L.next b = h := hr.next_mem
          simp only [mergeLoop, hnext, ne_eq, not_true_eq_false, if_false, Option.some.injEq] at hloop
          exact hloop.symm
  | cons p spans ih =>
      cases fuel with
      | zero => simp [mergeLoop] at hloop
      | succ fuel =>
          obtain ⟨c, d⟩ := p
          have hnext : L.next b = c := hr.next_mem
          have hrc : L.IsRing h ((l₁ ++ [b]) ++ c :: d :: endpoints spans) := by simpa using hr
          have hnext' : L.next c = d := hrc.next_mem
          have hrd : L.IsRing h ((l₁ ++ [b, c]) ++ d :: endpoints spans) := by simpa using hr
          have hc : c ≠ h := fun he => (List.nodup_cons.mp hrc.nodup).1 (by simp [he])
          rw [mergeLoop, hnext, hnext', if_pos hc] at hloop
          split at hloop
          · -- the second deletion takes the lock of `b` twice
            rw [acoralPrioQueueDel, acoralListDel_mem hr, Option.bind_some] at hloop
            rw [(L.unlink_self b).next_head, List.headD_nil, acoralPrioQueueDel,
              acoralListDel_unlink, Option.bind_none] at hloop
            cases hloop
          · exact ih hrd hloop

/-- On a strictly ascending list the loop returns. -/
theorem mergeLoop_of_ascending {L : Links N} {value : N → Int} {h b : N} {fuel : Nat}
    {l₁ : List N} {spans : List (N × N)} (hr : L.IsRing h (l₁ ++ b :: endpoints spans))
    (hasc : (b :: endpoints spans).Pairwise fun x y => value x < value y)
    (hfuel : spans.length < fuel) : mergeLoop value h fuel L b = some L := by
  induction spans generalizing l₁ b fuel with
  | nil =>
      obtain ⟨fuel, rfl⟩ := Nat.exists_eq_succ_of_ne_zero (Nat.ne_of_gt hfuel)
      have hnext : L.next b = h := hr.next_mem
      simp [mergeLoop, hnext]
  | cons p spans ih =>
      obtain ⟨c, d⟩ := p
      obtain ⟨fuel, rfl⟩ := Nat.exists_eq_succ_of_ne_zero (Nat.ne_of_gt (Nat.zero_lt_of_lt hfuel))
      have hnext : L.next b = c := hr.next_mem
      have hrc : L.IsRing h ((l₁ ++ [b]) ++ c :: d :: endpoints spans) := by simpa using hr
      have hnext' : L.next c = d := hrc.next_mem
      have hrd : L.IsRing h ((l₁ ++ [b, c]) ++ d :: endpoints spans) := by simpa using hr
      have hc : c ≠ h := fun he => (List.nodup_cons.mp hrc.nodup).1 (by simp [he])
      rw [Lib.endpoints_cons, List.pairwise_cons, List.pairwise_cons] at hasc
      have hbc : value b ≠ value c := (hasc.1 c List.mem_cons_self).ne
      rw [mergeLoop, hnext, hnext', if_pos hc, if_neg hbc]
      exact ih hrd hasc.2.2 (Nat.lt_of_succ_lt_succ hfuel)

/-- The loop as it is called, from the second node of the list, or from the
head of an empty one. -/
theorem mergeLoop_ring {L : Links N} (value : N → Int) {h : N} {fuel : Nat}
    {spans : List (N × N)} (hr : L.IsRing h (endpoints spans)) :
    (∀ L', mergeLoop value h fuel L (L.next (L.next h)) = some L' → L' = L) ∧
      ((endpoints spans).Pairwise (fun x y => value x < value y) → spans.length < fuel →
        mergeLoop value h fuel L (L.next (L.next h)) = some L) := by
  cases spans with
  | nil =>
      have hnext : L.next h = h := hr.next_head
      rw [hnext, hnext]
      cases fuel with
      | zero => exact ⟨fun L' hL' => by simp [mergeLoop] at hL', fun _ hf => absurd hf (by simp)⟩
      | succ fuel =>
          have hrun : mergeLoop value h (fuel + 1) L h = some L := by
            rw [mergeLoop, hnext]
            exact if_neg (not_not_intro rfl)
          exact ⟨fun L' hL' => (Option.some.inj (hrun.symm.trans hL')).symm, fun _ _ => hrun⟩
  | cons p spans =>
      have hnext : L.next h = p.1 := hr.next_head
      have hnext' : L.next p.1 = p.2 :=
        (show L.IsRing h ([] ++ p.1 :: p.2 :: endpoints spans) from hr).next_mem
      have hr' : L.IsRing h ([p.1] ++ p.2 :: endpoints spans) := hr
      rw [hnext, hnext']
      refine ⟨fun L' hL' => mergeLoop_eq hr' hL', fun hasc hf => ?_⟩
      exact mergeLoop_of_ascending hr' (List.pairwise_cons.mp hasc).2 (Nat.lt_of_succ_lt hf)

/-! ### The lengths -/

/-- The ends of `spans` became lengths, which were added to the sum of
CPU `i`. -/
structure Lengths (s s' : TimedTime N) (i : Nat) (spans : List (N × N)) : Prop where
  start : ∀ p ∈ spans, s'.value p.1 = s.value p.1
  stop : ∀ p ∈ spans, s'.value p.2 = i32 (s.value p.2 - s.value p.1)
  sum : (s'.timedTimeSum i : Int) % 2 ^ 32 =
    (s.timedTimeSum i + (spans.map fun p => i32 (s.value p.2 - s.value p.1)).sum) % 2 ^ 32

omit [DecidableEq N] in
/-- Later changes of other nodes and CPUs do not matter. -/
theorem Lengths.later {s s' s'' : TimedTime N} {i : Nat} {spans : List (N × N)}
    (h : Lengths s s' i spans) (hvalue : ∀ x ∈ endpoints spans, s''.value x = s'.value x)
    (hsum : s''.timedTimeSum i = s'.timedTimeSum i) : Lengths s s'' i spans where
  start := fun p hp =>
    (hvalue p.1 (Lib.mem_endpoints.mpr ⟨p, hp, Or.inl rfl⟩)).trans (h.start p hp)
  stop := fun p hp =>
    (hvalue p.2 (Lib.mem_endpoints.mpr ⟨p, hp, Or.inr rfl⟩)).trans (h.stop p hp)
  sum := hsum ▸ h.sum

omit [DecidableEq N] in
/-- Neither do earlier ones. -/
theorem Lengths.earlier {s s' s'' : TimedTime N} {i : Nat} {spans : List (N × N)}
    (h : Lengths s' s'' i spans) (hvalue : ∀ x ∈ endpoints spans, s'.value x = s.value x)
    (hsum : s'.timedTimeSum i = s.timedTimeSum i) : Lengths s s'' i spans := by
  have hnode : ∀ p ∈ spans, s'.value p.1 = s.value p.1 ∧ s'.value p.2 = s.value p.2 :=
    fun p hp => ⟨hvalue p.1 (Lib.mem_endpoints.mpr ⟨p, hp, Or.inl rfl⟩),
      hvalue p.2 (Lib.mem_endpoints.mpr ⟨p, hp, Or.inr rfl⟩)⟩
  constructor
  · exact fun p hp => (h.start p hp).trans (hnode p hp).1
  · exact fun p hp => by rw [h.stop p hp, (hnode p hp).1, (hnode p hp).2]
  · rw [h.sum, hsum, List.map_congr_left fun p hp => by rw [(hnode p hp).1, (hnode p hp).2]]

/-- What does not belong to the nodes and CPUs that are given is the same. -/
structure SameTimes (s s' : TimedTime N) (cpus : Nat → Prop) (nodes : N → Prop) : Prop where
  links : s'.links = s.links
  value : ∀ x, ¬ nodes x → s'.value x = s.value x
  sum : ∀ j, ¬ cpus j → s'.timedTimeSum j = s.timedTimeSum j

omit [DecidableEq N] in
theorem SameTimes.refl (s : TimedTime N) (cpus : Nat → Prop) (nodes : N → Prop) :
    SameTimes s s cpus nodes := ⟨rfl, fun _ _ => rfl, fun _ _ => rfl⟩

omit [DecidableEq N] in
theorem SameTimes.trans {s s' s'' : TimedTime N} {cpus cpus' cpus'' : Nat → Prop}
    {nodes nodes' nodes'' : N → Prop} (h : SameTimes s s' cpus nodes)
    (h' : SameTimes s' s'' cpus' nodes') (hcpus : ∀ j, cpus j ∨ cpus' j → cpus'' j)
    (hnodes : ∀ x, nodes x ∨ nodes' x → nodes'' x) : SameTimes s s'' cpus'' nodes'' where
  links := h'.links.trans h.links
  value := fun x hx => (h'.value x fun hn => hx (hnodes x (Or.inr hn))).trans
    (h.value x fun hn => hx (hnodes x (Or.inl hn)))
  sum := fun j hj => (h'.sum j fun hc => hj (hcpus j (Or.inr hc))).trans
    (h.sum j fun hc => hj (hcpus j (Or.inl hc)))

/-- One round of the loop. -/
def setLength (s : TimedTime N) (i : Nat) (p : N × N) : TimedTime N :=
  { s with
    value := Function.update s.value p.2 (i32 (s.value p.2 - s.value p.1))
    timedTimeSum := Function.update s.timedTimeSum i
      (u32 (s.timedTimeSum i + i32 (s.value p.2 - s.value p.1))) }

theorem setLength_same (s : TimedTime N) (i : Nat) (p : N × N) :
    SameTimes s (setLength s i p) (· = i) (· = p.2) :=
  ⟨rfl, fun _ hx => Function.update_of_ne hx _ _, fun _ hj => Function.update_of_ne hj _ _⟩

/-- A round for the first span and the rest of the loop for the others. -/
theorem Lengths.cons {s s' : TimedTime N} {i : Nat} {p : N × N} {spans : List (N × N)}
    (h : Lengths (setLength s i p) s' i spans)
    (hsame : SameTimes (setLength s i p) s' (· = i) (· ∈ endpoints spans))
    (hnodup : (endpoints (p :: spans)).Nodup) : Lengths s s' i (p :: spans) := by
  rw [Lib.endpoints_cons, List.nodup_cons, List.nodup_cons] at hnodup
  obtain ⟨hfirst, hsecond, -⟩ := hnodup
  have hp1 : p.1 ≠ p.2 := fun he => hfirst (by rw [he]; exact List.mem_cons_self)
  have hold : ∀ x ∈ endpoints spans, (setLength s i p).value x = s.value x := fun x hx =>
    (setLength_same s i p).value x fun he => hsecond (he ▸ hx)
  have hold1 : ∀ q ∈ spans, (setLength s i p).value q.1 = s.value q.1 := fun q hq =>
    hold q.1 (Lib.mem_endpoints.mpr ⟨q, hq, Or.inl rfl⟩)
  have hold2 : ∀ q ∈ spans, (setLength s i p).value q.2 = s.value q.2 := fun q hq =>
    hold q.2 (Lib.mem_endpoints.mpr ⟨q, hq, Or.inr rfl⟩)
  have hself : (setLength s i p).value p.2 = i32 (s.value p.2 - s.value p.1) :=
    Function.update_self _ _ _
  constructor
  case start =>
    intro q hq
    rcases List.mem_cons.mp hq with rfl | hq
    · exact (hsame.value q.1 fun hm => hfirst (List.mem_cons_of_mem _ hm)).trans
        ((setLength_same s i q).value q.1 hp1)
    · exact (h.start q hq).trans (hold1 q hq)
  case stop =>
    intro q hq
    rcases List.mem_cons.mp hq with rfl | hq
    · exact (hsame.value q.2 hsecond).trans hself
    · rw [h.stop q hq, hold1 q hq, hold2 q hq]
  case sum =>
    have hsum : (setLength s i p).timedTimeSum i =
        u32 (s.timedTimeSum i + i32 (s.value p.2 - s.value p.1)) := Function.update_self _ _ _
    have hrest := h.sum
    rw [hsum, List.map_congr_left fun q hq => by rw [hold1 q hq, hold2 q hq]] at hrest
    rw [hrest, List.map_cons, List.sum_cons]
    unfold u32
    omega

/-- What a round of the loop does. -/
theorem lengthLoop_round {i : Nat} {h : N} {fuel : Nat} {s : TimedTime N} {l₁ : List N}
    {p : N × N} {spans : List (N × N)} (hr : s.links.IsRing h (l₁ ++ endpoints (p :: spans))) :
    lengthLoop i h (fuel + 1) s p.2 =
      lengthLoop i h fuel (setLength s i p) (s.links.next (s.links.next p.2)) := by
  have hr' : s.links.IsRing h ((l₁ ++ [p.1]) ++ p.2 :: endpoints spans) := by simpa using hr
  have hprev : s.links.prev p.2 = p.1 :=
    (hr'.prev_headD : s.links.prev p.2 = (l₁ ++ [p.1]).getLastD h).trans List.getLastD_concat
  -- the first node of the list is not the one at hand
  have hfirst : p.2 ≠ s.links.next h := by
    intro he
    rw [hr.next_head] at he
    have hnd := (List.nodup_cons.mp hr.nodup).2
    cases l₁ with
    | nil =>
        rw [List.nil_append, Lib.endpoints_cons, List.nodup_cons] at hnd
        exact hnd.1 (by rw [Lib.endpoints_cons] at he; exact he ▸ List.mem_cons_self)
    | cons x l₁ =>
        rw [List.cons_append, List.nodup_cons] at hnd
        exact hnd.1 (by rw [List.cons_append, List.headD_cons] at he; rw [← he]; simp)
  rw [lengthLoop, if_pos hfirst, hprev]
  rfl

/-- The loop turns the ends of the rest of the list into lengths. -/
theorem lengthLoop_spec {i : Nat} {h : N} {fuel : Nat} {s : TimedTime N} {l₁ : List N} {p : N × N}
    {spans : List (N × N)} (hr : s.links.IsRing h (l₁ ++ endpoints (p :: spans)))
    (hfuel : spans.length + 1 < fuel) :
    ∃ s', lengthLoop i h fuel s p.2 = some s' ∧ Lengths s s' i (p :: spans) ∧
      SameTimes s s' (· = i) (· ∈ endpoints (p :: spans)) := by
  have hnodup : (endpoints (p :: spans)).Nodup :=
    (List.nodup_append.mp (List.nodup_cons.mp hr.nodup).2).2.1
  have hround := setLength_same s i p
  induction spans generalizing l₁ p s fuel with
  | nil =>
      obtain ⟨fuel, rfl⟩ : ∃ k, fuel = k + 2 := ⟨fuel - 2, by simp at hfuel; omega⟩
      have hnext : s.links.next p.2 = h :=
        (show s.links.IsRing h ((l₁ ++ [p.1]) ++ [p.2]) by simpa using hr).next_mem
      -- the node behind the head is the first one again
      refine ⟨setLength s i p, ?_, Lengths.cons ⟨?_, ?_, ?_⟩ (SameTimes.refl _ _ _) hnodup, ?_⟩
      · rw [lengthLoop_round hr, hnext, lengthLoop]
        exact if_neg (not_not_intro rfl)
      · simp
      · simp
      · simp
      · exact hround.trans (SameTimes.refl _ (· = i) (· = p.2)) (fun j hj => hj.elim id id)
          fun x hx => by simp [hx.elim id id]
  | cons q spans ih =>
      obtain ⟨fuel, rfl⟩ := Nat.exists_eq_succ_of_ne_zero (Nat.ne_of_gt (Nat.zero_lt_of_lt hfuel))
      have hnext : s.links.next p.2 = q.1 :=
        (show s.links.IsRing h ((l₁ ++ [p.1]) ++ p.2 :: endpoints (q :: spans)) by
          simpa using hr).next_mem
      have hnext' : s.links.next q.1 = q.2 :=
        (show s.links.IsRing h ((l₁ ++ [p.1, p.2]) ++ q.1 :: q.2 :: endpoints spans) by
          simpa using hr).next_mem
      have hrq : (setLength s i p).links.IsRing h ((l₁ ++ [p.1, p.2]) ++ endpoints (q :: spans)) := by
        simpa [setLength] using hr
      have hnodup' : (endpoints (q :: spans)).Nodup :=
        (List.nodup_append.mp (List.nodup_cons.mp hrq.nodup).2).2.1
      obtain ⟨s', hs', hlen, hsame⟩ := ih hrq (Nat.lt_of_succ_lt_succ hfuel) hnodup'
        (setLength_same _ i q)
      refine ⟨s', ?_, hlen.cons hsame hnodup, ?_⟩
      · rw [lengthLoop_round hr, hnext, hnext']
        exact hs'
      · refine hround.trans hsame (fun j hj => hj.elim id id) fun x hx => ?_
        rw [Lib.endpoints_cons]
        rcases hx with rfl | hx
        · exact List.mem_cons_of_mem _ List.mem_cons_self
        · exact List.mem_cons_of_mem _ (List.mem_cons_of_mem _ hx)

/-- The same from the second node of the list, if there is one. -/
theorem lengthLoop_ring {i : Nat} {h : N} {fuel : Nat} {s : TimedTime N} {spans : List (N × N)}
    (hr : s.links.IsRing h (endpoints spans)) (hfuel : spans.length < fuel) :
    ∃ s', lengthLoop i h fuel s (s.links.next (s.links.next h)) = some s' ∧ Lengths s s' i spans ∧
      SameTimes s s' (· = i) (· ∈ endpoints spans) := by
  cases spans with
  | nil =>
      obtain ⟨fuel, rfl⟩ := Nat.exists_eq_succ_of_ne_zero (Nat.ne_of_gt hfuel)
      have hnext : s.links.next h = h := hr.next_head
      refine ⟨s, ?_, ⟨by simp, by simp, by simp⟩, SameTimes.refl _ _ _⟩
      rw [hnext, hnext, lengthLoop, hnext]
      exact if_neg (not_not_intro rfl)
  | cons p spans =>
      have hnext : s.links.next h = p.1 := hr.next_head
      have hnext' : s.links.next p.1 = p.2 :=
        (show s.links.IsRing h ([] ++ p.1 :: p.2 :: endpoints spans) from hr).next_mem
      rw [hnext, hnext']
      exact lengthLoop_spec (show s.links.IsRing h ([] ++ endpoints (p :: spans)) from hr)
        hfuel

/-! ### The loops over the CPUs -/

section Tables

variable {head : Nat → N} {spans : Nat → List (N × N)} {cpus : List Nat}

/-- The queues of the CPUs are rings that share no node. -/
structure TimeRings (L : Links N) (head : Nat → N) (cpus : List Nat) (members : Nat → List N) :
    Prop where
  ring : ∀ i ∈ cpus, L.IsRing (head i) (members i)
  apart : ∀ i ∈ cpus, ∀ j ∈ cpus, i ≠ j →
    List.Disjoint (head i :: members i) (head j :: members j)

/-- If the loop over the CPUs returns, it has changed nothing. -/
theorem mergeTimes_eq {s s' : TimedTime N} {fuel : Nat}
    (hr : ∀ i ∈ cpus, s.links.IsRing (head i) (endpoints (spans i)))
    (hmerge : mergeTimes fuel head cpus s = some s') : s' = s := by
  induction cpus with
  | nil => exact (Option.some.inj hmerge).symm
  | cons i cpus ih =>
      unfold mergeTimes at hmerge
      rw [List.foldlM_cons] at hmerge
      obtain ⟨s₁, hs₁, hrest⟩ := Option.bind_eq_some_iff.mp hmerge
      obtain ⟨L, hL, rfl⟩ := Option.map_eq_some_iff.mp hs₁
      have hLs : L = s.links := (mergeLoop_ring s.value (hr i List.mem_cons_self)).1 L hL
      subst hLs
      exact ih (fun j hj => hr j (List.mem_cons_of_mem i hj)) hrest

/-- On strictly ascending lists it returns. -/
theorem mergeTimes_of_ascending {s : TimedTime N} {fuel : Nat}
    (hr : ∀ i ∈ cpus, s.links.IsRing (head i) (endpoints (spans i)))
    (hasc : ∀ i ∈ cpus, (endpoints (spans i)).Pairwise fun x y => s.value x < s.value y)
    (hfuel : ∀ i ∈ cpus, (spans i).length < fuel) : mergeTimes fuel head cpus s = some s := by
  induction cpus with
  | nil => rfl
  | cons i cpus ih =>
      have hrun := (mergeLoop_ring s.value (hr i List.mem_cons_self)).2
        (hasc i List.mem_cons_self) (hfuel i List.mem_cons_self)
      unfold mergeTimes
      rw [List.foldlM_cons, hrun]
      exact ih (fun j hj => hr j (List.mem_cons_of_mem i hj))
        (fun j hj => hasc j (List.mem_cons_of_mem i hj))
        fun j hj => hfuel j (List.mem_cons_of_mem i hj)

/-- The loop over the CPUs turns all ends into lengths. -/
theorem lengthTimes_spec {s : TimedTime N} {fuel : Nat} (hnodup : cpus.Nodup)
    (hr : TimeRings s.links head cpus fun i => endpoints (spans i))
    (hfuel : ∀ i ∈ cpus, (spans i).length < fuel) :
    ∃ s', lengthTimes fuel head cpus s = some s' ∧ (∀ i ∈ cpus, Lengths s s' i (spans i)) ∧
      SameTimes s s' (· ∈ cpus) fun x => ∃ i ∈ cpus, x ∈ endpoints (spans i) := by
  induction cpus generalizing s with
  | nil => exact ⟨s, rfl, by simp, SameTimes.refl _ _ _⟩
  | cons i cpus ih =>
      obtain ⟨hi, hnodup⟩ := List.nodup_cons.mp hnodup
      obtain ⟨s₁, hs₁, hlen, hsame⟩ :=
        lengthLoop_ring (i := i) (hr.ring i List.mem_cons_self) (hfuel i List.mem_cons_self)
      obtain ⟨s', hs', hrest, hsame'⟩ := ih (s := s₁) hnodup
        ⟨fun j hj => hsame.links ▸ hr.ring j (List.mem_cons_of_mem i hj), fun j hj k hk =>
          hr.apart j (List.mem_cons_of_mem i hj) k (List.mem_cons_of_mem i hk)⟩
        fun j hj => hfuel j (List.mem_cons_of_mem i hj)
      -- the nodes of the first CPU are not those of the others
      have hother : ∀ j ∈ cpus, List.Disjoint (endpoints (spans i)) (endpoints (spans j)) :=
        fun j hj x hx hx' => hr.apart i List.mem_cons_self j (List.mem_cons_of_mem i hj)
          (fun he => hi (he ▸ hj)) (List.mem_cons_of_mem _ hx) (List.mem_cons_of_mem _ hx')
      refine ⟨s', ?_, fun j hj => ?_, ?_⟩
      · unfold lengthTimes
        rw [List.foldlM_cons, hs₁]
        exact hs'
      · rcases List.mem_cons.mp hj with rfl | hj
        · exact hlen.later (fun x hx => hsame'.value x fun ⟨k, hk, hxk⟩ => hother k hk hx hxk)
            (hsame'.sum _ hi)
        · exact (hrest j hj).earlier (fun x hx => hsame.value x fun hxi => hother j hj hxi hx)
            (hsame.sum j fun he => hi (he ▸ hj))
      · refine hsame.trans hsame' (fun j hj => ?_) fun x hx => ?_
        · exact hj.elim (fun he => he ▸ List.mem_cons_self) (List.mem_cons_of_mem i)
        · rcases hx with hx | ⟨j, hj, hx⟩
          · exact ⟨i, List.mem_cons_self, hx⟩
          · exact ⟨j, List.mem_cons_of_mem i hj, hx⟩

/-- The loops follow the pointers and change none. -/
theorem lengthLoop_links {s s' : TimedTime N} {i fuel : Nat} {h tmp : N}
    (hloop : lengthLoop i h fuel s tmp = some s') : s'.links = s.links := by
  induction fuel generalizing s tmp with
  | zero => simp [lengthLoop] at hloop
  | succ fuel ih =>
      rw [lengthLoop] at hloop
      split at hloop
      · dsimp only at hloop
        exact (ih hloop : s'.links = _)
      · rw [Option.some.inj hloop]

theorem lengthTimes_links {s s' : TimedTime N} {fuel : Nat}
    (hrun : lengthTimes fuel head cpus s = some s') : s'.links = s.links := by
  induction cpus generalizing s with
  | nil => rw [Option.some.inj hrun]
  | cons i cpus ih =>
      unfold lengthTimes at hrun
      rw [List.foldlM_cons] at hrun
      obtain ⟨s₁, hs₁, hrest⟩ := Option.bind_eq_some_iff.mp hrun
      exact (ih hrest).trans (lengthLoop_links hs₁)

end Tables

/-! ### What `timed.c` adds -/

section Adding

variable {s s' : TimedTime N} {head : Nat → N} {members : Nat → List N} {cpus : List Nat}

/-- The queues are rings in the order of their times. -/
structure TimeQueues (s : TimedTime N) (head : Nat → N) (cpus : List Nat)
    (members : Nat → List N) : Prop where
  rings : TimeRings s.links head cpus members
  sorted : ∀ i ∈ cpus, (members i).Pairwise fun x y => s.value x ≤ s.value y

/-- A new node goes to its place in one of the queues. -/
theorem TimeQueues.add (h : TimeQueues s head cpus members) {i : Nat} (hi : i ∈ cpus) {x : N}
    (v : Int) (hx : ∀ j ∈ cpus, x ∉ head j :: members j) {fuel : Nat}
    (hfuel : (members i).length < fuel) :
    ∃ s', timeListAdd fuel (head i) x v s = some s' ∧
      s'.value = Function.update s.value x v ∧ s'.timedTimeSum = s.timedTimeSum ∧
      TimeQueues s' head cpus
        (Function.update members i (prioInsert (Function.update s.value x v) x (members i))) := by
  have hne : ∀ j ∈ cpus, ∀ y ∈ head j :: members j, y ≠ x := fun j hj y hy he =>
    hx j hj (he ▸ hy)
  have hinit : ∀ j ∈ cpus, (acoralListInit s.links x).IsRing (head j) (members j) := fun j hj => by
    refine (h.rings.ring j hj).congr (fun y hy => ?_) fun y hy => ?_
    · exact Function.update_of_ne (hne j hj y hy) _ _
    · exact Function.update_of_ne (hne j hj y hy) _ _
  obtain ⟨L, hL⟩ := Option.isSome_iff_exists.mp
    (acoralPrioQueueAdd_isSome (Function.update s.value x v) (hinit i hi) (hx i hi)
      hfuel)
  have hring := acoralPrioQueueAdd_ring (hinit i hi) (hx i hi) hL
  have hperm := perm_prioInsert (Function.update s.value x v) x (members i)
  -- the values of the nodes that are there stay
  have hvalue : ∀ j ∈ cpus, (members j).Pairwise fun a b =>
      Function.update s.value x v a ≤ Function.update s.value x v b := fun j hj => by
    refine (h.sorted j hj).imp_of_mem fun {a b} ha hb hab => ?_
    rw [Function.update_of_ne (hne j hj a (List.mem_cons_of_mem _ ha)),
      Function.update_of_ne (hne j hj b (List.mem_cons_of_mem _ hb))]
    exact hab
  -- the new node is in no other queue
  have hnew : ∀ j ∈ cpus, i ≠ j →
      List.Disjoint (head i :: prioInsert (Function.update s.value x v) x (members i))
        (head j :: members j) := by
    intro j hj hne y hy hy'
    rcases List.mem_cons.mp hy with rfl | hy
    · exact h.rings.apart i hi j hj hne List.mem_cons_self hy'
    · rcases List.mem_cons.mp (hperm.mem_iff.mp hy) with rfl | hy
      · exact hx j hj hy'
      · exact h.rings.apart i hi j hj hne (List.mem_cons_of_mem _ hy) hy'
  refine ⟨_, Option.map_eq_some_iff.mpr ⟨L, hL, rfl⟩, rfl, rfl, ⟨fun j hj => ?_, ?_⟩,
    fun j hj => ?_⟩
  · by_cases hji : j = i
    · subst hji
      rw [Function.update_self]
      exact hring
    · rw [Function.update_of_ne hji]
      have hframe : ∀ y ∈ head j :: members j, L.next y = _ ∧ L.prev y = _ := fun y hy =>
        acoralPrioQueueAdd_frame (hinit i hi) (hx i hi) hL
          (fun hy' => h.rings.apart i hi j hj (Ne.symm hji) hy' hy) (hne j hj y hy)
      exact (hinit j hj).congr (fun y hy => (hframe y hy).1) fun y hy => (hframe y hy).2
  · intro j hj k hk hne
    by_cases hji : j = i
    · subst hji
      rw [Function.update_self, Function.update_of_ne (Ne.symm hne)]
      exact hnew k hk hne
    · by_cases hki : k = i
      · subst hki
        rw [Function.update_self, Function.update_of_ne hne]
        exact (hnew j hj (Ne.symm hne)).symm
      · rw [Function.update_of_ne hji, Function.update_of_ne hki]
        exact h.rings.apart j hj k hk hne
  · by_cases hji : j = i
    · subst hji
      rw [Function.update_self]
      exact pairwise_prioInsert (hvalue j hj)
    · rw [Function.update_of_ne hji]
      exact hvalue j hj

/-- The queues of the CPUs hold the nodes of the intervals `busy`, in the
order of their times. -/
structure BusyTable (s : TimedTime N) (head : Nat → N) (busy : Nat → List (N × N))
    (members : Nat → List N) : Prop where
  queues : TimeQueues s head (List.range CFG_MAX_CPU) members
  perm : ∀ i < CFG_MAX_CPU, (members i).Perm (endpoints (busy i))
  interval : ∀ i < CFG_MAX_CPU, ∀ p ∈ busy i,
    0 ≤ s.value p.1 ∧ s.value p.1 < s.value p.2 ∧ s.value p.2 < 2 ^ 31

omit [DecidableEq N] in
/-- Empty queues hold no intervals. -/
theorem busyTable_empty (hring : ∀ i < CFG_MAX_CPU, s.links.IsRing (head i) [])
    (hne : ∀ i < CFG_MAX_CPU, ∀ j < CFG_MAX_CPU, i ≠ j → head i ≠ head j) :
    BusyTable s head (fun _ => []) fun _ => [] where
  queues :=
    { rings :=
        { ring := fun i hi => hring i (List.mem_range.mp hi)
          apart := fun i hi j hj hij => List.disjoint_singleton.mpr fun hm =>
            hne i (List.mem_range.mp hi) j (List.mem_range.mp hj) hij
              (List.mem_singleton.mp hm).symm }
      sorted := fun _ _ => List.Pairwise.nil }
  perm := fun _ _ => List.Perm.nil
  interval := fun _ _ _ hp => absurd hp List.not_mem_nil

/-- A section of a timed thread adds its interval. -/
theorem BusyTable.sectionAdd {busy : Nat → List (N × N)} (h : BusyTable s head busy members)
    {i : Nat} (hi : i < CFG_MAX_CPU) {p : N × N} (hp : p.1 ≠ p.2)
    (hp1 : ∀ j < CFG_MAX_CPU, p.1 ∉ head j :: members j)
    (hp2 : ∀ j < CFG_MAX_CPU, p.2 ∉ head j :: members j) {startTime exeTime : Int}
    (hstart : 0 ≤ startTime) (hexe : 0 < exeTime) (hend : startTime + exeTime < 2 ^ 31)
    {fuel : Nat} (hfuel : (members i).length + 1 < fuel) :
    ∃ s', timedSectionAdd fuel (head i) p startTime exeTime s = some s' ∧
      BusyTable s' head (Function.update busy i (p :: busy i))
        (Function.update members i (prioInsert s'.value p.2
          (prioInsert (Function.update s.value p.1 startTime) p.1 (members i)))) := by
  have hi' : i ∈ List.range CFG_MAX_CPU := List.mem_range.mpr hi
  have hmachine : i32 startTime = startTime ∧ i32 (startTime + exeTime) = startTime + exeTime := by
    unfold i32
    constructor <;> rw [Int.bmod_eq_of_le] <;> omega
  obtain ⟨s₁, hs₁, hvalue₁, -, hqueues₁⟩ := h.queues.add hi' startTime
    (fun j hj => hp1 j (List.mem_range.mp hj)) (Nat.lt_of_succ_lt hfuel)
  have hperm₁ := perm_prioInsert (Function.update s.value p.1 startTime) p.1 (members i)
  have hp2' : ∀ j ∈ List.range CFG_MAX_CPU, p.2 ∉ head j :: Function.update members i
      (prioInsert (Function.update s.value p.1 startTime) p.1 (members i)) j := fun j hj hm => by
    by_cases hji : j = i
    · subst hji
      rw [Function.update_self] at hm
      rcases List.mem_cons.mp hm with he | hm
      · exact hp2 j hi (he ▸ List.mem_cons_self)
      · rcases List.mem_cons.mp (hperm₁.mem_iff.mp hm) with he | hm
        · exact hp he.symm
        · exact hp2 j hi (List.mem_cons_of_mem _ hm)
    · rw [Function.update_of_ne hji] at hm
      exact hp2 j (List.mem_range.mp hj) hm
  have hfuel₂ : (Function.update members i
      (prioInsert (Function.update s.value p.1 startTime) p.1 (members i)) i).length < fuel := by
    rw [Function.update_self, hperm₁.length_eq, List.length_cons]
    exact hfuel
  obtain ⟨s₂, hs₂, hvalue₂, -, hqueues₂⟩ := hqueues₁.add hi' (startTime + exeTime) hp2' hfuel₂
  rw [← hvalue₂, Function.update_self, Function.update_idem] at hqueues₂
  refine ⟨s₂, ?_, hqueues₂, fun j hj => ?_, fun j hj q hq => ?_⟩
  · unfold timedSectionAdd
    rw [hmachine.1, hmachine.2, hs₁]
    exact hs₂
  · by_cases hji : j = i
    · subst hji
      rw [Function.update_self, Function.update_self]
      exact (perm_prioInsert _ _ _).trans ((hperm₁.cons p.2).trans
        ((List.Perm.swap p.1 p.2 _).trans (((h.perm j hj).cons p.2).cons p.1)))
    · rw [Function.update_of_ne hji, Function.update_of_ne hji]
      exact h.perm j hj
  · -- the new interval, or one that was there
    have hnew : s₂.value p.1 = startTime ∧ s₂.value p.2 = startTime + exeTime := by
      rw [hvalue₂, hvalue₁, Function.update_self, Function.update_of_ne hp, Function.update_self]
      exact ⟨rfl, rfl⟩
    have hold : ∀ q ∈ busy j, s₂.value q.1 = s.value q.1 ∧ s₂.value q.2 = s.value q.2 :=
      fun q hq => by
        have hmem : ∀ x ∈ endpoints (busy j), x ≠ p.1 ∧ x ≠ p.2 := fun x hx =>
          ⟨fun he => hp1 j hj (he ▸ List.mem_cons_of_mem _ ((h.perm j hj).mem_iff.mpr hx)),
            fun he => hp2 j hj (he ▸ List.mem_cons_of_mem _ ((h.perm j hj).mem_iff.mpr hx))⟩
        obtain ⟨h11, h12⟩ := hmem q.1 (Lib.mem_endpoints.mpr ⟨q, hq, Or.inl rfl⟩)
        obtain ⟨h21, h22⟩ := hmem q.2 (Lib.mem_endpoints.mpr ⟨q, hq, Or.inr rfl⟩)
        rw [hvalue₂, hvalue₁, Function.update_of_ne h12, Function.update_of_ne h11,
          Function.update_of_ne h22, Function.update_of_ne h21]
        exact ⟨rfl, rfl⟩
    have hcase : q = p ∨ q ∈ busy j := by
      by_cases hji : j = i
      · subst hji
        rw [Function.update_self] at hq
        exact List.mem_cons.mp hq
      · rw [Function.update_of_ne hji] at hq
        exact Or.inr hq
    rcases hcase with rfl | hq
    · rw [hnew.1, hnew.2]
      omega
    · rw [(hold q hq).1, (hold q hq).2]
      exact h.interval j hj q hq

end Adding

/-! ### The queues afterwards -/

/-- The queue of CPU `i`, from `s` to `s'`, is what it should be: starts and
ends in turn, strictly ascending, which cover what the intervals `busy`
cover, and each end has become the length of its interval. -/
structure Merged (s s' : TimedTime N) (i : Nat) (head : N) (busy spans : List (N × N)) : Prop where
  ring : s'.links.IsRing head (endpoints spans)
  kind : ∀ p ∈ spans, (∃ q ∈ busy, q.1 = p.1) ∧ ∃ q ∈ busy, q.2 = p.2
  ascending : (endpoints spans).Pairwise fun x y => s.value x < s.value y
  covers : ∀ t, Covers s.value spans t ↔ Covers s.value busy t
  length : ∀ p ∈ spans, s'.value p.1 = s.value p.1 ∧ s'.value p.2 = s.value p.2 - s.value p.1
  sum : (s'.timedTimeSum i : Int) % 2 ^ 32 =
    (s.timedTimeSum i + (spans.map fun p => s.value p.2 - s.value p.1).sum) % 2 ^ 32

/-- Some number of steps is enough for all CPUs. -/
theorem exists_fuel (f : Nat → Nat) (cpus : List Nat) : ∃ fuel, ∀ i ∈ cpus, f i < fuel := by
  induction cpus with
  | nil => exact ⟨0, by simp⟩
  | cons i cpus ih =>
      obtain ⟨fuel, hfuel⟩ := ih
      refine ⟨fuel + f i + 1, fun j hj => ?_⟩
      rcases List.mem_cons.mp hj with rfl | hj
      · omega
      · have hj' := hfuel j hj
        omega

section Main

variable {s s' : TimedTime N} {head : Nat → N} {busy : Nat → List (N × N)}
  {members : Nat → List N}

/-- If the loops return, the queues have the nodes that they had. -/
theorem BusyTable.links_eq (h : BusyTable s head busy members) {fuel : Nat}
    (hrun : admisCtlTimes fuel head s = some s') : s'.links = s.links := by
  obtain ⟨s₁, hmerge, hlength⟩ := Option.bind_eq_some_iff.mp hrun
  have heven : ∀ i, ∃ spans, i < CFG_MAX_CPU → members i = endpoints spans := fun i => by
    by_cases hi : i < CFG_MAX_CPU
    · have hlen := (h.perm i hi).length_eq
      rw [Lib.length_endpoints] at hlen
      obtain ⟨spans, hspans⟩ := Lib.exists_endpoints (by omega : (members i).length % 2 = 0)
      exact ⟨spans, fun _ => hspans⟩
    · exact ⟨[], fun hi' => absurd hi' hi⟩
  choose spans hspans using heven
  have hring : ∀ i ∈ List.range CFG_MAX_CPU, s.links.IsRing (head i) (endpoints (spans i)) :=
    fun i hi => hspans i (List.mem_range.mp hi) ▸ h.queues.rings.ring i hi
  rw [lengthTimes_links hlength, mergeTimes_eq hring hmerge]

/-- A queue that is what it should be was one of intervals that are apart. -/
theorem BusyTable.apart_of_merged (h : BusyTable s head busy members) {fuel i : Nat}
    (hi : i < CFG_MAX_CPU) (hrun : admisCtlTimes fuel head s = some s') {spans : List (N × N)}
    (hmerged : Merged s s' i (head i) (busy i) spans) : (busy i).Pairwise (Apart s.value) := by
  have hring := hmerged.ring
  rw [h.links_eq hrun] at hring
  have hmem : endpoints spans = members i :=
    hring.unique (h.queues.rings.ring i (List.mem_range.mpr hi))
  exact Lib.apart_of_covers (fun p hp => (h.interval i hi p hp).2.1) hmerged.ascending
    (hmem ▸ h.perm i hi) hmerged.covers

omit [DecidableEq N] in
/-- Intervals that are apart are in the queue one after the other. -/
theorem BusyTable.exists_spans (h : BusyTable s head busy members) {i : Nat}
    (hi : i < CFG_MAX_CPU) (hapart : (busy i).Pairwise (Apart s.value)) :
    ∃ spans, spans.Perm (busy i) ∧ members i = endpoints spans ∧
      (endpoints spans).Pairwise fun x y => s.value x < s.value y := by
  obtain ⟨spans, hperm, hasc⟩ :=
    Lib.exists_sorted (fun p hp => (h.interval i hi p hp).2.1) hapart
  have hnodes : (members i).Perm (endpoints spans) :=
    (h.perm i hi).trans (hperm.symm.flatMap_right _)
  exact ⟨spans, hperm, Lib.eq_endpoints_of_sorted hasc (h.queues.sorted i (List.mem_range.mpr hi)) hnodes, hasc⟩

omit [DecidableEq N] in
/-- Such a queue becomes what it should be. -/
theorem BusyTable.merged (h : BusyTable s head busy members) {i : Nat} (hi : i < CFG_MAX_CPU)
    {spans : List (N × N)} (hlinks : s'.links = s.links) (hperm : spans.Perm (busy i))
    (hmem : members i = endpoints spans)
    (hasc : (endpoints spans).Pairwise fun x y => s.value x < s.value y)
    (hlen : Lengths s s' i spans) : Merged s s' i (head i) (busy i) spans := by
  have hmachine : ∀ p ∈ spans,
      i32 (s.value p.2 - s.value p.1) = s.value p.2 - s.value p.1 := fun p hp => by
    have hp' := h.interval i hi p (hperm.mem_iff.mp hp)
    unfold i32
    rw [Int.bmod_eq_of_le] <;> omega
  refine ⟨?_, fun p hp => ?_, hasc, fun t => ?_, fun p hp => ⟨hlen.start p hp, ?_⟩, ?_⟩
  · rw [hlinks, ← hmem]
    exact h.queues.rings.ring i (List.mem_range.mpr hi)
  · exact ⟨⟨p, hperm.mem_iff.mp hp, rfl⟩, p, hperm.mem_iff.mp hp, rfl⟩
  · simp only [Covers, hperm.mem_iff]
  · rw [hlen.stop p hp, hmachine p hp]
  · rw [hlen.sum, List.map_congr_left hmachine]

end Main

/-- No sections yet: the heads are the CPUs. -/
def idleTimes : TimedTime Nat := ⟨⟨id, id⟩, fun _ => 0, fun _ => 0⟩

theorem busyTable_idleTimes : BusyTable idleTimes id (fun _ => []) fun _ => [] :=
  busyTable_empty (fun _ _ => Lib.Links.isRing_nil rfl rfl) fun _ _ _ _ hne => hne

/-- One section, on CPU 0. -/
def oneSection : Nat → List (Nat × Nat) := Function.update (fun _ => []) 0 [(10, 11)]

/-- Two sections on CPU 0, the second right after the first. -/
def touchingSections : Option (TimedTime Nat) :=
  (timedSectionAdd 4 0 (10, 11) 0 50 idleTimes).bind (timedSectionAdd 4 0 (12, 13) 50 50)

end ACoral
