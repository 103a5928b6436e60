import ACoral.Proofs.Queue
import ACoral.Proofs.TickQueue
import Mathlib.Data.Fin.VecNotation

/-!
# `ACoral.Proofs.TickInsert`: adding a node to a tick queue

`tickQueueAddNode` works on the links and on 32-bit values. On a ring whose
values are not negative, none of its subtractions overflows, and it is the
insertion into the list of the members and their values
(`tickQueueAddNode_refines`). So what is known of the list holds of the ring.

- `tickQueueFind_ring`: where the loop stops, and what is left of the ticks.
- `TickRing`: the ring of a tick queue.
- `tickQueueAddNode_spec`: no other node's expiry changes, the new node
  expires after its ticks, and it stands behind the nodes that expire by then.
-/

set_option autoImplicit false

namespace ACoral

open Lib (Links keys total expiry Ordered)
open Lib.Links (IsRing)

variable {N : Type}

/-! ### The values of a ring -/

/-- The members of a ring with their values. -/
def deltas (value : N → BitVec 32) (l : List N) : List (N × Int) :=
  l.map fun x => (x, (value x).toInt)

@[simp] theorem deltas_nil (value : N → BitVec 32) : deltas value [] = [] := rfl

@[simp] theorem deltas_cons (value : N → BitVec 32) (x : N) (l : List N) :
    deltas value (x :: l) = (x, (value x).toInt) :: deltas value l := rfl

@[simp] theorem deltas_append (value : N → BitVec 32) (l₁ l₂ : List N) :
    deltas value (l₁ ++ l₂) = deltas value l₁ ++ deltas value l₂ := List.map_append

@[simp] theorem keys_deltas (value : N → BitVec 32) (l : List N) : keys (deltas value l) = l := by
  simp [keys, deltas, Function.comp_def]

/-- Only the values of the members matter. -/
theorem deltas_congr {value value' : N → BitVec 32} {l : List N}
    (h : ∀ x ∈ l, value' x = value x) : deltas value' l = deltas value l :=
  List.map_congr_left fun x hx => by rw [h x hx]

/-- The difference of two values that are not negative does not overflow. -/
theorem toInt_sub_of_nonneg {a b : BitVec 32} (ha : 0 ≤ a.toInt) (hb : 0 ≤ b.toInt) :
    (a - b).toInt = a.toInt - b.toInt := by
  have hamax := BitVec.toInt_lt (x := a)
  have hbmax := BitVec.toInt_lt (x := b)
  rw [BitVec.toInt_sub]
  exact Int.bmod_eq_of_le (by omega) (by omega)

variable [DecidableEq N]

/-- The ring of a tick queue: no member has a negative value. -/
structure TickRing (L : Links N) (value : N → BitVec 32) (head : N) (l : List N) : Prop where
  ring : L.IsRing head l
  nonneg : ∀ x ∈ l, 0 ≤ (value x).toInt

omit [DecidableEq N] in
/-- The values of the ring form an ordered delta list. -/
theorem TickRing.ordered {L : Links N} {value : N → BitVec 32} {head : N} {l : List N}
    (h : TickRing L value head l) : Ordered (deltas value l) := by
  refine ⟨?_, fun node hnode => ?_⟩
  · rw [keys_deltas]
    exact (List.nodup_cons.mp h.ring.nodup).2
  · obtain ⟨x, hx, rfl⟩ := List.mem_map.mp hnode
    exact h.nonneg x hx

/-! ### The loop -/

/-- The loop stops at the first member that expires after the ticks left, or at
the head. Up to there the new node is inserted by the list function too. The
induction is on the rest of the ring. -/
theorem tickQueueFind_ring {L : Links N} {value : N → BitVec 32} {head : N} (tnode : N)
    {fuel : Nat} {l₁ l₂ : List N} {tick : BitVec 32} (h : TickRing L value head (l₁ ++ l₂))
    (ht : 0 ≤ tick.toInt) (hfuel : l₂.length < fuel) :
    ∃ a b left, l₂ = a ++ b ∧
      tickQueueFind L value head fuel (l₂.headD head) tick = some (b.headD head, left) ∧
      left.toInt = tick.toInt - total (deltas value a) ∧ 0 ≤ left.toInt ∧
      (∀ y ∈ b.head?, left.toInt < (value y).toInt) ∧
      acoralTickQueueAdd (deltas value l₂) tnode tick.toInt =
        deltas value a ++ (tnode, left.toInt) ::
          (deltas value b).modifyHead fun node => (node.1, node.2 - left.toInt) := by
  induction l₂ generalizing fuel l₁ tick with
  | nil =>
      obtain ⟨n, rfl⟩ := Nat.exists_eq_add_of_lt hfuel
      exact ⟨[], [], tick, rfl, by simp [tickQueueFind], by simp, ht, by simp, rfl⟩
  | cons y l ih =>
      obtain ⟨n, rfl⟩ := Nat.exists_eq_succ_of_ne_zero (Nat.ne_zero_of_lt hfuel)
      have hyh : y ≠ head := fun he => (List.nodup_cons.mp h.ring.nodup).1 (by simp [he])
      have hv : 0 ≤ (value y).toInt := h.nonneg y (by simp)
      have hsub := toInt_sub_of_nonneg ht hv
      have hslt : (tick - value y).slt 0 = true ↔ (tick - value y).toInt < 0 := by
        rw [BitVec.slt_iff_toInt_lt, show (0 : BitVec 32).toInt = 0 by rfl]
      rw [List.headD_cons, tickQueueFind, if_neg hyh, deltas_cons, acoralTickQueueAdd, ← hsub]
      by_cases hlt : (tick - value y).toInt < 0
      · rw [if_pos (hslt.mpr hlt), if_pos hlt]
        refine ⟨[], y :: l, tick, rfl, rfl, by simp, ht, fun z hz => ?_, rfl⟩
        obtain rfl : y = z := by simpa using hz
        omega
      · have hnext : L.next y = l.headD head := h.ring.next_mem
        have h' : TickRing L value head ((l₁ ++ [y]) ++ l) := by simpa using h
        obtain ⟨a, b, left, hl, hfind, hleft, hpos, hlast, hadd⟩ :=
          ih h' (not_lt.mp hlt) (by simpa using hfuel)
        rw [if_neg (mt hslt.mp hlt), if_neg hlt, hnext, hfind, hadd]
        refine ⟨y :: a, b, left, by rw [hl, List.cons_append], rfl, ?_, hpos, hlast, rfl⟩
        rw [deltas_cons, Lib.total_cons]
        omega

/-! ### The insertion -/

/-- What the values become: the new node gets the ticks left, and the one
behind it waits them less. -/
theorem deltas_tickQueueValues {value : N → BitVec 32} {head tnode : N} {l₁ l₂ : List N}
    {left : BitVec 32} (hnd : (head :: (l₁ ++ tnode :: l₂)).Nodup)
    (hsub : ∀ y ∈ l₂.head?, (value y - left).toInt = (value y).toInt - left.toInt) :
    deltas (tickQueueValues value head tnode (l₂.headD head) left) (l₁ ++ tnode :: l₂) =
      deltas value l₁ ++ (tnode, left.toInt) ::
        (deltas value l₂).modifyHead fun node => (node.1, node.2 - left.toInt) := by
  obtain ⟨hhead, hnd⟩ := List.nodup_cons.mp hnd
  obtain ⟨-, hnd₂, hdisj⟩ := List.nodup_append.mp hnd
  have hnew : ∀ x ∈ l₁, x ≠ tnode := fun x hx => hdisj x hx tnode List.mem_cons_self
  cases l₂ with
  | nil =>
      have hdone : ∀ x ∈ l₁, tickQueueValues value head tnode head left x = value x := by
        intro x hx
        simp [tickQueueValues, hnew x hx]
      rw [List.headD_nil, deltas_append, deltas_cons, deltas_congr hdone]
      simp [tickQueueValues]
  | cons y l =>
      obtain ⟨hy, hnd₂⟩ := List.nodup_cons.mp hnd₂
      obtain ⟨hyl, -⟩ := List.nodup_cons.mp hnd₂
      have hyh : y ≠ head := fun he => hhead (by simp [he])
      have hyn : y ≠ tnode := fun he => hy (by simp [he])
      have hmem : ∀ x, x ≠ y → x ≠ tnode →
          tickQueueValues value head tnode y left x = value x := by
        intro x hxy hxn
        simp [tickQueueValues, hyh, hxy, hxn]
      have hdone : ∀ x ∈ l₁, tickQueueValues value head tnode y left x = value x := fun x hx =>
        hmem x (hdisj x hx y (by simp)) (hnew x hx)
      have hrest : ∀ x ∈ l, tickQueueValues value head tnode y left x = value x := fun x hx =>
        hmem x (fun he => hyl (he ▸ hx)) fun he => hy (by simp [← he, hx])
      rw [List.headD_cons, deltas_append, deltas_cons, deltas_cons, deltas_cons,
        deltas_congr hdone, deltas_congr hrest, List.modifyHead_cons, ← hsub y rfl]
      simp [tickQueueValues, hyh, hyn, Ne.symm hyn]

/-- On a ring the insertion is that of the list. The ring has room for the new
node between `l₁` and `l₂`. -/
theorem tickQueueAddNode_refines {L : Links N} {value : N → BitVec 32} {head tnode : N}
    {fuel : Nat} {l : List N} (h : TickRing L value head l) (hn : tnode ∉ head :: l)
    (ht : 0 ≤ (value tnode).toInt) (hfuel : l.length < fuel) :
    ∃ L' value' l₁ l₂, l = l₁ ++ l₂ ∧
      tickQueueAddNode fuel L value head tnode = some (L', value') ∧
      L'.IsRing head (l₁ ++ tnode :: l₂) ∧
      (∀ y ∈ l₂.head?, (value tnode).toInt - total (deltas value l₁) < (value y).toInt) ∧
      deltas value' (l₁ ++ tnode :: l₂) =
        acoralTickQueueAdd (deltas value l) tnode (value tnode).toInt := by
  obtain ⟨l₁, l₂, left, rfl, hfind, hleft, hpos, hlast, hadd⟩ :=
    tickQueueFind_ring tnode (show TickRing L value head ([] ++ l) from h) ht hfuel
  obtain ⟨L', hL', hring⟩ := acoralListAdd_ring h.ring hn
  refine ⟨L', tickQueueValues value head tnode (l₂.headD head) left, l₁, l₂, rfl, ?_, hring,
    fun y hy => hleft ▸ hlast y hy, ?_⟩
  · unfold tickQueueAddNode
    rw [h.ring.next_head, hfind, Option.bind_some]
    simp only
    rw [h.ring.prev_headD, hL', Option.map_some]
  · rw [hadd]
    refine deltas_tickQueueValues hring.nodup fun y hy => toInt_sub_of_nonneg ?_ hpos
    exact h.nonneg y (List.mem_append_right _ (List.mem_of_mem_head? hy))

/-- The absolute expiry of a member: the sum of the values up to it. -/
def expiryIn (value : N → BitVec 32) (l : List N) (x : N) : Int := expiry (deltas value l) x

/-- Adding a node with a delay of `t` ticks returns, changes no other node's
expiry, and gives the new node the expiry `t`. The ring stays one in the order
of the expiries, and the new node stands behind the nodes that expire by `t` and
before those that expire later. -/
theorem tickQueueAddNode_spec {L : Links N} {value : N → BitVec 32} {head tnode : N}
    {fuel : Nat} {l : List N} (h : TickRing L value head l) (hn : tnode ∉ head :: l)
    (ht : 0 ≤ (value tnode).toInt) (hfuel : l.length < fuel) :
    ∃ L' value' l₁ l₂, l = l₁ ++ l₂ ∧
      tickQueueAddNode fuel L value head tnode = some (L', value') ∧
      TickRing L' value' head (l₁ ++ tnode :: l₂) ∧
      (∀ x ∈ l, expiryIn value' (l₁ ++ tnode :: l₂) x = expiryIn value l x) ∧
      expiryIn value' (l₁ ++ tnode :: l₂) tnode = (value tnode).toInt ∧
      (l₁ ++ tnode :: l₂).Pairwise (fun x y =>
        expiryIn value' (l₁ ++ tnode :: l₂) x ≤ expiryIn value' (l₁ ++ tnode :: l₂) y) ∧
      (∀ x ∈ l₁, expiryIn value l x ≤ (value tnode).toInt) ∧
      ∀ x ∈ l₂, (value tnode).toInt < expiryIn value l x := by
  obtain ⟨L', value', l₁, l₂, rfl, hrun, hring, hlast, hdel⟩ :=
    tickQueueAddNode_refines h hn ht hfuel
  have hnl : tnode ∉ keys (deltas value (l₁ ++ l₂)) := by
    rw [keys_deltas]
    exact fun hm => hn (List.mem_cons_of_mem _ hm)
  have hord := ordered_acoralTickQueueAdd h.ordered hnl ht
  rw [← hdel] at hord
  have hexp : ∀ x ∈ l₁ ++ l₂, expiryIn value' (l₁ ++ tnode :: l₂) x = expiryIn value (l₁ ++ l₂) x := by
    intro x hx
    unfold expiryIn
    rw [hdel]
    have hne : tnode ≠ x := by
      rintro rfl
      exact hn (List.mem_cons_of_mem _ hx)
    refine expiry_acoralTickQueueAdd hne _ ?_
    rwa [keys_deltas]
  have hself : expiryIn value' (l₁ ++ tnode :: l₂) tnode = (value tnode).toInt := by
    unfold expiryIn
    rw [hdel]
    exact expiry_acoralTickQueueAdd_self hnl _
  have hpair : (l₁ ++ tnode :: l₂).Pairwise fun x y =>
      expiryIn value' (l₁ ++ tnode :: l₂) x ≤ expiryIn value' (l₁ ++ tnode :: l₂) y := by
    have := hord.pairwise_expiry
    rwa [keys_deltas] at this
  refine ⟨L', value', l₁, l₂, rfl, hrun, ⟨hring, fun x hx => ?_⟩, hexp, hself, hpair,
    fun x hx => ?_, ?_⟩
  · exact hord.nonneg (x, (value' x).toInt) (List.mem_map_of_mem hx)
  · have hle := (List.pairwise_append.mp hpair).2.2 x hx tnode List.mem_cons_self
    rwa [hexp x (List.mem_append_left _ hx), hself] at hle
  · -- the first node behind the new one expires later, and the others after it
    cases l₂ with
    | nil => simp
    | cons y l =>
        have hpair' := h.ordered.pairwise_expiry
        rw [keys_deltas] at hpair'
        have hbehind := (List.pairwise_cons.mp (List.pairwise_append.mp hpair').2.1).1
        have hnotin : y ∉ keys (deltas value l₁) := by
          rw [keys_deltas]
          exact fun hm =>
            (List.nodup_append.mp (List.nodup_cons.mp h.ring.nodup).2).2.2 y hm y (by simp) rfl
        have hfirst : expiry (deltas value (l₁ ++ y :: l)) y =
            total (deltas value l₁) + (value y).toInt := by
          rw [deltas_append, deltas_cons]
          exact Lib.expiry_append_cons_self hnotin _ _
        have hlt := hlast y rfl
        intro x hx
        unfold expiryIn
        rcases List.mem_cons.mp hx with rfl | hx
        · omega
        · have := hbehind x hx
          omega

/-- Two nodes wait 5 and 9 ticks, in the ring of the head 0. -/
def waitingLinks : Links (Fin 4) := ⟨![1, 2, 0, 3], ![2, 0, 1, 3]⟩

/-- Their values, and the delay of a third node. -/
def waitingTicks : Fin 4 → BitVec 32 := ![0, 5, 4, 5]

/-- A third node with a delay of 5 ticks is added. -/
theorem tickQueueAddNode_spec_waiting :
    ∃ L' value' l₁ l₂, [1, 2] = l₁ ++ l₂ ∧
      tickQueueAddNode 3 waitingLinks waitingTicks 0 3 = some (L', value') ∧
      TickRing L' value' 0 (l₁ ++ 3 :: l₂) ∧
      (∀ x ∈ [1, 2], expiryIn value' (l₁ ++ 3 :: l₂) x = expiryIn waitingTicks [1, 2] x) ∧
      expiryIn value' (l₁ ++ 3 :: l₂) 3 = (waitingTicks 3).toInt ∧
      (l₁ ++ 3 :: l₂).Pairwise (fun x y =>
        expiryIn value' (l₁ ++ 3 :: l₂) x ≤ expiryIn value' (l₁ ++ 3 :: l₂) y) ∧
      (∀ x ∈ l₁, expiryIn waitingTicks [1, 2] x ≤ (waitingTicks 3).toInt) ∧
      ∀ x ∈ l₂, (waitingTicks 3).toInt < expiryIn waitingTicks [1, 2] x :=
  tickQueueAddNode_spec (l := [1, 2])
    ⟨⟨by decide, ⟨rfl, rfl⟩, ⟨rfl, rfl⟩, ⟨rfl, rfl⟩, trivial⟩, by decide⟩ (by decide) (by decide)
    (by decide)

/-- It goes behind the node that waits as long. -/
example : (tickQueueAddNode 3 waitingLinks waitingTicks 0 3).map (fun r =>
    (r.1.members 0 4 (r.1.next 0), r.2 3, r.2 2)) = some ([1, 3, 2], 0, 4) := by decide

end ACoral
