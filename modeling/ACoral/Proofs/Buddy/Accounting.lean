import ACoral.Proofs.Buddy.Run

/-!
# `ACoral.Proofs.Buddy.Accounting`: the counter of free blocks

`free_num` is to be the number of basic blocks that belong to no live
allocation. The release of a block with an odd number does not count it
(`buddy_accounting_fails`); the other calls keep the counter right, as
long as their searches are sound (`buddy_accounting`).
-/

set_option autoImplicit false

namespace ACoral

open Lib

/-- Basic block `x` is part of the allocation `p`. -/
def PartOf (b : BlockCtr) (x : Nat) (p : Nat × Nat) : Prop :=
  p.1 ≤ b.startAdr + x * 2 ^ BLOCK_SHIFT ∧ b.startAdr + x * 2 ^ BLOCK_SHIFT < p.1 + p.2

instance (b : BlockCtr) (x : Nat) (p : Nat × Nat) : Decidable (PartOf b x p) :=
  inferInstanceAs (Decidable (_ ∧ _))

/-- The number of basic blocks that are part of no live allocation. -/
def notLive (r : BuddyRun) : Nat :=
  ((Finset.range r.ctrl.blockNum).filter fun x => ∀ p ∈ r.live, ¬ PartOf r.ctrl x p).card

/-- The basic blocks of an allocated block. -/
theorem partOf_block {b : BlockCtr} {x l i : Nat} :
    PartOf b x (blockPtr b l i, BLOCK_SIZE * 2 ^ l) ↔ x / 2 ^ l = i := by
  have hexp : (i + 1) * 2 ^ l = i * 2 ^ l + 2 ^ l := by ring
  rw [div_two_pow_eq_iff, hexp]
  unfold PartOf blockPtr BLOCK_SIZE BLOCK_SHIFT
  omega

/-- The counter and the live allocations agree with the tiling. -/
structure Counted (r : BuddyRun) {N k : Nat} (t : Tiling N (k + 1)) : Prop where
  inv : BuddyInv r t
  count : r.ctrl.freeNum = Tiling.freeCount N t.used
  covered : ∀ x < N, (t.used x = true ↔ ∃ p ∈ r.live, PartOf r.ctrl x p)

namespace Counted

variable {r : BuddyRun} {N k : Nat} {t : Tiling N (k + 1)}

theorem start {b : BlockCtr} (h : Started b N k) :
    Counted ⟨b, []⟩ (Tiling.maximal N (k + 1) (Nat.succ_pos k)) where
  inv := BuddyInv.start h
  count := h.freeNum.trans (Tiling.freeCount_false fun _ _ => rfl).symm
  covered := fun x _ => by simp [Tiling.maximal]

theorem freeCount_lt (h : Counted r t) (t' : Tiling N (k + 1)) :
    Tiling.freeCount N t'.used < 2 ^ 25 := by
  have hle := Tiling.freeCount_le N t'.used
  have hN := h.inv.marks.small'
  omega

theorem malloc {fuel size : Nat} {r' : BuddyRun} (h : Counted r t)
    (hs : mallocSound size r.ctrl = true) (hstart : r.ctrl.startAdr ≠ 0)
    (hstep : buddyStep fuel r (.buddyMalloc size) = some r') :
    ∃ t' : Tiling N (k + 1), Counted r' t' := by
  rcases h.inv.malloc hs hstep with
    rfl | ⟨m, i, t', hinv, htaken, ⟨-, hnum⟩, hadr, -, hlive⟩
  · exact ⟨t, h⟩
  have hadd := Tiling.freeCount_add htaken.tile.fits htaken.free fun x _ => htaken.used x
  have hnonnull : blockPtr r.ctrl m i ≠ 0 := by
    unfold blockPtr
    omega
  have hpart : ∀ x p, PartOf r'.ctrl x p ↔ PartOf r.ctrl x p := fun x p => by
    unfold PartOf
    rw [hadr]
  refine ⟨t', hinv, ?_, fun x hx => ?_⟩
  · have hlt := h.freeCount_lt t'
    have hsub : (r.ctrl.freeNum : Int) - 2 ^ m = (Tiling.freeCount N t'.used : Nat) := by
      rw [h.count, ← hadd]
      push_cast
      ring
    rw [hnum, hsub, u32_natCast (by omega)]
  · rw [htaken.used, Bool.or_eq_true, decide_eq_true_iff, h.covered x hx, hlive, if_neg hnonnull]
    simp only [List.mem_cons, exists_eq_or_imp, hpart, partOf_block]
    exact or_comm

theorem free {fuel ptr : Nat} {r' : BuddyRun} (h : Counted r t)
    (heven : blockNumber r ptr % 2 = 0) (hstep : buddyStep fuel r (.buddyFree ptr) = some r') :
    ∃ t' : Tiling N (k + 1), Counted r' t' := by
  obtain ⟨l, i, t', rfl, htile, hu, hinv, hreleased, hnum, hadr, -, hmem, hlive⟩ := h.inv.free hstep
  have hin : ∀ x, x / 2 ^ l = i → t'.used x = false := fun x hx => by
    rw [hreleased.used, decide_eq_true hx, Bool.not_true, Bool.and_false]
  have hout : ∀ x < N, t.used x = (t'.used x || decide (x / 2 ^ l = i)) := fun x _ => by
    by_cases hx : x / 2 ^ l = i
    · rw [htile.used_eq hx, hu, decide_eq_true hx, Bool.or_true]
    · rw [hreleased.used, decide_eq_false hx, Bool.not_false, Bool.and_true, Bool.or_false]
  have hadd := Tiling.freeCount_add htile.fits hin hout
  have hnumber : blockNumber r (blockPtr r.ctrl l i) = i * 2 ^ l := by
    unfold blockNumber blockPtr
    rw [Nat.add_sub_cancel_left, mul_two_pow_div]
  rw [hnumber] at heven
  have hpart : ∀ x p, PartOf r'.ctrl x p ↔ PartOf r.ctrl x p := fun x p => by
    unfold PartOf
    rw [hadr]
  refine ⟨t', hinv, ?_, fun x hx => ?_⟩
  · have hlt := h.freeCount_lt t'
    have hsum : (r.ctrl.freeNum : Int) + 2 ^ l = (Tiling.freeCount N t'.used : Nat) := by
      rw [h.count, ← hadd]
      push_cast
      ring
    rw [hnum, if_neg (by omega), hsum, u32_natCast (by omega)]
  · rw [hreleased.used, Bool.and_eq_true, Bool.not_eq_true', decide_eq_false_iff_not,
      h.covered x hx, hlive]
    simp only [hpart]
    constructor
    · rintro ⟨⟨p, hp, hxp⟩, hout⟩
      refine ⟨p, List.mem_filter.mpr ⟨hp, decide_eq_true fun heq => ?_⟩, hxp⟩
      -- the allocation at the pointer is the block that is released
      obtain ⟨m, j, rfl, hm, -⟩ := h.inv.live p hp
      obtain ⟨rfl, rfl⟩ := blockPtr_inj hm htile heq
      exact hout (partOf_block.mp hxp)
    · rintro ⟨p, hp, hxp⟩
      obtain ⟨hp, hne⟩ := List.mem_filter.mp hp
      obtain ⟨m, j, rfl, hm, -⟩ := h.inv.live p hp
      refine ⟨⟨_, hp, hxp⟩, fun hx' => ?_⟩
      obtain ⟨rfl, rfl⟩ := hm.unique htile (partOf_block.mp hxp) hx'
      simp at hne

theorem step {fuel : Nat} {op : BuddyOp} {r' : BuddyRun} (h : Counted r t)
    (hg : accountGuard r op = true) (hstep : buddyStep fuel r op = some r') :
    ∃ t' : Tiling N (k + 1), Counted r' t' := by
  cases op with
  | buddyMalloc size =>
      obtain ⟨hs, hstart⟩ := Bool.and_eq_true_iff.mp hg
      exact h.malloc hs (of_decide_eq_true hstart) hstep
  | buddyFree ptr => exact h.free (of_decide_eq_true hg) hstep

theorem freeNum_eq (h : Counted r t) : r.ctrl.freeNum = notLive r := by
  rw [h.count]
  unfold Tiling.freeCount notLive
  rw [h.inv.marks.blockNum]
  refine congrArg Finset.card (Finset.filter_congr fun x hx => ?_)
  rw [← Bool.not_eq_true, h.covered x (Finset.mem_range.mp hx)]
  push Not
  rfl

end Counted

/-- In every run on a heap that `buddy_init` has set up, whose searches are
all sound and return a pointer other than `NULL`, and which releases only
blocks with even numbers, `free_num` is the number of the basic blocks that
are part of no live allocation. -/
theorem buddy_accounting {fuel startAdr endAdr : Nat} {mem : BlockCtr} {ops : List BuddyOp}
    {r : BuddyRun}
    (hrun : heapRun (guarded accountGuard (buddyStep fuel)) startAdr endAdr mem ops = some r) :
    r.ctrl.freeNum = notLive r := by
  obtain ⟨b, hinit, hrun⟩ := heapRun_eq_some hrun
  obtain ⟨N, k, hstarted⟩ := buddyInit_spec hinit
  obtain ⟨t, ht⟩ := guarded_induct (P := fun r => ∃ t : Tiling N (k + 1), Counted r t)
    (fun r op r' hr hg hstep => by
      obtain ⟨t, ht⟩ := hr
      exact ht.step hg hstep)
    ⟨_, Counted.start hstarted⟩ hrun
  exact ht.freeNum_eq

/-- On a heap of four blocks, three are free after a release of block 0. -/
theorem buddy_accounting_fourBlocks :
    ∃ r, heapRun (guarded accountGuard (buddyStep 8)) 4 868 emptyMemory
        [.buddyMalloc 128, .buddyMalloc 128, .buddyFree 4] = some r ∧
      r.ctrl.freeNum = 3 ∧ notLive r = 3 := by
  have hrun : (heapRun (guarded accountGuard (buddyStep 8)) 4 868 emptyMemory
      [.buddyMalloc 128, .buddyMalloc 128, .buddyFree 4]).map (fun r => r.ctrl.freeNum) =
        some 3 := by decide +kernel
  obtain ⟨r, hr, hnum⟩ := Option.map_eq_some_iff.mp hrun
  exact ⟨r, hr, hnum, (buddy_accounting hr).symm.trans hnum⟩

/-- After a release of block 1 instead, the counter says two. -/
theorem buddy_accounting_fails :
    ∃ r, heapRun (buddyStep 8) 4 868 emptyMemory
        [.buddyMalloc 128, .buddyMalloc 128, .buddyFree 132] = some r ∧
      r.ctrl.freeNum = 2 ∧ notLive r = 3 := by
  have hrun : (heapRun (buddyStep 8) 4 868 emptyMemory
      [.buddyMalloc 128, .buddyMalloc 128, .buddyFree 132]).map
        (fun r => (r.ctrl.freeNum, notLive r)) = some (2, 3) := by decide +kernel
  obtain ⟨r, hr, hnum⟩ := Option.map_eq_some_iff.mp hrun
  obtain ⟨h₁, h₂⟩ := Prod.mk.inj hnum
  exact ⟨r, hr, h₁, h₂⟩

end ACoral
