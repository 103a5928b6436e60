import ACoral.Lib.GuardedRun
import ACoral.Proofs.Buddy.Free
import ACoral.Proofs.Buddy.Init
import ACoral.Proofs.Buddy.Malloc

/-!
# `ACoral.Proofs.Buddy.Run`: runs of the buddy system

`BuddyInv` ties a run to a tiling: the live allocations are used tiles of
it. It holds after `buddy_init` and every call keeps it whose search is
sound.

- `BuddyInv.malloc`, `BuddyInv.free`: what a call does to the tiling.
- `buddy_safe`: the live allocations lie in the heap and apart.
- `buddy_unsafe`: a search that finds nothing breaks this.
-/

set_option autoImplicit false

namespace ACoral

open Lib

/-! ### `buddy_malloc` -/

/-- `buddy_malloc` on a working heap: it refuses the request and changes
nothing, or it reserves a block of the smallest level that is large
enough. -/
theorem buddyMalloc_cases {size ptr : Nat} {b b' : BlockCtr} (hstate : b.state = MEM_OK)
    (h : buddyMalloc size b = some (ptr, b')) :
    ptr = 0 ∧ b' = b ∨
      ∃ m, m < b.level ∧ m ≤ 24 ∧ size ≤ BLOCK_SIZE * 2 ^ m ∧
        (∀ c < m, BLOCK_SIZE * 2 ^ c < size) ∧ 2 ^ m ≤ b.freeNum ∧
        (ptr, b') = buddyRMalloc m b ∧ (mallocSound size b = true → searchSound b m = true) := by
  have hno : ¬ b.state = MEM_NO_ALLOC := by rw [hstate]; decide
  unfold buddyMalloc at h
  rw [if_neg hno] at h
  rcases resizeLoop_cases size with ⟨m, hm, hfit, hmin, hloop⟩ | ⟨-, hnone⟩
  · rw [hloop, Option.bind_some] at h
    dsimp only at h
    split at h
    · obtain ⟨rfl, rfl⟩ := Prod.mk.inj (Option.some.inj h)
      exact Or.inl ⟨rfl, rfl⟩
    · split at h
      · obtain ⟨rfl, rfl⟩ := Prod.mk.inj (Option.some.inj h)
        exact Or.inl ⟨rfl, rfl⟩
      · rename_i hnum hlevel
        refine Or.inr ⟨m, by omega, hm, hfit, hmin, by omega, (Option.some.inj h).symm,
          fun hs => ?_⟩
        unfold mallocSound at hs
        rw [hloop] at hs
        simpa [hno, hnum, hlevel] using hs
  · rw [hnone] at h
    simp at h

/-- The size that is reported for a request is that of the block that is
reserved. -/
theorem buddyMallocSize_eq {size m : Nat} {b : BlockCtr} (hstate : b.state = MEM_OK)
    (hm : m < b.level) (hm24 : m ≤ 24) (hfit : size ≤ BLOCK_SIZE * 2 ^ m)
    (hmin : ∀ c < m, BLOCK_SIZE * 2 ^ c < size) : buddyMallocSize size b = BLOCK_SIZE * 2 ^ m := by
  unfold buddyMallocSize
  rw [if_neg (by rw [hstate]; decide)]
  have hloop := mallocSizeLoop_eq hm hm24 (Nat.zero_le m)
    (show m ≤ 0 + b.level by omega) hfit fun c _ hc => hmin c hc
  rwa [Nat.pow_zero, Nat.mul_one] at hloop

/-! ### The invariant of a run -/

/-- The pointer to block `i` of level `l`. -/
def blockPtr (b : BlockCtr) (l i : Nat) : Nat := b.startAdr + i * 2 ^ l * 2 ^ BLOCK_SHIFT

/-- The run is in a state that stands for the tiling `t`: its live
allocations are used tiles. -/
structure BuddyInv (r : BuddyRun) {N k : Nat} (t : Tiling N (k + 1)) : Prop where
  marks : Marks r.ctrl t
  lists : ListRange r.ctrl k
  entries : UsedEntries r.ctrl t
  pos : 0 < N → 0 < k
  state : r.ctrl.state = MEM_OK
  endAdr : r.ctrl.endAdr = r.ctrl.startAdr + N * 2 ^ BLOCK_SHIFT
  live : ∀ p ∈ r.live, ∃ l i, p = (blockPtr r.ctrl l i, BLOCK_SIZE * 2 ^ l) ∧ t.IsTile l i ∧
    t.used (i * 2 ^ l) = true
  nonnull : ∀ p ∈ r.live, p.1 ≠ 0
  nodup : (r.live.map Prod.fst).Nodup

theorem blockPtr_inj {b : BlockCtr} {N k l i m j : Nat} {t : Tiling N (k + 1)}
    (hi : t.IsTile l i) (hj : t.IsTile m j) (h : blockPtr b l i = blockPtr b m j) :
    l = m ∧ i = j := by
  unfold blockPtr BLOCK_SHIFT at h
  have hstart : i * 2 ^ l = j * 2 ^ m := by omega
  exact hi.unique hj (mul_two_pow_div i l) (by rw [hstart, mul_two_pow_div])

namespace BuddyInv

variable {r : BuddyRun} {N k : Nat} {t : Tiling N (k + 1)}

theorem start {b : BlockCtr} (h : Started b N k) :
    BuddyInv ⟨b, []⟩ (Tiling.maximal N (k + 1) (Nat.succ_pos k)) where
  marks := h.marks
  lists := h.listRange
  entries := usedEntries_maximal b N (k + 1) (Nat.succ_pos k)
  pos := h.pos
  state := h.state
  endAdr := h.endAdr
  live := fun p hp => by simp at hp
  nonnull := fun p hp => by simp at hp
  nodup := List.nodup_nil

/-- What a call of `buddy_malloc` with a sound search does: nothing, or it
takes a free block, whose pointer is live unless it is `NULL`. -/
theorem malloc {fuel size : Nat} {r' : BuddyRun} (h : BuddyInv r t)
    (hs : mallocSound size r.ctrl = true)
    (hstep : buddyStep fuel r (.buddyMalloc size) = some r') :
    r' = r ∨ ∃ m i, ∃ t' : Tiling N (k + 1), BuddyInv r' t' ∧ t.Taken t' m i ∧
      (2 ^ m ≤ r.ctrl.freeNum ∧ r'.ctrl.freeNum = u32 (r.ctrl.freeNum - 2 ^ m)) ∧
      r'.ctrl.startAdr = r.ctrl.startAdr ∧ r'.ctrl.numL = r.ctrl.numL ∧
      r'.live = if blockPtr r.ctrl m i = 0 then r.live
        else (blockPtr r.ctrl m i, BLOCK_SIZE * 2 ^ m) :: r.live := by
  obtain ⟨⟨ptr, b'⟩, hmalloc, rfl⟩ := Option.map_eq_some_iff.mp hstep
  rcases buddyMalloc_cases h.state hmalloc with
    ⟨rfl, rfl⟩ | ⟨m, hm, hm24, hfit, hmin, hnum, heq, hsearch⟩
  · exact Or.inl rfl
  have hmk : m ≤ k := by
    rw [h.marks.level] at hm
    omega
  obtain ⟨i, t', hptr, hmarks, hlists, hentries, htaken, -, hfree, hstate, hstart, hend,
      hwords⟩ := buddyRMalloc_spec h.marks h.lists h.entries hmk (hsearch hs)
  rw [← heq] at hptr hmarks hlists hentries hfree hstate hstart hend hwords
  dsimp only at hptr hmarks hlists hentries hfree hstate hstart hend hwords
  have hstate' : b'.state = MEM_OK := hstate.trans h.state
  have hlevel : m < b'.level := by
    rw [hmarks.level]
    omega
  have hsize : buddyMallocSize size b' = BLOCK_SIZE * 2 ^ m :=
    buddyMallocSize_eq hstate' hlevel hm24 hfit hmin
  have hptr' : ptr = blockPtr r.ctrl m i := hptr
  have hsame : ∀ l j, blockPtr b' l j = blockPtr r.ctrl l j := fun l j => by
    unfold blockPtr
    rw [hstart]
  have hused : t'.used (i * 2 ^ m) = true := by
    rw [htaken.used, mul_two_pow_div]
    simp
  dsimp only
  rw [hsize, hptr']
  -- the new block was free, so it is no live one
  have hnew : blockPtr r.ctrl m i ∉ r.live.map Prod.fst := fun hmem => by
    obtain ⟨p, hp, hpeq⟩ := List.mem_map.mp hmem
    obtain ⟨l, j, rfl, htile, hu⟩ := h.live p hp
    obtain ⟨rfl, rfl⟩ := blockPtr_inj (htaken.keep htile hu).1 htaken.tile hpeq
    rw [htaken.free _ (mul_two_pow_div _ _)] at hu
    exact absurd hu (by decide)
  refine Or.inr ⟨m, i, t', ⟨hmarks, hlists, hentries, h.pos, hstate', ?_, fun p hp => ?_,
    fun p hp => ?_, ?_⟩, htaken, ⟨hnum, hfree⟩, hstart, hwords, rfl⟩
  · rw [hend, hstart, h.endAdr]
  · have hold : p ∈ r.live → ∃ l j, p = (blockPtr b' l j, BLOCK_SIZE * 2 ^ l) ∧ t'.IsTile l j ∧
        t'.used (j * 2 ^ l) = true := fun hp => by
      obtain ⟨l, j, rfl, htile, hu⟩ := h.live p hp
      exact ⟨l, j, by rw [hsame], htaken.keep htile hu⟩
    dsimp only at hp
    split at hp
    · exact hold hp
    · rcases List.mem_cons.mp hp with rfl | hp
      · exact ⟨m, i, by rw [hsame], htaken.tile, hused⟩
      · exact hold hp
  · dsimp only at hp
    split at hp
    · exact h.nonnull p hp
    · rename_i hne
      rcases List.mem_cons.mp hp with rfl | hp
      · exact hne
      · exact h.nonnull p hp
  · dsimp only
    split
    · exact h.nodup
    · exact List.nodup_cons.mpr ⟨hnew, h.nodup⟩

/-- What a call of `buddy_free` does: it releases the block of a live
pointer. -/
theorem free {fuel ptr : Nat} {r' : BuddyRun} (h : BuddyInv r t)
    (hstep : buddyStep fuel r (.buddyFree ptr) = some r') :
    ∃ l i, ∃ t' : Tiling N (k + 1), ptr = blockPtr r.ctrl l i ∧ t.IsTile l i ∧
      t.used (i * 2 ^ l) = true ∧ BuddyInv r' t' ∧ t.Released t' l i ∧
      r'.ctrl.freeNum = (if i * 2 ^ l % 2 = 1 then r.ctrl.freeNum
        else u32 (r.ctrl.freeNum + 2 ^ l)) ∧
      r'.ctrl.startAdr = r.ctrl.startAdr ∧ r'.ctrl.numL = r.ctrl.numL ∧
      (ptr, BLOCK_SIZE * 2 ^ l) ∈ r.live ∧ r'.live = r.live.filter fun p => p.1 ≠ ptr := by
  rw [buddyStep] at hstep
  split at hstep
  · rename_i hmem
    obtain ⟨b', hfree, rfl⟩ := Option.map_eq_some_iff.mp hstep
    obtain ⟨p, hp, rfl⟩ := List.mem_map.mp hmem
    obtain ⟨l, i, rfl, htile, hu⟩ := h.live p hp
    have hk : 0 < k := h.pos (Nat.lt_of_le_of_lt (Nat.zero_le _) htile.1)
    obtain ⟨t', hmarks, hlists, hentries, hreleased, hnum, hstate, hstart, hend, hwords⟩ :=
      buddyFree_spec h.marks h.lists h.entries hk h.state h.endAdr htile hu
        (h.nonnull _ hp) hfree
    have hsame : ∀ m j, blockPtr b' m j = blockPtr r.ctrl m j := fun m j => by
      unfold blockPtr
      rw [hstart]
    refine ⟨l, i, t', rfl, htile, hu, ⟨hmarks, hlists, hentries, h.pos, hstate.trans h.state, ?_,
      fun q hq => ?_, fun q hq => ?_, ?_⟩, hreleased, hnum, hstart, hwords, hp, rfl⟩
    · rw [hend, hstart, h.endAdr]
    · obtain ⟨hq, hne⟩ := List.mem_filter.mp hq
      obtain ⟨m, j, rfl, htile', hu'⟩ := h.live q hq
      refine ⟨m, j, by rw [hsame], hreleased.keep htile' hu' fun hmem' => ?_⟩
      obtain ⟨rfl, rfl⟩ := htile'.unique htile (mul_two_pow_div _ _) hmem'
      simp at hne
    · exact h.nonnull q (List.mem_of_mem_filter hq)
    · exact h.nodup.sublist (List.filter_sublist.map Prod.fst)
  · simp at hstep

/-- A step whose search is sound keeps the invariant. -/
theorem step {fuel : Nat} {op : BuddyOp} {r' : BuddyRun} (h : BuddyInv r t)
    (hs : searchGuard r op = true) (hstep : buddyStep fuel r op = some r') :
    ∃ t' : Tiling N (k + 1), BuddyInv r' t' := by
  cases op with
  | buddyMalloc size =>
      rcases h.malloc hs hstep with rfl | ⟨m, i, t', ht', -⟩
      · exact ⟨t, h⟩
      · exact ⟨t', ht'⟩
  | buddyFree ptr =>
      obtain ⟨l, i, t', -, -, -, ht', -⟩ := h.free hstep
      exact ⟨t', ht'⟩

end BuddyInv

/-! ### Safety -/

/-- The live allocations lie in the heap, and apart from each other. -/
structure Safe (r : BuddyRun) : Prop where
  inside : ∀ p ∈ r.live, r.ctrl.startAdr ≤ p.1 ∧ p.1 + p.2 ≤ r.ctrl.endAdr
  apart : r.live.Pairwise fun p q => p.1 + p.2 ≤ q.1 ∨ q.1 + q.2 ≤ p.1

/-- Two tiles lie apart. -/
theorem tiles_apart {N n l i m j : Nat} {t : Tiling N n} (hi : t.IsTile l i) (hj : t.IsTile m j)
    (hne : ¬ (l = m ∧ i = j)) :
    (i + 1) * 2 ^ l ≤ j * 2 ^ m ∨ (j + 1) * 2 ^ m ≤ i * 2 ^ l := by
  by_contra hover
  push Not at hover
  -- the later of the two starts is a member of both
  rcases Nat.le_total (i * 2 ^ l) (j * 2 ^ m) with hle | hle
  · have hmem : j * 2 ^ m / 2 ^ l = i := div_two_pow_eq_iff.mpr ⟨hle, hover.1⟩
    exact hne (hi.unique hj hmem (mul_two_pow_div j m))
  · have hmem : i * 2 ^ l / 2 ^ m = j := div_two_pow_eq_iff.mpr ⟨hle, hover.2⟩
    exact hne (hi.unique hj (mul_two_pow_div i l) hmem)

theorem BuddyInv.safe {r : BuddyRun} {N k : Nat} {t : Tiling N (k + 1)} (h : BuddyInv r t) :
    Safe r := by
  have hend : ∀ l i, blockPtr r.ctrl l i + BLOCK_SIZE * 2 ^ l =
      r.ctrl.startAdr + (i + 1) * 2 ^ l * 2 ^ BLOCK_SHIFT := fun l i => by
    unfold blockPtr BLOCK_SIZE
    ring
  constructor
  · intro p hp
    obtain ⟨l, i, rfl, htile, -⟩ := h.live p hp
    have hfits := Nat.mul_le_mul_right (2 ^ BLOCK_SHIFT) htile.fits
    refine ⟨Nat.le_add_right _ _, ?_⟩
    rw [hend, h.endAdr]
    omega
  · refine (List.pairwise_map.mp h.nodup).imp_of_mem fun {p q} hp hq hne => ?_
    obtain ⟨l, i, rfl, hi, -⟩ := h.live p hp
    obtain ⟨m, j, rfl, hj, -⟩ := h.live q hq
    have hapart := tiles_apart hi hj fun heq => by
      obtain ⟨rfl, rfl⟩ := heq
      exact hne rfl
    rw [hend, hend]
    unfold blockPtr
    refine hapart.imp (fun hle => ?_) fun hle => ?_
    · exact Nat.add_le_add_left (Nat.mul_le_mul_right _ hle) _
    · exact Nat.add_le_add_left (Nat.mul_le_mul_right _ hle) _

/-- The invariant holds in every run whose searches are all sound. -/
theorem exists_buddyInv {fuel startAdr endAdr : Nat} {mem : BlockCtr} {ops : List BuddyOp}
    {r : BuddyRun}
    (hrun : heapRun (guarded searchGuard (buddyStep fuel)) startAdr endAdr mem ops = some r) :
    ∃ N k, ∃ t : Tiling N (k + 1), BuddyInv r t := by
  obtain ⟨b, hinit, hrun⟩ := heapRun_eq_some hrun
  obtain ⟨N, k, hstarted⟩ := buddyInit_spec hinit
  refine ⟨N, k, guarded_induct (P := fun r => ∃ t : Tiling N (k + 1), BuddyInv r t)
    (fun r op r' hr hg hstep => ?_) ⟨_, BuddyInv.start hstarted⟩ hrun⟩
  obtain ⟨t, ht⟩ := hr
  exact ht.step hg hstep

/-- In every run on a heap that `buddy_init` has set up, whose searches are
all sound, the live allocations lie in the heap and apart from each other
at every point. -/
theorem buddy_safe {fuel startAdr endAdr : Nat} {mem : BlockCtr} {ops : List BuddyOp}
    {r : BuddyRun}
    (hrun : heapRun (guarded searchGuard (buddyStep fuel)) startAdr endAdr mem ops = some r) :
    Safe r := by
  obtain ⟨N, k, t, ht⟩ := exists_buddyInv hrun
  exact ht.safe

/-- On a heap of four blocks, two requests and a release are sound. -/
theorem buddy_safe_fourBlocks :
    ∃ r, heapRun (guarded searchGuard (buddyStep 8)) 4 868 emptyMemory
        [.buddyMalloc 128, .buddyMalloc 128, .buddyFree 4] = some r ∧
      r.live = [(132, 128)] ∧ Safe r := by
  have hrun : (heapRun (guarded searchGuard (buddyStep 8)) 4 868 emptyMemory
      [.buddyMalloc 128, .buddyMalloc 128, .buddyFree 4]).map BuddyRun.live =
        some [(132, 128)] := by decide +kernel
  obtain ⟨r, hr, hlive⟩ := Option.map_eq_some_iff.mp hrun
  exact ⟨r, hr, hlive, buddy_safe hr⟩

/-- A request of 256 bytes after that finds the pair of 256 bytes that
starts with the released block. The table has no level for it, so the
search takes it for free, although its second half is live. -/
theorem buddy_unsafe :
    ∃ r, heapRun (buddyStep 8) 4 868 emptyMemory
        [.buddyMalloc 128, .buddyMalloc 128, .buddyFree 4, .buddyMalloc 256] = some r ∧
      r.live = [(4, 256), (132, 128)] ∧ ¬ Safe r := by
  have hrun : (heapRun (buddyStep 8) 4 868 emptyMemory
      [.buddyMalloc 128, .buddyMalloc 128, .buddyFree 4, .buddyMalloc 256]).map BuddyRun.live =
        some [(4, 256), (132, 128)] := by decide +kernel
  obtain ⟨r, hr, hlive⟩ := Option.map_eq_some_iff.mp hrun
  refine ⟨r, hr, hlive, fun hsafe => ?_⟩
  have hapart := hsafe.apart
  rw [hlive] at hapart
  simp at hapart

end ACoral
