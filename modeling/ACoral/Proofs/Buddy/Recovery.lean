import ACoral.Proofs.Buddy.Accounting
import ACoral.Proofs.Buddy.Relink
import ACoral.Proofs.Buddy.Requests

/-!
# `ACoral.Proofs.Buddy.Recovery`: the heap after everything is released

Once every live block has been released, the heap is to be as `buddy_init`
left it. Merging is complete: a tiling without a pair of free halves and
without a used block is the first one. What can be missing is a word in a
list. A block of the top level goes back to a word that no list leads to, if
it was the only one of its word (`buddy_recovery_fails`); on the other levels
a word that is linked already is linked once more behind the head, and a word
that is not the head does not leave the list.

- `Recoverable.step`: the counter and the lists stay right in each step that
  meets `recoverGuard`.
- `buddy_recovery`: a run of such steps that releases everything leaves a
  heap that answers requests as the first one did.
-/

set_option autoImplicit false

namespace ACoral

open Lib

/-- The heap `b` is as good as the heap `b₀`: it has the same counter and
the same bitmaps, its lists lead to every word with a set bit, and it answers
every sequence of requests as `b₀` does. -/
structure Recovered (b₀ b : BlockCtr) : Prop where
  freeNum : b.freeNum = b₀.freeNum
  bitmap : ∀ l < b₀.level, ∀ w < b₀.numL l, b.bitmap l (w : Nat) = b₀.bitmap l (w : Nat)
  linked : ∀ l < b₀.level, ∀ w < b₀.numL l, b.bitmap l (w : Nat) ≠ 0 →
    ∃ ws, Chain (b.freeList l) (-1) (b.freeCur l) ws ∧ (w : Int) ∈ ws
  answers : ∀ sizes, buddyMallocs sizes b = buddyMallocs sizes b₀

/-- A state from which the heap `b₀` can be recovered: the counter and the
lists are right. -/
structure Recoverable (b₀ : BlockCtr) (r : BuddyRun) {N k : Nat} (t : Tiling N (k + 1)) : Prop where
  counted : Counted r t
  listed : Listed r.ctrl (SpareWord N k) k
  startAdr : r.ctrl.startAdr = b₀.startAdr
  numL : r.ctrl.numL = b₀.numL

namespace Recoverable

variable {b₀ : BlockCtr} {r r' : BuddyRun} {N k fuel : Nat} {t : Tiling N (k + 1)}

theorem start (h : Started b₀ N k) :
    Recoverable b₀ ⟨b₀, []⟩ (Tiling.maximal N (k + 1) (Nat.succ_pos k)) where
  counted := Counted.start h
  listed := h.listed
  startAdr := rfl
  numL := rfl

theorem malloc {size : Nat} (h : Recoverable b₀ r t) (hs : mallocSound size r.ctrl = true)
    (hstart : r.ctrl.startAdr ≠ 0) (hstep : buddyStep fuel r (.buddyMalloc size) = some r') :
    ∃ t' : Tiling N (k + 1), Recoverable b₀ r' t' := by
  obtain ⟨t', hcounted⟩ := h.counted.malloc hs hstart hstep
  have hinv := h.counted.inv
  have hlisted : Listed r'.ctrl (SpareWord N k) k := by
    obtain ⟨⟨ptr, b'⟩, hmalloc, rfl⟩ := Option.map_eq_some_iff.mp hstep
    exact buddyMalloc_listed hinv.marks hinv.lists hinv.entries h.listed (noBlock_spareWord N k)
      hinv.state hs hmalloc
  rcases hinv.malloc hs hstep with rfl | ⟨m, i, t₁, -, -, -, hadr, hwords, -⟩
  · exact ⟨t, h⟩
  · exact ⟨t', hcounted, hlisted, hadr.trans h.startAdr, hwords.trans h.numL⟩

theorem free {ptr : Nat} (h : Recoverable b₀ r t) (heven : blockNumber r ptr % 2 = 0)
    (hsound : freeSound ptr r.ctrl = true) (hstep : buddyStep fuel r (.buddyFree ptr) = some r') :
    ∃ t' : Tiling N (k + 1), Recoverable b₀ r' t' := by
  obtain ⟨t', hcounted⟩ := h.counted.free heven hstep
  have hinv := h.counted.inv
  obtain ⟨l, i, t₁, rfl, htile, hu, -, -, -, hadr, hwords, hmem, -⟩ := hinv.free hstep
  refine ⟨t', hcounted, ?_, hadr.trans h.startAdr, hwords.trans h.numL⟩
  have hnonnull := hinv.nonnull _ hmem
  rw [buddyStep, if_pos (List.mem_map_of_mem hmem)] at hstep
  obtain ⟨b', hfree, rfl⟩ := Option.map_eq_some_iff.mp hstep
  have hnumber : blockNumber r (blockPtr r.ctrl l i) = i * 2 ^ l := by
    unfold blockNumber blockPtr
    rw [Nat.add_sub_cancel_left, mul_two_pow_div]
  rw [hnumber] at heven
  exact buddyFree_listed hinv.marks hinv.entries h.listed (noBlock_spareWord N k) hinv.state
    hinv.endAdr htile hu heven hnonnull hsound hfree

/-- A step that meets the guard keeps the counter and the lists right. -/
theorem step {op : BuddyOp} (h : Recoverable b₀ r t) (hg : recoverGuard r op = true)
    (hstep : buddyStep fuel r op = some r') : ∃ t' : Tiling N (k + 1), Recoverable b₀ r' t' := by
  obtain ⟨haccount, hlists⟩ := Bool.and_eq_true_iff.mp hg
  cases op with
  | buddyMalloc size =>
      obtain ⟨hs, hstart⟩ := Bool.and_eq_true_iff.mp haccount
      exact h.malloc hs (of_decide_eq_true hstart) hstep
  | buddyFree ptr => exact h.free (of_decide_eq_true haccount) hlists hstep

/-- Without a live allocation no block is used. -/
theorem used_eq_false (h : Recoverable b₀ r t) (hlive : r.live = []) {x : Nat} (hx : x < N) :
    t.used x = false := by
  rw [← Bool.not_eq_true, h.counted.covered x hx, hlive]
  simp

/-- The heap without a live allocation has the free blocks of the first
one. -/
theorem twins (h : Recoverable b₀ r t) (hstarted : Started b₀ N k) (hlive : r.live = []) :
    Twins b₀ r.ctrl (Tiling.maximal N (k + 1) (Nat.succ_pos k)) t true := by
  have hfree : ∀ l i, t.Free l i ↔ (Tiling.maximal N (k + 1) (Nat.succ_pos k)).Free l i :=
    fun l i => Tiling.free_iff_of_coalesced (Tiling.coalesced_maximal _)
      h.counted.inv.marks.coalesced fun x hx => h.used_eq_false hlive hx
  -- the second half of a pair is not free in the first tiling
  have hodd : ∀ l < k, ∀ j, ¬ (Tiling.maximal N (k + 1) (Nat.succ_pos k)).Free l (2 * j + 1) :=
    fun l hl j hj => by
      have := ((Tiling.free_maximal _ hl).mp hj).2
      omega
  have hspare : ∀ b : BlockCtr, Listed b (SpareWord N k) k → Listed b (SpareIf true N k) k :=
    fun b hb l hl => by
      obtain ⟨ws, hws⟩ := hb l hl
      exact ⟨ws, hws.keep rfl rfl fun v => by simp [Linked, SpareIf]⟩
  constructor
  · exact ⟨hstarted.marks, hstarted.listRange, usedEntries_maximal b₀ N (k + 1) _,
      fun l hl j hj => absurd hj (hodd l hl j), hspare _ hstarted.listed, hstarted.state,
      hstarted.levels⟩
  · have hinv := h.counted.inv
    exact ⟨hinv.marks, hinv.lists, hinv.entries,
      fun l hl j hj => absurd ((hfree l _).mp hj) (hodd l hl j), hspare _ h.listed, hinv.state,
      hstarted.levels⟩
  · exact fun x hx => h.used_eq_false hlive hx
  · exact h.startAdr
  · rw [h.counted.count, hstarted.freeNum]
    exact Tiling.freeCount_false fun x hx => h.used_eq_false hlive hx
  · exact h.numL

theorem recovered (h : Recoverable b₀ r t) (hstarted : Started b₀ N k) (hlive : r.live = []) :
    Recovered b₀ r.ctrl := by
  have htwins := h.twins hstarted hlive
  have hlevel := hstarted.level
  refine ⟨htwins.freeNum, fun l hl w hw => ?_, fun l hl w hw hne => ?_, htwins.buddyMallocs⟩
  · exact htwins.word_eq (by omega) (Int.natCast_nonneg w) (by omega)
  · obtain ⟨ws, hws⟩ := h.listed l (by omega)
    rw [← h.numL] at hw
    exact ⟨ws, hws.chain, (hws.mem w).mpr ⟨Int.natCast_nonneg w, by omega, Or.inl hne⟩⟩

end Recoverable

/-- On a heap that `buddy_init` has set up, take a run whose searches are all
sound and return a pointer other than `NULL`, and which releases only blocks
with even numbers, each of them in a state where the release keeps the lists
right. When no allocation is live any more, the heap is as good as at the
start. -/
theorem buddy_recovery {fuel startAdr endAdr : Nat} {mem b : BlockCtr} {ops : List BuddyOp}
    {r : BuddyRun} (hinit : buddyInit startAdr endAdr mem = some (.KR_OK, b))
    (hrun : run (guarded recoverGuard (buddyStep fuel)) ⟨b, []⟩ ops = some r)
    (hlive : r.live = []) : Recovered b r.ctrl := by
  obtain ⟨N, k, hstarted⟩ := buddyInit_spec hinit
  obtain ⟨t, ht⟩ := guarded_induct (P := fun r => ∃ t : Tiling N (k + 1), Recoverable b r t)
    (fun r op r' hr hg hstep => by
      obtain ⟨t, ht⟩ := hr
      exact ht.step hg hstep)
    ⟨_, Recoverable.start hstarted⟩ hrun
  exact ht.recovered hstarted hlive

/-- On a heap of four blocks, two pairs are released in the order of their
addresses. -/
theorem buddy_recovery_fourBlocks :
    ∃ b r, buddyInit 4 868 emptyMemory = some (.KR_OK, b) ∧
      run (guarded recoverGuard (buddyStep 8)) ⟨b, []⟩
        [.buddyMalloc 256, .buddyMalloc 256, .buddyFree 4, .buddyFree 260] = some r ∧
      Recovered b r.ctrl := by
  have hrun : (heapRun (guarded recoverGuard (buddyStep 8)) 4 868 emptyMemory
      [.buddyMalloc 256, .buddyMalloc 256, .buddyFree 4, .buddyFree 260]).map BuddyRun.live =
        some [] := by decide +kernel
  obtain ⟨r, hr, hlive⟩ := Option.map_eq_some_iff.mp hrun
  obtain ⟨b, hinit, hr⟩ := heapRun_eq_some hr
  exact ⟨b, r, hinit, hr, buddy_recovery hinit hr hlive⟩

/-- On a heap with one block of the top level, which has 1048576 bytes, a
request for it and its release leave the word of its bit in no list. The same
request is answered with an address outside of the heap then. -/
theorem buddy_recovery_fails :
    ∃ b r, buddyInit 4 1114116 emptyMemory = some (.KR_OK, b) ∧
      run (buddyStep 8) ⟨b, []⟩ [.buddyMalloc 1048576, .buddyFree 4] = some r ∧ r.live = [] ∧
      buddyMallocs [1048576] b = some [4] ∧
      buddyMallocs [1048576] r.ctrl = some [4294934788] ∧ ¬ Recovered b r.ctrl := by
  have hstart : (heapRun (buddyStep 8) 4 1114116 emptyMemory []).map
      (fun r => buddyMallocs [1048576] r.ctrl) = some (some [4]) := by decide +kernel
  have hrun : (heapRun (buddyStep 8) 4 1114116 emptyMemory
      [.buddyMalloc 1048576, .buddyFree 4]).map
        (fun r => (r.live, buddyMallocs [1048576] r.ctrl)) =
          some ([], some [4294934788]) := by decide +kernel
  obtain ⟨r₀, hr₀, hanswer₀⟩ := Option.map_eq_some_iff.mp hstart
  obtain ⟨r, hr, hvalues⟩ := Option.map_eq_some_iff.mp hrun
  obtain ⟨b, hinit, hr⟩ := heapRun_eq_some hr
  obtain ⟨b', hinit', hr₀⟩ := heapRun_eq_some hr₀
  obtain rfl : b' = b := by
    rw [hinit] at hinit'
    simpa using hinit'.symm
  rw [run_nil] at hr₀
  obtain rfl := Option.some.inj hr₀
  obtain ⟨hlive, hanswer⟩ := Prod.mk.inj hvalues
  refine ⟨b', r, hinit, hr, hlive, hanswer₀, hanswer, fun h => ?_⟩
  have hanswers := h.answers [1048576]
  rw [hanswer, hanswer₀] at hanswers
  exact absurd hanswers (by decide)

end ACoral
